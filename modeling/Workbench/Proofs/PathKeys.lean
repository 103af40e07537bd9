import Mathlib.Data.List.Infix
import Workbench.Path

set_option autoImplicit false

/-! # Keys of paths

A file is kept under the written form of its path, a directory under the written form with a slash
at its end. Both are read here as lists of characters: `spell` puts a slash before each component,
and a key is that with or without one more slash. Since no component holds a slash, a key gives its
components back: keys of files differ for different components, so do keys of directories, the two
kinds never meet except at the root, and one key begins another exactly where the components do.
Reading a key as a path yields the path that it is the key of. -/

namespace Workbench.Path

/-- The characters of some components, each behind a slash. -/
def spell (parts : List String) : List Char := parts.flatMap fun part => '/' :: part.toList

@[simp] theorem spell_nil : spell [] = [] := rfl

@[simp] theorem spell_cons (part : String) (parts : List String) :
    spell (part :: parts) = '/' :: (part.toList ++ spell parts) := by
  simp [spell]

@[simp] theorem spell_append (parts more : List String) :
    spell (parts ++ more) = spell parts ++ spell more := by
  simp [spell]

/-! ## Components -/

theorem slash_notMem_of_isComponent {part : String} (h : isComponent part = true) :
    '/' ∉ part.toList := by
  simp_all [isComponent]

theorem nul_notMem_of_isComponent {part : String} (h : isComponent part = true) :
    '\x00' ∉ part.toList := by
  simp_all [isComponent]

/-- A component is none of the names that stand for no component. -/
theorem plain_of_isComponent {part : String} (h : isComponent part = true) :
    part ≠ "" ∧ part ≠ "." ∧ part ≠ ".." := by
  simp only [isComponent, Bool.and_eq_true, decide_eq_true_eq] at h
  exact ⟨h.1.1.1.1, h.1.1.1.2, h.1.1.2⟩

/-- What is too long to be one of the names that are none is a component. -/
theorem isComponent_of_length {part : String} (hlong : 2 < part.length)
    (hslash : '/' ∉ part.toList) (hnul : '\x00' ∉ part.toList) : isComponent part = true := by
  have hne : ∀ short : String, short.length ≤ 2 → part ≠ short := by
    rintro short hshort rfl
    omega
  simp only [isComponent, hne "" (by decide), hne "." (by decide), hne ".." (by decide),
    List.contains_eq_mem, hslash, hnul, ne_eq, not_false_eq_true, decide_true, decide_false,
    Bool.not_false, Bool.and_self]

theorem toList_ne_nil_of_isComponent {part : String} (h : isComponent part = true) :
    part.toList ≠ [] := by
  intro hnil
  simp_all [isComponent, String.toList_eq_nil_iff]

/-- A component is pushed as it is. -/
theorem enter_of_isComponent (stack : List String) {part : String}
    (h : isComponent part = true) : enter stack part = stack ++ [part] := by
  obtain ⟨hempty, hdot, hdots⟩ := plain_of_isComponent h
  rw [enter, if_neg (not_or.2 ⟨hempty, hdot⟩), if_neg hdots]

theorem foldl_enter_of_proper (parts stack : List String)
    (h : ∀ part ∈ parts, isComponent part = true) :
    parts.foldl enter stack = stack ++ parts := by
  induction parts generalizing stack with
  | nil => simp
  | cons part parts ih =>
    rw [List.foldl_cons, enter_of_isComponent stack (h part List.mem_cons_self),
      ih _ fun q hq => h q (List.mem_cons_of_mem part hq), List.append_assoc]
    rfl

/-! ## The written form -/

@[simp] theorem isRoot_iff (p : Path) : p.isRoot = true ↔ p.parts = [] := List.isEmpty_iff

theorem isRoot_eq_false_iff (p : Path) : p.isRoot = false ↔ p.parts ≠ [] := by
  rw [← Bool.not_eq_true, isRoot_iff]

/-- Behind a leading slash, texts joined by slashes are texts each behind a slash. -/
theorem slash_intercalate {parts : List String} (h : parts ≠ []) :
    '/' :: ['/'].intercalate (parts.map String.toList) = spell parts := by
  induction parts with
  | nil => exact absurd rfl h
  | cons part parts ih =>
    cases parts with
    | nil => simp
    | cons next rest =>
      rw [spell_cons, ← ih (by simp), List.map_cons, List.map_cons,
        List.intercalate_cons_cons]
      simp

theorem toList_toString (p : Path) :
    p.toString.toList = if p.parts = [] then ['/'] else spell p.parts := by
  rw [toString, String.toList_append, String.toList_intercalate]
  split
  · next h => rw [h]; rfl
  · next h => exact slash_intercalate h

theorem toList_fileKey {p : Path} (h : p.parts ≠ []) : p.fileKey.toList = spell p.parts := by
  rw [fileKey, toList_toString, if_neg h]

theorem toList_dirKey (p : Path) : p.dirKey.toList = spell p.parts ++ ['/'] := by
  rw [dirKey]
  split
  · next h => rw [(isRoot_iff p).1 h]; rfl
  · next h =>
    rw [String.toList_append, toList_toString, if_neg (mt (isRoot_iff p).2 h)]
    rfl

/-- No components spell a lone slash, which is the written form of the root. -/
theorem spell_ne_slash {parts : List String} (h : ∀ part ∈ parts, isComponent part = true) :
    spell parts ≠ ['/'] := by
  cases parts with
  | nil => simp
  | cons part parts =>
    have hpart := toList_ne_nil_of_isComponent (h part List.mem_cons_self)
    simp [hpart]

/-! ## Where one key begins another -/

/-- Up to their first slashes two texts are compared as wholes. -/
theorem prefix_at_slash {a b : List Char} (x y : List Char) (ha : '/' ∉ a) (hb : '/' ∉ b) :
    a ++ '/' :: x <+: b ++ '/' :: y ↔ a = b ∧ x <+: y := by
  induction a generalizing b with
  | nil =>
    cases b with
    | nil => simp
    | cons d b =>
      have hd : '/' ≠ d := fun h => hb (h ▸ List.mem_cons_self)
      simp [hd]
  | cons c a ih =>
    cases b with
    | nil =>
      have hc : c ≠ '/' := fun h => ha (h ▸ List.mem_cons_self)
      simp [hc]
    | cons d b =>
      rw [List.cons_append, List.cons_append, List.cons_prefix_cons,
        ih (fun h => ha (List.mem_cons_of_mem c h)) (fun h => hb (List.mem_cons_of_mem d h)),
        List.cons_eq_cons, and_assoc]

/-- What components spell, with a slash at its end, begins with a slash. -/
theorem spell_slash (parts : List String) : ∃ rest, spell parts ++ ['/'] = '/' :: rest := by
  cases parts with
  | nil => exact ⟨[], rfl⟩
  | cons part parts => exact ⟨part.toList ++ spell parts ++ ['/'], by simp⟩

theorem spell_slash_prefix_iff {s t : List String} (hs : ∀ part ∈ s, isComponent part = true)
    (ht : ∀ part ∈ t, isComponent part = true) :
    spell s ++ ['/'] <+: spell t ++ ['/'] ↔ s <+: t := by
  induction s generalizing t with
  | nil =>
    obtain ⟨rest, hrest⟩ := spell_slash t
    simp [hrest]
  | cons a s ih =>
    cases t with
    | nil =>
      have ha := toList_ne_nil_of_isComponent (hs a List.mem_cons_self)
      simp [ha]
    | cons b t =>
      obtain ⟨x, hx⟩ := spell_slash s
      obtain ⟨y, hy⟩ := spell_slash t
      have ih' := ih (t := t) (fun q hq => hs q (List.mem_cons_of_mem a hq))
        (fun q hq => ht q (List.mem_cons_of_mem b hq))
      rw [hx, hy, List.cons_prefix_cons] at ih'
      -- no component has a slash, so the first slash ends the first component on both sides
      rw [spell_cons, spell_cons, List.cons_append, List.cons_append, List.append_assoc,
        List.append_assoc, hx, hy, List.cons_prefix_cons, List.cons_prefix_cons,
        prefix_at_slash x y (slash_notMem_of_isComponent (hs a List.mem_cons_self))
          (slash_notMem_of_isComponent (ht b List.mem_cons_self)), String.toList_inj]
      simp only [true_and] at ih' ⊢
      rw [ih']

theorem spell_prefix_iff {s t : List String} (hs : ∀ part ∈ s, isComponent part = true)
    (ht : ∀ part ∈ t, isComponent part = true) :
    spell s ++ ['/'] <+: spell t ↔ s <+: t ∧ s ≠ t := by
  constructor
  · intro h
    have hle := h.length_le
    rw [List.length_append, List.length_singleton] at hle
    refine ⟨(spell_slash_prefix_iff hs ht).1 (h.trans (List.prefix_append _ _)), ?_⟩
    rintro rfl
    omega
  · rintro ⟨⟨more, rfl⟩, hne⟩
    cases more with
    | nil => exact absurd (List.append_nil s).symm hne
    | cons part more =>
      rw [spell_append, spell_cons]
      exact ⟨part.toList ++ spell more, by simp⟩

theorem dirKey_prefix_dirKey (p q : Path) :
    p.dirKey.toList <+: q.dirKey.toList ↔ p.parts <+: q.parts := by
  rw [toList_dirKey, toList_dirKey, spell_slash_prefix_iff p.proper q.proper]

theorem dirKey_prefix_fileKey (p : Path) {q : Path} (hq : q.parts ≠ []) :
    p.dirKey.toList <+: q.fileKey.toList ↔ p.parts <+: q.parts ∧ p.parts ≠ q.parts := by
  rw [toList_dirKey, toList_fileKey hq, spell_prefix_iff p.proper q.proper]

/-! ## Keys give their components back -/

theorem dirKey_inj {p q : Path} : p.dirKey = q.dirKey ↔ p.parts = q.parts := by
  constructor
  · intro h
    have hpq := (dirKey_prefix_dirKey p q).1 (h ▸ List.prefix_rfl)
    have hqp := (dirKey_prefix_dirKey q p).1 (h ▸ List.prefix_rfl)
    exact hpq.eq_of_length_le hqp.length_le
  · intro h
    rw [← String.toList_inj, toList_dirKey, toList_dirKey, h]

theorem toString_inj {p q : Path} : p.toString = q.toString ↔ p.parts = q.parts := by
  constructor
  · intro h
    have hroot : ∀ {p q : Path}, p.toString = q.toString → p.parts = [] → q.parts = [] := by
      intro p q h hp
      by_contra hq
      have hlist := congrArg String.toList h
      rw [toList_toString, toList_toString, if_pos hp, if_neg hq] at hlist
      exact spell_ne_slash q.proper hlist.symm
    by_cases hp : p.parts = []
    · rw [hp, hroot h hp]
    · have hq : q.parts ≠ [] := fun hq => hp (hroot h.symm hq)
      rw [← dirKey_inj, ← String.toList_inj, toList_dirKey, toList_dirKey, ← toList_fileKey hp,
        ← toList_fileKey hq, fileKey, fileKey, h]
  · intro h
    rw [toString, toString, h]

theorem fileKey_inj {p q : Path} : p.fileKey = q.fileKey ↔ p.parts = q.parts := toString_inj

/-- The key of a file is never that of a directory, the root aside. -/
theorem fileKey_ne_dirKey {p : Path} (hp : p.parts ≠ []) (q : Path) : p.fileKey ≠ q.dirKey := by
  intro h
  have hqp : q.parts <+: p.parts ∧ q.parts ≠ p.parts :=
    (dirKey_prefix_fileKey q hp).1 (h ▸ List.prefix_rfl)
  have hlist := congrArg String.toList h
  obtain ⟨more, hmore⟩ := hqp.1
  rw [toList_fileKey hp, toList_dirKey, ← hmore, spell_append, List.append_cancel_left_eq] at hlist
  cases more with
  | nil => exact hqp.2 (by rw [← hmore, List.append_nil])
  | cons part more =>
    have hpart : part ∈ p.parts := hmore ▸ List.mem_append_right _ List.mem_cons_self
    rw [spell_cons, List.cons_eq_cons] at hlist
    exact toList_ne_nil_of_isComponent (p.proper part hpart) (List.append_eq_nil_iff.1 hlist.2).1

/-- At the root the two keys are one. -/
theorem fileKey_eq_dirKey {p : Path} (hp : p.parts = []) : p.fileKey = p.dirKey := by
  rw [dirKey, if_pos ((isRoot_iff p).2 hp), fileKey, toString, hp]
  rfl

theorem fileKey_eq_dirKey_iff {p q : Path} :
    p.fileKey = q.dirKey ↔ p.parts = [] ∧ q.parts = [] := by
  by_cases hp : p.parts = []
  · rw [fileKey_eq_dirKey hp, dirKey_inj, hp]
    exact ⟨fun hq => ⟨rfl, hq.symm⟩, fun h => h.2.symm⟩
  · exact iff_of_false (fileKey_ne_dirKey hp q) fun h => hp h.1

/-! ## Keys of both kinds -/

/-- The key under which a node is kept at the path, if it is a directory or not. -/
def key (p : Path) (dir : Bool) : String := if dir then p.dirKey else p.fileKey

@[simp] theorem key_true (p : Path) : p.key true = p.dirKey := rfl

@[simp] theorem key_false (p : Path) : p.key false = p.fileKey := rfl

theorem toList_key {p : Path} {dir : Bool} (hp : dir = false → p.parts ≠ []) :
    (p.key dir).toList = spell p.parts ++ if dir then ['/'] else [] := by
  cases dir with
  | true => exact toList_dirKey p
  | false =>
    rw [key_false, toList_fileKey (hp rfl)]
    exact (List.append_nil _).symm

theorem key_congr {p q : Path} (h : p.parts = q.parts) (dir : Bool) : p.key dir = q.key dir := by
  cases dir with
  | true => exact dirKey_inj.2 h
  | false => exact fileKey_inj.2 h

/-- A key gives back the components and the kind of its node; no file is at the root. -/
theorem key_inj {p q : Path} {a b : Bool} (hp : a = false → p.parts ≠ [])
    (hq : b = false → q.parts ≠ []) : p.key a = q.key b ↔ p.parts = q.parts ∧ a = b := by
  cases a <;> cases b
  · simp [fileKey_inj]
  · simp [fileKey_ne_dirKey (hp rfl) q]
  · simp [(fileKey_ne_dirKey (hq rfl) p).symm]
  · simp [dirKey_inj]

theorem dirKey_prefix_key (p : Path) {q : Path} {dir : Bool} (hq : dir = false → q.parts ≠ []) :
    p.dirKey.toList <+: (q.key dir).toList ↔
      p.parts <+: q.parts ∧ (dir = false → p.parts ≠ q.parts) := by
  cases dir with
  | true => simpa using dirKey_prefix_dirKey p q
  | false => simpa using dirKey_prefix_fileKey p (hq rfl)

/-- Only the keys of directories end in a slash. -/
theorem getLast?_key {p : Path} {dir : Bool} (hp : dir = false → p.parts ≠ []) :
    (p.key dir).toList.getLast? = some '/' ↔ dir = true := by
  rw [toList_key hp]
  cases dir with
  | true => simp
  | false =>
    obtain ⟨init, last, hlast⟩ := (List.eq_nil_or_concat' p.parts).resolve_left (hp rfl)
    have hlastProper := p.proper last (hlast ▸ List.mem_append_right _ List.mem_cons_self)
    have hne := toList_ne_nil_of_isComponent hlastProper
    have hslash := slash_notMem_of_isComponent hlastProper
    have hspell : spell p.parts = (spell init ++ ['/']) ++ last.toList := by
      rw [hlast, spell_append, spell_cons, spell_nil, List.append_nil, List.append_assoc]
      rfl
    simp only [Bool.false_eq_true, if_false, List.append_nil, iff_false, hspell]
    rw [List.getLast?_append_of_ne_nil _ hne]
    exact fun h => hslash (List.mem_of_getLast? h)

/-! ## Reading a key -/

theorem splitOn_spell {parts : List String} (h : ∀ part ∈ parts, isComponent part = true) :
    Text.splitOn '/' (spell parts) = [] :: parts.map String.toList := by
  induction parts with
  | nil => rfl
  | cons part parts ih =>
    have htail := ih fun q hq => h q (List.mem_cons_of_mem part hq)
    have hpart := slash_notMem_of_isComponent (h part List.mem_cons_self)
    rw [spell_cons, Text.splitOn_cons_sep, Text.splitOn_append_of_notMem hpart htail,
      List.append_nil, List.map_cons]

theorem splitOn_spell_slash {parts : List String}
    (h : ∀ part ∈ parts, isComponent part = true) :
    Text.splitOn '/' (spell parts ++ ['/']) = [] :: (parts.map String.toList ++ [[]]) := by
  rw [Text.splitOn_append_sep, splitOn_spell h]
  rfl

theorem nul_notMem_spell {parts : List String} (h : ∀ part ∈ parts, isComponent part = true) :
    '\x00' ∉ spell parts := by
  intro hmem
  obtain ⟨part, hpart, hnul⟩ := List.mem_flatMap.1 hmem
  rcases List.mem_cons.1 hnul with heq | hnul
  · exact absurd heq (by decide)
  · exact nul_notMem_of_isComponent (h part hpart) hnul

/-- What a scan yields are the pieces, walked over one after the other. -/
theorem scan_ok {start p : Path} {text : String} (h : scan start text = .ok p) :
    p.parts = (pieces text).foldl enter start.parts ∧
      p.trailing = (spellsDirectory (pieces text) || p.parts.isEmpty) := by
  unfold scan at h
  split at h
  · cases h
  · cases h
    exact ⟨rfl, rfl⟩

/-- A text without nulls is a path from every directory. -/
theorem scan_eq_ok (start : Path) {text : String} (h : '\x00' ∉ text.toList) :
    ∃ p, scan start text = .ok p ∧ p.parts = (pieces text).foldl enter start.parts ∧
      p.trailing = (spellsDirectory (pieces text) || p.parts.isEmpty) := by
  have hnul : ¬ text.toList.contains '\x00' = true := by simpa using h
  rw [scan, dif_neg hnul]
  exact ⟨_, rfl, rfl, rfl⟩

/-- A text that is not empty is scanned, from the root or from the directory. -/
theorem resolve_eq_scan (cwd : Path) {text : String} (h : text ≠ "") :
    cwd.resolve text = scan (if isAbsolute text then root else cwd) text := by
  rw [resolve, if_neg h]
  split <;> rfl

/-- An absolute text without nulls is a path. -/
theorem parse_eq_scan {text : String} (h : text.toList.head? = some '/') :
    parse text = scan root text := by
  have hne : text ≠ "" := by
    rintro rfl
    exact absurd h (by decide)
  rw [parse, if_neg hne, if_pos (by rw [isAbsolute, h]; rfl)]

theorem parse_of_spell {text : String} {parts : List String} (hne : parts ≠ [])
    (hproper : ∀ part ∈ parts, isComponent part = true) (htext : text.toList = spell parts) :
    ∃ p, parse text = .ok p ∧ p.parts = parts ∧ p.trailing = false := by
  have hhead : text.toList.head? = some '/' := by
    obtain ⟨part, rest, rfl⟩ := List.exists_cons_of_ne_nil hne
    rw [htext, spell_cons]
    rfl
  have hpieces : pieces text = "" :: parts := by
    rw [pieces, htext, splitOn_spell hproper, List.map_cons, List.map_map]
    simp
  obtain ⟨p, hp, hparts, htrailing⟩ := scan_eq_ok root (htext ▸ nul_notMem_spell hproper)
  have hfold : p.parts = parts := by
    rw [hparts, hpieces, List.foldl_cons, foldl_enter_of_proper _ _ hproper]
    rfl
  refine ⟨p, (parse_eq_scan hhead).trans hp, hfold, ?_⟩
  obtain ⟨init, last, hlast⟩ := (List.eq_nil_or_concat' parts).resolve_left hne
  have hlastProper := hproper last (hlast ▸ List.mem_append_right _ List.mem_cons_self)
  have hspells : spellsDirectory ("" :: parts) = false := by
    have : ("" :: parts).getLast? = some last := by
      rw [hlast, ← List.cons_append, List.getLast?_concat]
    rw [spellsDirectory, this]
    simp only [isComponent, Bool.and_eq_true, decide_eq_true_eq] at hlastProper
    simp [hlastProper]
  rw [htrailing, hpieces, hspells, hfold]
  simp [hne]

theorem parse_of_spell_slash {text : String} {parts : List String}
    (hproper : ∀ part ∈ parts, isComponent part = true)
    (htext : text.toList = spell parts ++ ['/']) :
    ∃ p, parse text = .ok p ∧ p.parts = parts ∧ p.trailing = true := by
  have hhead : text.toList.head? = some '/' := by
    obtain ⟨rest, hrest⟩ := spell_slash parts
    rw [htext, hrest]
    rfl
  have hpieces : pieces text = "" :: (parts ++ [""]) := by
    rw [pieces, htext, splitOn_spell_slash hproper]
    simp [Function.comp_def]
  have hnul : '\x00' ∉ text.toList := by
    rw [htext, List.mem_append, not_or]
    exact ⟨nul_notMem_spell hproper, by decide⟩
  obtain ⟨p, hp, hparts, htrailing⟩ := scan_eq_ok root hnul
  refine ⟨p, (parse_eq_scan hhead).trans hp, ?_, ?_⟩
  · rw [hparts, hpieces, List.foldl_cons, List.foldl_append,
      foldl_enter_of_proper _ _ hproper]
    rfl
  · have hspells : spellsDirectory ("" :: (parts ++ [""])) = true := by
      rw [spellsDirectory, ← List.cons_append, List.getLast?_concat]
      rfl
    rw [htrailing, hpieces, hspells, Bool.true_or]

/-- Reading the key of a file yields its path. -/
theorem parse_fileKey {p : Path} (hp : p.parts ≠ []) :
    ∃ q, parse p.fileKey = .ok q ∧ q.parts = p.parts ∧ q.trailing = false :=
  parse_of_spell hp p.proper (toList_fileKey hp)

/-- Reading the key of a directory yields its path, spelled as a directory. -/
theorem parse_dirKey (p : Path) :
    ∃ q, parse p.dirKey = .ok q ∧ q.parts = p.parts ∧ q.trailing = true :=
  parse_of_spell_slash p.proper (toList_dirKey p)

/-- The written form of a path is read as that path. -/
theorem parse_toString (p : Path) : ∃ q, parse p.toString = .ok q ∧ q.parts = p.parts := by
  by_cases hp : p.parts = []
  · obtain ⟨q, hq, hparts, -⟩ := parse_dirKey p
    rw [← fileKey_eq_dirKey hp] at hq
    exact ⟨q, hq, hparts⟩
  · obtain ⟨q, hq, hparts, -⟩ := parse_fileKey hp
    exact ⟨q, hq, hparts⟩

/-- The written form of a path leads to it from everywhere. -/
theorem resolve_toString (cwd p : Path) :
    ∃ q, cwd.resolve p.toString = .ok q ∧ q.parts = p.parts := by
  have habsolute : isAbsolute p.toString = true := by
    rw [isAbsolute, toString, String.toList_append]
    rfl
  have hparse : cwd.resolve p.toString = parse p.toString := by
    rw [resolve, parse, if_pos habsolute, if_pos habsolute]
  rw [hparse]
  exact parse_toString p

/-! ## Lying under a directory -/

theorem stripEnd?_slash (chars : List Char) :
    Text.stripEnd? ['/'] (chars ++ ['/']) = some chars := by
  simp [Text.stripEnd?, Text.strip?]

/-- A path lies under the key of a directory exactly if its components begin with those of the
    directory. -/
theorem liesUnder_dirKey (p d : Path) : p.liesUnder d.dirKey = true ↔ d.parts <+: p.parts := by
  have hlies : p.liesUnder d.dirKey = true ↔
      spell d.parts ++ ['/'] <+: p.toString.toList ∨
        spell d.parts ≠ [] ∧ p.toString.toList = spell d.parts := by
    simp [liesUnder, toList_dirKey, stripEnd?_slash]
  rw [hlies, toList_toString]
  by_cases hp : p.parts = []
  · rw [if_pos hp, hp, ← spell_slash_prefix_iff d.proper (by simp : ∀ part ∈ [], _)]
    refine ⟨?_, Or.inl⟩
    rintro (h | ⟨-, h⟩)
    · exact h
    · exact absurd h.symm (spell_ne_slash d.proper)
  · rw [if_neg hp, spell_prefix_iff d.proper p.proper]
    constructor
    · rintro (h | ⟨-, h⟩)
      · exact h.1
      · rw [← spell_slash_prefix_iff d.proper p.proper, h]
    · intro h
      by_cases hdp : d.parts = p.parts
      · rw [hdp]
        refine Or.inr ⟨?_, rfl⟩
        obtain ⟨part, rest, hrest⟩ := List.exists_cons_of_ne_nil hp
        simp [hrest]
      · exact Or.inl ⟨h, hdp⟩

end Workbench.Path
