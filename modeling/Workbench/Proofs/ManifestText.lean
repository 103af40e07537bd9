import Mathlib.Algebra.Order.BigOperators.Group.List
import Mathlib.Algebra.Order.Ring.Nat
import Mathlib.Data.List.TakeWhile
import Workbench.Proofs.Dictionary
import Workbench.Proofs.ImportLines

set_option autoImplicit false

/-! # The text of a manifest that was read

A manifest that was read from a text is written with one line for each binding and read again. Its
columns are tidy and its import paths hold no arrow, so a line is cut where its columns meet, unless
the import path ends with the first three characters of the arrow: then they begin an arrow together
with the blank after them. The second reading always succeeds, and it gives the manifest back just
if no import path ends so. -/

namespace Workbench

namespace Text

/-- Walking to a mark finds the first place where it stands. -/
theorem cutAux_eq_some_iff {mark : List Char} (hmark : mark ≠ []) {gathered s before after} :
    cutAux mark gathered s = some (before, after) ↔
      ∃ front, before = gathered.reverse ++ front ∧ s = front ++ (mark ++ after) ∧
        ∀ front' rest, s = front' ++ (mark ++ rest) → front.length ≤ front'.length := by
  induction s generalizing gathered with
  | nil =>
    rw [cutAux, if_neg hmark]
    constructor
    · intro h
      cases h
    · rintro ⟨front, -, hs, -⟩
      simp [hmark] at hs
  | cons c s ih =>
    rw [cutAux]
    cases hstrip : strip? mark (c :: s) with
    | some rest =>
      have hhere := strip?_eq_some_iff.1 hstrip
      constructor
      · intro h
        cases h
        exact ⟨[], by simp, hhere, fun _ _ _ => Nat.zero_le _⟩
      · rintro ⟨front, rfl, hs, hfirst⟩
        obtain rfl := List.eq_nil_of_length_eq_zero (Nat.le_zero.1 (hfirst [] rest hhere))
        rw [List.nil_append, hhere, List.append_cancel_left_eq] at hs
        simp [hs]
    | none =>
      have haway : ∀ rest, c :: s ≠ mark ++ rest := fun rest hs => by
        rw [strip?_eq_some_iff.2 hs] at hstrip
        cases hstrip
      dsimp only
      rw [ih]
      constructor
      · rintro ⟨front, rfl, hs, hfirst⟩
        refine ⟨c :: front, by simp, by rw [hs, List.cons_append], fun front' rest hs' => ?_⟩
        cases front' with
        | nil => exact absurd hs' (haway rest)
        | cons c' front' =>
          exact Nat.succ_le_succ (hfirst front' rest (List.cons.inj hs').2)
      · rintro ⟨front, rfl, hs, hfirst⟩
        cases front with
        | nil => exact absurd hs (haway after)
        | cons c' front =>
          rw [List.cons_append, List.cons.injEq] at hs
          obtain ⟨rfl, hs⟩ := hs
          refine ⟨front, by simp, hs, fun front' rest hs' => ?_⟩
          exact Nat.le_of_succ_le_succ (hfirst (c :: front') rest (by rw [hs', List.cons_append]))

theorem cut?_eq_some_iff {mark : List Char} (hmark : mark ≠ []) {s before after : List Char} :
    cut? mark s = some (before, after) ↔ s = before ++ (mark ++ after) ∧
      ∀ front rest, s = front ++ (mark ++ rest) → before.length ≤ front.length := by
  rw [cut?, cutAux_eq_some_iff hmark]
  simp

/-- Trimming leaves a part of the text. -/
theorem trim_infix (s : List Char) : trim s <:+: s := by
  have hend : ∀ s : List Char, trimEnd s <+: s := fun s => by
    rw [trimEnd, dropEndWhile, ← List.reverse_suffix, List.reverse_reverse]
    exact List.dropWhile_suffix _
  exact (hend _).isInfix.trans (List.dropWhile_suffix _).isInfix

/-- What begins with a character that is not blank is not trimmed away. -/
theorem trim_ne_nil {s : List Char} {c : Char} (h : s.head? = some c) (hc : isBlank c = false) :
    trim s ≠ [] := by
  obtain ⟨s, rfl⟩ := List.head?_eq_some_iff.1 h
  rw [trim, trimStart, List.dropWhile_cons_of_neg (by simp [hc]), trimEnd, dropEndWhile]
  intro hnil
  rw [List.reverse_eq_nil_iff, List.dropWhile_eq_nil_iff] at hnil
  simpa [hc] using hnil c (by simp)

end Text

namespace Manifest

/-! ## Bindings -/

theorem bind_eq_put (name value : String) (entries : List (String × String)) :
    bind name value entries = Dictionary.put entries name value := by
  induction entries with
  | nil => rfl
  | cons entry entries ih =>
    obtain ⟨n, v⟩ := entry
    rw [bind, Dictionary.put, ih]
    by_cases hn : n = name
    · rw [if_pos hn, if_pos hn, hn]
    · rw [if_neg hn, if_neg hn]

/-- The import paths that are bound. -/
def names (m : Manifest) : List String := Dictionary.keys m.entries

theorem names_insert (m : Manifest) (name value : String) :
    (m.insert name value).names = if name ∈ m.names then m.names else m.names ++ [name] := by
  rw [names, insert, bind_eq_put]
  exact Dictionary.keys_put m.entries name value

theorem entries_insert_of_notMem {m : Manifest} {name : String} (value : String)
    (h : name ∉ m.names) : (m.insert name value).entries = m.entries ++ [(name, value)] := by
  obtain ⟨entries⟩ := m
  show bind name value entries = _
  induction entries with
  | nil => rfl
  | cons entry entries ih =>
    obtain ⟨hname, hnames⟩ := not_or.1 (mt List.mem_cons.2 h)
    rw [bind, if_neg (Ne.symm hname), ih hnames, List.cons_append]

/-- What is bound after an import path was bound is its new binding or an old one. -/
theorem mem_entries_insert {m : Manifest} {name value : String} {entry : String × String}
    (h : entry ∈ (m.insert name value).entries) : entry = (name, value) ∨ entry ∈ m.entries := by
  obtain ⟨entries⟩ := m
  change entry ∈ bind name value entries at h
  induction entries with
  | nil => exact .inl (List.mem_singleton.1 h)
  | cons first entries ih =>
    obtain ⟨n, v⟩ := first
    rw [bind] at h
    split at h
    · next hn =>
      subst hn
      exact (List.mem_cons.1 h).imp_right (List.mem_cons_of_mem _)
    · rcases List.mem_cons.1 h with rfl | h
      · exact .inr List.mem_cons_self
      · exact (ih h).imp_right (List.mem_cons_of_mem _)

/-- Bind import paths, one after the other. -/
def ofEntries (entries : List (String × String)) : Manifest :=
  entries.foldl (fun m entry => m.insert entry.1 entry.2) empty

theorem ofEntries_concat (entries : List (String × String)) (entry : String × String) :
    ofEntries (entries ++ [entry]) = (ofEntries entries).insert entry.1 entry.2 := by
  rw [ofEntries, List.foldl_append]
  rfl

/-- Import paths that differ keep their bindings in order. -/
theorem ofEntries_eq {entries : List (String × String)} (h : (entries.map Prod.fst).Nodup) :
    ofEntries entries = ⟨entries⟩ := by
  induction entries using List.reverseRecOn with
  | nil => rfl
  | append_singleton entries entry ih =>
    rw [List.map_append] at h
    have hnew : entry.1 ∉ (⟨entries⟩ : Manifest).names := fun hmem =>
      (List.disjoint_of_nodup_append h) hmem (List.mem_singleton.2 rfl)
    rw [ofEntries_concat, ih h.of_append_left]
    exact congrArg Manifest.mk (entries_insert_of_notMem entry.2 hnew)

/-- How many characters the import paths have together. -/
def nameLength (m : Manifest) : Nat := (m.names.map String.length).sum

theorem nameLength_ofEntries_le (entries : List (String × String)) :
    (ofEntries entries).nameLength ≤ (entries.map (·.1.length)).sum := by
  induction entries using List.reverseRecOn with
  | nil => exact Nat.le_refl 0
  | append_singleton entries entry ih =>
    rw [ofEntries_concat, nameLength, names_insert, List.map_append, List.sum_append]
    split
    · exact Nat.le_add_right_of_le ih
    · rw [List.map_append, List.sum_append]
      exact Nat.add_le_add_right ih _

/-! ## What is read -/

/-- A binding with tidy columns whose line holds no arrow before its own, if the import path does
    not begin one. -/
structure Legible (entry : String × String) : Prop where
  source : Text.Tidy entry.1.toList
  unmarked : ¬ arrow.toList <:+: entry.1.toList
  stored : Text.Tidy entry.2.toList

/-- The columns of a line are legible. -/
theorem legible_of_columns? {line : List Char} {entry : String × String} (hline : '\n' ∉ line)
    (h : columns? line = some entry) : Legible entry := by
  unfold columns? at h
  split at h
  · cases h
  · next source stored hcut =>
    obtain ⟨rfl, hfirst⟩ := (Text.cut?_eq_some_iff (by decide)).1 hcut
    have hunmarked : ¬ arrow.toList <:+: source := by
      rintro ⟨front, rest, rfl⟩
      have hle := hfirst front (rest ++ (arrow.toList ++ stored)) (by simp [List.append_assoc])
      have hlong : 0 < arrow.toList.length := by decide
      simp only [List.length_append] at hle
      omega
    simp only [List.mem_append, not_or] at hline
    dsimp only at h
    split at h
    · cases h
    · next hne =>
      cases h
      simp only [Bool.or_eq_true, List.isEmpty_iff, not_or] at hne
      refine ⟨?_, ?_, ?_⟩
      · rw [String.toList_ofList]
        exact Text.tidy_trim hne.1 hline.1
      · rw [String.toList_ofList]
        exact fun hmark => hunmarked (hmark.trans (Text.trim_infix source))
      · rw [String.toList_ofList]
        exact Text.tidy_trim hne.2 hline.2.2

/-- Whatever lines are read, import paths stay distinct and bindings legible. -/
theorem legible_of_readLines {m m' : Manifest} {number : Nat} {lines : List (List Char)}
    (hlines : ∀ line ∈ lines, '\n' ∉ line) (hnames : m.names.Nodup)
    (hentries : ∀ entry ∈ m.entries, Legible entry) (h : readLines m number lines = .ok m') :
    m'.names.Nodup ∧ ∀ entry ∈ m'.entries, Legible entry := by
  induction lines generalizing m number with
  | nil =>
    cases h
    exact ⟨hnames, hentries⟩
  | cons raw lines ih =>
    obtain ⟨hraw, hrest⟩ := List.forall_mem_cons.1 hlines
    rw [readLines] at h
    split at h
    · exact ih hrest hnames hentries h
    · split at h
      · cases h
      · next source stored hcolumns =>
        have hentry : Legible (source, stored) :=
          legible_of_columns? (fun hmem => hraw (Text.mem_of_mem_trim hmem)) hcolumns
        refine ih hrest ?_ (fun entry hmem => ?_) h
        · rw [names, insert, bind_eq_put]
          exact Dictionary.nodup_keys_put hnames source stored
        · rcases mem_entries_insert hmem with rfl | hmem
          · exact hentry
          · exact hentries entry hmem

/-- What was read is legible, and binds no import path twice. -/
theorem legible_of_parse {text : String} {m : Manifest} (h : parse text = .ok m) :
    m.names.Nodup ∧ ∀ entry ∈ m.entries, Legible entry :=
  legible_of_readLines (m := empty) (fun _ => Text.newline_notMem_of_mem_lines) List.nodup_nil
    (fun _ hmem => absurd hmem List.not_mem_nil) h

/-! ## What is read again -/

/-- The first three characters of the arrow. -/
def stub : List Char := " ->".toList

/-- What the line of a binding is read as. -/
def reread (entry : String × String) : String × String :=
  match Text.stripEnd? stub entry.1.toList with
  | some front => (String.ofList (Text.trim front), "-> " ++ entry.2)
  | none => entry

theorem stripEnd?_stub_eq_some_iff {s front : List Char} :
    Text.stripEnd? stub s = some front ↔ s = front ++ stub := by
  rw [Text.stripEnd?, Option.map_eq_some_iff]
  constructor
  · rintro ⟨rest, hrest, rfl⟩
    rw [Text.strip?_eq_some_iff, List.reverse_eq_iff] at hrest
    simpa using hrest
  · rintro rfl
    exact ⟨front.reverse, Text.strip?_eq_some_iff.2 (by simp), List.reverse_reverse front⟩

theorem reread_of_stub {entry : String × String} {front : List Char}
    (h : entry.1.toList = front ++ stub) :
    reread entry = (String.ofList (Text.trim front), "-> " ++ entry.2) := by
  rw [reread, stripEnd?_stub_eq_some_iff.2 h]

theorem reread_of_not_stub {entry : String × String} (h : ¬ stub <:+ entry.1.toList) :
    reread entry = entry := by
  have hnone : Text.stripEnd? stub entry.1.toList = none := by
    rw [Option.eq_none_iff_forall_ne_some]
    intro front hfront
    exact h ⟨front, (stripEnd?_stub_eq_some_iff.1 hfront).symm⟩
  rw [reread, hnone]

/-- Read again an import path is shorter if it ends with the stub, and else as long. -/
theorem length_reread_le (entry : String × String) : (reread entry).1.length ≤ entry.1.length ∧
    (stub <:+ entry.1.toList → (reread entry).1.length < entry.1.length) := by
  by_cases h : stub <:+ entry.1.toList
  · obtain ⟨front, hfront⟩ := h
    have hlength := congrArg List.length hfront
    have htrim := (Text.trim_infix front).length_le
    have hstub : stub.length = 3 := by decide
    have hlt : (reread entry).1.length < entry.1.length := by
      rw [reread_of_stub hfront.symm, String.length_ofList]
      rw [List.length_append, String.length_toList, hstub] at hlength
      omega
    exact ⟨hlt.le, fun _ => hlt⟩
  · rw [reread_of_not_stub h]
    exact ⟨Nat.le_refl _, fun hstub => absurd hstub h⟩

/-- A line is cut where its columns meet, if no arrow stands or begins in the first of them. -/
theorem cut?_arrow {source : List Char} (stored : List Char) (hmark : ¬ arrow.toList <:+: source)
    (hstub : ¬ stub <:+ source) :
    Text.cut? arrow.toList (source ++ (arrow.toList ++ stored)) = some (source, stored) := by
  refine (Text.cut?_eq_some_iff (by decide)).2 ⟨rfl, fun front rest hs => ?_⟩
  rcases List.append_eq_append_iff.1 hs with ⟨between, rfl, -⟩ | ⟨between, rfl, hbetween⟩
  · rw [List.length_append]
    exact Nat.le_add_right _ _
  · -- what stands between would begin with as much of an arrow as fits
    have harrow : arrow.toList = [' ', '-', '>', ' '] := by decide
    rw [harrow] at hbetween hmark
    rcases between with _ | ⟨a, _ | ⟨b, _ | ⟨c, _ | ⟨d, between⟩⟩⟩⟩
    · rw [List.append_nil]
    · simp at hbetween
    · simp at hbetween
    · obtain ⟨rfl, rfl, rfl, -⟩ : ' ' = a ∧ '-' = b ∧ '>' = c ∧ rest = _ := by simpa using hbetween
      exact absurd ⟨front, rfl⟩ hstub
    · obtain ⟨rfl, rfl, rfl, rfl, -⟩ : ' ' = a ∧ '-' = b ∧ '>' = c ∧ ' ' = d ∧ rest = _ := by
        simpa using hbetween
      exact absurd ⟨front, between, by simp⟩ hmark

theorem columns?_of_cut? {line source stored : List Char}
    (hcut : Text.cut? arrow.toList line = some (source, stored)) (hsource : Text.trim source ≠ [])
    (hstored : Text.trim stored ≠ []) : columns? line =
      some (String.ofList (Text.trim source), String.ofList (Text.trim stored)) := by
  rw [columns?, hcut]
  dsimp only
  rw [if_neg]
  simp [hsource, hstored]

namespace Legible

variable {entry : String × String} (h : Legible entry)

include h

theorem columns?_line : columns? (line entry.1 entry.2).toList = some (reread entry) := by
  rw [Bindable.line_toList]
  by_cases hstub : stub <:+ entry.1.toList
  · obtain ⟨front, hfront⟩ := hstub
    have hcut : Text.cut? arrow.toList (entry.1.toList ++ (arrow.toList ++ entry.2.toList)) =
        some (front, "-> ".toList ++ entry.2.toList) := by
      have hearly : entry.1.toList ++ (arrow.toList ++ entry.2.toList) =
          front ++ (arrow.toList ++ ("-> ".toList ++ entry.2.toList)) := by
        simp [← hfront, stub, arrow]
      rw [hearly]
      refine cut?_arrow _ (fun hmark => h.unmarked ?_) ?_
      · rw [← hfront]
        exact hmark.trans (List.prefix_append _ _).isInfix
      · rintro ⟨front', rfl⟩
        refine h.unmarked ⟨front', "->".toList, ?_⟩
        rw [← hfront]
        simp [stub, arrow]
    obtain ⟨c, hhead⟩ : ∃ c, front.head? = some c := by
      cases front with
      | nil => exact absurd (h.source.head ' ' (by rw [← hfront]; rfl)) (by decide)
      | cons c front => exact ⟨c, rfl⟩
    have hsolid : Text.isBlank c = false :=
      h.source.head c (by rw [← hfront, List.head?_append, hhead]; rfl)
    have hstored : Text.trim ("-> ".toList ++ entry.2.toList) =
        "-> ".toList ++ entry.2.toList := by
      refine Text.trim_eq_self (fun c hc => ?_) fun c hc => h.stored.last c ?_
      · obtain rfl : '-' = c := by simpa using hc
        decide
      · rwa [List.getLast?_append_of_ne_nil _ h.stored.ne_nil] at hc
    have hne : Text.trim ("-> ".toList ++ entry.2.toList) ≠ [] := by
      rw [hstored]
      simp
    rw [columns?_of_cut? hcut (Text.trim_ne_nil hhead hsolid) hne, hstored,
      reread_of_stub hfront.symm, String.ofList_append, String.ofList_toList, String.ofList_toList]
  · rw [columns?_of_cut? (cut?_arrow _ h.unmarked hstub)
      (h.source.trim_eq.symm ▸ h.source.ne_nil) (h.stored.trim_eq.symm ▸ h.stored.ne_nil),
      h.source.trim_eq, h.stored.trim_eq, reread_of_not_stub hstub]
    simp

/-- The line of a binding is tidy itself. -/
theorem tidy_line : Text.Tidy (line entry.1 entry.2).toList := by
  rw [Bindable.line_toList]
  refine ⟨by simp [h.source.ne_nil], ?_, fun c hc => h.source.head c ?_,
    fun c hc => h.stored.last c ?_⟩
  · simp only [List.mem_append, not_or]
    exact ⟨h.source.oneLine, by decide, h.stored.oneLine⟩
  · rwa [List.head?_append_of_ne_nil _ h.source.ne_nil] at hc
  · rwa [← List.append_assoc, List.getLast?_append_of_ne_nil _ h.stored.ne_nil] at hc

end Legible

/-- Legible lines are read one after the other. -/
theorem readLines_map {entries : List (String × String)} (h : ∀ entry ∈ entries, Legible entry)
    (m : Manifest) (number : Nat) :
    readLines m number (entries.map fun entry => (line entry.1 entry.2).toList) =
      .ok ((entries.map reread).foldl (fun m entry => m.insert entry.1 entry.2) m) := by
  induction entries generalizing m number with
  | nil => rfl
  | cons entry entries ih =>
    obtain ⟨hentry, hrest⟩ := List.forall_mem_cons.1 h
    have htidy := hentry.tidy_line
    rw [List.map_cons, readLines, htidy.trim_eq, if_neg (by simpa using htidy.ne_nil),
      hentry.columns?_line]
    exact ih hrest _ _

theorem linesOf_toText {m : Manifest} (h : ∀ entry ∈ m.entries, Legible entry) :
    Text.linesOf m.toText = m.entries.map fun entry => (line entry.1 entry.2).toList := by
  have htext : m.toText = String.join
      ((m.entries.map fun entry => line entry.1 entry.2).map (· ++ "\n")) := by
    rw [List.map_map]
    rfl
  have hentries : ∀ written ∈ m.entries.map fun entry => line entry.1 entry.2,
      '\n' ∉ written.toList ∧ written.toList.getLast? ≠ some '\r' := by
    intro written hwritten
    obtain ⟨entry, hmem, rfl⟩ := List.mem_map.1 hwritten
    have htidy := (h entry hmem).tidy_line
    exact ⟨htidy.oneLine, fun hlast => absurd (htidy.last _ hlast) (by decide)⟩
  rw [htext, (Text.linesOf_join hentries).2, List.map_map]
  rfl

/-- A manifest of legible bindings is read as what their lines are read as. -/
theorem parse_toText {m : Manifest} (h : ∀ entry ∈ m.entries, Legible entry) :
    parse m.toText = .ok (ofEntries (m.entries.map reread)) := by
  rw [parse, linesOf_toText h, readLines_map h]
  rfl

/-- Reading shortens the import paths together as soon as one of them ends with the stub. -/
theorem nameLength_reread_lt {m : Manifest} {entry : String × String} (hentry : entry ∈ m.entries)
    (h : stub <:+ entry.1.toList) :
    (ofEntries (m.entries.map reread)).nameLength < m.nameLength := by
  have hsum : (m.entries.map fun entry => (reread entry).1.length).sum <
      (m.entries.map (·.1.length)).sum :=
    List.sum_lt_sum _ _ (fun other _ => (length_reread_le other).1)
      ⟨entry, hentry, (length_reread_le entry).2 h⟩
  calc (ofEntries (m.entries.map reread)).nameLength
      ≤ ((m.entries.map reread).map (·.1.length)).sum := nameLength_ofEntries_le _
    _ < (m.entries.map (·.1.length)).sum := by
      rw [List.map_map]
      exact hsum
    _ = m.nameLength := by
      rw [nameLength, names, Dictionary.keys, List.map_map]
      rfl

/-- A manifest that was read can be written and read again. It is given back, binding by binding,
    just if none of its import paths ends with the stub of an arrow; the characters of such a stub
    move to the stored path. -/
theorem parse_toText_of_parse {text : String} {m : Manifest} (h : parse text = .ok m) :
    parse m.toText = .ok (ofEntries (m.entries.map reread)) ∧
      (ofEntries (m.entries.map reread) = m ↔
        ∀ entry ∈ m.entries, ¬ stub <:+ entry.1.toList) := by
  obtain ⟨hnames, hlegible⟩ := legible_of_parse h
  refine ⟨parse_toText hlegible, fun hsame entry hentry hstub => ?_, fun hstub => ?_⟩
  · have hlt := nameLength_reread_lt hentry hstub
    rw [hsame] at hlt
    exact Nat.lt_irrefl _ hlt
  · have hentries : m.entries.map reread = m.entries := by
      rw [List.map_congr_left fun entry hentry => reread_of_not_stub (hstub entry hentry)]
      exact List.map_id _
    rw [hentries]
    exact ofEntries_eq hnames

/-- A blank line, an import path that ends with a stub, blanks that only trimming removes, and a
    path that is bound twice. -/
theorem parse_toText_of_parse_blanks :
    let m : Manifest := ⟨[("a ->", "b"), ("net/http\u2003->", "/p -> q"), ("c", "e")]⟩
    parse "\na ->\t -> b\n net/http\u2003->  -> /p -> q \r\nc -> d\nc -> e" = .ok m ∧
      parse m.toText = .ok ⟨[("a", "-> b"), ("net/http\u2003->", "/p -> q"), ("c", "e")]⟩ ∧
      ofEntries (m.entries.map reread) ≠ m := by
  intro m
  have hparse : parse "\na ->\t -> b\n net/http\u2003->  -> /p -> q \r\nc -> d\nc -> e" =
      .ok m := by decide +kernel
  obtain ⟨hagain, hsame⟩ := parse_toText_of_parse hparse
  refine ⟨hparse, hagain.trans (by decide +kernel), fun heq => ?_⟩
  exact hsame.1 heq ("a ->", "b") List.mem_cons_self (by decide)

/-- A manifest with an import path that ends with a stub is read from its own text as another. -/
theorem exists_parse_toText_ne : ¬ ∀ (text : String) (m : Manifest),
    parse text = .ok m → parse m.toText = .ok m := by
  intro h
  have hparse : parse "a ->\t -> b" = .ok ⟨[("a ->", "b")]⟩ := by decide +kernel
  have hagain : parse (⟨[("a ->", "b")]⟩ : Manifest).toText = .ok ⟨[("a", "-> b")]⟩ := by
    decide +kernel
  have hsame := (h _ _ hparse).symm.trans hagain
  revert hsame
  decide +kernel

end Manifest

end Workbench
