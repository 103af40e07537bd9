import Workbench.Proofs.Dictionary
import Workbench.Proofs.ManifestText

set_option autoImplicit false

/-! # Import sections

What a well formed import section is made of: lines that say nothing, which are blank or hold
comments only, the package clause, and imports, each on a line of its own or in a block. Blanks and
a line comment may stand around what a line says. The scanner knows such a section by its lines: it
finds the paths, however the comments look, since a slash of a path always stands behind an odd
number of quotes, and it sees nothing of what comes after the first declaration. -/

namespace Workbench

namespace Text

/-- Nothing is left of blanks. -/
theorem trim_of_blank {s : List Char} (h : ∀ c ∈ s, isBlank c = true) : trim s = [] := by
  have hdrop := trim_blank_append h []
  rwa [List.append_nil] at hdrop

/-- A carriage return at the end of a line is a blank at its end. -/
theorem trim_dropReturn (s : List Char) : trim (dropReturn s) = trim s := by
  unfold dropReturn
  split
  · next hlast =>
    obtain ⟨init, rfl⟩ := List.getLast?_eq_some_iff.1 hlast
    rw [List.dropLast_concat, trim_append_blank]
    intro c hc
    rw [List.mem_singleton.1 hc]
    decide
  · rfl

/-- Behind a tidy text blanks are dropped as if it were not there. -/
theorem trimEnd_append_of_tidy {s : List Char} (hs : Tidy s) (t : List Char) :
    trimEnd (s ++ t) = s ++ trimEnd t := by
  obtain ⟨c, hlast⟩ := Option.ne_none_iff_exists'.1 (mt List.getLast?_eq_none_iff.1 hs.ne_nil)
  obtain ⟨init, rfl⟩ := List.getLast?_eq_some_iff.1 hlast
  rw [List.append_assoc, List.singleton_append, trimEnd_append_cons (hs.last c hlast),
    List.append_assoc, List.singleton_append]

theorem trim_append_of_tidy {s : List Char} (hs : Tidy s) (t : List Char) :
    trim (s ++ t) = s ++ trimEnd t := by
  obtain ⟨c, rest, rfl⟩ := List.exists_cons_of_ne_nil hs.ne_nil
  have hc : isBlank c = false := hs.head c rfl
  rw [trim, trimStart, List.cons_append, List.dropWhile_cons_of_neg (by simp [hc]),
    ← List.cons_append, trimEnd_append_of_tidy hs]

theorem trimEnd_of_blank {s : List Char} (h : ∀ c ∈ s, isBlank c = true) : trimEnd s = [] :=
  trimEnd_append_blank h []

theorem trimEnd_prefix_self (s : List Char) : trimEnd s <+: s := by
  rw [trimEnd, dropEndWhile, ← List.reverse_suffix, List.reverse_reverse]
  exact List.dropWhile_suffix _

/-- A text in which a mark does not stand is not cut at it. -/
theorem cut?_eq_none {mark s : List Char} (hmark : mark ≠ []) (h : ¬ mark <:+: s) :
    cut? mark s = none := by
  cases hcut : cut? mark s with
  | none => rfl
  | some cut =>
    obtain ⟨hs, -⟩ := (cut?_eq_some_iff hmark).1 (show cut? mark s = some (cut.1, cut.2) from hcut)
    exact absurd ⟨cut.1, cut.2, by rw [hs, List.append_assoc]⟩ h

end Text

namespace Source

open Scanner

/-! ## What lines are made of -/

/-- Blanks on a line. -/
def Margin (s : List Char) : Prop := ∀ c ∈ s, Text.isBlank c = true ∧ c ≠ '\n'

theorem margin_iff {s : List Char} :
    Margin s ↔ s.all (fun c => Text.isBlank c && c != '\n') = true := by
  simp [Margin]

instance (s : List Char) : Decidable (Margin s) := decidable_of_iff _ margin_iff.symm

/-- What may stand behind the code of a line: nothing, or blanks and a line comment. -/
inductive Tail : List Char → Prop
  | nothing : Tail []
  | comment {gap text : List Char} :
      Margin gap → '\n' ∉ text → Tail (gap ++ '/' :: '/' :: text)

/-- A line that says a code. -/
inductive Says (code : List Char) : List Char → Prop
  | mk {left tail right : List Char} : Margin left → Tail tail → Margin right →
      Says code (left ++ (code ++ (tail ++ right)))

/-- The end of a block comment. -/
def close : List Char := "*/".toList

/-- Lines that say nothing: a blank line, a line comment, and a block comment on one line or on
    several. -/
inductive Filler : List (List Char) → Prop
  | blank {line : List Char} : Margin line → Filler [line]
  | comment {left text : List Char} : Margin left → '\n' ∉ text →
      Filler [left ++ '/' :: '/' :: text]
  | inline {left text right : List Char} : Margin left → '\n' ∉ text → ¬ close <:+: text →
      Margin right → Filler [left ++ ('/' :: '*' :: text ++ (close ++ right))]
  | block {left first last right : List Char} {middle : List (List Char)} : Margin left →
      '\n' ∉ first → ¬ close <:+: first →
      (∀ line ∈ middle, '\n' ∉ line ∧ ¬ close <:+: line) →
      '\n' ∉ last → ¬ close <:+: last → Margin right →
      Filler ((left ++ '/' :: '*' :: first) :: (middle ++ [last ++ (close ++ right)]))

/-- A path that can be imported. -/
structure Importable (path : List Char) : Prop where
  ne_nil : path ≠ []
  unquoted : '"' ∉ path
  oneLine : '\n' ∉ path

/-- A path in quotes. -/
def quoted (path : List Char) : List Char := '"' :: (path ++ ['"'])

/-- The code that asks for a path: the path in quotes, perhaps behind an alias, which is a dot or a
    name. -/
inductive Spec (path : List Char) : List Char → Prop
  | bare : Spec path (quoted path)
  | dot {gap : List Char} : Margin gap → gap ≠ [] → Spec path ('.' :: (gap ++ quoted path))
  | named {c : Char} {rest gap : List Char} : beginsName c = true →
      (∀ c ∈ rest, continuesName c = true) → Margin gap → gap ≠ [] →
      Spec path (c :: (rest ++ (gap ++ quoted path)))

/-- The lines of an import block between its parentheses, with the paths they ask for. -/
inductive Block : List (List Char) → List String → Prop
  | nil : Block [] []
  | filler {group lines : List (List Char)} {paths : List String} :
      Filler group → Block lines paths → Block (group ++ lines) paths
  | spec {path code line : List Char} {lines : List (List Char)} {paths : List String} :
      Importable path → Spec path code → Says code line → Block lines paths →
      Block (line :: lines) (String.ofList path :: paths)

/-- The lines of imports, with the paths they ask for. -/
inductive Imports : List (List Char) → List String → Prop
  | nil : Imports [] []
  | filler {group lines : List (List Char)} {paths : List String} :
      Filler group → Imports lines paths → Imports (group ++ lines) paths
  | single {path code gap line : List Char} {lines : List (List Char)} {paths : List String} :
      Importable path → Spec path code → Margin gap → Says ("import".toList ++ (gap ++ code)) line →
      Imports lines paths → Imports (line :: lines) (String.ofList path :: paths)
  | block {gap opening closing : List Char} {body lines : List (List Char)}
      {inner paths : List String} : Margin gap → Says ("import".toList ++ (gap ++ ['('])) opening →
      Block body inner → Says [')'] closing → Imports lines paths →
      Imports (opening :: (body ++ closing :: lines)) (inner ++ paths)

/-- The name of a package. -/
structure PackageName (name : List Char) : Prop where
  ne_nil : name ≠ []
  solid : ∀ c ∈ name, Text.isBlank c = false ∧ c ≠ '/' ∧ c ≠ '"'

/-- The lines of an import section: the package clause and the imports, with the paths they ask
    for. -/
inductive ImportSection : List (List Char) → List String → Prop
  | filler {group lines : List (List Char)} {paths : List String} :
      Filler group → ImportSection lines paths → ImportSection (group ++ lines) paths
  | package {name line : List Char} {lines : List (List Char)} {paths : List String} :
      PackageName name → Says ("package ".toList ++ name) line → Imports lines paths →
      ImportSection (line :: lines) paths

/-- The words that begin a declaration. -/
def declarators : List (List Char) :=
  ["func".toList, "var".toList, "const".toList, "type".toList]

/-- What may follow the lines of an import section: nothing, or a line that begins a declaration and
    whatever comes after that. -/
inductive Ending : List Char → Prop
  | nothing : Ending []
  | declaration {left word rest : List Char} : Margin left → word ∈ declarators →
      Ending ('\n' :: (left ++ (word ++ rest)))

/-! ## Lines of code -/

theorem Margin.blank {s : List Char} (h : Margin s) : ∀ c ∈ s, Text.isBlank c = true :=
  fun c hc => (h c hc).1

theorem Margin.oneLine {s : List Char} (h : Margin s) : '\n' ∉ s := fun hc => (h _ hc).2 rfl

theorem Margin.notMem {s : List Char} (h : Margin s) {c : Char} (hc : Text.isBlank c = false) :
    c ∉ s := by
  intro hmem
  rw [h.blank c hmem] at hc
  cases hc

theorem Tail.oneLine {s : List Char} (h : Tail s) : '\n' ∉ s := by
  cases h with
  | nothing => exact List.not_mem_nil
  | comment hgap htext => simp [hgap.oneLine, htext]

theorem Says.oneLine {code line : List Char} (h : Says code line) (hcode : '\n' ∉ code) :
    '\n' ∉ line := by
  obtain ⟨hleft, htail, hright⟩ := h
  simp [hleft.oneLine, hcode, htail.oneLine, hright.oneLine]

theorem Tail.trimEnd {s : List Char} (h : Tail s) : Tail (Text.trimEnd s) := by
  cases h with
  | nothing => exact .nothing
  | @comment gap text hgap htext =>
    have hshape : gap ++ '/' :: '/' :: text = (gap ++ ['/']) ++ '/' :: text := by simp
    rw [hshape, Text.trimEnd_append_cons (by decide), List.append_assoc, List.singleton_append]
    exact .comment hgap fun hmem => htext ((Text.trimEnd_prefix_self text).subset hmem)

/-- Of a line the code is left, and what stands behind it. -/
theorem Says.trim_eq {code line : List Char} (h : Says code line) (hcode : Text.Tidy code) :
    ∃ tail, Tail tail ∧ Text.trim line = code ++ tail := by
  obtain ⟨hleft, htail, hright⟩ := h
  refine ⟨_, htail.trimEnd, ?_⟩
  rw [Text.trim_blank_append hleft.blank, ← List.append_assoc, Text.trim_append_blank hright.blank,
    Text.trim_append_of_tidy hcode]

/-- Every slash of a code stands behind an odd number of quotes. -/
def Closed (code : List Char) : Prop :=
  ∀ before after, code = before ++ '/' :: after → before.count '"' % 2 = 1

/-- A code in which every slash stands inside quotes is left with a comment behind it, if any. -/
theorem stripComment_of_closed {code tail : List Char} (hclosed : Closed code)
    (hcode : Text.Tidy code) (htail : Tail tail) :
    ∃ tail', Tail tail' ∧ stripComment (code ++ tail) = code ++ tail' := by
  unfold stripComment
  split
  · next before after hcut =>
    split
    · next heven =>
      obtain ⟨hline, hfirst⟩ := (Text.cut?_eq_some_iff (by decide)).1 hcut
      refine ⟨[], .nothing, ?_⟩
      rcases List.append_eq_append_iff.1 hline with ⟨blanks, rfl, hrest⟩ | ⟨rest, hsplit, hrest⟩
      · rw [Text.trimEnd_append_of_tidy hcode, Text.trimEnd_of_blank]
        cases htail with
        | nothing => simp at hrest
        | @comment gap text hgap htext =>
          -- the line is cut no later than where the comment begins
          have hle := hfirst (code ++ gap) text (by simp)
          have hbegins : blanks <+: gap ++ '/' :: '/' :: text := by
            rw [hrest]
            exact List.prefix_append _ _
          have hshort : blanks.length ≤ gap.length := by
            simp only [List.length_append] at hle
            omega
          have hwithin := List.prefix_of_prefix_length_le hbegins (List.prefix_append _ _) hshort
          exact fun c hc => hgap.blank c (hwithin.subset hc)
      · cases rest with
        | nil =>
          rw [List.append_nil] at hsplit
          have htrim := Text.trimEnd_append_of_tidy hcode []
          rw [List.append_nil] at htrim
          rw [← hsplit, htrim]
          rfl
        | cons s rest =>
          obtain ⟨rfl, -⟩ := List.cons.inj hrest
          have hodd := hclosed before rest hsplit
          omega
    · exact ⟨tail, htail, rfl⟩
  · exact ⟨tail, htail, rfl⟩

/-- A code without slashes and quotes is left alone. -/
theorem stripComment_of_plain {code tail : List Char} (hcode : Text.Tidy code) (hslash : '/' ∉ code)
    (hquote : '"' ∉ code) (htail : Tail tail) : stripComment (code ++ tail) = code := by
  cases htail with
  | nothing =>
    have hnone : Text.cut? ['/', '/'] code = none :=
      Text.cut?_eq_none (by decide) fun hmark => hslash (hmark.subset List.mem_cons_self)
    rw [List.append_nil, stripComment, hnone]
  | @comment gap text hgap htext =>
    have hbefore : '/' ∉ code ++ gap := List.not_mem_append hslash (hgap.notMem (by decide))
    have hunquoted : '"' ∉ code ++ gap := List.not_mem_append hquote (hgap.notMem (by decide))
    have hcut : Text.cut? ['/', '/'] (code ++ (gap ++ '/' :: '/' :: text)) =
        some (code ++ gap, text) := by
      rw [← List.append_assoc]
      exact Text.cut?_of_notMem text hbefore
    rw [stripComment, hcut]
    dsimp only
    rw [List.count_eq_zero.2 hunquoted, if_pos rfl, Text.trimEnd_append_of_tidy hcode,
      Text.trimEnd_of_blank hgap.blank, List.append_nil]

/-- A word without slashes still begins the line when a comment is taken away. -/
theorem stripComment_append {word : List Char} (hword : Text.Tidy word) (hslash : '/' ∉ word)
    (rest : List Char) : ∃ rest', stripComment (word ++ rest) = word ++ rest' := by
  unfold stripComment
  split
  · next before after hcut =>
    obtain ⟨hline, -⟩ := (Text.cut?_eq_some_iff (by decide)).1 hcut
    have hbegins : ∃ more, before = word ++ more := by
      rcases List.append_eq_append_iff.1 hline with ⟨more, hmore, -⟩ | ⟨more, hsplit, hmore⟩
      · exact ⟨more, hmore⟩
      · cases more with
        | nil => exact ⟨[], by simpa using hsplit.symm⟩
        | cons c more =>
          obtain ⟨rfl, -⟩ := List.cons.inj hmore
          exact absurd (hsplit ▸ List.mem_append_right before List.mem_cons_self) hslash
    obtain ⟨more, rfl⟩ := hbegins
    split
    · exact ⟨_, Text.trimEnd_append_of_tidy hword more⟩
    · exact ⟨rest, rfl⟩
  · exact ⟨rest, rfl⟩

/-! ## Paths -/

/-- A path in quotes is found, whatever tail stands behind it. -/
theorem quotedPath?_quoted {path tail : List Char} (hpath : Importable path) (htail : Tail tail) :
    quotedPath? (quoted path ++ tail) = some (String.ofList path) := by
  have hinside : ∀ c ∈ path, decide (c ≠ '"') = true := by
    intro c hc
    refine decide_eq_true fun hquote => ?_
    exact hpath.unquoted (hquote ▸ hc)
  have htake : (path ++ '"' :: tail).takeWhile (· ≠ '"') = path := by
    rw [List.takeWhile_append_of_pos hinside, List.takeWhile_cons_of_neg (by simp), List.append_nil]
  have hdrop : (path ++ '"' :: tail).dropWhile (· ≠ '"') = '"' :: tail := by
    rw [List.dropWhile_append_of_pos hinside, List.dropWhile_cons_of_neg (by simp)]
  have hnamed : path.isEmpty = false := List.isEmpty_eq_false_iff.2 hpath.ne_nil
  have hshape : quoted path ++ tail = '"' :: (path ++ '"' :: tail) := by simp [quoted]
  have hafter : (Text.trimStart tail).isEmpty = true ∨
      (Text.strip? ['/', '/'] (Text.trimStart tail)).isSome = true := by
    cases htail with
    | nothing => exact .inl rfl
    | @comment gap text hgap _ =>
      have hstart : Text.trimStart (gap ++ '/' :: '/' :: text) = '/' :: '/' :: text := by
        rw [Text.trimStart_append_cons (by decide), Text.trimStart,
          List.dropWhile_eq_nil_iff.2 hgap.blank, List.nil_append]
      rw [hstart, Text.strip?_eq_some_iff.2 (rfl : '/' :: '/' :: text = ['/', '/'] ++ text)]
      exact .inr rfl
  rw [hshape, quotedPath?]
  dsimp only
  rw [hdrop, htake]
  dsimp only
  rw [hnamed, if_neg Bool.false_ne_true, if_pos (by simpa [Bool.or_eq_true] using hafter)]

/-- Behind an alias the quotes are found again. -/
theorem trimStart_gap {gap : List Char} (hgap : Margin gap) (path tail : List Char) :
    Text.trimStart (gap ++ (quoted path ++ tail)) = quoted path ++ tail := by
  have hshape : quoted path ++ tail = '"' :: (path ++ '"' :: tail) := by simp [quoted]
  rw [hshape, Text.trimStart_append_cons (by decide), Text.trimStart,
    List.dropWhile_eq_nil_iff.2 hgap.blank, List.nil_append]

/-- What continues a name is no blank. -/
theorem solid_of_continuesName {c : Char} (h : continuesName c = true) :
    Text.isBlank c = false := by
  rw [continuesName, Bool.or_eq_true, beq_iff_eq] at h
  rcases h with h | rfl
  · have hrange : (48 ≤ c.toNat ∧ c.toNat ≤ 57) ∨ (65 ≤ c.toNat ∧ c.toNat ≤ 90) ∨
        (97 ≤ c.toNat ∧ c.toNat ≤ 122) := by
      have hranges : (decide ('A'.val ≤ c.val ∧ c.val ≤ 'Z'.val) ||
          (decide ('a'.val ≤ c.val) && decide (c.val ≤ 'z'.val)) ||
          (decide ('0'.val ≤ c.val) && decide (c.val ≤ '9'.val))) = true := h
      simp only [Bool.or_eq_true, Bool.and_eq_true, decide_eq_true_eq, UInt32.le_iff_toNat_le]
        at hranges
      rcases hranges with (hupper | hlower) | hdigit
      · exact .inr (.inl hupper)
      · exact .inr (.inr hlower)
      · exact .inl hdigit
    simp only [Text.isBlank, Bool.or_eq_false_iff, Bool.and_eq_false_iff, decide_eq_false_iff_not,
      beq_eq_false_iff_ne]
    omega
  · decide

theorem continuesName_of_beginsName {c : Char} (h : beginsName c = true) :
    continuesName c = true := by
  simp only [beginsName, continuesName, Char.isAlphanum, Bool.or_eq_true] at h ⊢
  tauto

theorem importPath?_spec {path code tail : List Char} (hcode : Spec path code)
    (hpath : Importable path) (htail : Tail tail) :
    importPath? (code ++ tail) = some (String.ofList path) := by
  have hfound := quotedPath?_quoted hpath htail
  cases hcode with
  | bare =>
    have hnone : afterAlias? (quoted path ++ tail) = none := by
      have hquote : beginsName '"' = false := by decide
      simp [quoted, afterAlias?, hquote]
    rw [importPath?, hnone]
    exact hfound
  | @dot gap hgap hne =>
    obtain ⟨g, gap, rfl⟩ := List.exists_cons_of_ne_nil hne
    have hafter : afterAlias? ('.' :: (g :: gap ++ quoted path) ++ tail) =
        some (quoted path ++ tail) := by
      have hg : Text.isBlank g = true := hgap.blank g List.mem_cons_self
      have hrest := trimStart_gap (fun c hc => hgap c (List.mem_cons_of_mem g hc)) path tail
      simp only [List.cons_append, afterAlias?, hg, if_true, List.append_assoc, hrest]
    rw [importPath?, hafter]
    exact hfound
  | @named c rest gap hc hrest hgap hne =>
    obtain ⟨g, gap, rfl⟩ := List.exists_cons_of_ne_nil hne
    have hafter : afterAlias? (c :: (rest ++ (g :: gap ++ quoted path)) ++ tail) =
        some (quoted path ++ tail) := by
      have hg : Text.isBlank g = true := hgap.blank g List.mem_cons_self
      have hspaces := trimStart_gap (fun c hc => hgap c (List.mem_cons_of_mem g hc)) path tail
      have hend : continuesName g = false := by
        rw [Bool.eq_false_iff]
        intro hname
        rw [solid_of_continuesName hname] at hg
        cases hg
      have hname : (rest ++ g :: (gap ++ (quoted path ++ tail))).dropWhile continuesName =
          g :: (gap ++ (quoted path ++ tail)) := by
        rw [List.dropWhile_append_of_pos hrest, List.dropWhile_cons_of_neg (by simp [hend])]
      have hdot : c ≠ '.' := by
        rintro rfl
        exact absurd hc (by decide)
      simp only [List.cons_append, List.append_assoc, afterAlias?, hc, if_true, hname, hg, hspaces]
    rw [importPath?, hafter]
    exact hfound

/-! ## Codes -/

/-- A code is tidy if its first and its last character can be seen. -/
theorem tidy_of_ends {c c' : Char} {code : List Char} (hhead : code.head? = some c)
    (hlast : code.getLast? = some c') (hc : Text.isBlank c = false) (hc' : Text.isBlank c' = false)
    (hline : '\n' ∉ code) : Text.Tidy code := by
  refine ⟨?_, hline, fun b hb => ?_, fun b hb => ?_⟩
  · rintro rfl
    cases hhead
  · rw [hhead] at hb
    exact Option.some.inj hb ▸ hc
  · rw [hlast] at hb
    exact Option.some.inj hb ▸ hc'

/-- What stands before the quotes of a code that asks for a path. -/
theorem Spec.exists_front {path code : List Char} (h : Spec path code) :
    ∃ front, code = front ++ quoted path ∧ '\n' ∉ front ∧ '/' ∉ front ∧ '"' ∉ front ∧
      (∀ c, code.head? = some c → Text.isBlank c = false ∧ c ≠ ')' ∧ c ≠ '(') := by
  have hnot {rest : List Char} (hrest : ∀ c ∈ rest, continuesName c = true) {c : Char}
      (hc : continuesName c = false) : c ∉ rest := by
    intro hmem
    rw [hrest c hmem] at hc
    cases hc
  cases h with
  | bare => exact ⟨[], rfl, by simp, by simp, by simp, by rintro c ⟨⟩; decide⟩
  | @dot gap hgap _ =>
    refine ⟨'.' :: gap, rfl, ?_, ?_, ?_, by rintro c ⟨⟩; decide⟩
    · simp [hgap.oneLine]
    · simp [hgap.notMem (c := '/') (by decide)]
    · simp [hgap.notMem (c := '"') (by decide)]
  | @named first rest gap hfirst hrest hgap _ =>
    have hname : ∀ c ∈ first :: rest, continuesName c = true :=
      List.forall_mem_cons.2 ⟨continuesName_of_beginsName hfirst, hrest⟩
    have hfront {c : Char} (hc : continuesName c = false) (hgap : c ∉ gap) :
        c ∉ first :: (rest ++ gap) := by
      rw [← List.cons_append]
      exact List.not_mem_append (hnot hname hc) hgap
    refine ⟨first :: (rest ++ gap), by simp, hfront (by decide) hgap.oneLine,
      hfront (by decide) (hgap.notMem (by decide)), hfront (by decide) (hgap.notMem (by decide)),
      ?_⟩
    rintro c ⟨⟩
    refine ⟨solid_of_continuesName (hname _ List.mem_cons_self), ?_, ?_⟩
    · rintro rfl
      exact absurd hfirst (by decide)
    · rintro rfl
      exact absurd hfirst (by decide)

/-- In front of the quotes no slash stands and no quote, so every slash stands inside. -/
theorem closed_quoted {front path : List Char} (hslash : '/' ∉ front) (hquote : '"' ∉ front)
    (hpath : Importable path) : Closed (front ++ quoted path) := by
  intro before after h
  have hsplit : front ++ quoted path = (front ++ ['"']) ++ (path ++ ['"']) := by simp [quoted]
  rw [hsplit] at h
  have hfront : front.count '"' = 0 := List.count_eq_zero.2 hquote
  rcases List.append_eq_append_iff.1 h with ⟨inside, rfl, hinside⟩ | ⟨rest, hstart, hrest⟩
  · rcases List.append_eq_append_iff.1 hinside with ⟨more, rfl, hmore⟩ | ⟨more, rfl, -⟩
    · -- behind the path nothing but a quote is left
      exfalso
      have hlast : '/' ∈ ['"'] := hmore ▸ List.mem_append_right more List.mem_cons_self
      exact absurd hlast (by decide)
    · have hnone : inside.count '"' = 0 :=
        List.count_eq_zero.2 fun hmem => hpath.unquoted (List.mem_append_left more hmem)
      simp [List.count_append, hnone, hfront]
  · cases rest with
    | nil =>
      rw [List.append_nil] at hstart
      simp [← hstart, List.count_append, hfront]
    | cons r rest =>
      obtain ⟨rfl, -⟩ := List.cons.inj hrest
      have hmem : '/' ∈ front ++ ['"'] := hstart ▸ List.mem_append_right before List.mem_cons_self
      exact absurd hmem (List.not_mem_append hslash (by decide))

/-- What is known of a code that asks for a path. -/
theorem Spec.tidy_closed {path code : List Char} (h : Spec path code) (hpath : Importable path)
    (front : List Char) (hline : '\n' ∉ front) (hslash : '/' ∉ front) (hquote : '"' ∉ front)
    (hhead : ∀ c, (front ++ code).head? = some c → Text.isBlank c = false) :
    Text.Tidy (front ++ code) ∧ Closed (front ++ code) := by
  obtain ⟨start, rfl, hline', hslash', hquote', -⟩ := h.exists_front
  have hshape : front ++ (start ++ quoted path) = (front ++ start) ++ quoted path :=
    (List.append_assoc _ _ _).symm
  refine ⟨⟨?_, ?_, hhead, fun c hc => ?_⟩, ?_⟩
  · simp [quoted]
  · simp [quoted, hline, hline', hpath.oneLine]
  · have hlast : (front ++ (start ++ quoted path)).getLast? = some '"' := by
      rw [hshape, quoted, ← List.cons_append, ← List.append_assoc, List.getLast?_concat]
    rw [hlast] at hc
    cases hc
    decide
  · rw [hshape]
    exact closed_quoted (List.not_mem_append hslash hslash') (List.not_mem_append hquote hquote')
      hpath

/-! ## Steps -/

namespace Scanner

variable {inBlock : Bool} {found : List String} {paths : List String}

/-- Note a path unless it is noted already. -/
def add (found : List String) (path : String) : List String :=
  if found.contains path then found else found ++ [path]

/-- Note paths one after the other. -/
def addAll (found paths : List String) : List String := paths.foldl add found

theorem addAll_append (found paths paths' : List String) :
    addAll found (paths ++ paths') = addAll (addAll found paths) paths' :=
  List.foldl_append

/-- Paths that are noted come behind those that were found, in order of first appearance. -/
theorem addAll_eq {found : List String} (hfound : found.Nodup) (paths : List String) :
    addAll found paths = (found ++ paths).eraseDups := by
  induction paths using List.reverseRecOn with
  | nil => rw [List.append_nil, eraseDups_of_nodup hfound, addAll, List.foldl_nil]
  | append_singleton paths path ih =>
    rw [addAll_append, ih, ← List.append_assoc, eraseDups_concat, addAll, List.foldl_cons,
      List.foldl_nil, add]
    simp only [List.contains_iff_mem, List.mem_eraseDups]

theorem note_eq {s : Scanner} {text : List Char} {path : String}
    (h : importPath? text = some path) : s.note text = { s with found := add s.found path } := by
  rw [note, h, add]
  dsimp only
  split <;> rfl

/-- A line that opens no block comment is taken without its line comment. -/
theorem step_of_trim {raw line : List Char} (hline : Text.trim raw = line)
    (hopen : Text.strip? ['/', '*'] line = none) :
    step ⟨inBlock, false, false, found⟩ raw =
      codeLine ⟨inBlock, false, false, found⟩ (stripComment line) := by
  rw [step, hline]
  simp only [leaveComment, dropComment, hopen, Bool.false_eq_true, if_false]

theorem strip?_cons_of_ne {a c : Char} (h : a ≠ c) (start s : List Char) :
    Text.strip? (a :: start) (c :: s) = none := by
  rw [Text.strip?, if_neg h]

/-- A line that says a code is taken as that code, perhaps with a comment behind it. -/
theorem step_says (inBlock : Bool) (found : List String) {code raw : List Char}
    (h : Says code raw) (hcode : Text.Tidy code) (hclosed : Closed code) :
    ∃ tail, Tail tail ∧ step ⟨inBlock, false, false, found⟩ raw =
      codeLine ⟨inBlock, false, false, found⟩ (code ++ tail) := by
  obtain ⟨tail, htail, htrim⟩ := h.trim_eq hcode
  obtain ⟨c, rest, rfl⟩ := List.exists_cons_of_ne_nil hcode.ne_nil
  have hslash : '/' ≠ c := by
    rintro rfl
    exact absurd (hclosed [] rest rfl) (by decide)
  obtain ⟨tail', htail', hstrip⟩ := stripComment_of_closed hclosed hcode htail
  refine ⟨tail', htail', ?_⟩
  rw [step_of_trim htrim (strip?_cons_of_ne hslash _ _), hstrip]

/-- Without slashes and quotes it is taken as that code alone. -/
theorem step_says_plain {code raw : List Char} (h : Says code raw) (hcode : Text.Tidy code)
    (hslash : '/' ∉ code) (hquote : '"' ∉ code) : step ⟨inBlock, false, false, found⟩ raw =
      codeLine ⟨inBlock, false, false, found⟩ code := by
  obtain ⟨tail, htail, htrim⟩ := h.trim_eq hcode
  obtain ⟨c, rest, rfl⟩ := List.exists_cons_of_ne_nil hcode.ne_nil
  have hne : '/' ≠ c := fun heq => hslash (heq ▸ List.mem_cons_self)
  rw [step_of_trim htrim (strip?_cons_of_ne hne _ _),
    stripComment_of_plain hcode hslash hquote htail]

/-- Nothing comes of a line on which nothing is left. -/
theorem step_blank {raw : List Char} (h : Text.trim raw = []) :
    step ⟨inBlock, false, false, found⟩ raw = ⟨inBlock, false, false, found⟩ := by
  rw [step_of_trim h rfl]
  rfl

/-! ### Lines that say nothing -/

/-- The end of a comment is found behind a text in which it does not stand. -/
theorem cut?_close {text : List Char} (h : ¬ close <:+: text) :
    Text.cut? ['*', '/'] (text ++ close) = some (text, []) := by
  refine (Text.cut?_eq_some_iff (by decide)).2 ⟨by simp [close], fun front rest hfront => ?_⟩
  rcases List.append_eq_append_iff.1 hfront with ⟨more, rfl, -⟩ | ⟨inside, rfl, hinside⟩
  · simp
  · -- a mark that began in the text would end in it, since it does not overlap itself
    cases inside with
    | nil => simp
    | cons c inside =>
      cases inside with
      | nil =>
        simp [close] at hinside
      | cons c' inside =>
        obtain ⟨rfl, rfl, -⟩ : '*' = c ∧ '/' = c' ∧ rest = inside ++ close := by
          simpa using hinside
        exact absurd ⟨front, inside, by simp [close]⟩ h

theorem cut?_open {text : List Char} (h : ¬ close <:+: text) :
    Text.cut? ['*', '/'] text = none :=
  Text.cut?_eq_none (by decide) h

/-- Of a line that begins with a tidy word nothing is lost but blanks at its ends. -/
theorem trim_opening {left : List Char} (hleft : Margin left) {word : List Char}
    (hword : Text.Tidy word) (text : List Char) :
    Text.trim (left ++ (word ++ text)) = word ++ Text.trimEnd text := by
  rw [Text.trim_blank_append hleft.blank, Text.trim_append_of_tidy hword]

theorem trimEnd_close (text : List Char) : Text.trimEnd (text ++ close) = text ++ close := by
  have hshape : text ++ close = (text ++ ['*']) ++ '/' :: [] := by simp [close]
  rw [hshape, Text.trimEnd_append_cons (by decide)]
  rfl

theorem dropComment_opening (text : List Char) : dropComment ('/' :: '*' :: text) =
    (Text.cut? ['*', '/'] text).map fun cut => Text.trim cut.2 := by
  have hstrip : Text.strip? ['/', '*'] ('/' :: '*' :: text) = some text :=
    Text.strip?_eq_some_iff.2 rfl
  rw [dropComment, hstrip]

/-- A block comment that is not ended on its first line hides the lines after it. -/
theorem step_open {left first : List Char} (hleft : Margin left) (hfirst : ¬ close <:+: first) :
    step ⟨inBlock, false, false, found⟩ (left ++ '/' :: '*' :: first) =
      ⟨inBlock, true, false, found⟩ := by
  have htrim : Text.trim (left ++ '/' :: '*' :: first) = '/' :: '*' :: Text.trimEnd first :=
    trim_opening hleft (by decide : Text.Tidy ['/', '*']) first
  have hnone : Text.cut? ['*', '/'] (Text.trimEnd first) = none :=
    cut?_open fun hmark => hfirst (hmark.trans (Text.trimEnd_prefix_self first).isInfix)
  have hdrop : dropComment ('/' :: '*' :: Text.trimEnd first) = none := by
    rw [dropComment_opening, hnone, Option.map_none]
  rw [step, htrim]
  simp only [leaveComment, hdrop, Bool.false_eq_true, if_false]

theorem step_hidden {line : List Char} (hline : ¬ close <:+: line) :
    step ⟨inBlock, true, false, found⟩ line = ⟨inBlock, true, false, found⟩ := by
  have hnone : Text.cut? ['*', '/'] (Text.trim line) = none :=
    cut?_open fun hmark => hline (hmark.trans (Text.trim_infix line))
  simp only [step, leaveComment, hnone, Option.map_none, Bool.false_eq_true, if_false, if_true]

theorem foldl_hidden {lines : List (List Char)} (hlines : ∀ line ∈ lines, ¬ close <:+: line) :
    lines.foldl step ⟨inBlock, true, false, found⟩ = ⟨inBlock, true, false, found⟩ := by
  induction lines with
  | nil => rfl
  | cons line lines ih =>
    obtain ⟨hline, hrest⟩ := List.forall_mem_cons.1 hlines
    rw [List.foldl_cons, step_hidden hline, ih hrest]

/-- Where the comment ends and nothing stands behind it, the scanner is where it was before. -/
theorem step_close {last right : List Char} (hlast : ¬ close <:+: last) (hright : Margin right) :
    step ⟨inBlock, true, false, found⟩ (last ++ (close ++ right)) =
      ⟨inBlock, false, false, found⟩ := by
  have htrim : Text.trim (last ++ (close ++ right)) = Text.trimStart last ++ close := by
    have hstart : Text.trimStart (last ++ close) = Text.trimStart last ++ close :=
      Text.trimStart_append_cons (c := '*') (by decide) last ['/']
    rw [← List.append_assoc, Text.trim_append_blank hright.blank, Text.trim, hstart, trimEnd_close]
  have hcut : Text.cut? ['*', '/'] (Text.trimStart last ++ close) =
      some (Text.trimStart last, []) :=
    cut?_close fun hmark => hlast (hmark.trans (List.dropWhile_suffix _).isInfix)
  rw [step, htrim]
  simp only [leaveComment, hcut, Option.map_some, Bool.false_eq_true, if_false, if_true]
  rfl

/-- A block comment on one line is taken away. -/
theorem step_inline {left text right : List Char} (hleft : Margin left) (htext : ¬ close <:+: text)
    (hright : Margin right) :
    step ⟨inBlock, false, false, found⟩ (left ++ ('/' :: '*' :: text ++ (close ++ right))) =
      ⟨inBlock, false, false, found⟩ := by
  have htrim : Text.trim (left ++ ('/' :: '*' :: text ++ (close ++ right))) =
      '/' :: '*' :: (text ++ close) := by
    have hshape : left ++ ('/' :: '*' :: text ++ (close ++ right)) =
        left ++ (['/', '*'] ++ (text ++ close)) ++ right := by simp
    rw [hshape, Text.trim_append_blank hright.blank, trim_opening hleft (by decide), trimEnd_close]
    rfl
  have hdrop : dropComment ('/' :: '*' :: (text ++ close)) = some [] := by
    rw [dropComment_opening, cut?_close htext]
    rfl
  rw [step, htrim]
  simp only [leaveComment, hdrop, Bool.false_eq_true, if_false]
  rfl

theorem step_comment {left text : List Char} (hleft : Margin left) :
    step ⟨inBlock, false, false, found⟩ (left ++ '/' :: '/' :: text) =
      ⟨inBlock, false, false, found⟩ := by
  have htrim : Text.trim (left ++ '/' :: '/' :: text) = '/' :: '/' :: Text.trimEnd text :=
    trim_opening hleft (by decide : Text.Tidy ['/', '/']) text
  have hopen : Text.strip? ['/', '*'] ('/' :: '/' :: Text.trimEnd text) = none := by
    rw [Text.strip?, if_pos rfl, strip?_cons_of_ne (by decide)]
  have hcut : Text.cut? ['/', '/'] ('/' :: '/' :: Text.trimEnd text) =
      some ([], Text.trimEnd text) :=
    Text.cut?_of_notMem _ (List.not_mem_nil : '/' ∉ [])
  rw [step_of_trim htrim hopen, stripComment, hcut]
  rfl

/-- Lines that say nothing leave the scanner where it is. -/
theorem run_filler {group : List (List Char)} (h : Filler group) :
    group.foldl step ⟨inBlock, false, false, found⟩ = ⟨inBlock, false, false, found⟩ := by
  cases h with
  | blank hline => exact step_blank (Text.trim_of_blank hline.blank)
  | comment hleft _ => exact step_comment hleft
  | inline hleft _ htext hright => exact step_inline hleft htext hright
  | block hleft _ hfirst hmiddle _ hlast hright =>
    rw [List.foldl_cons, List.foldl_append, step_open hleft hfirst,
      foldl_hidden fun line hline => (hmiddle line hline).2]
    exact step_close hlast hright

/-! ### Imports -/

/-- In a block a path is noted. -/
theorem step_blockSpec {path code raw : List Char} (hpath : Importable path)
    (hcode : Spec path code) (h : Says code raw) : step ⟨true, false, false, found⟩ raw =
      ⟨true, false, false, add found (String.ofList path)⟩ := by
  obtain ⟨front, hfront, -, -, -, hhead⟩ := hcode.exists_front
  have hparts := hcode.tidy_closed hpath [] List.not_mem_nil List.not_mem_nil
    List.not_mem_nil fun c hc => (hhead c hc).1
  obtain ⟨tail, htail, hstep⟩ := step_says true found h hparts.1 hparts.2
  have hpathOf := importPath?_spec hcode hpath htail
  obtain ⟨c, rest, rfl⟩ := List.exists_cons_of_ne_nil hparts.1.ne_nil
  have hne : c ≠ ')' := (hhead c rfl).2.1
  rw [hstep, codeLine, if_neg (by simp), if_pos rfl, blockLine, if_neg (by simpa using hne),
    note_eq hpathOf]

theorem strip?_append (start rest : List Char) : Text.strip? start (start ++ rest) = some rest :=
  Text.strip?_eq_some_iff.2 rfl

/-- A line that begins with the word for an import is taken as what follows it. -/
theorem topLine_import (s : Scanner) {rest : List Char} {c : Char} {spec : List Char}
    (hrest : Text.trimStart rest = c :: spec) :
    s.topLine ("import".toList ++ rest) =
      if c = '(' then s.openBlock spec else s.note (c :: spec) := by
  have hpackage : Text.strip? "package ".toList ("import".toList ++ rest) = none :=
    strip?_cons_of_ne (by decide) _ _
  rw [topLine, hpackage, if_neg (by decide), strip?_append]
  dsimp only
  rw [hrest]
  split_ifs with hparen
  · subst hparen
    rfl
  · split
    · next inner hinner => exact absurd (List.cons.inj hinner).1 hparen
    · rfl

theorem codeLine_import {s : Scanner} (hblock : s.inBlock = false) (rest : List Char) :
    s.codeLine ("import".toList ++ rest) = s.topLine ("import".toList ++ rest) := by
  rw [codeLine, if_neg (by simp), hblock, if_neg Bool.false_ne_true]

/-- Between imports a path is noted that stands behind the word for it. -/
theorem step_single {path code gap raw : List Char} (hpath : Importable path)
    (hcode : Spec path code) (hgap : Margin gap) (h : Says ("import".toList ++ (gap ++ code)) raw) :
    step ⟨false, false, false, found⟩ raw =
      ⟨false, false, false, add found (String.ofList path)⟩ := by
  obtain ⟨front, hfront, -, -, -, hhead⟩ := hcode.exists_front
  have hparts := hcode.tidy_closed hpath ("import".toList ++ gap)
    (List.not_mem_append (by decide) hgap.oneLine)
    (List.not_mem_append (by decide) (hgap.notMem (by decide)))
    (List.not_mem_append (by decide) (hgap.notMem (by decide))) (by rintro c ⟨⟩; decide)
  rw [List.append_assoc] at hparts
  obtain ⟨tail, htail, hstep⟩ := step_says false found h hparts.1 hparts.2
  have hpathOf := importPath?_spec hcode hpath htail
  obtain ⟨c, rest, rfl⟩ : ∃ c rest, code = c :: rest :=
    List.exists_cons_of_ne_nil (by simp [hfront, quoted])
  obtain ⟨hsolid, -, hne⟩ := hhead c rfl
  have hstart : Text.trimStart (gap ++ (c :: (rest ++ tail))) = c :: (rest ++ tail) := by
    rw [Text.trimStart_append_cons hsolid, Text.trimStart, List.dropWhile_eq_nil_iff.2 hgap.blank,
      List.nil_append]
  rw [hstep, List.append_assoc, List.append_assoc, List.cons_append, codeLine_import rfl,
    topLine_import _ hstart, if_neg hne]
  exact note_eq hpathOf

/-- The line that opens a block. -/
theorem step_opening {gap raw : List Char} (hgap : Margin gap)
    (h : Says ("import".toList ++ (gap ++ ['('])) raw) :
    step ⟨false, false, false, found⟩ raw = ⟨true, false, false, found⟩ := by
  have hnot {c : Char} (hword : c ∉ "import".toList) (hparen : c ∉ ['(']) (hc : c ∉ gap) :
      c ∉ "import".toList ++ (gap ++ ['(']) :=
    List.not_mem_append hword (List.not_mem_append hc hparen)
  have htidy : Text.Tidy ("import".toList ++ (gap ++ ['('])) :=
    tidy_of_ends (c := 'i') (by simp) (by rw [← List.append_assoc, List.getLast?_concat])
      (by decide) (by decide) (hnot (by decide) (by decide) hgap.oneLine)
  have hstart : Text.trimStart (gap ++ ['(']) = ['('] := by
    rw [Text.trimStart_append_cons (by decide), Text.trimStart,
      List.dropWhile_eq_nil_iff.2 hgap.blank, List.nil_append]
  rw [step_says_plain h htidy (hnot (by decide) (by decide) (hgap.notMem (by decide)))
    (hnot (by decide) (by decide) (hgap.notMem (by decide))), codeLine_import rfl,
    topLine_import _ hstart, if_pos rfl]
  rfl

/-- The line that closes a block. -/
theorem step_closing {raw : List Char} (h : Says [')'] raw) :
    step ⟨true, false, false, found⟩ raw = ⟨false, false, false, found⟩ := by
  rw [step_says_plain h (by decide) (by decide) (by decide)]
  rfl

/-- The package clause. -/
theorem step_package {name raw : List Char} (hname : PackageName name)
    (h : Says ("package ".toList ++ name) raw) :
    step ⟨false, false, false, found⟩ raw = ⟨false, false, false, found⟩ := by
  obtain ⟨c, hlast⟩ := Option.ne_none_iff_exists'.1 (mt List.getLast?_eq_none_iff.1 hname.ne_nil)
  obtain ⟨init, rfl⟩ := List.getLast?_eq_some_iff.1 hlast
  have hsolid : Text.isBlank c = false := (hname.solid c (by simp)).1
  have hline : '\n' ∉ init ++ [c] := by
    intro hmem
    exact absurd (hname.solid _ hmem).1 (by decide)
  have htidy : Text.Tidy ("package ".toList ++ (init ++ [c])) :=
    tidy_of_ends (c := 'p') (by simp) (by rw [← List.append_assoc, List.getLast?_concat])
      (by decide) hsolid (List.not_mem_append (by decide) hline)
  have hslash : '/' ∉ init ++ [c] := fun hmem => (hname.solid _ hmem).2.1 rfl
  have hquote : '"' ∉ init ++ [c] := fun hmem => (hname.solid _ hmem).2.2 rfl
  rw [step_says_plain h htidy (List.not_mem_append (by decide) hslash)
    (List.not_mem_append (by decide) hquote), codeLine, if_neg (by simp),
    if_neg Bool.false_ne_true, topLine, strip?_append, Option.isSome_some, if_pos rfl]

/-- The lines of a block have their paths noted. -/
theorem run_block {lines : List (List Char)} (h : Block lines paths) (found : List String) :
    lines.foldl step ⟨true, false, false, found⟩ = ⟨true, false, false, addAll found paths⟩ := by
  induction h generalizing found with
  | nil => rfl
  | filler hgroup _ ih => rw [List.foldl_append, run_filler hgroup, ih]
  | spec hpath hcode htells _ ih =>
    rw [List.foldl_cons, step_blockSpec hpath hcode htells, ih, addAll, addAll, List.foldl_cons]

/-- And so have those of imports. -/
theorem run_imports {lines : List (List Char)} (h : Imports lines paths) (found : List String) :
    lines.foldl step ⟨false, false, false, found⟩ = ⟨false, false, false, addAll found paths⟩ := by
  induction h generalizing found with
  | nil => rfl
  | filler hgroup _ ih => rw [List.foldl_append, run_filler hgroup, ih]
  | single hpath hcode hgap htells _ ih =>
    rw [List.foldl_cons, step_single hpath hcode hgap htells, ih, addAll, addAll, List.foldl_cons]
  | block hgap hopening hbody hclosing _ ih =>
    rw [List.foldl_cons, List.foldl_append, List.foldl_cons, step_opening hgap hopening,
      run_block hbody, step_closing hclosing, ih, addAll_append]

theorem run_section {lines : List (List Char)} (h : ImportSection lines paths)
    (found : List String) :
    lines.foldl step ⟨false, false, false, found⟩ = ⟨false, false, false, addAll found paths⟩ := by
  induction h with
  | filler hgroup _ ih => rw [List.foldl_append, run_filler hgroup, ih]
  | package hname htells himports =>
    rw [List.foldl_cons, step_package hname htells, run_imports himports]

/-! ### The end of a section -/

/-- What comes after the first declaration is not looked at. -/
theorem foldl_finished {s : Scanner} (h : s.finished = true) (lines : List (List Char)) :
    lines.foldl step s = s := by
  induction lines with
  | nil => rfl
  | cons line lines ih => rw [List.foldl_cons, step, if_pos h, ih]

/-- With a line that begins a declaration the section is over. -/
theorem step_declaration {left word : List Char} (hleft : Margin left)
    (hword : word ∈ declarators) (rest : List Char) :
    step ⟨false, false, false, found⟩ (left ++ (word ++ rest)) = ⟨false, false, true, found⟩ := by
  have hwords : ∀ word ∈ declarators, Text.Tidy word ∧ '/' ∉ word ∧
      word.head? ≠ some '/' ∧ word.head? ≠ some 'p' ∧ word.head? ≠ some 'i' := by decide
  obtain ⟨htidy, hslash, hopen, hpackage, himport⟩ := hwords word hword
  obtain ⟨rest', hrest'⟩ := stripComment_append htidy hslash (Text.trimEnd rest)
  obtain ⟨c, word, rfl⟩ := List.exists_cons_of_ne_nil htidy.ne_nil
  have hother {b : Char} (h : (c :: word).head? ≠ some b) : b ≠ c := fun heq => h (heq ▸ rfl)
  rw [step_of_trim (trim_opening hleft htidy rest) (strip?_cons_of_ne (hother hopen) _ _), hrest',
    codeLine, if_neg (by simp), if_neg Bool.false_ne_true, topLine]
  have hnoPackage : Text.strip? "package ".toList (c :: word ++ rest') = none :=
    strip?_cons_of_ne (hother hpackage) _ _
  have hnoImport : Text.strip? "import".toList (c :: word ++ rest') = none :=
    strip?_cons_of_ne (hother himport) _ _
  rw [hnoPackage, hnoImport]
  rfl

theorem step_dropReturn (s : Scanner) (raw : List Char) :
    step s (Text.dropReturn raw) = step s raw := by
  rw [step, step, Text.trim_dropReturn]

theorem step_nil (s : Scanner) : step s [] = s := by
  obtain ⟨inBlock, inComment, finished, found⟩ := s
  cases finished <;> cases inComment <;> rfl

/-- A carriage return at the end of a line makes no difference, nor does an empty last line. -/
theorem foldl_lines (s : Scanner) (text : List Char) :
    (Text.lines text).foldl step s = (Text.splitOn '\n' text).foldl step s := by
  have hreturns (pieces : List (List Char)) :
      (pieces.map Text.dropReturn).foldl step s = pieces.foldl step s := by
    rw [List.foldl_map]
    simp only [step_dropReturn]
  rcases List.eq_nil_or_concat (Text.splitOn '\n' text) with hnil | ⟨pieces, last, hpieces⟩
  · exact absurd hnil (Text.splitOn_ne_nil '\n' text)
  · rw [List.concat_eq_append] at hpieces
    rw [Text.lines, hpieces]
    rw [List.dropLast_concat, List.getLast?_concat, Option.getD_some, List.foldl_append,
      List.foldl_append, hreturns]
    split
    · next hempty => rw [List.isEmpty_iff.1 hempty, List.foldl_cons, step_nil]
    · rfl

end Scanner

/-! ## The imports of a source -/

theorem Filler.oneLine {group : List (List Char)} (h : Filler group) :
    ∀ line ∈ group, '\n' ∉ line := by
  have hclose : '\n' ∉ close := by decide
  cases h with
  | blank hline => simpa using hline.oneLine
  | comment hleft htext => simp [hleft.oneLine, htext]
  | inline hleft hone _ hright => simp [hleft.oneLine, hone, hclose, hright.oneLine]
  | block hleft hfirst _ hmiddle hlast _ hright =>
    intro line hline
    rcases List.mem_cons.1 hline with rfl | hline
    · simp [hleft.oneLine, hfirst]
    · rcases List.mem_append.1 hline with hline | hline
      · exact (hmiddle line hline).1
      · rw [List.mem_singleton.1 hline]
        simp [hlast, hclose, hright.oneLine]

theorem Spec.oneLine {path code : List Char} (h : Spec path code) (hpath : Importable path) :
    '\n' ∉ code := by
  obtain ⟨front, rfl, hfront, -⟩ := h.exists_front
  simp [quoted, hfront, hpath.oneLine]

theorem Block.oneLine {lines : List (List Char)} {paths : List String} (h : Block lines paths) :
    ∀ line ∈ lines, '\n' ∉ line := by
  induction h with
  | nil => exact fun line hline => absurd hline List.not_mem_nil
  | filler hgroup _ ih => exact List.forall_mem_append.2 ⟨hgroup.oneLine, ih⟩
  | spec hpath hcode htells _ ih =>
    exact List.forall_mem_cons.2 ⟨htells.oneLine (hcode.oneLine hpath), ih⟩

theorem Imports.oneLine {lines : List (List Char)} {paths : List String}
    (h : Imports lines paths) : ∀ line ∈ lines, '\n' ∉ line := by
  have hword : '\n' ∉ "import".toList := by decide
  induction h with
  | nil => exact fun line hline => absurd hline List.not_mem_nil
  | filler hgroup _ ih => exact List.forall_mem_append.2 ⟨hgroup.oneLine, ih⟩
  | single hpath hcode hgap htells _ ih =>
    refine List.forall_mem_cons.2 ⟨htells.oneLine ?_, ih⟩
    exact List.not_mem_append hword (List.not_mem_append hgap.oneLine (hcode.oneLine hpath))
  | block hgap hopening hbody hclosing _ ih =>
    refine List.forall_mem_cons.2 ⟨hopening.oneLine ?_, List.forall_mem_append.2
      ⟨hbody.oneLine, List.forall_mem_cons.2 ⟨hclosing.oneLine (by decide), ih⟩⟩⟩
    exact List.not_mem_append hword (List.not_mem_append hgap.oneLine (by decide))

theorem ImportSection.oneLine {lines : List (List Char)} {paths : List String}
    (h : ImportSection lines paths) : lines ≠ [] ∧ ∀ line ∈ lines, '\n' ∉ line := by
  induction h with
  | filler hgroup _ ih =>
    refine ⟨fun hnil => ih.1 (List.append_eq_nil_iff.1 hnil).2, ?_⟩
    exact List.forall_mem_append.2 ⟨hgroup.oneLine, ih.2⟩
  | package hname htells himports =>
    refine ⟨List.cons_ne_nil _ _, List.forall_mem_cons.2 ⟨htells.oneLine ?_, himports.oneLine⟩⟩
    refine List.not_mem_append (by decide) fun hmem => ?_
    exact absurd (hname.solid _ hmem).1 (by decide)

/-- The imports of a source with a well formed import section are its paths in order of first
    appearance, whatever comes after the first declaration. -/
theorem imports_of_section {lines : List (List Char)} {paths : List String} {ending : List Char}
    (h : ImportSection lines paths) (hending : Ending ending) :
    imports (String.ofList (['\n'].intercalate lines ++ ending)) = paths.eraseDups := by
  obtain ⟨hne, hlines⟩ := h.oneLine
  have hsplit := Text.splitOn_intercalate hne hlines
  have hrun : lines.foldl Scanner.step .start = ⟨false, false, false, paths.eraseDups⟩ := by
    rw [Scanner.start, Scanner.run_section h, Scanner.addAll_eq List.nodup_nil, List.nil_append]
  rw [imports, Text.linesOf, String.toList_ofList, Scanner.foldl_lines]
  cases hending with
  | nothing => rw [List.append_nil, hsplit, hrun]
  | @declaration left word rest hleft hword =>
    have hone : '\n' ∉ left ++ word := by
      have hwords : ∀ word ∈ declarators, '\n' ∉ word := by decide
      exact List.not_mem_append hleft.oneLine (hwords word hword)
    obtain ⟨first, more, hrest⟩ :=
      List.exists_cons_of_ne_nil (Text.splitOn_ne_nil '\n' rest)
    rw [Text.splitOn_append_sep, hsplit, ← List.append_assoc,
      Text.splitOn_append_of_notMem hone hrest, List.foldl_append, hrun, List.foldl_cons,
      List.append_assoc, Scanner.step_declaration hleft hword, Scanner.foldl_finished rfl]

/-- A comment does not end where there is no star. -/
theorem close_absent {s : List Char} (h : '*' ∉ s) : ¬ close <:+: s :=
  fun hmark => h (hmark.subset List.mem_cons_self)

/-- Comments in which there are quotes, paths in which there are slashes and a parenthesis, and a
    declaration behind which comes one more import. -/
theorem imports_of_section_mixed :
    let source := "// \"x\"\npackage main // p\nimport (\n\tf \"a//b\" // \"q\"\n" ++
      "/* import \"y\"\n*/\n. \"c)\"\n)\nimport \"a//b\"\nvar x int\nimport \"z\"\n"
    ∃ lines paths ending, ImportSection lines paths ∧ Ending ending ∧
      source = String.ofList (['\n'].intercalate lines ++ ending) ∧
      imports source = ["a//b", "c)"] := by
  intro source
  have hnone : Margin [] := by decide
  have hspace : Margin [' '] := by decide
  have hhead : Filler [[] ++ '/' :: '/' :: " \"x\"".toList] := .comment hnone (by decide)
  have hpackage : Says ("package ".toList ++ "main".toList)
      ([] ++ ("package ".toList ++ "main".toList ++ ([' '] ++ '/' :: '/' :: " p".toList ++ []))) :=
    .mk hnone (.comment hspace (by decide)) hnone
  have hopening : Says ("import".toList ++ ([' '] ++ ['(']))
      ([] ++ ("import".toList ++ ([' '] ++ ['(']) ++ ([] ++ []))) := .mk hnone .nothing hnone
  have hfirst : Says ('f' :: ([] ++ ([' '] ++ quoted "a//b".toList)))
      (['\t'] ++ ('f' :: ([] ++ ([' '] ++ quoted "a//b".toList)) ++
        ([' '] ++ '/' :: '/' :: " \"q\"".toList ++ []))) :=
    .mk (by decide) (.comment hspace (by decide)) hnone
  have hcomment : Filler (([] ++ '/' :: '*' :: " import \"y\"".toList) ::
      ([] ++ [[] ++ (close ++ [])])) :=
    .block hnone (by decide) (close_absent (by decide))
      (fun line hline => absurd hline List.not_mem_nil) (by decide) (close_absent (by decide)) hnone
  have hsecond : Says ('.' :: ([' '] ++ quoted "c)".toList))
      ([] ++ ('.' :: ([' '] ++ quoted "c)".toList) ++ ([] ++ []))) := .mk hnone .nothing hnone
  have hclosing : Says [')'] ([] ++ ([')'] ++ ([] ++ []))) := .mk hnone .nothing hnone
  have hsingle : Says ("import".toList ++ ([' '] ++ quoted "a//b".toList))
      ([] ++ ("import".toList ++ ([' '] ++ quoted "a//b".toList) ++ ([] ++ []))) :=
    .mk hnone .nothing hnone
  have hslashes : Importable "a//b".toList := ⟨by decide, by decide, by decide⟩
  have hparen : Importable "c)".toList := ⟨by decide, by decide, by decide⟩
  have hsolid : "main".toList.all (fun c => !Text.isBlank c && c != '/' && c != '"') = true := by
    decide
  have hname : PackageName "main".toList := ⟨by decide, by simpa [and_assoc] using hsolid⟩
  have halias : ∀ c ∈ ([] : List Char), continuesName c = true := fun c hc =>
    absurd hc List.not_mem_nil
  have hblock := Block.spec hslashes (.named (by decide) halias hspace (by decide)) hfirst
    (.filler hcomment (.spec hparen (.dot hspace (by decide)) hsecond .nil))
  have hsection := ImportSection.filler hhead (.package hname hpackage (.block hspace hopening hblock
    hclosing (.single hslashes .bare hspace hsingle .nil)))
  have hending : Ending ('\n' :: ([] ++ ("var".toList ++ " x int\nimport \"z\"\n".toList))) :=
    .declaration hnone (by decide)
  have hfound := imports_of_section hsection hending
  have hsource : ∀ text, source = text → imports text = ["a//b", "c)"] →
      source = text ∧ imports source = ["a//b", "c)"] := by
    rintro text rfl himports
    exact ⟨rfl, himports⟩
  exact ⟨_, _, _, hsection, hending, hsource _ (by decide +kernel) (hfound.trans (by decide))⟩

end Source

end Workbench
