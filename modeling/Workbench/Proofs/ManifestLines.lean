import Mathlib.Data.List.Basic
import Mathlib.Data.List.Induction
import Mathlib.Data.List.TakeWhile
import Workbench.Manifest

set_option autoImplicit false

/-! # Appending to a manifest

A line that is appended to a text whose last line is ended adds one binding to the manifest that is
read from it: the last one of its import path. For this the columns must be found again by the arrow
between them, so the import path holds no blank, and no line ends within the stored path. -/

namespace Workbench

namespace Text

theorem trimStart_eq_self {s : List Char} (h : ∀ c, s.head? = some c → isBlank c = false) :
    trimStart s = s := by
  cases s with
  | nil => rfl
  | cons c s => rw [trimStart, List.dropWhile_cons_of_neg (by simp [h c rfl])]

theorem trimEnd_eq_self {s : List Char} (h : ∀ c, s.getLast? = some c → isBlank c = false) :
    trimEnd s = s := by
  have hstart : trimStart s.reverse = s.reverse :=
    trimStart_eq_self fun c hc => h c (by rwa [List.head?_reverse] at hc)
  rw [trimStart] at hstart
  rw [trimEnd, dropEndWhile, hstart, List.reverse_reverse]

/-- A text that neither begins nor ends with a blank is trimmed already. -/
theorem trim_eq_self {s : List Char} (hfirst : ∀ c, s.head? = some c → isBlank c = false)
    (hlast : ∀ c, s.getLast? = some c → isBlank c = false) : trim s = s := by
  rw [trim, trimStart_eq_self hfirst, trimEnd_eq_self hlast]

/-- What is left after blanks were dropped at the start begins with none. -/
theorem head?_trimStart {s : List Char} {c : Char} (h : (trimStart s).head? = some c) :
    isBlank c = false := by
  have hnot := List.head?_dropWhile_not isBlank s
  rw [trimStart] at h
  rw [h] at hnot
  simpa using hnot

theorem getLast?_trimEnd {s : List Char} {c : Char} (h : (trimEnd s).getLast? = some c) :
    isBlank c = false := by
  rw [trimEnd, dropEndWhile, List.getLast?_reverse] at h
  exact head?_trimStart h

/-! ## Trimming what is put together -/

/-- Before a character that can be seen blanks are dropped as if it were not there. -/
theorem trimStart_append_cons {c : Char} (hc : isBlank c = false) (s t : List Char) :
    trimStart (s ++ c :: t) = trimStart s ++ c :: t := by
  rw [trimStart, trimStart, List.dropWhile_append]
  split
  · next hnil =>
    rw [List.isEmpty_iff.1 hnil, List.dropWhile_cons_of_neg (by simp [hc]), List.nil_append]
  · rfl

/-- And so are those behind it. -/
theorem trimEnd_append_cons {c : Char} (hc : isBlank c = false) (s t : List Char) :
    trimEnd (s ++ c :: t) = s ++ c :: trimEnd t := dropEndWhile_append_cons hc s t

theorem trim_blank_append {left : List Char} (h : ∀ c ∈ left, isBlank c = true) (s : List Char) :
    trim (left ++ s) = trim s := by
  rw [trim, trim, trimStart, List.dropWhile_append, List.dropWhile_eq_nil_iff.2 h,
    List.isEmpty_nil, if_pos rfl, trimStart]

theorem trimEnd_append_blank {right : List Char} (h : ∀ c ∈ right, isBlank c = true)
    (s : List Char) : trimEnd (s ++ right) = trimEnd s := by
  have hright : ∀ c ∈ right.reverse, isBlank c = true := fun c hc => h c (List.mem_reverse.1 hc)
  rw [trimEnd, trimEnd, dropEndWhile, dropEndWhile, List.reverse_append, List.dropWhile_append,
    List.dropWhile_eq_nil_iff.2 hright, List.isEmpty_nil, if_pos rfl]

theorem trim_append_blank {right : List Char} (h : ∀ c ∈ right, isBlank c = true) (s : List Char) :
    trim (s ++ right) = trim s := by
  rw [trim, trim, trimStart, List.dropWhile_append]
  split
  · next hnil => rw [List.dropWhile_eq_nil_iff.2 h, trimStart, List.isEmpty_iff.1 hnil]
  · exact trimEnd_append_blank h _

/-- A text is cut at a mark before which nothing begins like it. -/
theorem cut?_of_notMem {c : Char} {mark before : List Char} (after : List Char)
    (h : c ∉ before) :
    cut? (c :: mark) (before ++ (c :: mark ++ after)) = some (before, after) := by
  have hcut : ∀ gathered, cutAux (c :: mark) gathered (before ++ (c :: mark ++ after)) =
      some (gathered.reverse ++ before, after) := by
    induction before with
    | nil =>
      intro gathered
      have hstrip : strip? (c :: mark) (c :: (mark ++ after)) = some after :=
        strip?_eq_some_iff.2 rfl
      rw [List.nil_append, List.cons_append, cutAux, hstrip, List.append_nil]
    | cons b before ih =>
      intro gathered
      have hne : c ≠ b := fun heq => h (heq ▸ List.mem_cons_self)
      rw [List.cons_append, cutAux, strip?, if_neg hne,
        ih fun hmem => h (List.mem_cons_of_mem b hmem)]
      simp
  exact hcut []

/-- The last line of a text is ended, or there is none. -/
def Ended (s : List Char) : Prop := s = [] ∨ s.getLast? = some '\n'

theorem dropReturn_eq_self {s : List Char} (h : s.getLast? ≠ some '\r') : dropReturn s = s :=
  if_neg h

/-- Every line of a text in which the last one is ended is a piece before a line end. -/
theorem lines_append_end (s : List Char) :
    lines (s ++ ['\n']) = (splitOn '\n' s).map dropReturn := by
  have hsplit : splitOn '\n' (s ++ ['\n']) = splitOn '\n' s ++ [[]] := splitOn_append_sep '\n' s []
  rw [lines, hsplit]
  simp

/-- Where the last line is ended, what follows begins with a line of its own. -/
theorem lines_append {s : List Char} (hs : Ended s) (t : List Char) :
    lines (s ++ t) = lines s ++ lines t := by
  rcases hs with rfl | hlast
  · rfl
  · obtain ⟨init, rfl⟩ := List.getLast?_eq_some_iff.1 hlast
    have hne := splitOn_ne_nil '\n' t
    rw [lines_append_end, List.append_assoc, List.singleton_append, lines, lines,
      splitOn_append_sep, List.dropLast_append_of_ne_nil hne, List.map_append,
      List.getLast?_append_of_ne_nil _ hne, List.append_assoc]

/-- A line is appended with its end. -/
theorem lines_append_line {s line : List Char} (hs : Ended s) (hline : '\n' ∉ line)
    (hreturn : line.getLast? ≠ some '\r') : lines (s ++ (line ++ ['\n'])) = lines s ++ [line] := by
  rw [lines_append hs, lines_append_end, splitOn_of_notMem hline, List.map_singleton,
    dropReturn_eq_self hreturn]

theorem ended_append (s line : List Char) : Ended (s ++ (line ++ ['\n'])) := by
  refine .inr ?_
  rw [← List.append_assoc, List.getLast?_concat]

/-- The lines of a text that was put together from ended lines. -/
theorem linesOf_join {written : List String}
    (h : ∀ line ∈ written, '\n' ∉ line.toList ∧ line.toList.getLast? ≠ some '\r') :
    Ended (String.join (written.map (· ++ "\n"))).toList ∧
      linesOf (String.join (written.map (· ++ "\n"))) = written.map String.toList := by
  induction written using List.reverseRecOn with
  | nil => exact ⟨Or.inl rfl, rfl⟩
  | append_singleton written line ih =>
    obtain ⟨hended, hlines⟩ := ih fun other hother => h other (List.mem_append_left _ hother)
    obtain ⟨hone, hreturn⟩ := h line (by simp)
    have htext : (String.join ((written ++ [line]).map (· ++ "\n"))).toList =
        (String.join (written.map (· ++ "\n"))).toList ++ (line.toList ++ ['\n']) := by
      simp [String.toList_append]
    rw [linesOf, htext, List.map_append, ← hlines]
    exact ⟨ended_append _ _, lines_append_line hended hone hreturn⟩

theorem splitOn_intercalate {lines : List (List Char)} (hne : lines ≠ [])
    (hlines : ∀ line ∈ lines, '\n' ∉ line) :
    splitOn '\n' (['\n'].intercalate lines) = lines := by
  induction lines with
  | nil => exact absurd rfl hne
  | cons line lines ih =>
    obtain ⟨hline, hrest⟩ := List.forall_mem_cons.1 hlines
    cases lines with
    | nil => rw [List.intercalate_singleton, splitOn_of_notMem hline]
    | cons next lines =>
      rw [List.intercalate_cons_cons, List.append_assoc, List.singleton_append,
        splitOn_append_sep, splitOn_of_notMem hline, ih (List.cons_ne_nil _ _) hrest,
        List.singleton_append]

/-- The lines of a text in which a line end stands between any two of them. -/
theorem linesOf_intercalate {written : List String}
    (h : ∀ line ∈ written, line.toList ≠ [] ∧ '\n' ∉ line.toList ∧
      line.toList.getLast? ≠ some '\r') :
    linesOf ("\n".intercalate written) = written.map String.toList := by
  have htext : ("\n".intercalate written).toList = ['\n'].intercalate (written.map String.toList) :=
    String.toList_intercalate
  rcases List.eq_nil_or_concat written with rfl | ⟨before, last, rfl⟩
  · rfl
  · rw [List.concat_eq_append] at h htext ⊢
    have hone : ∀ line ∈ (before ++ [last]).map String.toList, '\n' ∉ line := by
      intro line hline
      obtain ⟨text, hmem, rfl⟩ := List.mem_map.1 hline
      exact (h text hmem).2.1
    have hreturns : (before.map String.toList).map dropReturn = before.map String.toList := by
      rw [List.map_map]
      refine List.map_congr_left fun text hmem => ?_
      exact dropReturn_eq_self (h text (List.mem_append_left _ hmem)).2.2
    have hlast : last.toList ≠ [] := (h last (by simp)).1
    rw [linesOf, lines, htext, splitOn_intercalate (by simp) hone, List.map_append,
      List.map_singleton, List.dropLast_concat, List.getLast?_concat, Option.getD_some, hreturns,
      if_neg (by simpa using hlast)]

theorem ofUtf8?_eq_some_iff {bytes : ByteArray} {text : String} :
    ofUtf8? bytes = some text ↔ bytes = text.toUTF8 := by
  unfold ofUtf8? String.fromUTF8?
  constructor
  · intro h
    split at h
    · cases h
      rfl
    · cases h
  · rintro rfl
    have hvalid : text.toUTF8.IsValidUTF8 := text.isValidUTF8
    exact dif_pos hvalid

end Text

namespace Manifest

theorem lookup_bind (name value other : String) (entries : List (String × String)) :
    (bind name value entries).lookup other =
      if other = name then some value else entries.lookup other := by
  induction entries with
  | nil =>
    rw [bind, List.lookup_cons, List.lookup_nil]
    by_cases hother : other = name
    · simp [hother]
    · have hfalse : (other == name) = false := by simpa using hother
      rw [hfalse, if_neg hother]
  | cons entry entries ih =>
    obtain ⟨n, v⟩ := entry
    by_cases hn : n = name
    · subst hn
      rw [bind, if_pos rfl, List.lookup_cons, List.lookup_cons]
      by_cases hother : other = n
      · simp [hother]
      · have hfalse : (other == n) = false := by simpa using hother
        rw [hfalse, if_neg hother]
    · rw [bind, if_neg hn, List.lookup_cons, List.lookup_cons, ih]
      by_cases hother : other = n
      · subst hother
        simp [hn]
      · have hfalse : (other == n) = false := by simpa using hother
        rw [hfalse]

theorem get?_insert (m : Manifest) (importPath storedPath other : String) :
    (m.insert importPath storedPath).get? other =
      if other = importPath then some storedPath else m.get? other :=
  lookup_bind importPath storedPath other m.entries

/-- Where names are bound to their places, one more is. -/
theorem get?_insert_of_binds {m m' : Manifest} {place : String → String} {names : List String}
    (h : ∀ i, m'.get? i = if i ∈ names then some (place i) else m.get? i) (name i : String) :
    (m'.insert name (place name)).get? i =
      if i ∈ names ++ [name] then some (place i) else m.get? i := by
  rw [get?_insert, h]
  by_cases hself : i = name
  · rw [if_pos hself, if_pos (by simp [hself]), hself]
  · rw [if_neg hself]
    simp only [List.mem_append, List.mem_singleton, hself, or_false]

theorem bind_of_lookup {name value : String} {entries : List (String × String)}
    (h : entries.lookup name = some value) : bind name value entries = entries := by
  induction entries with
  | nil => cases h
  | cons entry entries ih =>
    obtain ⟨n, v⟩ := entry
    rw [List.lookup_cons] at h
    by_cases hn : n = name
    · subst hn
      rw [beq_self_eq_true] at h
      cases h
      rw [bind, if_pos rfl]
    · have hfalse : (name == n) = false := by simpa using Ne.symm hn
      rw [hfalse] at h
      rw [bind, if_neg hn, ih h]

/-- Bind import paths, each to its place. -/
def bindAll (m : Manifest) (place : String → String) (names : List String) : Manifest :=
  names.foldl (fun m i => m.insert i (place i)) m

theorem bindAll_append (m : Manifest) (place : String → String) (names names' : List String) :
    m.bindAll place (names ++ names') = (m.bindAll place names).bindAll place names' :=
  List.foldl_append

theorem get?_bindAll (m : Manifest) (place : String → String) (names : List String) (i : String) :
    (m.bindAll place names).get? i = if i ∈ names then some (place i) else m.get? i := by
  induction names generalizing m with
  | nil => rfl
  | cons name names ih =>
    have hfirst : m.bindAll place (name :: names) =
        (m.insert name (place name)).bindAll place names := rfl
    rw [hfirst, ih, get?_insert]
    by_cases hself : i = name
    · subst hself
      simp
    · simp only [List.mem_cons, hself, false_or, if_false]

/-- What is bound where it belongs is not moved by binding it again. -/
theorem bindAll_of_bound {m : Manifest} {place : String → String} {names : List String}
    (h : ∀ i ∈ names, m.get? i = some (place i)) : m.bindAll place names = m := by
  induction names with
  | nil => rfl
  | cons name names ih =>
    have hfirst : m.bindAll place (name :: names) =
        (m.insert name (place name)).bindAll place names := rfl
    have hsame : m.insert name (place name) = m := by
      rw [insert, bind_of_lookup (h name List.mem_cons_self)]
    rw [hfirst, hsame]
    exact ih fun i hi => h i (List.mem_cons_of_mem _ hi)

/-- Lines are read one after the other. -/
theorem readLines_append {m m' : Manifest} {number : Nat} {lines : List (List Char)}
    (h : readLines m number lines = .ok m') (more : List (List Char)) :
    readLines m number (lines ++ more) = readLines m' (number + lines.length) more := by
  induction lines generalizing m number with
  | nil =>
    cases h
    rfl
  | cons raw lines ih =>
    have hnext : number + (raw :: lines).length = number + 1 + lines.length := by
      rw [List.length_cons]
      omega
    rw [List.cons_append, readLines, hnext]
    rw [readLines] at h
    split
    · next hblank =>
      rw [if_pos hblank] at h
      exact ih h
    · next hblank =>
      rw [if_neg hblank] at h
      split at h
      · cases h
      · next source stored hcolumns =>
        exact ih h

/-- An import path and a stored path that can be read back from the line that binds them. -/
structure Bindable (importPath storedPath : String) : Prop where
  named : importPath ≠ ""
  solid : ∀ c ∈ importPath.toList, Text.isBlank c = false
  start : ∀ c, storedPath.toList.head? = some c → Text.isBlank c = false
  finish : ∃ c, storedPath.toList.getLast? = some c ∧ Text.isBlank c = false
  oneLine : '\n' ∉ storedPath.toList

variable {importPath storedPath : String}

namespace Bindable

theorem line_toList (importPath storedPath : String) :
    (line importPath storedPath).toList =
      importPath.toList ++ (arrow.toList ++ storedPath.toList) := by
  rw [line, String.toList_append, String.toList_append, List.append_assoc]

theorem oneLine_line (h : Bindable importPath storedPath) :
    '\n' ∉ (line importPath storedPath).toList := by
  rw [line_toList, List.mem_append, List.mem_append, not_or, not_or]
  refine ⟨fun hmem => ?_, by decide, h.oneLine⟩
  exact absurd (h.solid _ hmem) (by decide)

theorem getLast?_line (h : Bindable importPath storedPath) :
    ∃ c, (line importPath storedPath).toList.getLast? = some c ∧ Text.isBlank c = false := by
  obtain ⟨c, hlast, hc⟩ := h.finish
  refine ⟨c, ?_, hc⟩
  rw [line_toList, List.getLast?_append, List.getLast?_append, hlast]
  rfl

theorem trim_line (h : Bindable importPath storedPath) :
    Text.trim (line importPath storedPath).toList = (line importPath storedPath).toList := by
  refine Text.trim_eq_self (fun c hc => ?_) fun c hc => ?_
  · obtain ⟨first, rest, hfirst⟩ := List.exists_cons_of_ne_nil
      (mt String.toList_eq_nil_iff.1 h.named)
    rw [line_toList, hfirst] at hc
    obtain rfl : first = c := Option.some.inj hc
    exact h.solid first (hfirst ▸ List.mem_cons_self)
  · obtain ⟨c', hlast, hc'⟩ := h.getLast?_line
    rw [hlast] at hc
    exact Option.some.inj hc ▸ hc'

/-- The columns of the line are found again. -/
theorem columns?_line (h : Bindable importPath storedPath) :
    columns? (line importPath storedPath).toList = some (importPath, storedPath) := by
  have hcut : Text.cut? arrow.toList (line importPath storedPath).toList =
      some (importPath.toList, storedPath.toList) := by
    rw [line_toList]
    refine Text.cut?_of_notMem (c := ' ') storedPath.toList fun hmem => ?_
    exact absurd (h.solid _ hmem) (by decide)
  have hsource : Text.trim importPath.toList = importPath.toList :=
    Text.trim_eq_self (fun c hc => h.solid c (List.mem_of_head? hc))
      fun c hc => h.solid c (List.mem_of_getLast? hc)
  obtain ⟨c, hlast, hc⟩ := h.finish
  have hstored : Text.trim storedPath.toList = storedPath.toList :=
    Text.trim_eq_self h.start fun c' hc' => by
      rw [hlast] at hc'
      exact Option.some.inj hc' ▸ hc
  have hne : storedPath.toList ≠ [] := by
    intro hnil
    rw [hnil] at hlast
    cases hlast
  rw [columns?, hcut]
  dsimp only
  rw [hsource, hstored, if_neg, String.ofList_toList, String.ofList_toList]
  simp [h.named, hne]

/-- A line that is appended to a manifest adds its binding. -/
theorem parse_append (h : Bindable importPath storedPath) {text : String} {m : Manifest}
    (hended : Text.Ended text.toList) (hm : parse text = .ok m) :
    parse (text ++ (line importPath storedPath ++ "\n")) =
      .ok (m.insert importPath storedPath) := by
  obtain ⟨c, hlast, hc⟩ := h.getLast?_line
  have hreturn : (line importPath storedPath).toList.getLast? ≠ some '\r' := by
    rw [hlast]
    rintro ⟨⟩
    exact absurd hc (by decide)
  have hlines : Text.linesOf (text ++ (line importPath storedPath ++ "\n")) =
      Text.linesOf text ++ [(line importPath storedPath).toList] := by
    rw [Text.linesOf, String.toList_append, String.toList_append]
    exact Text.lines_append_line hended h.oneLine_line hreturn
  have hne : (line importPath storedPath).toList.isEmpty = false := by
    rw [List.isEmpty_eq_false_iff]
    intro hnil
    rw [hnil] at hlast
    cases hlast
  rw [parse, hlines, readLines_append hm, readLines, h.trim_line, hne,
    if_neg Bool.false_ne_true, h.columns?_line]
  rfl

end Bindable

/-! ## The bytes of a manifest -/

/-- The bytes are those of a manifest in which the last line is ended. -/
def Spells (bytes : ByteArray) (m : Manifest) : Prop :=
  ∃ text, Text.ofUtf8? bytes = some text ∧ Text.Ended text.toList ∧ parse text = .ok m

theorem spells_empty : Spells .empty empty :=
  ⟨"", Text.ofUtf8?_eq_some_iff.2 rfl, .inl rfl, rfl⟩

theorem Spells.ofBytes {bytes : ByteArray} {m : Manifest} (h : Spells bytes m) :
    ofBytes bytes = .ok m := by
  obtain ⟨text, htext, -, hparse⟩ := h
  rw [Manifest.ofBytes, htext]
  exact hparse

theorem Spells.append {bytes : ByteArray} {m : Manifest} (h : Spells bytes m)
    (hline : Bindable importPath storedPath) :
    Spells (bytes ++ (line importPath storedPath ++ "\n").toUTF8)
      (m.insert importPath storedPath) := by
  obtain ⟨text, htext, hended, hparse⟩ := h
  refine ⟨text ++ (line importPath storedPath ++ "\n"), ?_, ?_, hline.parse_append hended hparse⟩
  · rw [Text.ofUtf8?_eq_some_iff] at htext ⊢
    rw [htext]
    exact String.toByteArray_append.symm
  · rw [String.toList_append, String.toList_append]
    exact Text.ended_append _ _

end Manifest

end Workbench
