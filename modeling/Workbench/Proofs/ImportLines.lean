import Mathlib.Data.List.Basic
import Workbench.Proofs.ManifestLines
import Workbench.Source.ImportConfig

set_option autoImplicit false

/-! # Lines of an import configuration

The text of an import configuration is read back as that configuration, if its names and archives
are tidy: none is empty, none begins or ends with a blank, no line ends within them, and no name
holds the mark that ends it. What is read from any text is tidy, so a configuration that was read
may have other archives put in and be written again. -/

namespace Workbench

namespace Text

/-- A text that stays as it is when it is put on a line and trimmed. -/
structure Tidy (s : List Char) : Prop where
  ne_nil : s ≠ []
  oneLine : '\n' ∉ s
  head : ∀ c, s.head? = some c → isBlank c = false
  last : ∀ c, s.getLast? = some c → isBlank c = false

theorem tidy_iff {s : List Char} : Tidy s ↔
    s ≠ [] ∧ '\n' ∉ s ∧ s.head?.all (!isBlank ·) = true ∧ s.getLast?.all (!isBlank ·) = true := by
  have hall : ∀ o : Option Char,
      (∀ c, o = some c → isBlank c = false) ↔ o.all (!isBlank ·) = true := by
    rintro (_ | c) <;> simp
  rw [← hall, ← hall]
  exact ⟨fun h => ⟨h.1, h.2, h.3, h.4⟩, fun ⟨hne, hline, hhead, hlast⟩ => ⟨hne, hline, hhead, hlast⟩⟩

instance (s : List Char) : Decidable (Tidy s) := decidable_of_iff _ tidy_iff.symm

theorem Tidy.trim_eq {s : List Char} (h : Tidy s) : trim s = s := trim_eq_self h.head h.last

theorem mem_of_mem_trimEnd {s : List Char} {c : Char} (h : c ∈ trimEnd s) : c ∈ s := by
  rw [trimEnd, dropEndWhile, List.mem_reverse] at h
  exact List.mem_reverse.1 ((List.dropWhile_sublist _).subset h)

theorem mem_of_mem_trim {s : List Char} {c : Char} (h : c ∈ trim s) : c ∈ s :=
  (List.dropWhile_sublist _).subset (mem_of_mem_trimEnd h)

/-- Unless nothing is left, a trimmed text is tidy as far as its ends go. -/
theorem tidy_trim {s : List Char} (hne : trim s ≠ []) (hline : '\n' ∉ s) : Tidy (trim s) := by
  refine ⟨hne, fun hmem => hline (mem_of_mem_trim hmem), fun c hc => ?_, fun c hc => ?_⟩
  · -- what is dropped at the end leaves the first character, or nothing at all
    obtain ⟨rest, hrest⟩ : trim s <+: trimStart s := by
      have hsuffix := List.dropWhile_suffix (p := isBlank) (l := (trimStart s).reverse)
      rw [trim, trimEnd, dropEndWhile]
      rwa [← List.reverse_prefix, List.reverse_reverse] at hsuffix
    refine head?_trimStart (s := s) ?_
    rw [← hrest, List.head?_append, hc]
    rfl
  · exact getLast?_trimEnd hc

/-- A line holds only what the text holds, and no line end. -/
theorem mem_of_mem_lines {s line : List Char} (h : line ∈ lines s) {c : Char} (hc : c ∈ line) :
    c ∈ s ∧ c ≠ '\n' := by
  have hpiece : ∀ piece ∈ splitOn '\n' s, c ∈ piece → c ∈ s ∧ c ≠ '\n' := fun piece hpiece hmem =>
    mem_of_mem_splitOn hpiece c hmem
  unfold lines at h
  rcases List.mem_append.1 h with h | h
  · obtain ⟨piece, hmem, rfl⟩ := List.mem_map.1 h
    refine hpiece piece (List.dropLast_subset _ hmem) ?_
    unfold dropReturn at hc
    split at hc
    · exact List.dropLast_subset _ hc
    · exact hc
  · split at h
    · cases h
    · obtain rfl := List.mem_singleton.1 h
      cases hlast : (splitOn '\n' s).getLast? with
      | none =>
        rw [hlast] at hc
        cases hc
      | some piece =>
        rw [hlast] at hc
        exact hpiece piece (List.mem_of_getLast? hlast) hc

theorem newline_notMem_of_mem_lines {s line : List Char} (h : line ∈ lines s) : '\n' ∉ line :=
  fun hmem => (mem_of_mem_lines h hmem).2 rfl

/-- Before the place where a text is cut the mark does not stand. -/
theorem of_cut?_eq_some {mark : Char} {s before after : List Char}
    (h : cut? [mark] s = some (before, after)) : s = before ++ mark :: after ∧ mark ∉ before := by
  have hcut : ∀ gathered, cutAux [mark] gathered s = some (before, after) →
      ∃ front, before = gathered.reverse ++ front ∧ s = front ++ mark :: after ∧
        mark ∉ front := by
    clear h
    induction s with
    | nil =>
      intro gathered h
      rw [cutAux, if_neg (List.cons_ne_nil _ _)] at h
      cases h
    | cons c s ih =>
      intro gathered h
      rw [cutAux] at h
      by_cases hc : mark = c
      · subst hc
        have hstrip : strip? [mark] (mark :: s) = some s := strip?_eq_some_iff.2 rfl
        rw [hstrip] at h
        cases h
        exact ⟨[], by simp, rfl, by simp⟩
      · rw [strip?, if_neg hc] at h
        obtain ⟨front, hbefore, hs, hfront⟩ := ih (c :: gathered) h
        refine ⟨c :: front, by simpa using hbefore, by rw [hs]; rfl, ?_⟩
        simp [hc, hfront]
  obtain ⟨front, rfl, hs, hfront⟩ := hcut [] h
  exact ⟨hs, hfront⟩

/-- The bytes of a text are read back. -/
theorem ofUtf8Lossy_toUTF8 (text : String) : ofUtf8Lossy text.toUTF8 = text := by
  rw [ofUtf8Lossy, ofUtf8?_eq_some_iff.2 rfl]

end Text

namespace ImportConfig

/-- A binding that can be read back from its line. -/
structure Legible (entry : String × String) : Prop where
  source : Text.Tidy entry.1.toList
  unmarked : '=' ∉ entry.1.toList
  archive : Text.Tidy entry.2.toList

/-- The line of a binding. -/
def line (entry : String × String) : String := directive ++ entry.1 ++ "=" ++ entry.2

theorem toList_line (entry : String × String) : (line entry).toList =
    directive.toList ++ (entry.1.toList ++ ('=' :: entry.2.toList)) := by
  simp [line, String.toList_append]

theorem getLast?_line {entry : String × String} (h : Legible entry) :
    (line entry).toList.getLast? = entry.2.toList.getLast? := by
  obtain ⟨c, hlast⟩ :=
    Option.ne_none_iff_exists'.1 (mt List.getLast?_eq_none_iff.1 h.archive.ne_nil)
  rw [toList_line, List.getLast?_append, List.getLast?_append, List.getLast?_cons, hlast]
  rfl

/-- The line of a legible binding is read as that binding. -/
theorem binding?_line {entry : String × String} (h : Legible entry) :
    binding? (line entry).toList = some entry := by
  have htrim : Text.trim (line entry).toList = (line entry).toList := by
    refine Text.trim_eq_self (fun c hc => ?_) fun c hc => ?_
    · rw [toList_line] at hc
      cases hc
      decide
    · rw [getLast?_line h] at hc
      exact h.archive.last c hc
  have hstrip : Text.strip? directive.toList (line entry).toList =
      some (entry.1.toList ++ ('=' :: entry.2.toList)) :=
    Text.strip?_eq_some_iff.2 (toList_line entry)
  have hcut : Text.cut? ['='] (entry.1.toList ++ ('=' :: entry.2.toList)) =
      some (entry.1.toList, entry.2.toList) :=
    Text.cut?_of_notMem entry.2.toList h.unmarked
  have hsource : entry.1 ≠ "" := fun hempty => h.source.ne_nil (String.toList_eq_nil_iff.2 hempty)
  have harchive : entry.2 ≠ "" := fun hempty => h.archive.ne_nil (String.toList_eq_nil_iff.2 hempty)
  simp [binding?, htrim, hstrip, hcut, h.source.trim_eq, h.archive.trim_eq, hsource, harchive]

theorem linesOf_toText {entries : List (String × String)} (h : ∀ entry ∈ entries, Legible entry) :
    Text.linesOf (toText ⟨entries⟩) = entries.map fun entry => (line entry).toList := by
  have htext : toText ⟨entries⟩ = String.join ((entries.map line).map (· ++ "\n")) := by
    rw [List.map_map]
    rfl
  have hentries : ∀ written ∈ entries.map line,
      '\n' ∉ written.toList ∧ written.toList.getLast? ≠ some '\r' := by
    intro written hwritten
    obtain ⟨entry, hmem, rfl⟩ := List.mem_map.1 hwritten
    have hentry := h entry hmem
    refine ⟨?_, fun hlast => ?_⟩
    · rw [toList_line]
      simp only [List.mem_append, List.mem_cons, not_or]
      exact ⟨by decide, hentry.source.oneLine, by decide, hentry.archive.oneLine⟩
    · rw [getLast?_line hentry] at hlast
      exact absurd (hentry.archive.last _ hlast) (by decide)
  rw [htext, (Text.linesOf_join hentries).2, List.map_map]
  rfl

/-- A configuration of legible bindings is read back. -/
theorem parse_toText {c : ImportConfig} (h : ∀ entry ∈ c.entries, Legible entry) :
    parse c.toText = c := by
  obtain ⟨entries⟩ := c
  rw [parse, linesOf_toText h, List.filterMap_map]
  congr 1
  have hsame : ∀ entry ∈ entries,
      (binding? ∘ fun entry => (line entry).toList) entry = some entry :=
    fun entry hentry => binding?_line (h entry hentry)
  show entries.filterMap _ = entries
  rw [List.filterMap_congr hsame, List.filterMap_some]

/-- Only what becomes of the archives that are named matters. -/
theorem mapArchives_congr {c : ImportConfig} {f g : String → String}
    (h : ∀ entry ∈ c.entries, f entry.2 = g entry.2) : c.mapArchives f = c.mapArchives g := by
  rw [mapArchives, mapArchives, List.map_congr_left]
  intro entry hentry
  show (entry.1, f entry.2) = (entry.1, g entry.2)
  rw [h entry hentry]

/-- What was read is legible. -/
theorem legible_of_parse {text : String} {entry : String × String}
    (h : entry ∈ (parse text).entries) : Legible entry := by
  obtain ⟨line, hline, hbinding⟩ := List.mem_filterMap.1 h
  have hone := Text.newline_notMem_of_mem_lines hline
  unfold binding? at hbinding
  simp only [Option.bind_eq_bind, Option.bind_eq_some_iff] at hbinding
  obtain ⟨rest, hrest, ⟨source, archive⟩, hcut, hentry⟩ := hbinding
  obtain ⟨rfl, hmark⟩ := Text.of_cut?_eq_some hcut
  have htrimmed := Text.strip?_eq_some_iff.1 hrest
  have hwithin : ∀ c ∈ source ++ '=' :: archive, c ∈ line := by
    intro c hc
    refine Text.mem_of_mem_trim ?_
    rw [htrimmed]
    exact List.mem_append_right _ hc
  split at hentry
  · cases hentry
  · next hne =>
    cases hentry
    simp only [Bool.or_eq_true, List.isEmpty_iff, not_or] at hne
    refine ⟨?_, ?_, ?_⟩
    · rw [String.toList_ofList]
      refine Text.tidy_trim hne.1 fun hmem => hone (hwithin _ ?_)
      exact List.mem_append_left _ hmem
    · rw [String.toList_ofList]
      exact fun hmem => hmark (Text.mem_of_mem_trim hmem)
    · rw [String.toList_ofList]
      refine Text.tidy_trim hne.2 fun hmem => hone (hwithin _ ?_)
      exact List.mem_append_right _ (List.mem_cons_of_mem _ hmem)

/-- A configuration that was read may have other archives put in and be written again. -/
theorem parse_mapArchives {text : String} {f : String → String}
    (h : ∀ entry ∈ (parse text).entries, Text.Tidy (f entry.2).toList) :
    parse ((parse text).mapArchives f).toText = (parse text).mapArchives f := by
  refine parse_toText fun entry hentry => ?_
  obtain ⟨old, hold, rfl⟩ := List.mem_map.1 hentry
  have hlegible := legible_of_parse hold
  exact ⟨hlegible.source, hlegible.unmarked, h old hold⟩

end ImportConfig

end Workbench
