import Workbench.Diagnostic
import Workbench.Proofs.ImportLines
import Workbench.Proofs.Numerals

set_option autoImplicit false

/-! # Lines of diagnostics

A diagnostic is read back from its line. The path ends at the first colon, each number ends where
its digits do, and a column is told from a message by the blank that stands before every message that
is written: so a message may begin with a number and a colon. What is read from a single line can be
written and read again, also where a line had no column, one that is no number in ASCII digits, or a
number that turned out to be the message. -/

namespace Workbench.Diagnostic

/-- A diagnostic that can be read back from its line. -/
structure Legible (d : Diagnostic) : Prop where
  path_ne_nil : d.path.toList ≠ []
  path_unmarked : ':' ∉ d.path.toList
  path_oneLine : '\n' ∉ d.path.toList
  path_head : ∀ c, d.path.toList.head? = some c → Text.isBlank c = false
  line_fits : d.line < Nat.pow 2 32
  column_fits : d.column < Nat.pow 2 32
  message : Text.Tidy d.message.toList

theorem legible_iff {d : Diagnostic} : d.Legible ↔
    (d.path.toList ≠ [] ∧ ':' ∉ d.path.toList ∧ '\n' ∉ d.path.toList ∧
      d.path.toList.head?.all (!Text.isBlank ·) = true) ∧
    d.line < Nat.pow 2 32 ∧ d.column < Nat.pow 2 32 ∧ Text.Tidy d.message.toList := by
  have hall : (∀ c, d.path.toList.head? = some c → Text.isBlank c = false) ↔
      d.path.toList.head?.all (!Text.isBlank ·) = true := by
    cases d.path.toList.head? with
    | none => simp
    | some c => simp
  rw [← hall]
  constructor
  · exact fun h => ⟨⟨h.1, h.2, h.3, h.4⟩, h.5, h.6, h.7⟩
  · rintro ⟨⟨hne, hmark, hline, hhead⟩, hfits, hcolumn, hmessage⟩
    exact ⟨hne, hmark, hline, hhead, hfits, hcolumn, hmessage⟩

instance (d : Diagnostic) : Decidable d.Legible := decidable_of_iff _ legible_iff.symm

/-! ## What is written -/

/-- The part of a line that tells the column, if there is one. -/
def columnText (d : Diagnostic) : List Char :=
  if d.column > 0 then ':' :: (toString d.column).toList else []

theorem toList_toText (d : Diagnostic) : d.toText.toList =
    d.path.toList ++ ':' :: ((toString d.line).toList ++
      (d.columnText ++ ':' :: ' ' :: d.message.toList)) := by
  unfold toText columnText
  dsimp only
  split <;> simp [String.toList_append]

/-- The line of a diagnostic ends as its message does. -/
theorem getLast?_toText {d : Diagnostic} (h : d.message.toList ≠ []) :
    d.toText.toList.getLast? = d.message.toList.getLast? := by
  have hsplit : d.toText.toList = (d.path.toList ++ ':' :: ((toString d.line).toList ++
      (d.columnText ++ [':', ' ']))) ++ d.message.toList := by
    simp [toList_toText]
  rw [hsplit, List.getLast?_append_of_ne_nil _ h]

/-! ## Reading what is written -/

theorem number?_toString (n : Nat) {rest : List Char}
    (hrest : ∀ c, rest.head? = some c → Text.isDecimalDigit c = false) :
    number? (':' :: ((toString n).toList ++ rest)) = some ((toString n).toList, rest) := by
  have hdigits : ∀ c ∈ (toString n).toList, Text.isDecimalDigit c = true := fun c hc =>
    Text.isDecimalDigit_of_isDigit (Text.isDigit_of_mem_toString c hc)
  have hend : rest.takeWhile Text.isDecimalDigit = [] ∧
      rest.dropWhile Text.isDecimalDigit = rest := by
    cases rest with
    | nil => exact ⟨rfl, rfl⟩
    | cons c rest =>
      have hc := hrest c rfl
      rw [List.takeWhile_cons_of_neg (by simp [hc]), List.dropWhile_cons_of_neg (by simp [hc])]
      exact ⟨rfl, rfl⟩
  have hne : (toString n).toList.isEmpty = false := by
    obtain ⟨c, others, hcons, -⟩ := Text.exists_toString_eq_cons n
    rw [hcons, List.isEmpty_cons]
  rw [number?]
  rw [List.takeWhile_append_of_pos hdigits, List.dropWhile_append_of_pos hdigits, hend.1, hend.2,
    List.append_nil, hne]
  rfl

theorem message?_blank {message : String} (h : Text.Tidy message.toList) :
    message? (':' :: ' ' :: message.toList) = some message := by
  have htrim : Text.trimStart (' ' :: message.toList) = message.toList := by
    rw [Text.trimStart, List.dropWhile_cons_of_pos (by decide)]
    exact Text.trimStart_eq_self h.head
  have hne : message.toList.isEmpty = false := by simpa using h.ne_nil
  rw [message?]
  rw [htrim, hne, String.ofList_toList]
  rfl

/-- What follows the line number: a column and a message, or else a message alone. -/
def place? (s : List Char) : Option (Nat × String) :=
  match columnAndMessage? s with
  | some found => some found
  | none => (message? s).map (0, ·)

theorem place?_columnText {d : Diagnostic} (hcolumn : d.column < Nat.pow 2 32)
    (hmessage : Text.Tidy d.message.toList) :
    place? (d.columnText ++ ':' :: ' ' :: d.message.toList) = some (d.column, d.message) := by
  have hread := message?_blank hmessage
  by_cases hpos : 0 < d.column
  · have hnumber : number? (':' :: ((toString d.column).toList ++ ':' :: ' ' :: d.message.toList)) =
        some ((toString d.column).toList, ':' :: ' ' :: d.message.toList) :=
      number?_toString d.column fun c hc => by cases hc; decide
    rw [place?, columnText, if_pos hpos, List.cons_append, columnAndMessage?, hnumber]
    simp only [Option.bind_eq_bind, Option.bind_some, hread, Text.word?_toString hcolumn]
    rfl
  · -- the blank before the message is no digit, so no column is read
    have hnumber : number? (':' :: ' ' :: d.message.toList) = none := by
      rw [number?, List.takeWhile_cons_of_neg (by decide)]
      rfl
    have hzero : d.column = 0 := Nat.eq_zero_of_not_pos hpos
    rw [place?, columnText, if_neg hpos, List.nil_append, columnAndMessage?, hnumber]
    simp [hread, hzero]

/-- A line is read from its trimmed text: the path up to the first colon, the number behind it, then
    the place and the message. -/
theorem parseLine_eq (raw : List Char) : parseLine raw =
    ((Text.trimEnd raw).takeWhile (· ≠ ':')).head?.bind fun first =>
      if Text.isBlank first then none
      else (number? ((Text.trimEnd raw).dropWhile (· ≠ ':'))).bind fun numbered =>
        (place? numbered.2).bind fun found =>
          (Text.word? 32 numbered.1).bind fun line => some
            ⟨String.ofList ((Text.trimEnd raw).takeWhile (· ≠ ':')), line, found.1, found.2⟩ := by
  rw [parseLine]
  dsimp only
  cases ((Text.trimEnd raw).takeWhile (· ≠ ':')).head? with
  | none => rfl
  | some first =>
    by_cases hblank : Text.isBlank first = true
    · simp [hblank]
    · cases number? ((Text.trimEnd raw).dropWhile (· ≠ ':')) with
      | none => simp
      | some numbered => cases hcolumn : columnAndMessage? numbered.2 <;> simp [hcolumn, place?]

theorem parseLine_eq_some_iff {raw : List Char} {d : Diagnostic} :
    parseLine raw = some d ↔
      d.path.toList = (Text.trimEnd raw).takeWhile (· ≠ ':') ∧
      (∃ first, d.path.toList.head? = some first ∧ Text.isBlank first = false) ∧
      ∃ digits rest, number? ((Text.trimEnd raw).dropWhile (· ≠ ':')) = some (digits, rest) ∧
        place? rest = some (d.column, d.message) ∧ Text.word? 32 digits = some d.line := by
  rw [parseLine_eq]
  constructor
  · intro h
    obtain ⟨first, hfirst, h⟩ := Option.bind_eq_some_iff.1 h
    by_cases hblank : Text.isBlank first = true
    · rw [if_pos hblank] at h
      cases h
    · rw [if_neg hblank] at h
      obtain ⟨⟨digits, rest⟩, hnumber, h⟩ := Option.bind_eq_some_iff.1 h
      obtain ⟨⟨column, message⟩, hplace, h⟩ := Option.bind_eq_some_iff.1 h
      obtain ⟨line, hline, h⟩ := Option.bind_eq_some_iff.1 h
      obtain rfl := Option.some.inj h
      refine ⟨String.toList_ofList, ⟨first, ?_, by simpa using hblank⟩,
        digits, rest, hnumber, hplace, hline⟩
      rw [String.toList_ofList, hfirst]
  · rintro ⟨hpath, ⟨first, hfirst, hblank⟩, digits, rest, hnumber, hplace, hline⟩
    rw [← hpath, hfirst, Option.bind_some, hblank, if_neg Bool.false_ne_true, hnumber,
      Option.bind_some, hplace, Option.bind_some, hline, Option.bind_some, String.ofList_toList]

/-- A diagnostic is read back from its line. -/
theorem parseLine_toText {d : Diagnostic} (h : d.Legible) :
    parseLine d.toText.toList = some d := by
  have htrim : Text.trimEnd d.toText.toList = d.toText.toList := by
    refine Text.trimEnd_eq_self fun c hc => h.message.last c ?_
    rwa [getLast?_toText h.message.ne_nil] at hc
  have hpath : ∀ c ∈ d.path.toList, decide (c ≠ ':') = true := fun c hc =>
    decide_eq_true fun hcolon => h.path_unmarked (hcolon ▸ hc)
  refine parseLine_eq_some_iff.2 ⟨?_, ?_, (toString d.line).toList,
    d.columnText ++ ':' :: ' ' :: d.message.toList, ?_,
    place?_columnText h.column_fits h.message, Text.word?_toString h.line_fits⟩
  · rw [htrim, toList_toText, List.takeWhile_append_of_pos hpath,
      List.takeWhile_cons_of_neg (by decide), List.append_nil]
  · cases hfirst : d.path.toList.head? with
    | none => exact absurd (List.head?_eq_none_iff.1 hfirst) h.path_ne_nil
    | some first => exact ⟨first, rfl, h.path_head first hfirst⟩
  · rw [htrim, toList_toText, List.dropWhile_append_of_pos hpath,
      List.dropWhile_cons_of_neg (by decide)]
    refine number?_toString d.line fun c hc => ?_
    -- a colon follows the number of the line, be it that of the column or that of the message
    have hcolon : c = ':' := by
      unfold columnText at hc
      split at hc <;> exact (Option.some.inj hc).symm
    rw [hcolon]
    decide

/-! ## What is read can be written -/

theorem suffix_of_number? {s digits rest : List Char} (h : number? s = some (digits, rest)) :
    rest <:+ s := by
  unfold number? at h
  split at h
  · next after =>
    dsimp only at h
    split at h
    · cases h
    · obtain ⟨-, rfl⟩ := Prod.mk.inj (Option.some.inj h)
      exact (List.dropWhile_suffix _).trans (List.suffix_cons _ _)
  · cases h

theorem of_message? {s : List Char} {message : String} (h : message? s = some message) :
    message.toList ≠ [] ∧ ∃ rest, rest <:+ s ∧ message.toList = Text.trimStart rest := by
  unfold message? at h
  split at h
  · next rest =>
    dsimp only at h
    split at h
    · cases h
    · next hne =>
      obtain rfl := Option.some.inj h
      rw [String.toList_ofList]
      exact ⟨by simpa using hne, rest, List.suffix_cons _ _, rfl⟩
  · cases h

/-- Whichever way a place is read, its column is a number that fits, and its message ends where the
    text does. -/
theorem of_place? {s : List Char} {column : Nat} {message : String}
    (h : place? s = some (column, message)) :
    column < Nat.pow 2 32 ∧ message.toList ≠ [] ∧
      ∃ rest, rest <:+ s ∧ message.toList = Text.trimStart rest := by
  unfold place? at h
  split at h
  · next found hfound =>
    obtain rfl := Option.some.inj h
    obtain ⟨⟨digits, rest⟩, hnumber, hread⟩ := Option.bind_eq_some_iff.1 hfound
    obtain ⟨read, hmessage, hpair⟩ := Option.bind_eq_some_iff.1 hread
    obtain ⟨hcolumn, rfl⟩ := Prod.mk.inj (Option.some.inj hpair)
    obtain ⟨hne, after, hsuffix, htrim⟩ := of_message? hmessage
    refine ⟨?_, hne, after, hsuffix.trans (suffix_of_number? hnumber), htrim⟩
    rw [← hcolumn]
    cases hword : Text.word? 32 digits with
    | none => decide
    | some n => exact Text.lt_of_word? hword
  · obtain ⟨read, hmessage, hpair⟩ := Option.map_eq_some_iff.1 h
    obtain ⟨rfl, rfl⟩ := Prod.mk.inj hpair
    exact ⟨by decide, of_message? hmessage⟩

/-- What is read from a single line can be written and read again. -/
theorem legible_of_parseLine {raw : List Char} {d : Diagnostic} (hraw : '\n' ∉ raw)
    (h : parseLine raw = some d) : d.Legible := by
  obtain ⟨hpath, ⟨first, hfirst, hblank⟩, digits, rest, hnumber, hplace, hline⟩ :=
    parseLine_eq_some_iff.1 h
  obtain ⟨hcolumn, hne, after, hafter, hmessage⟩ := of_place? hplace
  have hone : '\n' ∉ Text.trimEnd raw := fun hmem => hraw (Text.mem_of_mem_trimEnd hmem)
  -- the message is what the trimmed line ends with
  have hsuffix : d.message.toList <:+ Text.trimEnd raw := by
    rw [hmessage, Text.trimStart]
    exact (List.dropWhile_suffix _).trans
      (hafter.trans ((suffix_of_number? hnumber).trans (List.dropWhile_suffix _)))
  have htidy : Text.Tidy d.message.toList :=
    { ne_nil := hne
      oneLine := fun hmem => hone (hsuffix.subset hmem)
      head := by
        intro c hc
        rw [hmessage] at hc
        exact Text.head?_trimStart hc
      last := by
        intro c hc
        refine Text.getLast?_trimEnd (s := raw) ?_
        obtain ⟨before, hbefore⟩ := hsuffix
        rwa [← hbefore, List.getLast?_append_of_ne_nil _ hne] }
  exact
    { path_ne_nil := by
        intro hnil
        rw [hnil] at hfirst
        cases hfirst
      path_unmarked := by
        intro hcolon
        rw [hpath] at hcolon
        simpa using List.mem_takeWhile_imp hcolon
      path_oneLine := by
        intro hmem
        rw [hpath] at hmem
        exact hone ((List.takeWhile_sublist _).subset hmem)
      path_head := by
        intro c hc
        rw [hfirst] at hc
        exact Option.some.inj hc ▸ hblank
      line_fits := Text.lt_of_word? hline
      column_fits := hcolumn
      message := htidy }

theorem oneLine_toText {d : Diagnostic} (h : d.Legible) : '\n' ∉ d.toText.toList := by
  have hdigits : ∀ n : Nat, '\n' ∉ (toString n).toList := fun n hmem =>
    absurd (Text.isDigit_of_mem_toString _ hmem) (by decide)
  have hcolumn : '\n' ∉ d.columnText := by
    unfold columnText
    split
    · simpa using hdigits d.column
    · exact List.not_mem_nil
  have hcolon : ('\n' : Char) ≠ ':' := by decide
  rw [toList_toText, List.mem_append, List.mem_cons, List.mem_append, List.mem_append,
    List.mem_cons, List.mem_cons]
  simp only [h.path_oneLine, hdigits, hcolumn, h.message.oneLine, hcolon, false_or]
  decide

theorem filterMap_parseLine {ds : List Diagnostic} (h : ∀ d ∈ ds, d.Legible) :
    ((ds.map toText).map String.toList).filterMap parseLine = ds := by
  induction ds with
  | nil => rfl
  | cons d ds ih =>
    obtain ⟨hd, hds⟩ := List.forall_mem_cons.1 h
    rw [List.map_cons, List.map_cons, List.filterMap_cons_some (parseLine_toText hd), ih hds]

/-- A diagnostic is read back from its line, what is read from any single line is read back from
    the line that is written for it, and the lines of several diagnostics are read as these. -/
theorem parse_written :
    (∀ d : Diagnostic, d.Legible → parseLine d.toText.toList = some d) ∧
    (∀ (line : List Char) (d : Diagnostic), '\n' ∉ line → parseLine line = some d →
      d.Legible ∧ parseLine d.toText.toList = some d) ∧
    ∀ ds : List Diagnostic, (∀ d ∈ ds, d.Legible) →
      parse ("\n".intercalate (ds.map toText)) = ds ∧
      parse (String.join (ds.map (·.toText ++ "\n"))) = ds := by
  refine ⟨fun d h => parseLine_toText h, fun line d hline h => ?_, fun ds h => ?_⟩
  · have hlegible := legible_of_parseLine hline h
    exact ⟨hlegible, parseLine_toText hlegible⟩
  · have hlines : ∀ line ∈ ds.map toText, line.toList ≠ [] ∧ '\n' ∉ line.toList ∧
        line.toList.getLast? ≠ some '\r' := by
      intro line hline
      obtain ⟨d, hmem, rfl⟩ := List.mem_map.1 hline
      refine ⟨?_, oneLine_toText (h d hmem), fun hreturn => ?_⟩
      · simp [toList_toText]
      · rw [getLast?_toText (h d hmem).message.ne_nil] at hreturn
        exact absurd ((h d hmem).message.last _ hreturn) (by decide)
    have hjoin : ds.map (·.toText ++ "\n") = (ds.map toText).map (· ++ "\n") := by
      rw [List.map_map]
      rfl
    rw [parse, parse, hjoin, Text.linesOf_intercalate hlines,
      (Text.linesOf_join fun line hline => (hlines line hline).2).2]
    exact ⟨filterMap_parseLine h, filterMap_parseLine h⟩

theorem parse_written_numbers :
    (∀ d ∈ [(⟨"a b.go", 0, 0, "5: x"⟩ : Diagnostic), ⟨"./p", 4294967295, 4294967295, "12"⟩],
      d.Legible) ∧
    parse ("a b.go:0: 5: x\n./p:4294967295:4294967295: 12\n") =
      [⟨"a b.go", 0, 0, "5: x"⟩, ⟨"./p", 4294967295, 4294967295, "12"⟩] ∧
    '\n' ∉ "p:1:2:".toList ∧
    parseLine "p:1:2:".toList = some ⟨"p", 1, 0, "2:"⟩ ∧
    parseLine (toText ⟨"p", 1, 0, "2:"⟩).toList = some ⟨"p", 1, 0, "2:"⟩ ∧
    parseLine "p:1:٣:\u00a0x ".toList = some ⟨"p", 1, 0, "x"⟩ ∧
    parseLine (toText ⟨"p", 1, 0, "x"⟩).toList = some ⟨"p", 1, 0, "x"⟩ := by
  have hlegible : ∀ d ∈ [(⟨"a b.go", 0, 0, "5: x"⟩ : Diagnostic),
      ⟨"./p", 4294967295, 4294967295, "12"⟩], d.Legible := by decide +kernel
  have hmarks : parseLine "p:1:2:".toList = some ⟨"p", 1, 0, "2:"⟩ := by decide +kernel
  have hforeign : parseLine "p:1:٣:\u00a0x ".toList = some ⟨"p", 1, 0, "x"⟩ := by decide +kernel
  exact ⟨hlegible, (parse_written.2.2 _ hlegible).2, by decide +kernel, hmarks,
    (parse_written.2.1 _ _ (by decide +kernel) hmarks).2, hforeign,
    (parse_written.2.1 _ _ (by decide +kernel) hforeign).2⟩

end Workbench.Diagnostic
