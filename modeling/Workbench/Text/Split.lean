import Workbench.Text.Blank

set_option autoImplicit false

/-! # Splitting a text

Pieces between separators, the lines of a text, and a cut at the first place where a pattern stands.
A line ends at `\n`, and one `\r` before that end belongs to it; what follows the last `\n` is a
line of its own unless it is empty. -/

namespace Workbench.Text

/-- The pieces between the occurrences of `sep`; one piece more than there are separators. -/
def splitOn (sep : Char) (s : List Char) : List (List Char) :=
  s.foldr (fun c pieces => if c = sep then [] :: pieces else
    match pieces with
    | [] => [[c]]
    | piece :: rest => (c :: piece) :: rest) [[]]

@[simp] theorem splitOn_nil (sep : Char) : splitOn sep [] = [[]] := rfl

theorem splitOn_ne_nil (sep : Char) (s : List Char) : splitOn sep s ≠ [] := by
  cases s with
  | nil => simp
  | cons c s =>
    simp only [splitOn, List.foldr_cons]
    split
    · simp
    · split <;> simp

@[simp] theorem splitOn_cons_sep (sep : Char) (s : List Char) :
    splitOn sep (sep :: s) = [] :: splitOn sep s := by
  simp [splitOn]

/-- A character that does not separate is the first of the first piece. -/
theorem splitOn_cons_of_ne {sep c : Char} (h : c ≠ sep) (s : List Char) :
    ∃ piece rest, splitOn sep s = piece :: rest ∧ splitOn sep (c :: s) = (c :: piece) :: rest := by
  cases heq : splitOn sep s with
  | nil => exact absurd heq (splitOn_ne_nil sep s)
  | cons piece rest =>
    refine ⟨piece, rest, rfl, ?_⟩
    rw [splitOn] at heq
    rw [splitOn, List.foldr_cons, if_neg h, heq]

/-- A piece holds only what the text holds, and no separator. -/
theorem mem_of_mem_splitOn {sep : Char} {s piece : List Char} (h : piece ∈ splitOn sep s) :
    ∀ c ∈ piece, c ∈ s ∧ c ≠ sep := by
  induction s generalizing piece with
  | nil => simp_all
  | cons c s ih =>
    intro x hx
    by_cases hc : c = sep
    · subst hc
      rw [splitOn_cons_sep] at h
      rcases List.mem_cons.1 h with rfl | h
      · simp at hx
      · exact ⟨List.mem_cons_of_mem c (ih h x hx).1, (ih h x hx).2⟩
    · obtain ⟨first, rest, hs, hcs⟩ := splitOn_cons_of_ne hc s
      rw [hcs] at h
      rw [hs] at ih
      rcases List.mem_cons.1 h with rfl | h
      · rcases List.mem_cons.1 hx with rfl | hx
        · exact ⟨List.mem_cons_self, hc⟩
        · have := ih List.mem_cons_self x hx
          exact ⟨List.mem_cons_of_mem c this.1, this.2⟩
      · have := ih (List.mem_cons_of_mem first h) x hx
        exact ⟨List.mem_cons_of_mem c this.1, this.2⟩

/-- Characters that do not separate only lengthen the first piece. -/
theorem splitOn_append_of_notMem {sep : Char} {a s first : List Char} {rest : List (List Char)}
    (ha : sep ∉ a) (hs : splitOn sep s = first :: rest) :
    splitOn sep (a ++ s) = (a ++ first) :: rest := by
  induction a with
  | nil => exact hs
  | cons c a ih =>
    have hc : c ≠ sep := fun h => ha (h ▸ List.mem_cons_self)
    obtain ⟨piece, more, hpiece, hcons⟩ := splitOn_cons_of_ne hc (a ++ s)
    rw [ih fun h => ha (List.mem_cons_of_mem c h)] at hpiece
    obtain ⟨rfl, rfl⟩ := List.cons.inj hpiece
    exact hcons

theorem splitOn_of_notMem {sep : Char} {s : List Char} (h : sep ∉ s) : splitOn sep s = [s] := by
  have hsplit := splitOn_append_of_notMem h (splitOn_nil sep)
  rwa [List.append_nil] at hsplit

/-- A separator parts the pieces before it from those after it. -/
theorem splitOn_append_sep (sep : Char) (a s : List Char) :
    splitOn sep (a ++ sep :: s) = splitOn sep a ++ splitOn sep s := by
  induction a with
  | nil => exact splitOn_cons_sep sep s
  | cons c a ih =>
    by_cases hc : c = sep
    · rw [hc, List.cons_append, splitOn_cons_sep, splitOn_cons_sep, ih, List.cons_append]
    · obtain ⟨piece, rest, ha, hca⟩ := splitOn_cons_of_ne hc a
      obtain ⟨piece', rest', has, hcas⟩ := splitOn_cons_of_ne hc (a ++ sep :: s)
      rw [ih, ha, List.cons_append] at has
      obtain ⟨rfl, rfl⟩ := List.cons.inj has
      rw [List.cons_append, hcas, hca, List.cons_append]

/-- Drop one carriage return at the end. -/
def dropReturn (s : List Char) : List Char :=
  if s.getLast? = some '\r' then s.dropLast else s

/-- The lines of a text, without their ends. -/
def lines (s : List Char) : List (List Char) :=
  let pieces := splitOn '\n' s
  let last := pieces.getLast?.getD []
  pieces.dropLast.map dropReturn ++ (if last.isEmpty then [] else [last])

/-- What follows `start` in a text that begins with it. -/
def strip? : List Char → List Char → Option (List Char)
  | [], s => some s
  | _ :: _, [] => none
  | a :: start, c :: s => if a = c then strip? start s else none

theorem strip?_eq_some_iff {start s rest : List Char} :
    strip? start s = some rest ↔ s = start ++ rest := by
  induction start generalizing s with
  | nil => simp [strip?]
  | cons a start ih =>
    cases s with
    | nil => simp [strip?]
    | cons c s =>
      rw [strip?]
      split
      · next h => rw [ih, h, List.cons_append, List.cons_inj_right]
      · next h =>
        refine iff_of_false nofun fun heq => ?_
        exact h (List.cons.inj heq).1.symm

/-- What stands before `finish` in a text that ends with it. -/
def stripEnd? (finish s : List Char) : Option (List Char) :=
  (strip? finish.reverse s.reverse).map List.reverse

/-- Walk to the first place where `mark` stands, gathering in reverse what comes before. -/
def cutAux (mark : List Char) (before : List Char) : List Char → Option (List Char × List Char)
  | [] => if mark = [] then some (before.reverse, []) else none
  | c :: s =>
    match strip? mark (c :: s) with
    | some after => some (before.reverse, after)
    | none => cutAux mark (c :: before) s

/-- What stands before and after the first occurrence of `mark`. -/
def cut? (mark s : List Char) : Option (List Char × List Char) := cutAux mark [] s

/-- The part of a text after its last `/`; all of it if there is none. -/
def lastSegment (s : List Char) : List Char := (s.reverse.takeWhile (· ≠ '/')).reverse

/-- Drop so many characters, and from there on every occurrence of `mark`, from left to right. -/
def removeAux (mark : List Char) : Nat → List Char → List Char
  | _, [] => []
  | skipped + 1, _ :: s => removeAux mark skipped s
  | 0, c :: s =>
    if !mark.isEmpty && mark.isPrefixOf (c :: s) then removeAux mark (mark.length - 1) s
    else c :: removeAux mark 0 s

/-- A text without the occurrences of `mark`. -/
def removeAll (mark s : List Char) : List Char := removeAux mark 0 s

example : removeAll "ab".toList "cababxab".toList = "cx".toList := by decide

/-- The lines of a string. -/
def linesOf (s : String) : List (List Char) := lines s.toList

end Workbench.Text
