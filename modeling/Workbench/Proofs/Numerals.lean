import Workbench.Text.Decimal

set_option autoImplicit false

/-! # Numerals read back

The text of a number is made of digits, and it is read as that number. -/

namespace Workbench

namespace Text

/-- The digits of a number are read as that number. -/
theorem digitsValue?_eq_ofDigitChars {digits : List Char} (h : ∀ c ∈ digits, c.isDigit = true) :
    digitsValue? digits = some (Nat.ofDigitChars 10 digits 0) := by
  have hfold : ∀ n : Nat, digits.foldlM (fun n c => (digitValue? c).map (10 * n + ·)) n =
      some (Nat.ofDigitChars 10 digits n) := by
    induction digits with
    | nil => exact fun n => rfl
    | cons c digits ih =>
      intro n
      have hc := h c List.mem_cons_self
      have hvalue : digitValue? c = some (c.toNat - '0'.toNat) := by
        simp only [Char.isDigit, Bool.and_eq_true, decide_eq_true_eq, ge_iff_le] at hc
        rw [digitValue?, if_pos (show '0' ≤ c ∧ c ≤ '9' from hc)]
      rw [List.foldlM_cons, hvalue]
      exact ih (fun c hc => h c (List.mem_cons_of_mem _ hc)) _
  exact hfold 0

theorem isDigit_of_mem_toString {n : Nat} : ∀ c ∈ (toString n).toList, c.isDigit = true := by
  rw [Nat.toString_eq_ofList_toDigits, String.toList_ofList]
  exact fun c hc => Nat.isDigit_of_mem_toDigits (by decide) (by decide) hc

/-- The text of a number begins with a digit. -/
theorem exists_toString_eq_cons (n : Nat) :
    ∃ c others, (toString n).toList = c :: others ∧ c.isDigit = true := by
  have hdigits := isDigit_of_mem_toString (n := n)
  cases hchars : (toString n).toList with
  | nil =>
    rw [Nat.toString_eq_ofList_toDigits, String.toList_ofList] at hchars
    exact absurd hchars Nat.toDigits_ne_nil
  | cons c others => exact ⟨c, others, rfl, hdigits c (hchars ▸ List.mem_cons_self)⟩

/-- A number that fits is read back from its text. -/
theorem word?_toString {bits n : Nat} (h : n < Nat.pow 2 bits) :
    word? bits (toString n).toList = some n := by
  have hdigits := isDigit_of_mem_toString (n := n)
  have hvalue : digitsValue? (toString n).toList = some n := by
    rw [digitsValue?_eq_ofDigitChars hdigits, Nat.toString_eq_ofList_toDigits,
      String.toList_ofList, Nat.ofDigitChars_ten_toDigits]
  have hnatural : natural? (toString n).toList = some n := by
    unfold natural?
    split
    · next rest heq =>
      have hplus := hdigits '+' (heq ▸ List.mem_cons_self)
      exact absurd hplus (by decide)
    · dsimp only
      rw [if_neg (by simp), hvalue]
  rw [word?, hnatural, Option.filter_some, if_pos (by simpa using h)]

theorem lt_of_word? {bits n : Nat} {s : List Char} (h : word? bits s = some n) :
    n < Nat.pow 2 bits := by
  obtain ⟨-, hlt⟩ := Option.filter_eq_some_iff.1 h
  exact of_decide_eq_true hlt

/-- The text of a number begins with a zero only if it is one. -/
theorem toString_of_zero {n : Nat} {rest : List Char} (h : (toString n).toList = '0' :: rest) :
    rest = [] := by
  rw [Nat.toString_eq_ofList_toDigits, String.toList_ofList] at h
  induction n using Nat.strongRecOn generalizing rest with
  | ind n ih =>
    by_cases hsmall : n < 10
    · rw [Nat.toDigits_of_lt_base hsmall] at h
      exact (List.cons.inj h).2.symm
    · rw [Nat.toDigits_of_base_le (by decide) (Nat.le_of_not_lt hsmall)] at h
      cases hhead : Nat.toDigits 10 (n / 10) with
      | nil => exact absurd hhead Nat.toDigits_ne_nil
      | cons c more =>
        rw [hhead, List.cons_append] at h
        obtain ⟨rfl, -⟩ := List.cons.inj h
        have hone := ih (n / 10) (by omega) hhead
        subst hone
        -- a first digit zero alone stands for zero
        have hzero := congrArg (Nat.ofDigitChars 10 · 0) hhead
        rw [Nat.ofDigitChars_ten_toDigits] at hzero
        have : Nat.ofDigitChars 10 ['0'] 0 = 0 := by decide
        omega

end Text

end Workbench
