set_option autoImplicit false

/-! # Requests that are granted

A request that checks before it acts is granted exactly if it passes every check and every step on
the way yields. With these equivalences what a granted request has seen is read off its definition.
-/

namespace Workbench

variable {ε α β : Type}

/-- A step and the rest of a request. -/
theorem bind_eq_ok_iff {x : Except ε α} {rest : α → Except ε β} {b : β} :
    x >>= rest = .ok b ↔ ∃ a, x = .ok a ∧ rest a = .ok b := by
  constructor
  · intro h
    cases x with
    | error e => cases h
    | ok a => exact ⟨a, rfl, h⟩
  · rintro ⟨a, rfl, h⟩
    exact h

theorem pure_eq_ok_iff {a b : α} : (pure a : Except ε α) = .ok b ↔ a = b :=
  ⟨fun h => Except.ok.inj h, fun h => congrArg Except.ok h⟩

theorem toOption_eq_some_iff {x : Except ε α} {a : α} : x.toOption = some a ↔ x = .ok a := by
  cases x with
  | error e => exact iff_of_false (fun h => by cases h) fun h => by cases h
  | ok b => exact ⟨fun h => congrArg Except.ok (Option.some.inj h), fun h => by rw [h]; rfl⟩

theorem throw_ne_ok (e : ε) (a : α) : (throw e : Except ε α) ≠ .ok a := by
  intro h
  cases h

/-- A step that yields is passed. -/
theorem ok_bind (a : α) (rest : α → Except ε β) : (.ok a >>= rest) = rest a := rfl

/-- Nothing comes after a refusal. -/
theorem throw_bind (e : ε) (rest : α → Except ε β) : (throw e >>= rest) = throw e := rfl

/-- A check and the rest of a request. -/
theorem check_eq_ok_iff {c : Prop} [Decidable c] {e : ε} {rest : Except ε α} {a : α} :
    (if c then throw e else rest) = .ok a ↔ ¬ c ∧ rest = .ok a := by
  by_cases hc : c
  · rw [if_pos hc]
    exact iff_of_false (throw_ne_ok e a) fun h => h.1 hc
  · rw [if_neg hc, and_iff_right hc]

end Workbench
