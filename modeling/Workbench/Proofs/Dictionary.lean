import Mathlib.Data.List.Induction
import Mathlib.Data.List.Nodup
import Workbench.Dictionary

set_option autoImplicit false

/-! # Laws of dictionaries

What is under a key after a key was set, taken away or changed, and that each key stays single. A
dictionary whose keys are distinct holds an entry exactly where looking up its key finds its value,
so statements about entries become statements about `get?`. -/

namespace Workbench

/-! ## First appearances -/

section

variable {α : Type} [DecidableEq α]

/-- One more element is kept if it is the first of its kind. -/
theorem eraseDups_concat (l : List α) (a : α) :
    (l ++ [a]).eraseDups = if a ∈ l then l.eraseDups else l.eraseDups ++ [a] := by
  rw [List.eraseDups_append]
  by_cases h : a ∈ l
  · simp [List.removeAll, h]
  · simp [List.removeAll, h, List.eraseDups_cons]

theorem nodup_eraseDups (l : List α) : l.eraseDups.Nodup := by
  induction l using List.reverseRecOn with
  | nil => exact List.nodup_nil
  | append_singleton l a ih =>
    rw [eraseDups_concat]
    split
    · exact ih
    · next h =>
      have hnew : a ∉ l.eraseDups := fun hmem => h (List.mem_eraseDups.1 hmem)
      exact ih.append (List.nodup_singleton a) (List.disjoint_singleton.2 hnew)

theorem eraseDups_of_nodup {l : List α} (h : l.Nodup) : l.eraseDups = l := by
  induction l using List.reverseRecOn with
  | nil => rfl
  | append_singleton l a ih =>
    have hnew : a ∉ l := fun hmem =>
      List.disjoint_of_nodup_append h hmem (List.mem_singleton.2 rfl)
    rw [eraseDups_concat, if_neg hnew, ih h.of_append_left]

end

/-- Where the names of a list differ, an entry is in it exactly if looking its name up finds it. -/
theorem mem_iff_lookup_eq_some {α β : Type} [BEq α] [LawfulBEq α] {entries : List (α × β)}
    (h : (entries.map Prod.fst).Nodup) {name : α} {value : β} :
    (name, value) ∈ entries ↔ entries.lookup name = some value := by
  rw [List.lookup_eq_some_iff]
  constructor
  · intro hmem
    obtain ⟨before, after, rfl⟩ := List.append_of_mem hmem
    refine ⟨before, after, rfl, fun entry hentry => bne_iff_ne.2 fun heq => ?_⟩
    rw [List.map_append, List.map_cons] at h
    exact (List.nodup_append.1 h).2.2 _ (List.mem_map_of_mem hentry) _ List.mem_cons_self heq.symm
  · rintro ⟨before, after, rfl, -⟩
    exact List.mem_append_right _ List.mem_cons_self

namespace Dictionary

variable {κ ν : Type} [DecidableEq κ]

/-! ## Looking up -/

@[simp] theorem get?_nil (key : κ) : get? ([] : Dictionary κ ν) key = none := rfl

theorem get?_cons (k : κ) (v : ν) (d : Dictionary κ ν) (key : κ) :
    get? ((k, v) :: d) key = if k = key then some v else get? d key := rfl

omit [DecidableEq κ] in
theorem keys_cons (k : κ) (v : ν) (d : Dictionary κ ν) : keys ((k, v) :: d) = k :: keys d := rfl

/-- A key is there exactly if something is found under it. -/
theorem mem_keys_iff (d : Dictionary κ ν) (key : κ) : key ∈ d.keys ↔ (d.get? key).isSome := by
  induction d with
  | nil => simp [keys]
  | cons entry d ih =>
    obtain ⟨k, v⟩ := entry
    rw [keys_cons, get?_cons, List.mem_cons]
    by_cases hk : k = key
    · simp [hk]
    · rw [if_neg hk, ← ih]
      exact or_iff_right fun h => hk h.symm

/-! ## Setting -/

@[simp] theorem get?_put (d : Dictionary κ ν) (key : κ) (value : ν) (other : κ) :
    (d.put key value).get? other = if key = other then some value else d.get? other := by
  induction d with
  | nil => rfl
  | cons entry d ih =>
    obtain ⟨k, v⟩ := entry
    rw [put]
    split
    · next hk =>
      subst hk
      rw [get?_cons, get?_cons]
      split <;> rfl
    · next hk =>
      rw [get?_cons, get?_cons, ih]
      by_cases hko : k = other
      · subst hko
        rw [if_pos rfl, if_pos rfl, if_neg fun h => hk h.symm]
      · rw [if_neg hko, if_neg hko]

/-- Setting a key adds that key at most. -/
theorem keys_put (d : Dictionary κ ν) (key : κ) (value : ν) :
    (d.put key value).keys = if key ∈ d.keys then d.keys else d.keys ++ [key] := by
  induction d with
  | nil => rfl
  | cons entry d ih =>
    obtain ⟨k, v⟩ := entry
    rw [put]
    split
    · next hk =>
      subst hk
      rw [keys_cons, keys_cons, if_pos List.mem_cons_self]
    · next hk =>
      rw [keys_cons, keys_cons, ih]
      have hmem : key ∈ k :: keys d ↔ key ∈ keys d := by
        rw [List.mem_cons]
        exact or_iff_right fun h => hk h.symm
      by_cases h : key ∈ keys d
      · rw [if_pos h, if_pos (hmem.2 h)]
      · rw [if_neg h, if_neg fun h' => h (hmem.1 h'), List.cons_append]

theorem nodup_keys_put {d : Dictionary κ ν} (hd : d.keys.Nodup) (key : κ) (value : ν) :
    (d.put key value).keys.Nodup := by
  rw [keys_put]
  split
  · exact hd
  · next h => exact hd.append (List.nodup_singleton key) (List.disjoint_singleton.2 h)

/-- Setting a key to the value that is under it changes nothing. -/
theorem put_self {d : Dictionary κ ν} {key : κ} {value : ν} (h : d.get? key = some value) :
    d.put key value = d := by
  induction d with
  | nil => cases h
  | cons entry d ih =>
    obtain ⟨k, v⟩ := entry
    rw [get?_cons] at h
    rw [put]
    split at h
    · next hk => rw [if_pos hk, ← hk, Option.some.inj h]
    · next hk => rw [if_neg hk, ih h]

/-! ## Taking away -/

@[simp] theorem get?_remove (d : Dictionary κ ν) (key other : κ) :
    (d.remove key).get? other = if key = other then none else d.get? other := by
  induction d with
  | nil => simp [remove]
  | cons entry d ih =>
    obtain ⟨k, v⟩ := entry
    rw [remove] at ih ⊢
    by_cases hk : k = key
    · subst hk
      rw [List.filter_cons_of_neg (by simp), ih, get?_cons]
      split <;> rfl
    · rw [List.filter_cons_of_pos (by simpa using hk), get?_cons, get?_cons, ih]
      by_cases hko : k = other
      · rw [if_pos hko, if_pos hko, if_neg fun h => hk (hko.trans h.symm)]
      · rw [if_neg hko, if_neg hko]

theorem nodup_keys_remove {d : Dictionary κ ν} (hd : d.keys.Nodup) (key : κ) :
    (d.remove key).keys.Nodup :=
  hd.sublist (List.filter_sublist.map Prod.fst)

/-! ## Changing -/

@[simp] theorem get?_update (d : Dictionary κ ν) (key : κ) (f : ν → ν) (other : κ) :
    (d.update key f).get? other = if key = other then (d.get? other).map f else d.get? other := by
  unfold update
  split
  · next value hv =>
    rw [get?_put]
    split
    · next heq => rw [← heq, hv, Option.map_some]
    · rfl
  · next hv =>
    split
    · next heq => rw [← heq, hv, Option.map_none]
    · rfl

end Dictionary

end Workbench
