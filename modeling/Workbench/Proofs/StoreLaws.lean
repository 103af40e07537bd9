import Mathlib.Tactic.SplitIfs
import Workbench.Asset.Cache

set_option autoImplicit false

/-! # What stores keep, and what a cache does with them

A store is lawful if looking into it finds what a map would hold, although each of its operations
may fail: a failed change has been made or not, and a failed clearing has removed any part of the
entries. The operations of the cache come with the ways in which they can end over such a store. -/

namespace Workbench.Asset

variable {σ ω : Type}

/-- A store that holds a map from keys to bytes, which `look` finds. -/
structure Store.Lawful (s : Store σ) (look : σ → String → Option ByteArray) : Prop where
  get_look : ∀ state key other, look (s.get state key).2 other = look state other
  get_found : ∀ state key found, (s.get state key).1 = .ok found → found = look state key
  put_elsewhere : ∀ state key bytes other, other ≠ key →
    look (s.put state key bytes).2 other = look state other
  put_done : ∀ state key bytes, (s.put state key bytes).1 = .ok () →
    look (s.put state key bytes).2 key = some bytes
  put_tried : ∀ state key bytes, look (s.put state key bytes).2 key = some bytes ∨
    look (s.put state key bytes).2 key = look state key
  remove_elsewhere : ∀ state key other, other ≠ key →
    look (s.remove state key).2 other = look state other
  remove_done : ∀ state key, (s.remove state key).1 = .ok () →
    look (s.remove state key).2 key = none
  remove_tried : ∀ state key, look (s.remove state key).2 key = none ∨
    look (s.remove state key).2 key = look state key
  clear_done : ∀ state, (s.clear state).1 = .ok () → ∀ key, look (s.clear state).2 key = none
  clear_tried : ∀ state key, look (s.clear state).2 key = none ∨
    look (s.clear state).2 key = look state key

/-! ## Storage in memory -/

namespace Memory

theorem lookup_drop (m : Memory) (key other : String) :
    (m.drop key).lookup other = if other = key then none else m.lookup other := by
  induction m with
  | nil => simp [drop]
  | cons entry m ih =>
    obtain ⟨k, bytes⟩ := entry
    unfold drop at ih ⊢
    by_cases hk : k = key
    · subst hk
      rw [List.filter_cons_of_neg (by simp), ih, List.lookup_cons]
      split_ifs with hother
      · rfl
      · rw [show (other == k) = false by simpa using hother]
    · rw [List.filter_cons_of_pos (by simpa using hk), List.lookup_cons, List.lookup_cons, ih]
      by_cases hother : other = k
      · subst hother
        simp [hk]
      · have hfalse : (other == k) = false := by simpa using hother
        rw [hfalse]

theorem lookup_put (m : Memory) (key other : String) (bytes : ByteArray) :
    (m.drop key ++ [(key, bytes)]).lookup other =
      if other = key then some bytes else m.lookup other := by
  rw [List.lookup_append, lookup_drop]
  by_cases hother : other = key
  · subst hother
    simp
  · have hfalse : (other == key) = false := by simpa using hother
    simp [hother, List.lookup_cons, hfalse]

/-- Storage in memory is lawful. -/
theorem lawful : store.Lawful fun m key => m.lookup key where
  get_look _ _ _ := rfl
  get_found _ _ _ hfound := (Except.ok.inj hfound).symm
  put_elsewhere m key bytes other hne := (lookup_put m key other bytes).trans (if_neg hne)
  put_done m key bytes _ := (lookup_put m key key bytes).trans (if_pos rfl)
  put_tried m key bytes := Or.inl ((lookup_put m key key bytes).trans (if_pos rfl))
  remove_elsewhere m key other hne := (lookup_drop m key other).trans (if_neg hne)
  remove_done m key _ := (lookup_drop m key key).trans (if_pos rfl)
  remove_tried m key := Or.inl ((lookup_drop m key key).trans (if_pos rfl))
  clear_done _ _ _ := rfl
  clear_tried _ _ := Or.inl rfl

end Memory

/-! ## How the operations of a cache end -/

namespace Cache

variable {s : Store σ} {look : σ → String → Option ByteArray}
  {source : ω → String → Except Error ByteArray × ω} {c : Cache σ ω}

theorem withStore_eq {α : Type} (c : Cache σ ω) {act : σ → Except Error α × σ}
    {result : Except Error α} {store : σ} (h : act c.store = (result, store)) :
    c.withStore act = (result, { c with store := store }) := by
  rw [withStore, h]

theorem check_eq_ok_iff {key : String} :
    c.check key = .ok () ↔ c.isReconciled = true ∧ key ≠ "" ∧ key ≠ versionKey := by
  unfold check
  cases c.isReconciled with
  | false => simp
  | true =>
    simp only [Bool.not_true, Bool.false_eq_true, if_false, true_and]
    split_ifs with hkey
    · simp only [false_iff]
      rintro ⟨hempty, hversion⟩
      exact hkey.elim hempty hversion
    · exact ⟨fun _ => not_or.1 hkey, fun _ => rfl⟩

/-- Reconciling has found another version, or none, and goes on to clear the store. -/
def BeginsClearing (s : Store σ) (c : Cache σ ω) (version : String) : Prop :=
  ∃ current, (s.get c.store versionKey).1 = .ok current ∧
    current.map ByteArray.data ≠ some version.toUTF8.data

/-- Reconciling has cleared the store for a version. -/
def Clears (s : Store σ) (c : Cache σ ω) (version : String) : Prop :=
  BeginsClearing s c version ∧ (s.clear (s.get c.store versionKey).2).1 = .ok ()

/-- The ways in which reconciling can end. -/
inductive Reconciling (s : Store σ) (look : σ → String → Option ByteArray) (c : Cache σ ω)
    (version : String) : Except Error Bool → Cache σ ω → Prop where
  /-- The version could not be read. -/
  | unread {e : Error} {c' : Cache σ ω} : ¬ BeginsClearing s c version →
      c'.isReconciled = c.isReconciled → look c'.store = look c.store →
      Reconciling s look c version (.error e) c'
  /-- The store has the version already. -/
  | current {c' : Cache σ ω} : ¬ BeginsClearing s c version →
      look c.store versionKey = some version.toUTF8 → c'.isReconciled = true →
      look c'.store = look c.store →
      Reconciling s look c version (.ok false) c'
  /-- The store could not be cleared, or not all of it. -/
  | stuck {e : Error} {c' : Cache σ ω} : BeginsClearing s c version → ¬ Clears s c version →
      c'.isReconciled = false →
      (∀ key, look c'.store key = none ∨ look c'.store key = look c.store key) →
      Reconciling s look c version (.error e) c'
  /-- The store was cleared, but the version could not be stored for sure. -/
  | unmarked {e : Error} {c' : Cache σ ω} : Clears s c version → c'.isReconciled = false →
      (look c'.store versionKey = some version.toUTF8 ∨ look c'.store versionKey = none) →
      (∀ key ≠ versionKey, look c'.store key = none) →
      Reconciling s look c version (.error e) c'
  /-- The store was cleared and has the version now. -/
  | cleared {c' : Cache σ ω} : Clears s c version → c'.isReconciled = true →
      look c'.store versionKey = some version.toUTF8 →
      (∀ key ≠ versionKey, look c'.store key = none) →
      Reconciling s look c version (.ok true) c'

theorem reconciling (h : s.Lawful look) (c : Cache σ ω) (version : String) :
    Reconciling s look c version (c.reconcile s version).1 (c.reconcile s version).2 := by
  rcases hget : s.get c.store versionKey with ⟨current, store₁⟩
  have hlook : ∀ key, look store₁ key = look c.store key := fun key => by
    rw [← h.get_look c.store versionKey key, hget]
  rw [reconcile, withStore_eq c hget]
  cases current with
  | error e =>
    refine .unread ?_ rfl (funext hlook)
    rintro ⟨current, hcurrent, -⟩
    rw [hget] at hcurrent
    cases hcurrent
  | ok current =>
    have hfound : current = look c.store versionKey :=
      h.get_found c.store versionKey current (by rw [hget])
    dsimp only
    split_ifs with hversion
    · refine .current ?_ ?_ rfl (funext hlook)
      · rintro ⟨other, hother, hne⟩
        rw [hget] at hother
        cases hother
        exact hne hversion
      · rw [hfound, Option.map_eq_some_iff] at hversion
        obtain ⟨bytes, hbytes, hdata⟩ := hversion
        rw [hbytes, ByteArray.ext hdata]
    · have hbegins : BeginsClearing s c version := ⟨current, by rw [hget], hversion⟩
      rcases hclear : s.clear store₁ with ⟨result, store₂⟩
      rw [withStore_eq ⟨false, store₁, c.source⟩ hclear]
      cases result with
      | error e =>
        refine .stuck hbegins ?_ rfl fun key => ?_
        · rintro ⟨-, hcleared⟩
          rw [hget, hclear] at hcleared
          cases hcleared
        · have htried := h.clear_tried store₁ key
          rwa [hclear, hlook] at htried
      | ok =>
        have hclears : Clears s c version := ⟨hbegins, by rw [hget, hclear]⟩
        have hnone : ∀ key, look store₂ key = none := by
          have hdone := h.clear_done store₁
          rw [hclear] at hdone
          exact hdone rfl
        rcases hmark : s.put store₂ versionKey version.toUTF8 with ⟨result, store₃⟩
        have helsewhere : ∀ key ≠ versionKey, look store₃ key = none := by
          intro key hkey
          have hput := h.put_elsewhere store₂ versionKey version.toUTF8 key hkey
          rwa [hmark, hnone] at hput
        dsimp only
        rw [withStore_eq ⟨false, store₂, c.source⟩ hmark]
        cases result with
        | error e =>
          have htried := h.put_tried store₂ versionKey version.toUTF8
          rw [hmark, hnone] at htried
          exact .unmarked hclears rfl htried helsewhere
        | ok =>
          have hdone := h.put_done store₂ versionKey version.toUTF8
          rw [hmark] at hdone
          exact .cleared hclears rfl (hdone rfl) helsewhere

/-- A fetch misses the store, and the source answers with bytes. -/
def Brings (s : Store σ) (source : ω → String → Except Error ByteArray × ω) (c : Cache σ ω)
    (key : String) (bytes : ByteArray) : Prop :=
  c.check key = .ok () ∧ (s.get c.store key).1 = .ok none ∧ (source c.source key).1 = .ok bytes

/-- The ways in which a fetch can end. -/
inductive Fetching (s : Store σ) (look : σ → String → Option ByteArray)
    (source : ω → String → Except Error ByteArray × ω) (c : Cache σ ω) (key : String) :
    Except Error ByteArray → Cache σ ω → Prop where
  /-- Neither the store nor the source has given bytes. -/
  | failed {e : Error} {c' : Cache σ ω} : c'.isReconciled = c.isReconciled →
      look c'.store = look c.store → Fetching s look source c key (.error e) c'
  /-- The store has the bytes. -/
  | hit {bytes : ByteArray} {c' : Cache σ ω} : c.check key = .ok () →
      look c.store key = some bytes → c'.isReconciled = c.isReconciled →
      look c'.store = look c.store → Fetching s look source c key (.ok bytes) c'
  /-- The source has given the bytes, and they were stored, or may have been. -/
  | brought {bytes : ByteArray} {result : Except Error ByteArray} {c' : Cache σ ω} :
      Brings s source c key bytes → (∀ bytes', result = .ok bytes' → bytes' = bytes) →
      c'.isReconciled = c.isReconciled →
      (∀ other ≠ key, look c'.store other = look c.store other) →
      (look c'.store key = some bytes ∨ look c'.store key = look c.store key) →
      Fetching s look source c key result c'

theorem fetching (h : s.Lawful look) (source : ω → String → Except Error ByteArray × ω)
    (c : Cache σ ω) (key : String) :
    Fetching s look source c key (c.fetch s source key).1 (c.fetch s source key).2 := by
  rcases hget : s.get c.store key with ⟨found, store₁⟩
  have hlook : ∀ other, look store₁ other = look c.store other := fun other => by
    rw [← h.get_look c.store key other, hget]
  rw [fetch, withStore_eq c hget]
  rcases hcheck : c.check key with e | ⟨⟩
  · exact .failed rfl rfl
  rcases found with e | found
  · exact .failed rfl (funext hlook)
  have hfound : found = look c.store key := h.get_found c.store key found (by rw [hget])
  cases found with
  | some bytes => exact .hit hcheck hfound.symm rfl (funext hlook)
  | none =>
    rcases hsource : source c.source key with ⟨answer, origin⟩
    dsimp only
    rw [hsource]
    cases answer with
    | error e => exact .failed rfl (funext hlook)
    | ok bytes =>
      have hbrings : Brings s source c key bytes := ⟨hcheck, by rw [hget], by rw [hsource]⟩
      rcases hput : s.put store₁ key bytes with ⟨result, store₂⟩
      have helsewhere : ∀ other ≠ key, look store₂ other = look c.store other := by
        intro other hother
        have hother := h.put_elsewhere store₁ key bytes other hother
        rwa [hput, hlook] at hother
      have htried := h.put_tried store₁ key bytes
      rw [hput, hlook] at htried
      dsimp only
      rw [withStore_eq ⟨c.isReconciled, store₁, origin⟩ hput]
      cases result with
      | error e =>
        refine .brought hbrings ?_ rfl helsewhere htried
        rintro bytes' ⟨⟩
      | ok =>
        refine .brought hbrings ?_ rfl helsewhere htried
        rintro bytes' ⟨⟩
        rfl

theorem contains_kept (h : s.Lawful look) (c : Cache σ ω) (key : String) :
    (c.contains s key).2.isReconciled = c.isReconciled ∧
      look (c.contains s key).2.store = look c.store := by
  unfold contains withStore
  split
  · exact ⟨rfl, rfl⟩
  · exact ⟨rfl, funext (h.get_look c.store key)⟩

theorem evict_kept (h : s.Lawful look) (c : Cache σ ω) (key : String) :
    (c.evict s key).2.isReconciled = c.isReconciled ∧
      (look (c.evict s key).2.store versionKey = look c.store versionKey) ∧
      ∀ other, look (c.evict s key).2.store other = none ∨
        look (c.evict s key).2.store other = look c.store other := by
  unfold evict withStore
  split
  · exact ⟨rfl, rfl, fun _ => Or.inr rfl⟩
  · next hcheck =>
    obtain ⟨-, -, hkey⟩ := check_eq_ok_iff.1 hcheck
    refine ⟨rfl, h.remove_elsewhere c.store key versionKey hkey.symm, fun other => ?_⟩
    by_cases hother : other = key
    · subst hother
      exact h.remove_tried c.store other
    · exact Or.inr (h.remove_elsewhere c.store key other hother)

end Cache

end Workbench.Asset
