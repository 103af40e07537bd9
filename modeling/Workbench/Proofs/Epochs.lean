import Mathlib.Data.List.Induction
import Workbench.Proofs.StoreLaws

set_option autoImplicit false

/-! # Epochs of a cache

A cache reads, clears and marks its store in steps that may each fail, and may be dropped and made
anew over the same store at any point. What it did is kept as a history of episodes. The invariant
is that a version record in the store dates the other entries: the store was last cleared for that
version, and all of them were brought by fetches after that. From it follows that nothing of an
older version is served. -/

namespace Workbench.Asset

variable {σ ω : Type}

/-- A use of a cache. A restart drops the cache and makes another over the same store. -/
inductive Call (ω : Type) where
  | reconcile (version : String)
  | fetch (key : String)
  | contains (key : String)
  | evict (key : String)
  | restart (source : ω)

/-- What a cache answers when it is used. -/
inductive Answer where
  | cleared (value : Bool)
  | bytes (data : ByteArray)
  | present (value : Bool)
  | done

/-- Whether a call asks for, looks for or drops an entry. -/
def Call.isUse : Call ω → Bool
  | fetch _ | contains _ | evict _ => true
  | reconcile _ | restart _ => false

/-- One use of a cache, with the cache before and after. -/
structure Episode (σ ω : Type) where
  before : Cache σ ω
  call : Call ω
  reply : Except Error Answer
  after : Cache σ ω

namespace Cache

/-- Carry out a call. -/
def answer (s : Store σ) (source : ω → String → Except Error ByteArray × ω) (c : Cache σ ω) :
    Call ω → Except Error Answer × Cache σ ω
  | .reconcile version =>
    let (result, c) := c.reconcile s version
    (result.map .cleared, c)
  | .fetch key =>
    let (result, c) := c.fetch s source key
    (result.map .bytes, c)
  | .contains key =>
    let (result, c) := c.contains s key
    (result.map .present, c)
  | .evict key =>
    let (result, c) := c.evict s key
    (result.map fun _ => .done, c)
  | .restart origin => (.ok .done, fresh c.store origin)

/-- Carry out one more call after those of a history. -/
def extend (s : Store σ) (source : ω → String → Except Error ByteArray × ω)
    (past : List (Episode σ ω) × Cache σ ω) (call : Call ω) : List (Episode σ ω) × Cache σ ω :=
  let (reply, after) := past.2.answer s source call
  (past.1 ++ [⟨past.2, call, reply, after⟩], after)

/-- Carry out calls from a new cache on, and record them. -/
def chronicle (s : Store σ) (source : ω → String → Except Error ByteArray × ω) (store : σ)
    (origin : ω) (calls : List (Call ω)) : List (Episode σ ω) × Cache σ ω :=
  calls.foldl (extend s source) ([], fresh store origin)

end Cache

namespace Episode

/-- The store was cleared for a version. -/
def ClearsFor (s : Store σ) (version : String) (e : Episode σ ω) : Prop :=
  e.call = .reconcile version ∧ e.before.Clears s version

/-- The cache was reconciled with a version. -/
def Grants (version : String) (e : Episode σ ω) : Prop :=
  e.call = .reconcile version ∧ ∃ answer, e.reply = .ok answer

/-- The source gave bytes for a key that was not in the store. -/
def Brings (s : Store σ) (source : ω → String → Except Error ByteArray × ω) (key : String)
    (bytes : ByteArray) (e : Episode σ ω) : Prop :=
  e.call = .fetch key ∧ e.before.Brings s source key bytes

/-- The cache was not made anew, and no reconciling succeeded or came so far as to clear. -/
structure Upholds (s : Store σ) (e : Episode σ ω) : Prop where
  kept : ∀ origin, e.call ≠ .restart origin
  ungranted : ∀ version, ¬ e.Grants version
  unbegun : ∀ version, e.call = .reconcile version → ¬ e.before.BeginsClearing s version

/-- The episode records what the cache does. -/
def Genuine (s : Store σ) (source : ω → String → Except Error ByteArray × ω) (e : Episode σ ω) :
    Prop :=
  e.before.answer s source e.call = (e.reply, e.after)

end Episode

/-- The last reconciling of the present cache that succeeded was with this version, and none has
    begun to clear since. -/
def Standing (s : Store σ) (version : String) (history : List (Episode σ ω)) : Prop :=
  ∃ early granted late, history = early ++ granted :: late ∧ granted.Grants version ∧
    ∀ e ∈ late, e.Upholds s

/-- The store was last cleared for this version, and every other entry was brought since. -/
def Epoch (s : Store σ) (look : σ → String → Option ByteArray)
    (source : ω → String → Except Error ByteArray × ω) (version : String)
    (history : List (Episode σ ω)) (store : σ) : Prop :=
  ∃ early clearing late, history = early ++ clearing :: late ∧ clearing.ClearsFor s version ∧
    (∀ e ∈ late, ∀ other, ¬ e.ClearsFor s other) ∧
    ∀ key ≠ versionKey, ∀ bytes, look store key = some bytes →
      ∃ e ∈ late, e.Brings s source key bytes

/-- Another store that does the same wherever it is not asked about the version. -/
def Store.AgreesApart (s s' : Store σ) : Prop :=
  ∀ state, ∀ key ≠ versionKey, s'.get state key = s.get state key ∧
    (∀ bytes, s'.put state key bytes = s.put state key bytes) ∧
    s'.remove state key = s.remove state key

/-- Entries of an older version are never served. -/
structure EpochLaw (s : Store σ) (look : σ → String → Option ByteArray)
    (source : ω → String → Except Error ByteArray × ω)
    (past : List (Episode σ ω) × Cache σ ω) : Prop where
  /-- A cache that may serve has the version of the last reconciling that succeeded, and every other
      entry was brought after the store was last cleared, which was for that version. -/
  current : past.2.isReconciled = true → ∃ version, Standing s version past.1 ∧
    look past.2.store versionKey = some version.toUTF8 ∧
    Epoch s look source version past.1 past.2.store
  /-- A fetch gives bytes only while a reconciling stands. -/
  granted : ∀ early e late, past.1 = early ++ e :: late → ∀ key bytes, e.call = .fetch key →
    e.reply = .ok (.bytes bytes) → ∃ version, Standing s version early
  /-- The bytes that a fetch gives were brought after every reconciling that said it had cleared the
      store. -/
  dated : ∀ early e late, past.1 = early ++ e :: late → ∀ key bytes, e.call = .fetch key →
    e.reply = .ok (.bytes bytes) → ∀ before clearing since version,
      early = before ++ clearing :: since → clearing.call = .reconcile version →
      clearing.reply = .ok (.cleared true) → ∃ e' ∈ since ++ [e], e'.Brings s source key bytes
  /-- What uses entries leaves the version as it is, and would not notice any other treatment of the
      version by the store. -/
  apart : ∀ e ∈ past.1, e.call.isUse = true →
    look e.after.store versionKey = look e.before.store versionKey ∧
    ∀ s', s.AgreesApart s' → e.before.answer s' source e.call = (e.reply, e.after)

variable {s : Store σ} {look : σ → String → Option ByteArray}
  {source : ω → String → Except Error ByteArray × ω} {history : List (Episode σ ω)}
  {version : String}

/-! ## The invariant -/

theorem Standing.of_grants {e : Episode σ ω} (h : e.Grants version) (history : List (Episode σ ω)) :
    Standing s version (history ++ [e]) :=
  ⟨history, e, [], rfl, h, by simp⟩

theorem Standing.append {e : Episode σ ω} (h : Standing s version history) (he : e.Upholds s) :
    Standing s version (history ++ [e]) := by
  obtain ⟨early, granted, late, rfl, hgranted, hlate⟩ := h
  refine ⟨early, granted, late ++ [e], by simp, hgranted, fun e' he' => ?_⟩
  rcases List.mem_append.1 he' with hmem | hmem
  · exact hlate e' hmem
  · rw [List.mem_singleton.1 hmem]
    exact he

theorem Epoch.of_clearsFor {e : Episode σ ω} (h : e.ClearsFor s version)
    (history : List (Episode σ ω)) {store : σ} (hnone : ∀ key ≠ versionKey, look store key = none) :
    Epoch s look source version (history ++ [e]) store := by
  refine ⟨history, e, [], rfl, h, by simp, fun key hkey bytes hbytes => ?_⟩
  rw [hnone key hkey] at hbytes
  cases hbytes

/-- An epoch goes on as long as entries are only dropped, or brought by the call itself. -/
theorem Epoch.append {e : Episode σ ω} {store store' : σ}
    (h : Epoch s look source version history store) (he : ∀ other, ¬ e.ClearsFor s other)
    (hstore : ∀ key ≠ versionKey, ∀ bytes, look store' key = some bytes →
      look store key = some bytes ∨ e.Brings s source key bytes) :
    Epoch s look source version (history ++ [e]) store' := by
  obtain ⟨early, clearing, late, rfl, hclearing, hlate, hbrought⟩ := h
  refine ⟨early, clearing, late ++ [e], by simp, hclearing, ?_, fun key hkey bytes hbytes => ?_⟩
  · intro e' he'
    rcases List.mem_append.1 he' with hmem | hmem
    · exact hlate e' hmem
    · rw [List.mem_singleton.1 hmem]
      exact he
  · rcases hstore key hkey bytes hbytes with hold | hnew
    · obtain ⟨e', hmem, hbrings⟩ := hbrought key hkey bytes hold
      exact ⟨e', List.mem_append_left _ hmem, hbrings⟩
    · exact ⟨e, List.mem_append_right _ (List.mem_singleton_self e), hnew⟩

/-- The version record dates the entries, and a cache that may serve has one that stands. -/
structure Kept (s : Store σ) (look : σ → String → Option ByteArray)
    (source : ω → String → Except Error ByteArray × ω)
    (past : List (Episode σ ω) × Cache σ ω) : Prop where
  dated : ∀ bytes, look past.2.store versionKey = some bytes →
    ∃ version, bytes = version.toUTF8 ∧ Epoch s look source version past.1 past.2.store
  standing : past.2.isReconciled = true →
    ∃ version, Standing s version past.1 ∧ look past.2.store versionKey = some version.toUTF8

namespace Kept

variable {c c' : Cache σ ω} {call : Call ω} {reply : Except Error Answer}

/-- Entries are dropped at most, and the cache may serve only if it could before. -/
theorem append_dropped (h : Kept s look source (history, c))
    (hupholds : Episode.Upholds s ⟨c, call, reply, c'⟩)
    (hclears : ∀ other, ¬ Episode.ClearsFor s other ⟨c, call, reply, c'⟩)
    (hflag : c'.isReconciled = c.isReconciled)
    (hversion : look c'.store versionKey = look c.store versionKey)
    (hstore : ∀ key ≠ versionKey, ∀ bytes, look c'.store key = some bytes →
      look c.store key = some bytes ∨ Episode.Brings s source key bytes ⟨c, call, reply, c'⟩) :
    Kept s look source (history ++ [⟨c, call, reply, c'⟩], c') where
  dated bytes hbytes := by
    obtain ⟨version, hbytes', hepoch⟩ := h.dated bytes (hversion ▸ hbytes)
    exact ⟨version, hbytes', hepoch.append hclears hstore⟩
  standing hreconciled := by
    obtain ⟨version, hstanding, hlook⟩ := h.standing (hflag ▸ hreconciled)
    exact ⟨version, hstanding.append hupholds, hversion.trans hlook⟩

theorem reconcile (hs : s.Lawful look) (h : Kept s look source (history, c)) (version : String) :
    Kept s look source (Cache.extend s source (history, c) (.reconcile version)) := by
  have hcase := Cache.reconciling hs c version
  rcases heq : c.reconcile s version with ⟨result, c'⟩
  rw [heq] at hcase
  simp only [Cache.extend, Cache.answer, heq]
  cases hcase with
  | unread hbegins hflag hlook =>
    refine h.append_dropped ⟨by simp, ?_, ?_⟩ ?_ hflag (by rw [hlook]) ?_
    · rintro other ⟨-, answer, hanswer⟩
      cases hanswer
    · rintro other ⟨⟩
      exact hbegins
    · rintro other ⟨hcall, hcleared⟩
      cases hcall
      exact hbegins hcleared.1
    · intro key _ bytes hbytes
      exact Or.inl (hlook ▸ hbytes)
  | current hbegins hversion hflag hlook =>
    have hclears : ∀ other, ¬ Episode.ClearsFor s other
        ⟨c, .reconcile version, .ok (.cleared false), c'⟩ := by
      rintro other ⟨hcall, hcleared⟩
      cases hcall
      exact hbegins hcleared.1
    refine ⟨fun bytes hbytes => ?_, fun _ => ⟨version, ?_, hlook ▸ hversion⟩⟩
    · obtain ⟨version', hbytes', hepoch⟩ := h.dated bytes (hlook ▸ hbytes)
      exact ⟨version', hbytes', hepoch.append hclears fun key _ bytes hkey =>
        Or.inl (hlook ▸ hkey)⟩
    · exact .of_grants ⟨rfl, _, rfl⟩ history
  | stuck hbegins hcleared hflag hlook =>
    refine ⟨fun bytes hbytes => ?_, fun hreconciled => ?_⟩
    · have hsome : look c.store versionKey = some bytes := by
        rcases hlook versionKey with hnone | hsame
        · rw [hnone] at hbytes
          cases hbytes
        · exact hsame ▸ hbytes
      obtain ⟨version', hbytes', hepoch⟩ := h.dated bytes hsome
      refine ⟨version', hbytes', hepoch.append ?_ fun key _ bytes hkey => ?_⟩
      · rintro other ⟨hcall, hclears⟩
        cases hcall
        exact hcleared hclears
      · rcases hlook key with hnone | hsame
        · rw [hnone] at hkey
          cases hkey
        · exact Or.inl (hsame ▸ hkey)
    · rw [hflag] at hreconciled
      cases hreconciled
  | unmarked hcleared hflag hmark hlook =>
    refine ⟨fun bytes hbytes => ⟨version, ?_, .of_clearsFor ⟨rfl, hcleared⟩ history hlook⟩,
      fun hreconciled => ?_⟩
    · rcases hmark with hmark | hmark
      · rw [hmark] at hbytes
        exact (Option.some.inj hbytes).symm
      · rw [hmark] at hbytes
        cases hbytes
    · rw [hflag] at hreconciled
      cases hreconciled
  | cleared hcleared hflag hmark hlook =>
    refine ⟨fun bytes hbytes => ⟨version, ?_, .of_clearsFor ⟨rfl, hcleared⟩ history hlook⟩,
      fun _ => ⟨version, .of_grants ⟨rfl, _, rfl⟩ history, hmark⟩⟩
    rw [hmark] at hbytes
    exact (Option.some.inj hbytes).symm

/-- What is neither reconciling nor a restart upholds what stands, and clears nothing. -/
theorem upholds_of_isUse (huse : call.isUse = true) :
    Episode.Upholds s ⟨c, call, reply, c'⟩ ∧
      ∀ other, ¬ Episode.ClearsFor s other ⟨c, call, reply, c'⟩ := by
  refine ⟨⟨?_, ?_, ?_⟩, ?_⟩
  · rintro origin hcall
    rw [show call = .restart origin from hcall] at huse
    cases huse
  · rintro other ⟨hcall, -⟩
    rw [show call = .reconcile other from hcall] at huse
    cases huse
  · intro other hcall
    rw [show call = .reconcile other from hcall] at huse
    cases huse
  · rintro other ⟨hcall, -⟩
    rw [show call = .reconcile other from hcall] at huse
    cases huse

/-- How a call that uses entries changes the cache. -/
theorem use_changes (hs : s.Lawful look) (source : ω → String → Except Error ByteArray × ω)
    (c : Cache σ ω) (huse : call.isUse = true) :
    (c.answer s source call).2.isReconciled = c.isReconciled ∧
    look (c.answer s source call).2.store versionKey = look c.store versionKey ∧
    ∀ key bytes, look (c.answer s source call).2.store key = some bytes →
      look c.store key = some bytes ∨ call = .fetch key ∧ c.Brings s source key bytes := by
  cases call with
  | reconcile | restart => cases huse
  | fetch key =>
    have hcase := Cache.fetching hs source c key
    rcases heq : c.fetch s source key with ⟨result, c'⟩
    rw [heq] at hcase
    simp only [Cache.answer, heq]
    cases hcase with
    | failed hflag hlook => exact ⟨hflag, by rw [hlook], fun _ _ hkey => Or.inl (hlook ▸ hkey)⟩
    | hit _ _ hflag hlook => exact ⟨hflag, by rw [hlook], fun _ _ hkey => Or.inl (hlook ▸ hkey)⟩
    | @brought bytes _ _ hbrings _ hflag helsewhere htried =>
      obtain ⟨-, -, hversion⟩ := Cache.check_eq_ok_iff.1 hbrings.1
      refine ⟨hflag, helsewhere versionKey hversion.symm, fun other bytes' hother => ?_⟩
      by_cases hkey : other = key
      · subst hkey
        rcases htried with hnew | hold
        · rw [hnew] at hother
          cases hother
          exact Or.inr ⟨rfl, hbrings⟩
        · exact Or.inl (hold ▸ hother)
      · exact Or.inl (helsewhere other hkey ▸ hother)
  | contains key =>
    obtain ⟨hflag, hlook⟩ := Cache.contains_kept hs c key
    exact ⟨hflag, congrFun hlook versionKey, fun other _ hother =>
      Or.inl ((congrFun hlook other).symm.trans hother)⟩
  | evict key =>
    obtain ⟨hflag, hversion, hlook⟩ := Cache.evict_kept hs c key
    refine ⟨hflag, hversion, fun other bytes hother => ?_⟩
    rcases hlook other with hnone | hsame
    · exact absurd (hother.symm.trans hnone) (by simp)
    · exact Or.inl (hsame.symm.trans hother)

/-- Every call keeps the invariant. -/
theorem extend (hs : s.Lawful look) (h : Kept s look source (history, c)) (call : Call ω) :
    Kept s look source (Cache.extend s source (history, c) call) := by
  by_cases huse : call.isUse = true
  · obtain ⟨hflag, hversion, hstore⟩ := use_changes hs source c huse
    obtain ⟨hupholds, hclears⟩ := upholds_of_isUse (s := s) huse
    exact h.append_dropped hupholds hclears hflag hversion fun key _ => hstore key
  · cases call with
    | fetch | contains | evict => exact absurd rfl huse
    | reconcile version => exact h.reconcile hs version
    | restart origin =>
      refine ⟨fun bytes hbytes => ?_, fun hreconciled => ?_⟩
      · obtain ⟨version, hbytes', hepoch⟩ := h.dated bytes hbytes
        refine ⟨version, hbytes', hepoch.append ?_ fun _ _ _ hkey => Or.inl hkey⟩
        rintro other ⟨hcall, -⟩
        cases hcall
      · cases hreconciled

end Kept

/-! ## Histories -/

/-- A statement about each episode and what came before it. -/
def Throughout (P : List (Episode σ ω) → Episode σ ω → Prop) (history : List (Episode σ ω)) :
    Prop :=
  ∀ early e late, history = early ++ e :: late → P early e

theorem Throughout.append {P : List (Episode σ ω) → Episode σ ω → Prop} (h : Throughout P history)
    {e : Episode σ ω} (he : P history e) : Throughout P (history ++ [e]) := by
  intro early e' late heq
  rcases List.eq_nil_or_concat late with rfl | ⟨late', last, rfl⟩
  · obtain ⟨rfl, hlast⟩ := List.append_inj' heq rfl
    cases hlast
    exact he
  · rw [List.concat_eq_append, ← List.cons_append, ← List.append_assoc] at heq
    exact h early e' late' (List.append_inj' heq rfl).1

/-- At every episode the record is true, and the invariant holds of what came before. -/
def Lasting (s : Store σ) (look : σ → String → Option ByteArray)
    (source : ω → String → Except Error ByteArray × ω) (early : List (Episode σ ω))
    (e : Episode σ ω) : Prop :=
  e.Genuine s source ∧ Kept s look source (early, e.before)

theorem kept_chronicle (hs : s.Lawful look) (source : ω → String → Except Error ByteArray × ω)
    {store : σ} (hempty : ∀ key, look store key = none) (origin : ω) (calls : List (Call ω)) :
    Kept s look source (Cache.chronicle s source store origin calls) ∧
      Throughout (Lasting s look source) (Cache.chronicle s source store origin calls).1 := by
  -- by induction from the end, as the record grows there
  induction calls using List.reverseRecOn with
  | nil =>
    refine ⟨⟨fun bytes hbytes => ?_, fun hreconciled => ?_⟩, fun early e late heq => ?_⟩
    · exact absurd (hbytes.symm.trans (hempty versionKey)) (by simp)
    · cases hreconciled
    · exact absurd heq.symm (by simp [Cache.chronicle])
  | append_singleton calls call ih =>
    obtain ⟨hkept, hthroughout⟩ := ih
    rw [Cache.chronicle, List.foldl_append, List.foldl_cons, List.foldl_nil]
    exact ⟨hkept.extend hs call, hthroughout.append ⟨rfl, hkept⟩⟩

/-- A reconciling that says it had cleared the store has done so. -/
theorem Episode.Genuine.clearsFor (hs : s.Lawful look) {e : Episode σ ω} (h : e.Genuine s source)
    (hcall : e.call = .reconcile version) (hreply : e.reply = .ok (.cleared true)) :
    e.ClearsFor s version := by
  have hcase := Cache.reconciling hs e.before version
  unfold Genuine at h
  rw [hcall, hreply] at h
  rcases heq : e.before.reconcile s version with ⟨result, c'⟩
  rw [heq] at hcase
  simp only [Cache.answer, heq, Prod.mk.injEq] at h
  cases hcase with
  | unread | stuck | unmarked => cases h.1
  | current => cases h.1
  | cleared hcleared => exact ⟨hcall, hcleared⟩

/-- A fetch that gives bytes may serve, and has them from the store or from the source. -/
theorem Episode.Genuine.served (hs : s.Lawful look) {e : Episode σ ω} (h : e.Genuine s source)
    {key : String} {bytes : ByteArray} (hcall : e.call = .fetch key)
    (hreply : e.reply = .ok (.bytes bytes)) :
    e.before.check key = .ok () ∧
      (look e.before.store key = some bytes ∨ e.Brings s source key bytes) := by
  have hcase := Cache.fetching hs source e.before key
  unfold Genuine at h
  rw [hcall, hreply] at h
  rcases heq : e.before.fetch s source key with ⟨result, c'⟩
  rw [heq] at hcase
  simp only [Cache.answer, heq, Prod.mk.injEq] at h
  cases hcase with
  | failed => cases h.1
  | hit hcheck hlook =>
    cases h.1
    exact ⟨hcheck, Or.inl hlook⟩
  | brought hbrings hsame =>
    refine ⟨hbrings.1, Or.inr ⟨hcall, ?_⟩⟩
    cases hresult : result with
    | error e =>
      rw [hresult] at h
      cases h.1
    | ok bytes' =>
      rw [hresult] at h
      cases h.1
      rw [hsame bytes hresult]
      exact hbrings

/-- What follows the last of the clearings follows any clearing. -/
theorem late_subset_of_last {P : Episode σ ω → Prop} {early early' late late' : List (Episode σ ω)}
    {e e' : Episode σ ω} (heq : early ++ e :: late = early' ++ e' :: late')
    (hlast : ∀ x ∈ late', ¬ P x) (he : P e) : late' ⊆ late := by
  rcases List.append_eq_append_iff.1 heq with ⟨mid, -, hmid⟩ | ⟨mid, -, hmid⟩
  · cases mid with
    | nil =>
      cases hmid
      exact List.Subset.refl _
    | cons x mid =>
      cases hmid
      intro y hy
      exact List.mem_append_right _ (List.mem_cons_of_mem _ hy)
  · cases mid with
    | nil =>
      cases hmid
      exact List.Subset.refl _
    | cons x mid =>
      cases hmid
      exact absurd he (hlast e (by simp))

/-- What uses entries asks the store about none but its key. -/
theorem answer_apart {s' : Store σ} (h : s.AgreesApart s') (c : Cache σ ω) {call : Call ω}
    (huse : call.isUse = true) : c.answer s' source call = c.answer s source call := by
  have hkeys : ∀ key, c.check key = .ok () → key ≠ versionKey := fun key hcheck =>
    (Cache.check_eq_ok_iff.1 hcheck).2.2
  cases call with
  | reconcile | restart => cases huse
  | fetch key =>
    rcases hcheck : c.check key with e | ⟨⟩
    · simp only [Cache.answer, Cache.fetch, hcheck]
    · have hkey := hkeys key hcheck
      simp only [Cache.answer, Cache.fetch, Cache.withStore, hcheck, (h _ key hkey).1,
        (h _ key hkey).2.1]
  | contains key =>
    rcases hcheck : c.check key with e | ⟨⟩
    · simp only [Cache.answer, Cache.contains, hcheck]
    · simp only [Cache.answer, Cache.contains, Cache.withStore, hcheck,
        (h _ key (hkeys key hcheck)).1]
  | evict key =>
    rcases hcheck : c.check key with e | ⟨⟩
    · simp only [Cache.answer, Cache.evict, hcheck]
    · simp only [Cache.answer, Cache.evict, Cache.withStore, hcheck,
        (h _ key (hkeys key hcheck)).2.2]

/-- Whatever is asked of a cache over a store that was empty at first, however often it is made anew
    and whatever fails, no entry of an older version is served. -/
theorem epochLaw_chronicle (hs : s.Lawful look)
    (source : ω → String → Except Error ByteArray × ω) {store : σ}
    (hempty : ∀ key, look store key = none) (origin : ω) (calls : List (Call ω)) :
    EpochLaw s look source (Cache.chronicle s source store origin calls) := by
  obtain ⟨hkept, hthroughout⟩ := kept_chronicle hs source hempty origin calls
  constructor
  · intro hreconciled
    obtain ⟨version, hstanding, hlook⟩ := hkept.standing hreconciled
    obtain ⟨version', hversion, hepoch⟩ := hkept.dated _ hlook
    rw [← String.toByteArray_inj.1 hversion] at hepoch
    exact ⟨version, hstanding, hlook, hepoch⟩
  · intro early e late heq key bytes hcall hreply
    obtain ⟨hgenuine, hbefore⟩ := hthroughout early e late heq
    obtain ⟨hcheck, -⟩ := hgenuine.served hs hcall hreply
    obtain ⟨version, hstanding, -⟩ := hbefore.standing (Cache.check_eq_ok_iff.1 hcheck).1
    exact ⟨version, hstanding⟩
  · intro early e late heq key bytes hcall hreply before clearing since version hearly hclearing
      hcleared
    obtain ⟨hgenuine, hbefore⟩ := hthroughout early e late heq
    obtain ⟨hcheck, hserved⟩ := hgenuine.served hs hcall hreply
    obtain ⟨hreconciled, -, hkey⟩ := Cache.check_eq_ok_iff.1 hcheck
    rcases hserved with hhit | hbrings
    · obtain ⟨version', -, hlook⟩ := hbefore.standing hreconciled
      obtain ⟨_, _, early', clearing', late', hearly', -, hlast, hbrought⟩ := hbefore.dated _ hlook
      obtain ⟨e', hmem, hbrings⟩ := hbrought key hkey bytes hhit
      -- the entry was brought after the last clearing, which is this one or a later one
      have hclears : clearing.ClearsFor s version := by
        have hrest : (Cache.chronicle s source store origin calls).1 =
            before ++ clearing :: (since ++ e :: late) := by
          rw [heq, hearly, List.append_assoc, List.cons_append]
        exact (hthroughout before clearing _ hrest).1.clearsFor hs hclearing hcleared
      have hsubset : late' ⊆ since :=
        late_subset_of_last (P := fun e => ∃ other, e.ClearsFor s other)
          (hearly.symm.trans hearly') (fun x hx ⟨other, hother⟩ => hlast x hx other hother)
          ⟨version, hclears⟩
      exact ⟨e', List.mem_append_left _ (hsubset hmem), hbrings⟩
    · exact ⟨e, List.mem_append_right _ (List.mem_singleton_self e), hbrings⟩
  · intro e he huse
    obtain ⟨early, late, heq⟩ := List.append_of_mem he
    obtain ⟨hgenuine, -⟩ := hthroughout early e late heq
    unfold Episode.Genuine at hgenuine
    refine ⟨?_, fun s' hagrees => (answer_apart hagrees e.before huse).trans hgenuine⟩
    have hversion := (Kept.use_changes hs source e.before huse).2.1
    rwa [hgenuine] at hversion

/-- The source has new bytes each time. A restart keeps those of the same version, and another
    version drops them. -/
theorem epochLaw_restarted :
    (Cache.chronicle Memory.store (fun n _ => (.ok (toString n).toUTF8, n + 1)) [] (0 : Nat)
      [.reconcile "1", .fetch "a", .restart 5, .fetch "a", .reconcile "1", .fetch "a",
        .reconcile "2", .fetch "a"]).2.isReconciled = true ∧
    EpochLaw Memory.store (fun m key => m.lookup key)
      (fun n _ => (.ok (toString n).toUTF8, n + 1))
      (Cache.chronicle Memory.store (fun n _ => (.ok (toString n).toUTF8, n + 1)) [] (0 : Nat)
        [.reconcile "1", .fetch "a", .restart 5, .fetch "a", .reconcile "1", .fetch "a",
          .reconcile "2", .fetch "a"]) :=
  ⟨rfl, epochLaw_chronicle Memory.lawful _ (fun _ => rfl) 0 _⟩

end Workbench.Asset
