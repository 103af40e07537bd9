import Workbench.Proofs.Epochs
import Workbench.Proofs.ServedStore

set_option autoImplicit false

/-! # What a source is asked for

Over a store that works, a cache asks its source for a key only while the store has nothing for it,
and stores what the source answers. So as long as the store is not cleared and the key not dropped,
the source answers with bytes once at most, and everyone who fetches the key gets these bytes. A
source that keeps a record of what it was asked for makes this visible. -/

namespace Workbench.Asset

variable {σ ω : Type}

/-! ## Records of a source -/

/-- The bytes that were answered for a key. -/
def Requests.answers (log : Requests) (key : String) : List ByteArray :=
  log.filterMap fun request => if request.1 = key then request.2.toOption else none

/-- A source that records what it is asked for. -/
def recorded (source : ω → String → Except Error ByteArray × ω) (state : ω × Requests)
    (key : String) : Except Error ByteArray × ω × Requests :=
  let (answer, origin) := source state.1 key
  (answer, origin, state.2 ++ [(key, answer)])

theorem Requests.answers_append (log : Requests) (other key : String)
    (answer : Except Error ByteArray) : answers (log ++ [(other, answer)]) key =
      log.answers key ++ if other = key then answer.toOption.toList else [] := by
  rw [answers, List.filterMap_append]
  congr 1
  split_ifs with hkey
  · cases answer <;> simp [Except.toOption, hkey]
  · simp [hkey]

/-! ## Fetching over a store that works -/

/-- A store that is lawful and fails neither to look, nor to store, nor to clear. -/
structure Store.Working (s : Store σ) (look : σ → String → Option ByteArray) : Prop where
  lawful : s.Lawful look
  reliable : s.Reliable
  clear : ∀ state, (s.clear state).1 = .ok ()

theorem Memory.working : store.Working fun m key => m.lookup key :=
  ⟨lawful, reliable, fun _ => rfl⟩

namespace Cache

variable {s : Store σ} {look : σ → String → Option ByteArray}
  {source : ω → String → Except Error ByteArray × ω} {c c' : Cache σ ω}

/-- The ways in which a fetch can end over a store that works. -/
inductive Supplied (look : σ → String → Option ByteArray)
    (source : ω → String → Except Error ByteArray × ω) (c : Cache σ ω) (key : String) :
    Except Error ByteArray → Cache σ ω → Prop where
  /-- The cache may not serve yet, or no asset can have the key. -/
  | refused {e : Error} : c.check key = .error e → Supplied look source c key (.error e) c
  /-- The store has the bytes. -/
  | stored {bytes : ByteArray} {c' : Cache σ ω} : c.check key = .ok () →
      look c.store key = some bytes → c'.isReconciled = c.isReconciled →
      look c'.store = look c.store → c'.source = c.source →
      Supplied look source c key (.ok bytes) c'
  /-- The source is asked, and its bytes are stored if it has answered with any. -/
  | asked {answer : Except Error ByteArray} {c' : Cache σ ω} : c.check key = .ok () →
      look c.store key = none → source c.source key = (answer, c'.source) →
      c'.isReconciled = c.isReconciled →
      (∀ other, look c'.store other =
        if other = key then answer.toOption else look c.store other) →
      Supplied look source c key answer c'

theorem supplied (hs : s.Working look) (source : ω → String → Except Error ByteArray × ω)
    (c : Cache σ ω) (key : String) :
    Supplied look source c key (c.fetch s source key).1 (c.fetch s source key).2 := by
  rcases hget : s.get c.store key with ⟨found, store₁⟩
  have hlook : ∀ other, look store₁ other = look c.store other := fun other => by
    rw [← hs.lawful.get_look c.store key other, hget]
  obtain ⟨found, hfound⟩ : ∃ found', found = .ok found' := by
    have hget' := hs.reliable.get c.store key
    rwa [hget] at hget'
  subst hfound
  have hthere : found = look c.store key := hs.lawful.get_found c.store key found (by rw [hget])
  rw [fetch, withStore_eq c hget]
  rcases hcheck : c.check key with e | ⟨⟩
  · exact .refused hcheck
  cases found with
  | some bytes => exact .stored hcheck hthere.symm rfl (funext hlook) rfl
  | none =>
    rcases hsource : source c.source key with ⟨answer, origin⟩
    dsimp only
    rw [hsource]
    cases answer with
    | error e =>
      refine .asked hcheck hthere.symm hsource rfl fun other => ?_
      rw [hlook]
      split_ifs with hother
      · rw [hother, ← hthere]
        rfl
      · rfl
    | ok bytes =>
      rcases hput : s.put store₁ key bytes with ⟨result, store₂⟩
      have hdone : result = .ok () := by
        have hput' := hs.reliable.put store₁ key bytes
        rwa [hput] at hput'
      subst hdone
      dsimp only
      rw [withStore_eq ⟨c.isReconciled, store₁, origin⟩ hput]
      refine .asked hcheck hthere.symm hsource rfl fun other => ?_
      split_ifs with hother
      · have hnew := hs.lawful.put_done store₁ key bytes (by rw [hput])
        rw [hput] at hnew
        rw [hother]
        exact hnew
      · have hold := hs.lawful.put_elsewhere store₁ key bytes other hother
        rw [hput, hlook] at hold
        exact hold

/-! ### Calls that are left where they wait -/

/-- The ways in which a fetch can come to wait, with what it has done by then. -/
inductive Left (s : Store σ) (source : ω → String → Except Error ByteArray × ω) (c : Cache σ ω)
    (key : String) : Pause → Cache σ ω → Prop where
  | looking : c.check key = .ok () → Left s source c key .looking c
  | asking {store : σ} : c.check key = .ok () → s.get c.store key = (.ok none, store) →
      Left s source c key .asking { c with store := store }
  | keeping {store : σ} {bytes : ByteArray} {origin : ω} : c.check key = .ok () →
      s.get c.store key = (.ok none, store) → source c.source key = (.ok bytes, origin) →
      Left s source c key .keeping { c with store := store, source := origin }

theorem left_of_fetchUntil {key : String} {pause : Pause}
    (h : c.fetchUntil s source key pause = some c') : Left s source c key pause c' := by
  unfold fetchUntil at h
  rcases hget : s.get c.store key with ⟨found, store⟩
  rw [withStore_eq c hget] at h
  cases hcheck : c.check key with
  | error e =>
    rw [hcheck] at h
    cases h
  | ok allowed =>
  simp only [hcheck] at h
  by_cases hlooking : pause = .looking
  · rw [if_pos hlooking] at h
    cases h
    exact hlooking ▸ .looking hcheck
  rw [if_neg hlooking] at h
  rcases found with e | ⟨_ | bytes⟩
  · cases h
  · by_cases hasking : pause = .asking
    · simp only [if_pos hasking] at h
      cases h
      exact hasking ▸ .asking hcheck hget
    rcases hsource : source c.source key with ⟨e | bytes, origin⟩ <;>
      simp only [if_neg hasking, hsource] at h
    · cases h
    · split_ifs at h with hkeeping
      cases h
      exact hkeeping ▸ .keeping hcheck hget hsource
  · cases h

/-- A fetch whose bytes are to be put has nothing else to do, and ends as the store answers. -/
theorem fetch_of_keeping {key : String} (h : c.fetchUntil s source key .keeping = some c') :
    ∃ bytes, c.fetch s source key = ((c'.withStore (s.put · key bytes)).1.map fun _ => bytes,
      (c'.withStore (s.put · key bytes)).2) := by
  cases left_of_fetchUntil h with
  | @keeping store bytes origin hcheck hget hsource =>
    refine ⟨bytes, ?_⟩
    rw [fetch, hcheck, withStore_eq c hget]
    dsimp only
    rw [hsource]
    dsimp only
    generalize withStore _ (s.put · key bytes) = put
    rcases put with ⟨e | ⟨⟩, c'⟩ <;> rfl

/-- One cache has of another all that matters to those who ask it. -/
structure Alike (look : σ → String → Option ByteArray) (c c' : Cache σ ω) : Prop where
  flag : c'.isReconciled = c.isReconciled
  look : look c'.store = look c.store
  source : c'.source = c.source

/-- A fetch that waits without writing has looked into the store at most. -/
theorem Left.alike (hs : s.Lawful look) {key : String} {pause : Pause}
    (h : Left s source c key pause c') (hpause : pause.writes = false) : Alike look c c' := by
  cases h with
  | looking => exact ⟨rfl, rfl, rfl⟩
  | @asking store _ hget =>
    refine ⟨rfl, funext fun other => ?_, rfl⟩
    rw [← hs.get_look c.store key other, hget]
  | keeping => cases hpause

/-- Reconciling that waits without writing has only begun. -/
theorem eq_of_reconcileUntil {version : String} {pause : Pause} (hpause : pause.writes = false)
    (h : c.reconcileUntil s version pause = some c') : c' = c := by
  unfold reconcileUntil at h
  by_cases hreading : pause = .reading
  · rw [if_pos hreading] at h
    exact (Option.some.inj h).symm
  -- every other pause of it is one for writing
  have hclearing : pause ≠ .clearing := by
    rintro rfl
    cases hpause
  have hmarking : pause ≠ .marking := by
    rintro rfl
    cases hpause
  simp only [if_neg hreading, if_neg hclearing, if_neg hmarking] at h
  repeat' split at h
  all_goals cases h

/-- A version that the store has already is not cleared for. -/
theorem not_beginsClearing (hs : s.Lawful look) {version : String}
    (h : look c.store versionKey = some version.toUTF8) : ¬ BeginsClearing s c version := by
  rintro ⟨current, hcurrent, hne⟩
  have hfound := hs.get_found c.store versionKey current hcurrent
  rw [h] at hfound
  rw [hfound] at hne
  exact hne rfl

theorem clears_iff (hs : s.Working look) {version : String} :
    Clears s c version ↔ BeginsClearing s c version :=
  ⟨And.left, fun h => ⟨h, hs.clear _⟩⟩

theorem source_contains (s : Store σ) (c : Cache σ ω) (key : String) :
    (c.contains s key).2.source = c.source := by
  unfold contains
  split <;> rfl

theorem source_evict (s : Store σ) (c : Cache σ ω) (key : String) :
    (c.evict s key).2.source = c.source := by
  unfold evict
  split <;> rfl

theorem evict_elsewhere (hs : s.Lawful look) (c : Cache σ ω) {key other : String}
    (h : other ≠ key) : look (c.evict s key).2.store other = look c.store other := by
  unfold evict withStore
  split
  · rfl
  · exact hs.remove_elsewhere c.store key other h

/-! ## What was answered is kept -/

section Recorded

variable {source : ω → String → Except Error ByteArray × ω} {c c' : Cache σ (ω × Requests)}
  {key : String}

/-- The source has answered for a key once at most, and the store has its bytes. -/
def Spent (look : σ → String → Option ByteArray) (key : String) (c : Cache σ (ω × Requests)) :
    Prop :=
  c.source.2.answers key = [] ∨
    ∃ bytes, c.source.2.answers key = [bytes] ∧ look c.store key = some bytes

theorem Spent.length_le (h : c.Spent look key) : (c.source.2.answers key).length ≤ 1 := by
  rcases h with hnone | ⟨bytes, hone, -⟩
  · rw [hnone]
    exact Nat.zero_le 1
  · rw [hone]
    exact le_refl 1

theorem Spent.look_of_mem (h : c.Spent look key) {bytes : ByteArray}
    (hbytes : bytes ∈ c.source.2.answers key) : look c.store key = some bytes := by
  rcases h with hnone | ⟨bytes', hone, hlook⟩
  · rw [hnone] at hbytes
    cases hbytes
  · rw [hone, List.mem_singleton] at hbytes
    rw [hbytes, hlook]

theorem Spent.of_eq (h : c.Spent look key) (hsource : c'.source = c.source)
    (hlook : look c'.store key = look c.store key) : c'.Spent look key := by
  rw [Spent, hsource, hlook]
  exact h

/-- A fetch that is left before its bytes were put has been answered, and the store has nothing: the
    key will be asked for again. -/
theorem not_spent_of_keeping (hs : s.Lawful look)
    (h : c.fetchUntil s (recorded source) key .keeping = some c') : ¬ c'.Spent look key := by
  cases left_of_fetchUntil h with
  | @keeping store bytes origin hcheck hget hsource =>
    have hnone : look store key = none := by
      have hthere := hs.get_found c.store key none (by rw [hget])
      rw [← hs.get_look c.store key key, hget] at hthere
      exact hthere.symm
    have hlog : origin.2 = c.source.2 ++ [(key, .ok bytes)] := by
      obtain ⟨hanswer, horigin⟩ := Prod.mk.inj hsource
      rw [← horigin, hanswer]
    have hanswers : origin.2.answers key = c.source.2.answers key ++ [bytes] := by
      rw [hlog, Requests.answers_append, if_pos rfl]
      rfl
    rintro (hunasked | ⟨bytes', -, hstored⟩)
    · exact List.append_ne_nil_of_right_ne_nil _ (List.cons_ne_nil bytes [])
        (hanswers.symm.trans hunasked)
    · cases hnone.symm.trans hstored

/-- Whatever is fetched, no key is answered for a second time. -/
theorem Spent.supplied {other : String} {reply : Except Error ByteArray} (h : c.Spent look key)
    (hfetch : Supplied look (recorded source) c other reply c') : c'.Spent look key := by
  cases hfetch with
  | refused => exact h
  | stored _ _ _ hlook hsource => exact h.of_eq hsource (congrFun hlook key)
  | asked _ hnone hsource _ hlook =>
    have hlog : c'.source.2 = c.source.2 ++ [(other, reply)] := by
      rw [recorded] at hsource
      rw [← (Prod.mk.inj hsource).2, (Prod.mk.inj hsource).1]
    rw [Spent, hlog, Requests.answers_append, hlook]
    by_cases hkey : key = other
    · subst hkey
      -- the store has nothing for the key, so nothing was answered for it
      have hfirst : c.source.2.answers key = [] := by
        rcases h with hempty | ⟨bytes, -, hbytes⟩
        · exact hempty
        · rw [hnone] at hbytes
          cases hbytes
      rw [hfirst, if_pos rfl, if_pos rfl]
      cases reply with
      | error e => exact Or.inl rfl
      | ok bytes => exact Or.inr ⟨bytes, rfl, rfl⟩
    · rw [if_neg (Ne.symm hkey), if_neg hkey, List.append_nil]
      exact h

end Recorded

end Cache

/-! ## Runs of a cache -/

section Recorded

variable {s : Store σ} {look : σ → String → Option ByteArray}
  {source : ω → String → Except Error ByteArray × ω} {key : String}

namespace Cache

/-- Carry out calls one after the other, and record them. -/
def resume (s : Store σ) (source : ω → String → Except Error ByteArray × ω) (c : Cache σ ω)
    (calls : List (Call ω)) : List (Episode σ ω) × Cache σ ω :=
  calls.foldl (extend s source) ([], c)

theorem resume_concat (s : Store σ) (source : ω → String → Except Error ByteArray × ω)
    (c : Cache σ ω) (calls : List (Call ω)) (call : Call ω) :
    c.resume s source (calls ++ [call]) = extend s source (c.resume s source calls) call := by
  rw [resume, List.foldl_append]
  rfl

end Cache

namespace Episode

/-- The source was asked for a key, and this was recorded. -/
def Asks (source : ω → String → Except Error ByteArray × ω) (key : String)
    (e : Episode σ (ω × Requests)) : Prop :=
  e.after.source = ((source e.before.source.1 key).2,
    e.before.source.2 ++ [(key, (source e.before.source.1 key).1)])

/-- The store was not cleared, the cache not made anew and the key not dropped. -/
structure Spares (s : Store σ) (key : String) (e : Episode σ ω) : Prop where
  uncleared : ∀ version, ¬ e.ClearsFor s version
  unended : ∀ origin, e.call ≠ .restart origin
  undropped : e.call ≠ .evict key

/-- Calls that do nothing but fetch, look for and drop other keys spare a key. -/
theorem spares_of_calls {c : Cache σ ω} {source : ω → String → Except Error ByteArray × ω}
    {calls : List (Call ω)} (h : ∀ call ∈ calls, call.isUse = true ∧ call ≠ .evict key) :
    ∀ e ∈ (c.resume s source calls).1, e.Spares s key := by
  induction calls using List.reverseRecOn with
  | nil => simp [Cache.resume]
  | append_singleton calls call ih =>
    rw [Cache.resume_concat, Cache.extend]
    intro e he
    rcases List.mem_append.1 he with he | he
    · exact ih (fun other hother => h other (List.mem_append_left _ hother)) e he
    · obtain ⟨huse, hevict⟩ := h call (List.mem_append_right _ List.mem_cons_self)
      rw [List.mem_singleton.1 he]
      obtain ⟨hupholds, hclears⟩ := Kept.upholds_of_isUse huse
      exact ⟨hclears, hupholds.kept, hevict⟩

/-- An episode asks for what is fetched and not there, and keeps what is answered. -/
structure Frugal (look : σ → String → Option ByteArray)
    (source : ω → String → Except Error ByteArray × ω) (key : String)
    (e : Episode σ (ω × Requests)) : Prop where
  asked : ∀ other, e.Asks source other ↔
    e.call = .fetch other ∧ other ≠ "" ∧ look e.before.store other = none
  unasked : (∀ other, ¬ e.Asks source other) → e.after.source = e.before.source
  forgotten : ∀ other cause, e.call = .fetch other → e.reply = .error cause →
    look e.after.store = look e.before.store
  spent : e.after.Spent look key
  served : ∀ bytes, e.call = .fetch key → e.reply = .ok (.bytes bytes) →
    look e.after.store key = some bytes

theorem not_asks {e : Episode σ (ω × Requests)} (h : e.after.source = e.before.source)
    (other : String) : ¬ e.Asks source other := by
  intro hasks
  have hlog := congrArg (·.2.length) (hasks.symm.trans h)
  simp at hlog

/-- An episode that fetches nothing asks for nothing. -/
theorem Frugal.of_idle {e : Episode σ (ω × Requests)} (hcall : ∀ other, e.call ≠ .fetch other)
    (hsource : e.after.source = e.before.source)
    (hlook : look e.after.store key = look e.before.store key) (h : e.before.Spent look key) :
    e.Frugal look source key where
  asked other := iff_of_false (not_asks hsource other) fun h => hcall other h.1
  unasked _ := hsource
  forgotten other _ hfetch := absurd hfetch (hcall other)
  spent := h.of_eq hsource hlook
  served _ hfetch := absurd hfetch (hcall key)

/-- An episode that fetches what is there, or what cannot be, asks for nothing. -/
theorem Frugal.of_unasked {e : Episode σ (ω × Requests)}
    (hcall : ∀ other, e.call = .fetch other → other ≠ "" → look e.before.store other ≠ none)
    (hsource : e.after.source = e.before.source) (hlook : look e.after.store = look e.before.store)
    (hspent : e.after.Spent look key)
    (hserved : ∀ bytes, e.call = .fetch key → e.reply = .ok (.bytes bytes) →
      look e.before.store key = some bytes) : e.Frugal look source key where
  asked other := iff_of_false (not_asks hsource other) fun h => hcall other h.1 h.2.1 h.2.2
  unasked _ := hsource
  forgotten _ _ _ _ := hlook
  spent := hspent
  served bytes hfetch hreply := hlook ▸ hserved bytes hfetch hreply

/-- An episode that fetches what is not there asks for it, and keeps the bytes it is answered. -/
theorem Frugal.of_asked {c c' : Cache σ (ω × Requests)} {other : String}
    {reply : Except Error ByteArray} (hempty : other ≠ "") (hnone : look c.store other = none)
    (hsource : recorded source c.source other = (reply, c'.source))
    (hlook : ∀ key, look c'.store key = if key = other then reply.toOption else look c.store key)
    (hspent : c'.Spent look key) :
    Episode.Frugal look source key ⟨c, .fetch other, reply.map .bytes, c'⟩ := by
  obtain ⟨hanswer, hafter⟩ := Prod.mk.inj hsource
  rw [hanswer] at hafter
  have hasked : Episode.Asks source other ⟨c, .fetch other, reply.map .bytes, c'⟩ := by
    rw [Episode.Asks, hanswer]
    exact hafter.symm
  constructor
  case asked =>
    refine fun other' => ⟨fun hasks => ?_, ?_⟩
    · have hlog := congrArg Prod.snd (hafter.trans hasks)
      obtain ⟨hother, -⟩ := Prod.mk.inj (List.head_eq_of_cons_eq (List.append_cancel_left hlog))
      subst hother
      exact ⟨rfl, hempty, hnone⟩
    · rintro ⟨hcall, -, -⟩
      cases hcall
      exact hasked
  case unasked => exact fun hunasked => absurd hasked (hunasked other)
  case forgotten =>
    -- an error is no entry
    intro other' cause _ hreply
    cases reply with
    | ok bytes => cases hreply
    | error e =>
      funext other''
      show look c'.store other'' = look c.store other''
      rw [hlook]
      split_ifs with hother
      · rw [hother, hnone]
        rfl
      · rfl
  case spent => exact hspent
  case served =>
    intro bytes hcall hreply
    cases hcall
    cases reply with
    | error e => cases hreply
    | ok bytes' =>
      cases hreply
      show look c'.store key = some bytes
      rw [hlook, if_pos rfl]
      rfl

end Episode

/-- A cache that may serve, over a store with a version, which has spent no key twice. -/
structure Cache.Open (look : σ → String → Option ByteArray) (key : String)
    (c : Cache σ (ω × Requests)) : Prop where
  reconciled : c.isReconciled = true
  marked : (look c.store versionKey).isSome
  spent : c.Spent look key

namespace Cache.Open

variable {c : Cache σ (ω × Requests)}

/-- A fetch is frugal, and keeps the bytes that are there. -/
theorem supplied {c' : Cache σ (ω × Requests)} {other : String} {reply : Except Error ByteArray}
    (h : c.Open look key) (hfetch : Supplied look (recorded source) c other reply c') :
    Episode.Frugal look source key ⟨c, .fetch other, reply.map .bytes, c'⟩ ∧ c'.Open look key ∧
      ∀ bytes, look c.store key = some bytes → look c'.store key = some bytes := by
  have hspent : c'.Spent look key := h.spent.supplied hfetch
  cases hfetch with
  | @refused e hcheck =>
    refine ⟨.of_unasked (fun other' hcall hempty hnone => ?_) rfl rfl hspent nofun, h, fun _ => id⟩
    -- a cache that may serve refuses the empty key and that of the version, which is stored
    obtain rfl := Call.fetch.inj hcall
    have hkey : other ≠ versionKey := by
      rintro rfl
      have hmarked := h.marked
      rw [show look c.store versionKey = none from hnone] at hmarked
      cases hmarked
    cases hcheck.symm.trans (check_eq_ok_iff.2 ⟨h.reconciled, hempty, hkey⟩)
  | @stored bytes c' hcheck hlook hflag hstore hsource =>
    refine ⟨.of_unasked (fun other' hcall _ hnone => ?_) hsource hstore hspent
      fun bytes' hcall hreply => ?_,
      ⟨hflag.trans h.reconciled, by rw [hstore]; exact h.marked, hspent⟩, fun _ hbytes => ?_⟩
    · obtain rfl := Call.fetch.inj hcall
      cases hlook.symm.trans hnone
    · cases hcall
      cases hreply
      exact hlook
    · rw [hstore]
      exact hbytes
  | @asked reply c' hcheck hnone hsource hflag hlook =>
    obtain ⟨-, hempty, hversion⟩ := check_eq_ok_iff.1 hcheck
    refine ⟨.of_asked hempty hnone hsource hlook hspent,
      ⟨hflag.trans h.reconciled, ?_, hspent⟩, fun bytes hbytes => ?_⟩
    · rw [hlook, if_neg hversion.symm]
      exact h.marked
    · rw [hlook, if_neg]
      · exact hbytes
      · rintro rfl
        cases hnone.symm.trans hbytes

/-- What asks for nothing and leaves the key and the version alone is frugal. -/
theorem idle {c' : Cache σ (ω × Requests)} {call : Call (ω × Requests)}
    {reply : Except Error Answer} (h : c.Open look key) (hcall : ∀ other, call ≠ .fetch other)
    (hflag : c'.isReconciled = c.isReconciled) (hsource : c'.source = c.source)
    (hversion : look c'.store versionKey = look c.store versionKey)
    (hkey : look c'.store key = look c.store key) :
    Episode.Frugal look source key ⟨c, call, reply, c'⟩ ∧ c'.Open look key ∧
      ∀ bytes, look c.store key = some bytes → look c'.store key = some bytes :=
  ⟨.of_idle hcall hsource hkey h.spent,
    ⟨hflag.trans h.reconciled, hversion ▸ h.marked, h.spent.of_eq hsource hkey⟩,
    fun _ hbytes => hkey.trans hbytes⟩

/-- Every call that spares a key is frugal, and the cache goes on to be open. -/
theorem answer (hs : s.Working look) (h : c.Open look key) (call : Call (ω × Requests))
    {reply : Except Error Answer} {c' : Cache σ (ω × Requests)}
    (hanswer : c.answer s (recorded source) call = (reply, c'))
    (hspares : Episode.Spares s key ⟨c, call, reply, c'⟩) :
    Episode.Frugal look source key ⟨c, call, reply, c'⟩ ∧ c'.Open look key ∧
      ∀ bytes, look c.store key = some bytes → look c'.store key = some bytes := by
  cases call with
  | fetch other =>
    have hfetch := Cache.supplied hs (recorded source) c other
    rcases hresult : c.fetch s (recorded source) other with ⟨result, c''⟩
    rw [hresult] at hfetch
    rw [Cache.answer, hresult] at hanswer
    cases hanswer
    exact h.supplied hfetch
  | contains other =>
    obtain ⟨hflag, hstore⟩ := contains_kept hs.lawful c other
    have hsource := source_contains s c other
    rcases hresult : c.contains s other with ⟨result, c''⟩
    rw [hresult] at hflag hstore hsource
    rw [Cache.answer, hresult] at hanswer
    cases hanswer
    exact h.idle (by simp) hflag hsource (congrFun hstore _) (congrFun hstore _)
  | evict other =>
    have hother : key ≠ other := by
      rintro rfl
      exact hspares.undropped rfl
    obtain ⟨hflag, hversion, -⟩ := evict_kept hs.lawful c other
    have hsource := source_evict s c other
    have hkey := evict_elsewhere hs.lawful c hother
    rcases hresult : c.evict s other with ⟨result, c''⟩
    rw [hresult] at hflag hversion hsource hkey
    rw [Cache.answer, hresult] at hanswer
    cases hanswer
    exact h.idle (by simp) hflag hsource hversion hkey
  | restart origin => exact absurd rfl (hspares.unended origin)
  | reconcile version =>
    have hcase := reconciling hs.lawful c version
    have hsource := source_reconcile s c version
    have hkept : ¬ Clears s c version := fun hclears => hspares.uncleared version ⟨rfl, hclears⟩
    rcases hreconcile : c.reconcile s version with ⟨result, c''⟩
    rw [hreconcile] at hcase hsource
    rw [Cache.answer, hreconcile] at hanswer
    cases hanswer
    cases hcase with
    | unread _ hflag hlook =>
      exact h.idle (by simp) hflag hsource (congrFun hlook _) (congrFun hlook _)
    | current _ _ hflag hlook =>
      exact h.idle (by simp) (hflag.trans h.reconciled.symm) hsource (congrFun hlook _)
        (congrFun hlook _)
    | stuck hbegins => exact absurd ((clears_iff hs).2 hbegins) hkept
    | unmarked hclears | cleared hclears => exact absurd hclears hkept

end Cache.Open

/-- A cache is open once it was reconciled. -/
theorem Cache.open_of_reconcile (hs : s.Lawful look) {c c' : Cache σ (ω × Requests)}
    {version : String} {cleared : Bool} (h : c.reconcile s version = (.ok cleared, c'))
    (hnone : c.source.2 = []) : c'.Open look key := by
  have hcase := reconciling hs c version
  have hsource := source_reconcile s c version
  rw [h] at hcase hsource
  have hspent : c'.Spent look key := by
    refine Or.inl ?_
    rw [show c'.source = c.source from hsource, hnone]
    rfl
  cases hcase with
  | current _ hversion hflag hlook =>
    refine ⟨hflag, ?_, hspent⟩
    rw [hlook, hversion]
    rfl
  | cleared _ hflag hversion =>
    refine ⟨hflag, ?_, hspent⟩
    rw [hversion]
    rfl

/-- Throughout a run the source is asked for what is fetched and not in the store, the empty key
    apart, and for one key it answers with bytes once at most: those that everyone gets. -/
structure AnswersOnce (look : σ → String → Option ByteArray)
    (source : ω → String → Except Error ByteArray × ω) (key : String)
    (run : List (Episode σ (ω × Requests))) : Prop where
  asked : ∀ e ∈ run, ∀ other, e.Asks source other ↔
    e.call = .fetch other ∧ other ≠ "" ∧ look e.before.store other = none
  unasked : ∀ e ∈ run, (∀ other, ¬ e.Asks source other) → e.after.source = e.before.source
  once : ∀ e ∈ run, (e.after.source.2.answers key).length ≤ 1
  same : ∃ bytes, (∀ e ∈ run, ∀ other ∈ e.after.source.2.answers key, other = bytes) ∧
    ∀ e ∈ run, e.call = .fetch key → ∀ other, e.reply = .ok (.bytes other) → other = bytes
  /-- A request that has failed leaves nothing behind. -/
  forgotten : ∀ e ∈ run, ∀ other cause, e.call = .fetch other → e.reply = .error cause →
    look e.after.store = look e.before.store

/-- The cache is open, all was frugal so far, and the bytes that were there are there. -/
structure Ongoing (look : σ → String → Option ByteArray)
    (source : ω → String → Except Error ByteArray × ω) (key : String)
    (past : List (Episode σ (ω × Requests)) × Cache σ (ω × Requests)) : Prop where
  isOpen : past.2.Open look key
  frugal : ∀ e ∈ past.1, e.Frugal look source key
  kept : ∀ e ∈ past.1, ∀ bytes, look e.after.store key = some bytes →
    look past.2.store key = some bytes

theorem Ongoing.answersOnce {past : List (Episode σ (ω × Requests)) × Cache σ (ω × Requests)}
    (h : Ongoing look source key past) : AnswersOnce look source key past.1 where
  asked e he := (h.frugal e he).asked
  unasked e he := (h.frugal e he).unasked
  once e he := (h.frugal e he).spent.length_le
  same := by
    have hlast : ∀ {bytes}, look past.2.store key = some bytes →
        bytes = (look past.2.store key).getD .empty := by
      intro bytes hbytes
      rw [hbytes]
      rfl
    refine ⟨(look past.2.store key).getD .empty, fun e he other hother => ?_,
      fun e he hcall other hreply => ?_⟩
    · exact hlast (h.kept e he other ((h.frugal e he).spent.look_of_mem hother))
    · exact hlast (h.kept e he other ((h.frugal e he).served other hcall hreply))
  forgotten e he := (h.frugal e he).forgotten

theorem ongoing_resume (hs : s.Working look) {c : Cache σ (ω × Requests)} (h : c.Open look key)
    (calls : List (Call (ω × Requests)))
    (hspares : ∀ e ∈ (c.resume s (recorded source) calls).1, e.Spares s key) :
    Ongoing look source key (c.resume s (recorded source) calls) := by
  -- by induction from the end, as the record grows there
  induction calls using List.reverseRecOn with
  | nil =>
    have hnothing : c.resume s (recorded source) [] = ([], c) := rfl
    rw [hnothing]
    exact ⟨h, by simp, by simp⟩
  | append_singleton calls call ih =>
    rw [Cache.resume_concat] at hspares ⊢
    generalize c.resume s (recorded source) calls = past at ih hspares ⊢
    rcases hanswer : past.2.answer s (recorded source) call with ⟨reply, c'⟩
    have hextend : Cache.extend s (recorded source) past call =
        (past.1 ++ [⟨past.2, call, reply, c'⟩], c') := by
      rw [Cache.extend, hanswer]
    rw [hextend] at hspares ⊢
    have hpast := ih fun e he => hspares e (List.mem_append_left _ he)
    obtain ⟨hfrugal, hopen, hkept⟩ := hpast.isOpen.answer hs call hanswer
      (hspares _ (List.mem_append_right _ List.mem_cons_self))
    refine ⟨hopen, fun e he => ?_, fun e he bytes hbytes => ?_⟩
    · rcases List.mem_append.1 he with he | he
      · exact hpast.frugal e he
      · rw [List.mem_singleton.1 he]
        exact hfrugal
    · rcases List.mem_append.1 he with he | he
      · exact hkept bytes (hpast.kept e he bytes hbytes)
      · rw [List.mem_singleton.1 he] at hbytes
        exact hbytes

end Recorded

end Workbench.Asset
