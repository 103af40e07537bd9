import Mathlib.Order.Defs.Unbundled
import Workbench.Host.Disk

set_option autoImplicit false

/-! # Steps that yield

A step with a state and failures yields a value, or fails. What a step that yields has gone through
is taken apart in the way in which the step was put together. -/

namespace Workbench

variable {ε σ α β : Type}

/-- What comes of a step that is carried out from a state. -/
def resultOf (step : ExceptT ε (StateM σ) α) (s : σ) : Except ε α × σ := step.run s

/-- Carried out from a state, a step yields a value and leaves a state. -/
def Yields (step : ExceptT ε (StateM σ) α) (s : σ) (a : α) (s' : σ) : Prop :=
  resultOf step s = (.ok a, s')

/-- How a step goes on after another one. -/
def goOnWith (rest : α → ExceptT ε (StateM σ) β) : Except ε α × σ → Except ε β × σ
  | (.ok a, s) => resultOf (rest a) s
  | (.error e, s) => (.error e, s)

/-- How a step goes on where it caught a failure. -/
def recoverWith (handler : ε → ExceptT ε (StateM σ) α) : Except ε α × σ → Except ε α × σ
  | (.ok a, s) => (.ok a, s)
  | (.error e, s) => resultOf (handler e) s

variable {step : ExceptT ε (StateM σ) α} {rest : α → ExceptT ε (StateM σ) β}
  {handler : ε → ExceptT ε (StateM σ) α} {s s' : σ} {a b : α} {c : β}

theorem resultOf_bind (step : ExceptT ε (StateM σ) α) (rest : α → ExceptT ε (StateM σ) β) (s : σ) :
    resultOf (step >>= rest) s = goOnWith rest (resultOf step s) := by
  have hbind : resultOf (step >>= rest) s =
      ExceptT.bindCont rest (resultOf step s).1 (resultOf step s).2 := rfl
  rw [hbind]
  rcases resultOf step s with ⟨_ | _, s'⟩ <;> rfl

theorem resultOf_tryCatch (step : ExceptT ε (StateM σ) α) (handler : ε → ExceptT ε (StateM σ) α)
    (s : σ) : resultOf (tryCatch step handler) s = recoverWith handler (resultOf step s) := by
  simp only [resultOf, tryCatch, tryCatchThe, MonadExceptOf.tryCatch, ExceptT.tryCatch, ExceptT.run,
    ExceptT.mk, bind, StateT.bind]
  rcases (step s : Except ε α × σ) with ⟨_ | _, s'⟩ <;> rfl

theorem yields_bind_iff :
    Yields (step >>= rest) s c s' ↔ ∃ a s₁, Yields step s a s₁ ∧ Yields (rest a) s₁ c s' := by
  unfold Yields
  rw [resultOf_bind]
  rcases resultOf step s with ⟨e | a, s₁⟩
  · simp [goOnWith]
  · constructor
    · intro h
      exact ⟨a, s₁, rfl, h⟩
    · rintro ⟨a', s₂, ⟨⟩, h⟩
      exact h

/-- A failure was caught, or there was none. -/
theorem yields_tryCatch_iff :
    Yields (tryCatch step handler) s a s' ↔ Yields step s a s' ∨
      ∃ e s₁, resultOf step s = (.error e, s₁) ∧ Yields (handler e) s₁ a s' := by
  unfold Yields
  rw [resultOf_tryCatch]
  rcases resultOf step s with ⟨e | a', s₁⟩
  · constructor
    · intro h
      exact .inr ⟨e, s₁, rfl, h⟩
    · rintro (⟨⟨⟩⟩ | ⟨e', s₂, ⟨⟩, h⟩)
      exact h
  · simp [recoverWith]

theorem yields_pure_iff : Yields (pure a : ExceptT ε (StateM σ) α) s b s' ↔ a = b ∧ s = s' := by
  have h : resultOf (pure a : ExceptT ε (StateM σ) α) s = (.ok a, s) := rfl
  simp [Yields, h]

theorem not_yields_throw {e : ε} : ¬ Yields (throw e : ExceptT ε (StateM σ) α) s b s' := by
  have h : resultOf (throw e : ExceptT ε (StateM σ) α) s = (.error e, s) := rfl
  simp [Yields, h]

theorem yields_get_iff {s₁ : σ} :
    Yields (get : ExceptT ε (StateM σ) σ) s s₁ s' ↔ s = s₁ ∧ s = s' := by
  have h : resultOf (get : ExceptT ε (StateM σ) σ) s = (.ok s, s) := rfl
  simp [Yields, h]

theorem yields_set_iff {s₁ : σ} {u : PUnit} :
    Yields (set s₁ : ExceptT ε (StateM σ) PUnit) s u s' ↔ s₁ = s' := by
  have h : resultOf (set s₁ : ExceptT ε (StateM σ) PUnit) s = (.ok ⟨⟩, s₁) := rfl
  simp [Yields, h]

theorem yields_modify_iff {f : σ → σ} {u : PUnit} :
    Yields (modify f : ExceptT ε (StateM σ) PUnit) s u s' ↔ f s = s' := by
  have h : resultOf (modify f : ExceptT ε (StateM σ) PUnit) s = (.ok ⟨⟩, f s) := rfl
  simp [Yields, h]

theorem yields_mapM_nil_iff {f : α → ExceptT ε (StateM σ) β} {bs : List β} :
    Yields ([].mapM f) s bs s' ↔ bs = [] ∧ s = s' := by
  rw [List.mapM_nil, yields_pure_iff, eq_comm]

theorem yields_mapM_cons_iff {f : α → ExceptT ε (StateM σ) β} {as : List α} {bs : List β} :
    Yields ((a :: as).mapM f) s bs s' ↔ ∃ b s₁ bs', Yields (f a) s b s₁ ∧
      Yields (as.mapM f) s₁ bs' s' ∧ bs = b :: bs' := by
  rw [List.mapM_cons]
  simp only [yields_bind_iff, yields_pure_iff]
  constructor
  · rintro ⟨b, s₁, hfirst, bs', s₂, hrest, rfl, rfl⟩
    exact ⟨b, s₁, bs', hfirst, hrest, rfl⟩
  · rintro ⟨b, s₁, bs', hfirst, hrest, rfl⟩
    exact ⟨b, s₁, hfirst, bs', s', hrest, rfl, rfl⟩

/-! ## Loops -/

/-- A round was gone through for each of a list, one after the other. -/
inductive Rounds (body : α → ExceptT ε (StateM σ) β) : List α → σ → σ → Prop where
  | nil {s : σ} : Rounds body [] s s
  | cons {a : α} {list : List α} {b : β} {s s₁ s₂ : σ} : Yields (body a) s b s₁ →
      Rounds body list s₁ s₂ → Rounds body (a :: list) s s₂

section Rounds

variable {list : List α} {body : α → ExceptT ε (StateM σ) β}

/-- A loop that never breaks off goes through all its rounds. -/
theorem rounds_of_forIn {u v : PUnit}
    (h : Yields (forIn list u fun a _ => body a >>= fun _ => pure (ForInStep.yield PUnit.unit))
      s v s') : Rounds body list s s' := by
  induction list generalizing u s with
  | nil =>
    obtain ⟨-, rfl⟩ := yields_pure_iff.1 h
    exact .nil
  | cons a list ih =>
    rw [List.forIn_cons] at h
    obtain ⟨next, s₁, hround, hrest⟩ := yields_bind_iff.1 h
    obtain ⟨b, s₂, hbody, hnext⟩ := yields_bind_iff.1 hround
    obtain ⟨rfl, rfl⟩ := yields_pure_iff.1 hnext
    exact .cons hbody (ih hrest)

/-- What each round keeps is kept by all of them. -/
theorem Rounds.keeps (h : Rounds body list s s') (inv : σ → Prop)
    (hround : ∀ a ∈ list, ∀ s b s', inv s → Yields (body a) s b s' → inv s') (hs : inv s) :
    inv s' := by
  induction h with
  | nil => exact hs
  | cons hfirst _ ih =>
    exact ih (fun a ha => hround a (List.mem_cons_of_mem _ ha))
      (hround _ List.mem_cons_self _ _ _ hs hfirst)

/-- What each round does is done after all of them, where it lasts. -/
theorem Rounds.done {rel : σ → σ → Prop} [IsPreorder σ rel] {done : α → σ → Prop}
    (h : Rounds body list s s') (hlasts : ∀ a s s', rel s s' → done a s → done a s')
    (hround : ∀ a ∈ list, ∀ s b s', Yields (body a) s b s' → rel s s' ∧ done a s') :
    rel s s' ∧ ∀ a ∈ list, done a s' := by
  induction h with
  | @nil s => exact ⟨refl_of rel s, fun a ha => absurd ha List.not_mem_nil⟩
  | @cons a list _ s s₁ s₂ hfirst _ ih =>
    obtain ⟨hrel, hdone⟩ := hround a List.mem_cons_self s _ s₁ hfirst
    obtain ⟨hrel', hall⟩ := ih fun b hb => hround b (List.mem_cons_of_mem a hb)
    refine ⟨trans_of rel hrel hrel', fun b hb => ?_⟩
    rcases List.mem_cons.1 hb with rfl | hb
    · exact hlasts b s₁ s₂ hrel' hdone
    · exact hall b hb

end Rounds

/-! ## Steps that fail -/

/-- Carried out from a state, a step fails and leaves a state. -/
def Fails (step : ExceptT ε (StateM σ) α) (s : σ) (e : ε) (s' : σ) : Prop :=
  resultOf step s = (.error e, s')

variable {e : ε}

theorem fails_bind_iff : Fails (step >>= rest) s e s' ↔
    Fails step s e s' ∨ ∃ a s₁, Yields step s a s₁ ∧ Fails (rest a) s₁ e s' := by
  unfold Fails Yields
  rw [resultOf_bind]
  rcases resultOf step s with ⟨e' | a, s₁⟩ <;> rw [goOnWith]
  · constructor
    · rintro ⟨⟩
      exact Or.inl rfl
    · rintro (⟨⟨⟩⟩ | ⟨a, s₂, ⟨⟩, -⟩)
      rfl
  · constructor
    · exact fun h => Or.inr ⟨a, s₁, rfl, h⟩
    · rintro (⟨⟨⟩⟩ | ⟨a', s₂, ⟨⟩, h⟩)
      exact h

/-! ## Whatever comes of a step -/

/-- Whatever comes of a step, it leads to a state that is related to the one before. -/
def Leads (rel : σ → σ → Prop) (step : ExceptT ε (StateM σ) α) : Prop :=
  ∀ s, rel s (resultOf step s).2

section Leads

variable {rel : σ → σ → Prop}

theorem Leads.of_yields (h : Leads rel step) (hyields : Yields step s a s') : rel s s' := by
  have hrel := h s
  rwa [show resultOf step s = (.ok a, s') from hyields] at hrel

theorem Leads.of_fails (h : Leads rel step) (hfails : Fails step s e s') : rel s s' := by
  have hrel := h s
  rwa [show resultOf step s = (.error e, s') from hfails] at hrel

variable [IsPreorder σ rel]

theorem leads_pure (a : α) : Leads rel (pure a : ExceptT ε (StateM σ) α) := fun s => refl_of rel s

theorem leads_throw (e : ε) : Leads rel (throw e : ExceptT ε (StateM σ) α) := fun s => refl_of rel s

theorem Leads.bind (h : Leads rel step) (hrest : ∀ a, Leads rel (rest a)) :
    Leads rel (step >>= rest) := by
  intro s
  have hfirst := h s
  rw [resultOf_bind]
  rcases hresult : resultOf step s with ⟨e | a, s₁⟩ <;> rw [hresult] at hfirst
  · exact hfirst
  · exact trans_of rel hfirst (hrest a s₁)

omit [IsPreorder σ rel] in
/-- A step may look at the state before it goes on. -/
theorem Leads.bind_get {rest : σ → ExceptT ε (StateM σ) α}
    (hrest : ∀ s, rel s (resultOf (rest s) s).2) : Leads rel (get >>= rest) :=
  fun s => hrest s

theorem Leads.tryCatch (h : Leads rel step) (hhandler : ∀ e, Leads rel (handler e)) :
    Leads rel (tryCatch step handler) := by
  intro s
  have hfirst := h s
  rw [resultOf_tryCatch]
  rcases hresult : resultOf step s with ⟨e | a, s₁⟩ <;> rw [hresult] at hfirst
  · exact trans_of rel hfirst (hhandler e s₁)
  · exact hfirst

theorem Leads.mapM {f : α → ExceptT ε (StateM σ) β} (h : ∀ a, Leads rel (f a)) (as : List α) :
    Leads rel (as.mapM f) := by
  induction as with
  | nil =>
    rw [List.mapM_nil]
    exact leads_pure []
  | cons a as ih =>
    rw [List.mapM_cons]
    exact (h a).bind fun b => ih.bind fun bs => leads_pure (b :: bs)

/-- What each round of a loop leads to, the loop leads to. -/
theorem Leads.forIn {list : List α} {body : α → PUnit → ExceptT ε (StateM σ) (ForInStep PUnit)}
    (h : ∀ a ∈ list, ∀ u, Leads rel (body a u)) (u : PUnit) : Leads rel (forIn list u body) := by
  induction list generalizing u with
  | nil => exact leads_pure u
  | cons a list ih =>
    rw [List.forIn_cons]
    refine (h a List.mem_cons_self u).bind fun next => ?_
    cases next with
    | done v => exact leads_pure v
    | yield v => exact ih (fun b hb => h b (List.mem_cons_of_mem a hb)) v

theorem Rounds.leads {list : List α} {body : α → ExceptT ε (StateM σ) β}
    (h : Rounds body list s s') (hbody : ∀ a ∈ list, Leads rel (body a)) : rel s s' := by
  induction h with
  | @nil s => exact refl_of rel s
  | cons hfirst _ ih =>
    exact trans_of rel ((hbody _ List.mem_cons_self).of_yields hfirst)
      (ih fun a ha => hbody a (List.mem_cons_of_mem _ ha))

end Leads

end Workbench
