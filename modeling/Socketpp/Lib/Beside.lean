import Socketpp.Lib.Prog

/-!
# Lib — Two programs side by side

`Outcome.Beside Q E o o'`: the relational judgement on two runs, over states, exceptions and
values of different types.  Both return, and `Q` relates what they return and leave; or both
throw, and `E` does; or both are cut off.  It is closed under sequencing, so two programs of one
shape are compared step by step, and it carries over to what the runs come to
(`Beside.result`).

`Prog.Respects R p`: runs of one program from `R`-related states end the same way, with the same
value or exception, in `R`-related states.  `Prog.Meet P p q`: from states with `P` two programs do the
same.  `Abreast` is two sessions of the same operations, side
by side; `abreast_session` derives it from one operation.
-/

namespace Lib

variable {ε ε' σ σ' τ τ' α α' β β' : Type}

namespace Outcome

/-- Two runs end the same way, and are related there: `Q` after returns, `E` after exceptions. -/
def Beside (Q : α → σ → α' → σ' → Prop) (E : ε → σ → ε' → σ' → Prop) :
    Outcome ε σ α → Outcome ε' σ' α' → Prop
  | .ret a s,    .ret a' s'    => Q a s a' s'
  | .thrown e s, .thrown e' s' => E e s e' s'
  | .spin,       .spin         => True
  | _,           _             => False

section Beside

variable {Q Q' : α → σ → α' → σ' → Prop} {E E' : ε → σ → ε' → σ' → Prop}
  {o : Outcome ε σ α} {o' : Outcome ε' σ' α'}

theorem Beside.mono (h : o.Beside Q E o') (hQ : ∀ a s a' s', Q a s a' s' → Q' a s a' s')
    (hE : ∀ e s e' s', E e s e' s' → E' e s e' s') : o.Beside Q' E' o' := by
  cases o with
  | ret a s =>
      cases o' with
      | ret a' s' => exact hQ a s a' s' h
      | thrown e' s' => exact h.elim
      | spin => exact h.elim
  | thrown e s =>
      cases o' with
      | ret a' s' => exact h.elim
      | thrown e' s' => exact hE e s e' s' h
      | spin => exact h.elim
  | spin =>
      cases o' with
      | ret a' s' => exact h.elim
      | thrown e' s' => exact h.elim
      | spin => trivial

/-- The rule of sequencing, on both sides at once. -/
theorem Beside.andThen {Q' : β → σ → β' → σ' → Prop} {f : α → Prog ε σ β} {f' : α' → Prog ε' σ' β'}
    (h : o.Beside Q E o') (hf : ∀ a s a' s', Q a s a' s' → (f a s).Beside Q' E' (f' a' s'))
    (hE : ∀ e s e' s', E e s e' s' → E' e s e' s') :
    (o.andThen f).Beside Q' E' (o'.andThen f') := by
  cases o with
  | ret a s =>
      cases o' with
      | ret a' s' => exact hf a s a' s' h
      | thrown e' s' => exact h.elim
      | spin => exact h.elim
  | thrown e s =>
      cases o' with
      | ret a' s' => exact h.elim
      | thrown e' s' => exact hE e s e' s' h
      | spin => exact h.elim
  | spin =>
      cases o' with
      | ret a' s' => exact h.elim
      | thrown e' s' => exact h.elim
      | spin => trivial

/-- The rule of handlers, on both sides at once. -/
theorem Beside.handle {f : ε → Prog ε σ α} {f' : ε' → Prog ε' σ' α'} (h : o.Beside Q E o')
    (hQ : ∀ a s a' s', Q a s a' s' → Q' a s a' s')
    (hf : ∀ e s e' s', E e s e' s' → (f e s).Beside Q' E' (f' e' s')) :
    (o.handle f).Beside Q' E' (o'.handle f') := by
  cases o with
  | ret a s =>
      cases o' with
      | ret a' s' => exact hQ a s a' s' h
      | thrown e' s' => exact h.elim
      | spin => exact h.elim
  | thrown e s =>
      cases o' with
      | ret a' s' => exact h.elim
      | thrown e' s' => exact hf e s e' s' h
      | spin => exact h.elim
  | spin =>
      cases o' with
      | ret a' s' => exact h.elim
      | thrown e' s' => exact h.elim
      | spin => trivial

theorem beside_mapState {Q : α → τ → α' → τ' → Prop} {E : ε → τ → ε' → τ' → Prop} {f : σ → τ}
    {f' : σ' → τ'} : (o.mapState f).Beside Q E (o'.mapState f') ↔
      o.Beside (fun a s a' s' => Q a (f s) a' (f' s')) (fun e s e' s' => E e (f s) e' (f' s')) o' := by
  cases o <;> cases o' <;> rfl

/-- What the two runs came to, where the first came to anything. -/
theorem Beside.result (h : o.Beside Q E o') {r : Except ε α} {s : σ}
    (ho : o.result = some (r, s)) : ∃ r' s', o'.result = some (r', s') ∧
      ((∃ a a', r = .ok a ∧ r' = .ok a' ∧ Q a s a' s') ∨
        ∃ e e', r = .error e ∧ r' = .error e' ∧ E e s e' s') := by
  cases o with
  | ret a s₁ =>
      cases ho
      cases o' with
      | ret a' s' => exact ⟨_, s', rfl, .inl ⟨a, a', rfl, rfl, h⟩⟩
      | thrown e' s' => exact h.elim
      | spin => exact h.elim
  | thrown e s₁ =>
      cases ho
      cases o' with
      | ret a' s' => exact h.elim
      | thrown e' s' => exact ⟨_, s', rfl, .inr ⟨e, e', rfl, rfl, h⟩⟩
      | spin => exact h.elim
  | spin => cases ho

end Beside

/-- Two runs end the same way, with the same value or exception, in `R`-related states. -/
def Same (R : σ → σ' → Prop) (o : Outcome ε σ α) (o' : Outcome ε σ' α) : Prop :=
  o.Beside (fun a s a' s' => a' = a ∧ R s s') (fun e s e' s' => e' = e ∧ R s s') o'

section Same

variable {R R' : σ → σ' → Prop} {o : Outcome ε σ α} {o' : Outcome ε σ' α}

theorem Same.mono (h : o.Same R o') (hR : ∀ s s', R s s' → R' s s') : o.Same R' o' :=
  Beside.mono h (fun _ s _ s' h => ⟨h.1, hR s s' h.2⟩) fun _ s _ s' h => ⟨h.1, hR s s' h.2⟩

theorem Same.andThen {f : α → Prog ε σ β} {f' : α → Prog ε σ' β} (h : o.Same R o')
    (hf : ∀ a s s', R s s' → (f a s).Same R (f' a s')) : (o.andThen f).Same R (o'.andThen f') := by
  refine Beside.andThen h ?_ fun _ _ _ _ h => h
  rintro a s _ s' ⟨rfl, h⟩
  exact hf _ s s' h

/-- What the second run came to, where the first came to anything. -/
theorem Same.result (h : o.Same R o') {r : Except ε α} {s : σ} (ho : o.result = some (r, s)) :
    ∃ s', o'.result = some (r, s') ∧ R s s' := by
  obtain ⟨r', s', hr', ⟨a, _, rfl, rfl, rfl, h⟩ | ⟨e, _, rfl, rfl, rfl, h⟩⟩ := Beside.result h ho
  · exact ⟨s', hr', h⟩
  · exact ⟨s', hr', h⟩

end Same

end Outcome

/-! ### One program from two states -/

namespace Prog

/-- Runs of `p` from `R`-related states end the same way, in `R`-related states. -/
def Respects (R : σ → σ → Prop) (p : Prog ε σ α) : Prop := ∀ s s', R s s' → (p s).Same R (p s')

namespace Respects

variable {R : σ → σ → Prop}

theorem pure (a : α) : Respects R (pure a : Prog ε σ α) := fun _ _ h => ⟨rfl, h⟩

theorem throw (e : ε) : Respects R (throw e : Prog ε σ α) := fun _ _ h => ⟨rfl, h⟩

theorem spin : Respects R (spin : Prog ε σ α) := fun _ _ _ => trivial

theorem modify {f : σ → σ} (h : ∀ s s', R s s' → R (f s) (f s')) :
    Respects R (modify f : Prog ε σ PUnit) := fun s s' hs => ⟨rfl, h s s' hs⟩

theorem bind {x : Prog ε σ α} {f : α → Prog ε σ β} (hx : Respects R x)
    (hf : ∀ a, Respects R (f a)) : Respects R (x >>= f) := fun s s' h =>
  (hx s s' h).andThen hf

/-- A program that starts by looking at the state. -/
theorem get_bind {f : σ → Prog ε σ β} (hf : ∀ s s', R s s' → (f s s).Same R (f s' s')) :
    Respects R (MonadState.get >>= f) := hf

theorem ite {c : Prop} [Decidable c] {x y : Prog ε σ α} (hx : Respects R x) (hy : Respects R y) :
    Respects R (if c then x else y) := by
  split
  · exact hx
  · exact hy

theorem zoom {S : τ → τ → Prop} {get : σ → τ} {put : τ → σ → σ} {p : Prog ε τ α}
    (hp : Respects S p) (hget : ∀ s s', R s s' → S (get s) (get s'))
    (hput : ∀ s s' t t', R s s' → S t t' → R (put t s) (put t' s')) :
    Respects R (zoom get put p) := by
  intro s s' h
  rw [zoom_apply, zoom_apply]
  refine Outcome.beside_mapState.mpr (Outcome.Beside.mono (hp _ _ (hget s s' h)) ?_ ?_)
  · exact fun _ t _ t' ht => ⟨ht.1, hput s s' t t' h ht.2⟩
  · exact fun _ t _ t' ht => ⟨ht.1, hput s s' t t' h ht.2⟩

end Respects

end Prog

/-! ### Two programs from one state -/

namespace Prog

/-- From states with `P` the two programs do the same, and `P` is kept. -/
def Meet (P : σ → Prop) (p q : Prog ε σ α) : Prop := ∀ s, P s → p s = q s ∧ (p s).Leaves P

namespace Meet

variable {P : σ → Prop} {p q : Prog ε σ α}

theorem pure (a : α) : Meet P (pure a : Prog ε σ α) (Pure.pure a) := fun _ h => ⟨rfl, h⟩

theorem throw (e : ε) : Meet P (throw e : Prog ε σ α) (MonadExcept.throw e) := fun _ h => ⟨rfl, h⟩

theorem get : Meet P (get : Prog ε σ σ) MonadState.get := fun _ h => ⟨rfl, h⟩

theorem spin : Meet P (spin : Prog ε σ α) Prog.spin := fun _ _ => ⟨rfl, trivial⟩

theorem modify {f : σ → σ} (h : ∀ s, P s → P (f s)) :
    Meet P (modify f : Prog ε σ PUnit) (MonadState.modifyGet fun s => (⟨⟩, f s)) := fun s hs => ⟨rfl, h s hs⟩

theorem bind {f g : α → Prog ε σ β} (hp : Meet P p q) (hf : ∀ a, Meet P (f a) (g a)) :
    Meet P (p >>= f) (q >>= g) := by
  intro s hs
  obtain ⟨heq, hkeep⟩ := hp s hs
  rw [bind_apply, bind_apply, ← heq]
  cases hps : p s with
  | ret a s' =>
      rw [hps] at hkeep
      exact hf a s' hkeep
  | thrown e s' =>
      rw [hps] at hkeep
      exact ⟨rfl, hkeep⟩
  | spin => exact ⟨rfl, trivial⟩

/-- Programs that start by looking at the state. -/
theorem get_bind {f g : σ → Prog ε σ β} (h : ∀ s, P s → f s s = g s s ∧ (f s s).Leaves P) :
    Meet P (MonadState.get >>= f) (MonadState.get >>= g) := h

theorem ite {c : Prop} [Decidable c] {p' q' : Prog ε σ α} (hp : Meet P p q) (hp' : Meet P p' q') :
    Meet P (if c then p else p') (if c then q else q') := by
  split
  · exact hp
  · exact hp'

theorem tryCatch {h h' : ε → Prog ε σ α} (hp : Meet P p q) (hh : ∀ e, Meet P (h e) (h' e)) :
    Meet P (tryCatch p h) (MonadExcept.tryCatch q h') := by
  intro s hs
  obtain ⟨heq, hkeep⟩ := hp s hs
  rw [tryCatch_apply, tryCatch_apply, ← heq]
  cases hps : p s with
  | ret a s' =>
      rw [hps] at hkeep
      exact ⟨rfl, hkeep⟩
  | thrown e s' =>
      rw [hps] at hkeep
      exact hh e s' hkeep
  | spin => exact ⟨rfl, trivial⟩

theorem loop {body body' : τ → Prog ε σ (τ ⊕ β)} (h : ∀ t, Meet P (body t) (body' t)) :
    ∀ n t, Meet P (Prog.loop body n t) (Prog.loop body' n t) := by
  intro n
  induction n with
  | zero => exact fun _ => .spin
  | succ n ih =>
      intro t
      refine .bind (h t) fun r => ?_
      cases r with
      | inl t' => exact ih t'
      | inr b => exact .pure b

/-- Programs run inside another state. -/
theorem zoom {P' : τ → Prop} {get : σ → τ} {put : τ → σ → σ} {p q : Prog ε τ α} (h : Meet P' p q)
    (hget : ∀ s, P s → P' (get s)) (hput : ∀ s t, P s → P' t → P (put t s)) :
    Meet P (Prog.zoom get put p) (Prog.zoom get put q) := by
  intro s hs
  obtain ⟨heq, hkeep⟩ := h (get s) (hget s hs)
  rw [zoom_apply, zoom_apply, ← heq]
  exact ⟨rfl, Outcome.leaves_mapState.mpr (hkeep.mono fun t ht => hput s t hs ht)⟩

end Meet

end Prog

/-! ### Two sessions -/

/-- Two runs of the same operations, from two states: each operation comes to its end in both, and `P`
holds of what it found, came to and left. -/
inductive Abreast {Op : Type} (exec : Op → Prog ε σ α)
    (P : Op → σ → Except ε α → σ → σ → Except ε α → σ → Prop) : List Op → σ → σ → Prop where
  | nil (s s' : σ) : Abreast exec P [] s s'
  | cons {op : Op} {ops : List Op} {s s₁ s' s₁' : σ} {r r' : Except ε α}
      (came : (exec op s).result = some (r, s₁)) (came' : (exec op s').result = some (r', s₁'))
      (both : P op s r s₁ s' r' s₁') (rest : Abreast exec P ops s₁ s₁') : Abreast exec P (op :: ops) s s'

/-- **The run rule of two sessions.** -/
theorem abreast_session {Op : Type} {exec : Op → Prog ε σ α}
    {P : Op → σ → Except ε α → σ → σ → Except ε α → σ → Prop} {R : σ → σ → Prop} {A : Op → Prop}
    (hstep : ∀ op s s', A op → R s s' → ∃ r s₁ r' s₁', (exec op s).result = some (r, s₁) ∧
      (exec op s').result = some (r', s₁') ∧ P op s r s₁ s' r' s₁' ∧ R s₁ s₁') :
    ∀ (ops : List Op) (s s' : σ), (∀ op ∈ ops, A op) → R s s' → Abreast exec P ops s s' := by
  intro ops
  induction ops with
  | nil => intro s s' _ _; exact .nil s s'
  | cons op ops ih =>
      intro s s' hops h
      obtain ⟨r, s₁, r', s₁', hr, hr', hp, h₁⟩ := hstep op s s' (hops op List.mem_cons_self) h
      exact .cons hr hr' hp (ih s₁ s₁' (fun o ho => hops o (List.mem_cons_of_mem op ho)) h₁)

end Lib
