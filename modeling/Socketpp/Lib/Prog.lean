import Mathlib.Logic.Basic
import Mathlib.Tactic.Cases

/-!
# Lib — Programs

Imperative programs as functions on a state.  A program returns a value, throws an exception,
or is cut off (`spin`) because a loop of it has used up the iterations it was given; either way
the state it leaves is kept, so an exception undoes nothing.

* `Outcome.Sat Q E`: the total-correctness judgement.  The run is not cut off, `Q` holds of a
  value returned and `E` of an exception thrown, each together with the state left.
* `Prog.Keeps R`: every state a run leaves is related by `R` to the one it started in.  For a
  reflexive and transitive `R` this is closed under sequencing and handlers, so a frame
  condition is proved at the primitive steps only.
* `Prog.loop`: a loop with a carried value, for a given number of iterations.  More iterations
  never change an outcome (`loop_mono`).
-/

namespace Lib

/-- What a run of a program comes to. -/
inductive Outcome (ε σ α : Type) where
  | ret (a : α) (s : σ)
  | thrown (e : ε) (s : σ)
  | spin

/-- A program over the states `σ`, with exceptions `ε`. -/
def Prog (ε σ α : Type) : Type := σ → Outcome ε σ α

variable {ε σ τ α β : Type}

namespace Outcome

/-- Go on with `f` after a return. -/
def andThen : Outcome ε σ α → (α → Prog ε σ β) → Outcome ε σ β
  | .ret a s,    f => f a s
  | .thrown e s, _ => .thrown e s
  | .spin,       _ => .spin

/-- Go on with `h` after an exception. -/
def handle : Outcome ε σ α → (ε → Prog ε σ α) → Outcome ε σ α
  | .ret a s,    _ => .ret a s
  | .thrown e s, h => h e s
  | .spin,       _ => .spin

/-- The same outcome over another state. -/
def mapState (f : σ → τ) : Outcome ε σ α → Outcome ε τ α
  | .ret a s    => .ret a (f s)
  | .thrown e s => .thrown e (f s)
  | .spin       => .spin

/-- The same outcome with another exception. -/
def mapThrown {ε' : Type} (f : ε → ε') : Outcome ε σ α → Outcome ε' σ α
  | .ret a s    => .ret a s
  | .thrown e s => .thrown (f e) s
  | .spin       => .spin

/-- Total correctness: `Q` after a return, `E` after an exception, and no cut-off. -/
def Sat (Q : α → σ → Prop) (E : ε → σ → Prop) : Outcome ε σ α → Prop
  | .ret a s    => Q a s
  | .thrown e s => E e s
  | .spin       => False

/-- What a run came to, and the state left. -/
def result : Outcome ε σ α → Option (Except ε α × σ)
  | .ret a s    => some (.ok a, s)
  | .thrown e s => some (.error e, s)
  | .spin       => none

/-- `P` holds of the state left, whichever way the run ended. -/
def Leaves (P : σ → Prop) : Outcome ε σ α → Prop
  | .ret _ s    => P s
  | .thrown _ s => P s
  | .spin       => True

/-- The run throws nothing. -/
def Quiet : Outcome ε σ α → Prop
  | .thrown _ _ => False
  | _           => True

@[simp] theorem andThen_ret (a : α) (s : σ) (f : α → Prog ε σ β) :
    (ret a s).andThen f = f a s := rfl
@[simp] theorem andThen_thrown (e : ε) (s : σ) (f : α → Prog ε σ β) :
    (thrown e s : Outcome ε σ α).andThen f = .thrown e s := rfl
@[simp] theorem andThen_spin (f : α → Prog ε σ β) :
    (spin : Outcome ε σ α).andThen f = .spin := rfl
@[simp] theorem handle_ret (a : α) (s : σ) (h : ε → Prog ε σ α) :
    (ret a s).handle h = .ret a s := rfl
@[simp] theorem handle_thrown (e : ε) (s : σ) (h : ε → Prog ε σ α) :
    (thrown e s : Outcome ε σ α).handle h = h e s := rfl
@[simp] theorem handle_spin (h : ε → Prog ε σ α) :
    (spin : Outcome ε σ α).handle h = .spin := rfl
@[simp] theorem mapState_ret (f : σ → τ) (a : α) (s : σ) :
    (ret a s : Outcome ε σ α).mapState f = .ret a (f s) := rfl
@[simp] theorem mapState_thrown (f : σ → τ) (e : ε) (s : σ) :
    (thrown e s : Outcome ε σ α).mapState f = .thrown e (f s) := rfl
@[simp] theorem mapState_spin (f : σ → τ) :
    (spin : Outcome ε σ α).mapState f = .spin := rfl

section Sat

variable {Q Q' : α → σ → Prop} {E E' : ε → σ → Prop}

@[simp] theorem sat_ret {a : α} {s : σ} : (ret a s : Outcome ε σ α).Sat Q E ↔ Q a s := Iff.rfl
@[simp] theorem sat_thrown {e : ε} {s : σ} :
    (thrown e s : Outcome ε σ α).Sat Q E ↔ E e s := Iff.rfl
@[simp] theorem sat_spin : ¬ (spin : Outcome ε σ α).Sat Q E := id

theorem Sat.mono {o : Outcome ε σ α} (h : o.Sat Q E) (hQ : ∀ a s, Q a s → Q' a s)
    (hE : ∀ e s, E e s → E' e s) : o.Sat Q' E' := by
  cases o with
  | ret a s => exact hQ a s h
  | thrown e s => exact hE e s h
  | spin => exact h

/-- The rule of sequencing. -/
theorem Sat.andThen {o : Outcome ε σ α} {f : α → Prog ε σ β} {Q' : β → σ → Prop}
    (h : o.Sat Q E) (hf : ∀ a s, Q a s → (f a s).Sat Q' E') (hE : ∀ e s, E e s → E' e s) :
    (o.andThen f).Sat Q' E' := by
  cases o with
  | ret a s => exact hf a s h
  | thrown e s => exact hE e s h
  | spin => exact h

/-- The rule of handlers. -/
theorem Sat.handle {o : Outcome ε σ α} {f : ε → Prog ε σ α}
    (h : o.Sat Q E) (hQ : ∀ a s, Q a s → Q' a s) (hf : ∀ e s, E e s → (f e s).Sat Q' E') :
    (o.handle f).Sat Q' E' := by
  cases o with
  | ret a s => exact hQ a s h
  | thrown e s => exact hf e s h
  | spin => exact h

theorem sat_mapState {o : Outcome ε σ α} {f : σ → τ} {Q : α → τ → Prop} {E : ε → τ → Prop} :
    (o.mapState f).Sat Q E ↔ o.Sat (fun a s => Q a (f s)) (fun e s => E e (f s)) := by
  cases o <;> rfl

theorem sat_mapThrown {ε' : Type} {o : Outcome ε σ α} {f : ε → ε'} {E : ε' → σ → Prop} :
    (o.mapThrown f).Sat Q E ↔ o.Sat Q (fun e s => E (f e) s) := by
  cases o <;> rfl

theorem Sat.and_leaves {o : Outcome ε σ α} {P : σ → Prop} (h : o.Sat Q E) (h' : o.Leaves P) :
    o.Sat (fun a s => Q a s ∧ P s) (fun e s => E e s ∧ P s) := by
  cases o with
  | ret a s => exact ⟨h, h'⟩
  | thrown e s => exact ⟨h, h'⟩
  | spin => exact h

theorem Sat.of_quiet {o : Outcome ε σ α} (h : o.Sat Q E) (h' : o.Quiet) :
    o.Sat Q (fun _ _ => False) := by
  cases o with
  | ret a s => exact h
  | thrown e s => exact h'.elim
  | spin => exact h

theorem result_eq_ok {o : Outcome ε σ α} {a : α} {s : σ} (h : o.result = some (.ok a, s)) :
    o = .ret a s := by
  cases o with
  | ret a' s' => cases h; rfl
  | thrown e s' => cases h
  | spin => cases h

theorem result_eq_error {o : Outcome ε σ α} {e : ε} {s : σ} (h : o.result = some (.error e, s)) :
    o = .thrown e s := by
  cases o with
  | ret a s' => cases h
  | thrown e' s' => cases h; rfl
  | spin => cases h

/-- What `Sat` says of a run that has returned. -/
theorem Sat.ret {o : Outcome ε σ α} (h : o.Sat Q E) {a : α} {s : σ} (ho : o = .ret a s) : Q a s := by
  subst ho
  exact h

/-- What `Sat` says of what a run came to. -/
theorem Sat.result {o : Outcome ε σ α} (h : o.Sat Q E) {r : Except ε α} {s : σ}
    (ho : o.result = some (r, s)) : (∃ a, r = .ok a ∧ Q a s) ∨ ∃ e, r = .error e ∧ E e s := by
  cases o with
  | ret a s' => cases ho; exact .inl ⟨a, rfl, h⟩
  | thrown e s' => cases ho; exact .inr ⟨e, rfl, h⟩
  | spin => exact h.elim

/-- A run that meets `Sat` comes to something. -/
theorem Sat.ends {o : Outcome ε σ α} (h : o.Sat Q E) : ∃ r s, o.result = some (r, s) := by
  cases o with
  | ret a s => exact ⟨_, s, rfl⟩
  | thrown e s => exact ⟨_, s, rfl⟩
  | spin => exact h.elim

/-- A run that meets `Sat` and cannot throw returns. -/
theorem Sat.returns {o : Outcome ε σ α} (h : o.Sat Q (fun _ _ => False)) :
    ∃ a s, o = .ret a s ∧ Q a s := by
  cases o with
  | ret a s => exact ⟨a, s, rfl, h⟩
  | thrown e s => exact h.elim
  | spin => exact h.elim

end Sat

theorem Leaves.result {o : Outcome ε σ α} {P : σ → Prop} (h : o.Leaves P) {r : Except ε α} {s : σ}
    (ho : o.result = some (r, s)) : P s := by
  cases o with
  | ret a s' => cases ho; exact h
  | thrown e s' => cases ho; exact h
  | spin => cases ho

theorem Sat.leaves {o : Outcome ε σ α} {P : σ → Prop} (h : o.Sat (fun _ => P) fun _ => P) :
    o.Leaves P := by
  cases o with
  | ret a s => exact h
  | thrown e s => exact h
  | spin => trivial

theorem Leaves.mono {o : Outcome ε σ α} {P P' : σ → Prop} (h : o.Leaves P)
    (hP : ∀ s, P s → P' s) : o.Leaves P' := by
  cases o with
  | ret a s => exact hP s h
  | thrown e s => exact hP s h
  | spin => trivial

theorem leaves_imp {o : Outcome ε σ α} {A : Prop} {P : σ → Prop} (h : A → o.Leaves P) :
    o.Leaves fun s => A → P s := by
  cases o with
  | ret a s => exact h
  | thrown e s => exact h
  | spin => trivial

/-- What holds after a run holds after what follows it, where that keeps it. -/
theorem Leaves.andThen {o : Outcome ε σ α} {f : α → Prog ε σ β} {P : σ → Prop} (h : o.Leaves P)
    (hf : ∀ a s, P s → (f a s).Leaves P) : (o.andThen f).Leaves P := by
  cases o with
  | ret a s => exact hf a s h
  | thrown e s => exact h
  | spin => trivial

theorem leaves_mapState {o : Outcome ε σ α} {f : σ → τ} {P : τ → Prop} :
    (o.mapState f).Leaves P ↔ o.Leaves fun s => P (f s) := by
  cases o <;> rfl

end Outcome

namespace Prog

instance : Monad (Prog ε σ) where
  pure a := fun s => .ret a s
  bind x f := fun s => (x s).andThen f

instance : MonadStateOf σ (Prog ε σ) where
  get := fun s => .ret s s
  set s := fun _ => .ret ⟨⟩ s
  modifyGet f := fun s => .ret (f s).1 (f s).2

instance : MonadExceptOf ε (Prog ε σ) where
  throw e := fun s => .thrown e s
  tryCatch x h := fun s => (x s).handle h

/-- The program that is cut off at once. -/
def spin : Prog ε σ α := fun _ => .spin

/-- Run a program of the states `τ` inside the states `σ`. -/
def zoom (get : σ → τ) (put : τ → σ → σ) (p : Prog ε τ α) : Prog ε σ α :=
  fun s => (p (get s)).mapState (fun t => put t s)

/-- Run a program whose exceptions are turned into others. -/
def mapThrown {ε' : Type} (f : ε → ε') (p : Prog ε σ α) : Prog ε' σ α := fun s => (p s).mapThrown f

@[simp] theorem pure_apply (a : α) (s : σ) : (pure a : Prog ε σ α) s = .ret a s := rfl
@[simp] theorem bind_apply (x : Prog ε σ α) (f : α → Prog ε σ β) (s : σ) :
    (x >>= f) s = (x s).andThen f := rfl
@[simp] theorem map_apply (x : Prog ε σ α) (f : α → β) (s : σ) :
    (f <$> x) s = (x s).andThen (fun a => pure (f a)) := rfl
@[simp] theorem get_apply (s : σ) : (get : Prog ε σ σ) s = .ret s s := rfl
@[simp] theorem set_apply (s s' : σ) : (set s' : Prog ε σ PUnit) s = .ret ⟨⟩ s' := rfl
@[simp] theorem modify_apply (f : σ → σ) (s : σ) :
    (modify f : Prog ε σ PUnit) s = .ret ⟨⟩ (f s) := rfl
@[simp] theorem throw_apply (e : ε) (s : σ) : (throw e : Prog ε σ α) s = .thrown e s := rfl
@[simp] theorem tryCatch_apply (x : Prog ε σ α) (h : ε → Prog ε σ α) (s : σ) :
    (tryCatch x h) s = (x s).handle h := rfl
@[simp] theorem spin_apply (s : σ) : (spin : Prog ε σ α) s = .spin := rfl
@[simp] theorem zoom_apply (get : σ → τ) (put : τ → σ → σ) (p : Prog ε τ α) (s : σ) :
    zoom get put p s = (p (get s)).mapState (fun t => put t s) := rfl
@[simp] theorem mapThrown_apply {ε' : Type} (f : ε → ε') (p : Prog ε σ α) (s : σ) :
    mapThrown f p s = (p s).mapThrown f := rfl
@[simp] theorem ite_apply (c : Prop) [Decidable c] (x y : Prog ε σ α) (s : σ) :
    (if c then x else y) s = if c then x s else y s := by split <;> rfl

/-- What a program came to whose value is mapped. -/
theorem map_result {x : Prog ε σ α} {f : α → β} {r : Except ε β} {s s' : σ}
    (h : ((f <$> x) s).result = some (r, s')) :
    ∃ r', (x s).result = some (r', s') ∧ r = r'.map f := by
  rw [map_apply] at h
  cases hx : x s with
  | ret a s₁ => rw [hx] at h; cases h; exact ⟨.ok a, rfl, rfl⟩
  | thrown e s₁ => rw [hx] at h; cases h; exact ⟨.error e, rfl, rfl⟩
  | spin => rw [hx] at h; cases h

/-- Mapping the value leaves the same state. -/
theorem leaves_map {o : Outcome ε σ α} {P : σ → Prop} (f : α → β) (h : o.Leaves P) :
    (o.andThen fun a => (pure (f a) : Prog ε σ β)).Leaves P := h.andThen fun _ _ h => h

/-! ### Frame conditions -/

/-- Every state a run of `p` leaves is `R`-related to the one it started in. -/
def Keeps (R : σ → σ → Prop) (p : Prog ε σ α) : Prop := ∀ s, (p s).Leaves (R s)

namespace Keeps

variable {R : σ → σ → Prop}

theorem pure (hr : ∀ s, R s s) (a : α) : Keeps R (pure a : Prog ε σ α) := fun s => hr s

theorem get (hr : ∀ s, R s s) : Keeps R (get : Prog ε σ σ) := fun s => hr s

theorem modify {f : σ → σ} (h : ∀ s, R s (f s)) : Keeps R (modify f : Prog ε σ PUnit) := fun s => h s

theorem throw (hr : ∀ s, R s s) (e : ε) : Keeps R (throw e : Prog ε σ α) := fun s => hr s

theorem spin : Keeps R (spin : Prog ε σ α) := fun _ => trivial

theorem bind_at (ht : ∀ a b c, R a b → R b c → R a c) {x : Prog ε σ α} {f : α → Prog ε σ β}
    {s : σ} (hx : (x s).Leaves (R s)) (hf : ∀ a, Keeps R (f a)) : ((x >>= f) s).Leaves (R s) := by
  rw [bind_apply]
  cases hxs : x s with
  | ret a s' =>
      rw [hxs] at hx
      exact (hf a s').mono fun t ht' => ht _ _ _ hx ht'
  | thrown e s' => rw [hxs] at hx; exact hx
  | spin => trivial

theorem bind (ht : ∀ a b c, R a b → R b c → R a c) {x : Prog ε σ α} {f : α → Prog ε σ β}
    (hx : Keeps R x) (hf : ∀ a, Keeps R (f a)) : Keeps R (x >>= f) := fun s =>
  bind_at ht (hx s) hf

/-- A program that starts by looking at the state. -/
theorem get_bind {f : σ → Prog ε σ β} (hf : ∀ s, (f s s).Leaves (R s)) :
    Keeps R (MonadState.get >>= f) := hf

theorem tryCatch (ht : ∀ a b c, R a b → R b c → R a c) {x : Prog ε σ α} {h : ε → Prog ε σ α}
    (hx : Keeps R x) (hh : ∀ e, Keeps R (h e)) : Keeps R (tryCatch x h) := by
  intro s
  have hs := hx s
  rw [tryCatch_apply]
  cases hxs : x s with
  | ret a s' => rw [hxs] at hs; exact hs
  | thrown e s' =>
      rw [hxs] at hs
      exact (hh e s').mono fun t ht' => ht _ _ _ hs ht'
  | spin => trivial

theorem ite {c : Prop} [Decidable c] {x y : Prog ε σ α} (hx : Keeps R x) (hy : Keeps R y) :
    Keeps R (if c then x else y) := by
  split
  · exact hx
  · exact hy

theorem zoom {S : τ → τ → Prop} {get : σ → τ} {put : τ → σ → σ} {p : Prog ε τ α}
    (hp : Keeps S p) (h : ∀ s t, S (get s) t → R s (put t s)) : Keeps R (zoom get put p) := by
  intro s
  have hs := hp (get s)
  rw [zoom_apply]
  cases hps : p (get s) with
  | ret a t => rw [hps] at hs; exact h s t hs
  | thrown e t => rw [hps] at hs; exact h s t hs
  | spin => trivial

/-- The relation at a return. -/
theorem ret {p : Prog ε σ α} (h : Keeps R p) {s s' : σ} {a : α} (hp : p s = .ret a s') :
    R s s' := by
  have := h s
  rwa [hp] at this

end Keeps

/-! ### Programs that throw nothing -/

/-- No run of `p` throws. -/
def Quiet (p : Prog ε σ α) : Prop := ∀ s, (p s).Quiet

namespace Quiet

theorem pure (a : α) : Quiet (pure a : Prog ε σ α) := fun _ => trivial

theorem get : Quiet (get : Prog ε σ σ) := fun _ => trivial

theorem modify (f : σ → σ) : Quiet (modify f : Prog ε σ PUnit) := fun _ => trivial

theorem bind {x : Prog ε σ α} {f : α → Prog ε σ β} (hx : Quiet x) (hf : ∀ a, Quiet (f a)) :
    Quiet (x >>= f) := by
  intro s
  have h := hx s
  rw [bind_apply]
  cases hxs : x s with
  | ret a s' => exact hf a s'
  | thrown e s' => rw [hxs] at h; exact h
  | spin => trivial

theorem ite {c : Prop} [Decidable c] {x y : Prog ε σ α} (hx : Quiet x) (hy : Quiet y) :
    Quiet (if c then x else y) := by
  split
  · exact hx
  · exact hy

theorem zoom {get : σ → τ} {put : τ → σ → σ} {p : Prog ε τ α} (hp : Quiet p) :
    Quiet (zoom get put p) := by
  intro s
  have h := hp (get s)
  rw [zoom_apply]
  cases hps : p (get s) with
  | ret a t => trivial
  | thrown e t => rw [hps] at h; exact h
  | spin => trivial

end Quiet

theorem bind_assoc {γ : Type} (x : Prog ε σ α) (f : α → Prog ε σ β) (g : β → Prog ε σ γ) :
    x >>= f >>= g = x >>= fun a => f a >>= g := by
  funext s
  simp only [bind_apply]
  cases x s <;> rfl

/-- A program on a part of the state, step by step. -/
theorem zoom_bind {get : σ → τ} {put : τ → σ → σ} (hget : ∀ t s, get (put t s) = t)
    (hput : ∀ t t' s, put t' (put t s) = put t' s) (p : Prog ε τ α) (f : α → Prog ε τ β) :
    zoom get put (p >>= f) = zoom get put p >>= fun a => zoom get put (f a) := by
  funext s
  rw [zoom_apply, bind_apply, bind_apply, zoom_apply]
  cases p (get s) with
  | ret a t =>
      rw [Outcome.andThen_ret, Outcome.mapState_ret, Outcome.andThen_ret, zoom_apply, hget]
      cases f a t with
      | ret b t' => rw [Outcome.mapState_ret, Outcome.mapState_ret, hput]
      | thrown e t' => rw [Outcome.mapState_thrown, Outcome.mapState_thrown, hput]
      | spin => rfl
  | thrown e t => rfl
  | spin => rfl

theorem mapThrown_bind {ε' : Type} (g : ε → ε') (p : Prog ε σ α) (f : α → Prog ε σ β) :
    mapThrown g (p >>= f) = mapThrown g p >>= fun a => mapThrown g (f a) := by
  funext s
  rw [mapThrown_apply, bind_apply, bind_apply, mapThrown_apply]
  cases p s <;> rfl

/-- A sequence goes on where its first half has returned. -/
theorem bind_of_ret {x : Prog ε σ α} {f : α → Prog ε σ β} {s s₁ : σ} {a : α} (h : x s = .ret a s₁) :
    (x >>= f) s = f a s₁ := by
  rw [bind_apply, h, Outcome.andThen_ret]

/-- A sequence that returns has returned in its first half. -/
theorem bind_eq_ret {x : Prog ε σ α} {f : α → Prog ε σ β} {s s' : σ} {b : β}
    (h : (x >>= f) s = .ret b s') : ∃ a s₁, x s = .ret a s₁ ∧ f a s₁ = .ret b s' := by
  rw [bind_apply] at h
  cases hx : x s with
  | ret a s₁ => rw [hx] at h; exact ⟨a, s₁, rfl, h⟩
  | thrown e s₁ => rw [hx] at h; cases h
  | spin => rw [hx] at h; cases h

/-- A program on a part of the state that returns has returned there. -/
theorem zoom_eq_ret {get : σ → τ} {put : τ → σ → σ} {p : Prog ε τ α} {s s' : σ} {a : α}
    (h : zoom get put p s = .ret a s') : ∃ t, p (get s) = .ret a t ∧ put t s = s' := by
  rw [zoom_apply] at h
  cases hp : p (get s) with
  | ret a' t =>
      rw [hp] at h
      cases h
      exact ⟨t, rfl, rfl⟩
  | thrown e t => rw [hp] at h; cases h
  | spin => rw [hp] at h; cases h

/-! ### Loops -/

/-- A loop with a carried value: `body` says whether to go round again (`inl`) or to end
(`inr`).  The loop is cut off after the given number of iterations. -/
def loop (body : τ → Prog ε σ (τ ⊕ β)) : Nat → τ → Prog ε σ β
  | 0,     _ => spin
  | n + 1, t => do
      match ← body t with
      | .inl t' => loop body n t'
      | .inr b  => pure b

theorem loop_succ (body : τ → Prog ε σ (τ ⊕ β)) (n : Nat) (t : τ) (s : σ) :
    loop body (n + 1) t s = (body t s).andThen fun r =>
      match r with
      | .inl t' => loop body n t'
      | .inr b  => pure b := rfl

/-- An iteration that goes round again. -/
theorem loop_inl {body : τ → Prog ε σ (τ ⊕ β)} {t t' : τ} {s s' : σ} (n : Nat)
    (h : body t s = .ret (.inl t') s') : loop body (n + 1) t s = loop body n t' s' := by
  simp only [loop, bind_apply, h, Outcome.andThen_ret]

/-- The last iteration. -/
theorem loop_inr {body : τ → Prog ε σ (τ ⊕ β)} {t : τ} {b : β} {s s' : σ} (n : Nat)
    (h : body t s = .ret (.inr b) s') : loop body (n + 1) t s = .ret b s' := by
  simp only [loop, bind_apply, h, Outcome.andThen_ret, pure_apply]

theorem loop_thrown {body : τ → Prog ε σ (τ ⊕ β)} {t : τ} {e : ε} {s s' : σ} (n : Nat)
    (h : body t s = .thrown e s') : loop body (n + 1) t s = .thrown e s' := by
  simp only [loop, bind_apply, h, Outcome.andThen_thrown]

/-- A loop whose body goes round again wherever `I` holds, and keeps `I`, never ends. -/
theorem loop_spins {body : τ → Prog ε σ (τ ⊕ β)} {I : τ → σ → Prop}
    (hI : ∀ t s, I t s → ∃ t' s', body t s = .ret (.inl t') s' ∧ I t' s') :
    ∀ n t s, I t s → loop body n t s = .spin := by
  intro n
  induction n with
  | zero => intro t s _; rfl
  | succ n ih =>
      intro t s h
      obtain ⟨t', s', hb, h'⟩ := hI t s h
      rw [loop_inl n hb]
      exact ih t' s' h'

/-- `n` iterations that go round again. -/
inductive Rounds (body : τ → Prog ε σ (τ ⊕ β)) : Nat → τ → σ → τ → σ → Prop where
  | refl (t : τ) (s : σ) : Rounds body 0 t s t s
  | step {n : Nat} {t t₁ t' : τ} {s s₁ s' : σ} (h : body t s = .ret (.inl t₁) s₁)
      (hs : Rounds body n t₁ s₁ t' s') : Rounds body (n + 1) t s t' s'

/-- The rule of loops: where each iteration that goes round again makes `size` smaller, the number of
iterations need only exceed it. -/
theorem loop_sat {body : τ → Prog ε σ (τ ⊕ β)} {I : τ → σ → Prop} {Q : β → σ → Prop} {E : ε → σ → Prop}
    (size : τ → σ → Nat)
    (h : ∀ t s, I t s → (body t s).Sat
      (fun r s' => r.elim (fun t' => I t' s' ∧ size t' s' < size t s) fun b => Q b s') E) :
    ∀ n t s, I t s → size t s < n → (loop body n t s).Sat Q E := by
  intro n
  induction n with
  | zero => intro t s _ hn; exact absurd hn (Nat.not_lt_zero _)
  | succ n ih =>
      intro t s hI hn
      rw [loop_succ]
      refine (h t s hI).andThen (fun r s' hr => ?_) fun _ _ he => he
      cases r with
      | inl t' => exact ih t' s' hr.1 (Nat.lt_of_lt_of_le hr.2 (Nat.le_of_lt_succ hn))
      | inr b => exact hr

/-- A loop keeps what its body keeps. -/
theorem Keeps.loop {R : σ → σ → Prop} (hr : ∀ s, R s s) (ht : ∀ a b c, R a b → R b c → R a c)
    {body : τ → Prog ε σ (τ ⊕ β)} (hb : ∀ t, Keeps R (body t)) :
    ∀ n t, Keeps R (Prog.loop body n t) := by
  intro n
  induction n with
  | zero => intro t; exact Keeps.spin
  | succ n ih =>
      intro t
      refine Keeps.bind ht (hb t) fun r => ?_
      cases r with
      | inl t' => exact ih t'
      | inr b => exact Keeps.pure hr b

/-- More iterations do not change an outcome. -/
theorem loop_mono {body : τ → Prog ε σ (τ ⊕ β)} :
    ∀ {n m : Nat} {t : τ} {s : σ}, n ≤ m → loop body n t s ≠ .spin →
      loop body m t s = loop body n t s := by
  intro n
  induction n with
  | zero => intro m t s _ h; exact absurd rfl h
  | succ n ih =>
      intro m t s hm h
      obtain ⟨m, rfl⟩ : ∃ k, m = k + 1 := ⟨m - 1, by omega⟩
      cases hb : body t s with
      | ret r s' =>
          cases r with
          | inl t' =>
              rw [loop_inl n hb] at h
              rw [loop_inl n hb, loop_inl m hb]
              exact ih (by omega) h
          | inr b => rw [loop_inr n hb, loop_inr m hb]
      | thrown e s' => rw [loop_thrown n hb, loop_thrown m hb]
      | spin => simp only [loop, bind_apply, hb, Outcome.andThen_spin]

/-- What a loop comes to does not depend on the number of iterations. -/
theorem loop_unique {body : τ → Prog ε σ (τ ⊕ β)} {n m : Nat} {t : τ} {s : σ} {x y : Except ε β × σ}
    (hx : (loop body n t s).result = some x) (hy : (loop body m t s).result = some y) : x = y := by
  have ended : ∀ {n z}, (loop body n t s).result = some z → loop body n t s ≠ .spin := by
    intro n z hz hspin
    rw [hspin] at hz
    cases hz
  rcases Nat.le_total n m with hle | hle
  · rw [loop_mono hle (ended hx), hx] at hy
    exact Option.some.inj hy
  · rw [loop_mono hle (ended hy), hy] at hx
    exact (Option.some.inj hx).symm

end Prog

end Lib
