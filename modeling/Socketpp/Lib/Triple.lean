import Socketpp.Lib.Prog

/-!
# Lib — Triples and bounds

* `Triple P p Q E`: from states with `P`, `p` returns in states with `Q` and throws in states with `E`, if
  it comes to an end.  The exceptions have a postcondition of their own, so what must have happened before
  one is thrown can be carried through a program rule by rule.
* `Steady p`: `p` takes a number of iterations as an argument, and what it comes to does not depend on it.
  Loops are, and what is built from them.
-/

namespace Lib

variable {ε σ τ α β : Type}

/-- The states an outcome leaves, by the way it came about. -/
def Outcome.Within (Q E : σ → Prop) : Outcome ε σ α → Prop
  | ret _ s    => Q s
  | thrown _ s => E s
  | spin       => True

theorem Outcome.Sat.and_within {Q : α → σ → Prop} {E : ε → σ → Prop} {Q' E' : σ → Prop}
    {o : Outcome ε σ α} (h : o.Sat Q E) (h' : o.Within Q' E') :
    o.Sat (fun a s => Q a s ∧ Q' s) (fun e s => E e s ∧ E' s) := by
  cases o with
  | ret a s => exact ⟨h, h'⟩
  | thrown e s => exact ⟨h, h'⟩
  | spin => exact h

namespace Prog

/-- A triple, for runs that come to an end. -/
def Triple (P : σ → Prop) (p : Prog ε σ α) (Q E : σ → Prop) : Prop := ∀ s, P s → (p s).Within Q E

namespace Triple

variable {P Q R E F : σ → Prop} {p : Prog ε σ α}

theorem pure (a : α) : Triple P (pure a : Prog ε σ α) P E := fun _ h => h

theorem get : Triple P (get : Prog ε σ σ) P E := fun _ h => h

theorem modify {f : σ → σ} (h : ∀ s, P s → Q (f s)) : Triple P (modify f : Prog ε σ PUnit) Q E := h

theorem throw (e : ε) : Triple E (throw e : Prog ε σ α) Q E := fun _ h => h

theorem spin : Triple P (spin : Prog ε σ α) Q E := fun _ _ => trivial

theorem ret (h : Triple P p Q E) {s s' : σ} {a : α} (hp : p s = .ret a s') (hs : P s) : Q s' := by
  have hps := h s hs
  rwa [hp] at hps

theorem bind {f : α → Prog ε σ β} (hp : Triple P p R E) (hf : ∀ a, Triple R (f a) Q E) :
    Triple P (p >>= f) Q E := by
  intro s hs
  have h := hp s hs
  rw [bind_apply]
  cases hps : p s with
  | ret a s' =>
      rw [hps] at h
      exact hf a s' h
  | thrown e s' =>
      rw [hps] at h
      exact h
  | spin => trivial

/-- A program that starts by looking at the state. -/
theorem get_bind {f : σ → Prog ε σ β} (hf : ∀ s, P s → (f s s).Within Q E) :
    Triple P (MonadState.get >>= f) Q E := hf

theorem tryCatch {h : ε → Prog ε σ α} (hp : Triple P p Q F) (hh : ∀ e, Triple F (h e) Q E) :
    Triple P (tryCatch p h) Q E := by
  intro s hs
  have hps := hp s hs
  rw [tryCatch_apply]
  cases hx : p s with
  | ret a s' =>
      rw [hx] at hps
      exact hps
  | thrown e s' =>
      rw [hx] at hps
      exact hh e s' hps
  | spin => trivial

theorem ite {c : Prop} [Decidable c] {q : Prog ε σ α} (hp : Triple P p Q E) (hq : Triple P q Q E) :
    Triple P (if c then p else q) Q E := by
  split
  · exact hp
  · exact hq

/-- A program run inside another state. -/
theorem zoom {P' Q' E' : τ → Prop} {get : σ → τ} {put : τ → σ → σ} {p : Prog ε τ α} (h : Triple P' p Q' E')
    (hP : ∀ s, P s → P' (get s)) (hQ : ∀ s t, Q' t → Q (put t s)) (hE : ∀ s t, E' t → E (put t s)) :
    Triple P (Prog.zoom get put p) Q E := by
  intro s hs
  have hp := h (get s) (hP s hs)
  rw [zoom_apply]
  cases hx : p (get s) with
  | ret a t =>
      rw [hx] at hp
      exact hQ s t hp
  | thrown e t =>
      rw [hx] at hp
      exact hE s t hp
  | spin => trivial

theorem loop {body : τ → Prog ε σ (τ ⊕ β)} (h : ∀ t, Triple P (body t) P E) :
    ∀ n t, Triple P (Prog.loop body n t) P E := by
  intro n
  induction n with
  | zero => exact fun _ => .spin
  | succ n ih =>
      intro t
      refine .bind (h t) fun r => ?_
      cases r with
      | inl t' => exact ih t'
      | inr b => exact .pure b

/-- What an iteration preserves holds after any number of them. -/
theorem rounds {body : τ → Prog ε σ (τ ⊕ β)} (h : ∀ t, Triple P (body t) P E) {k : Nat} {t t' : τ}
    {s s' : σ} (hr : Rounds body k t s t' s') (hs : P s) : P s' := by
  induction hr with
  | refl => exact hs
  | step hbody _ ih => exact ih ((h _).ret hbody hs)

end Triple

/-- A loop that returns has gone round some number of times, and ended in the next iteration. -/
theorem loop_eq_ret {body : τ → Prog ε σ (τ ⊕ β)} : ∀ {n : Nat} {t : τ} {s s' : σ} {b : β},
    loop body n t s = .ret b s' →
    ∃ k t₁ s₁, Rounds body k t s t₁ s₁ ∧ body t₁ s₁ = .ret (.inr b) s' := by
  intro n
  induction n with
  | zero => intro t s s' b h; cases h
  | succ n ih =>
      intro t s s' b h
      obtain ⟨r, s₁, hbody, hrest⟩ := bind_eq_ret h
      cases r with
      | inr b' => cases hrest; exact ⟨0, t, s, .refl t s, hbody⟩
      | inl t' =>
          obtain ⟨k, t₁, s₂, hrounds, hlast⟩ := ih hrest
          exact ⟨k + 1, t₁, s₂, .step hbody hrounds, hlast⟩

/-- A loop that throws has gone round some number of times, and threw in the next iteration. -/
theorem loop_eq_thrown {body : τ → Prog ε σ (τ ⊕ β)} : ∀ {n : Nat} {t : τ} {s s' : σ} {e : ε},
    loop body n t s = .thrown e s' →
    ∃ k t₁ s₁, Rounds body k t s t₁ s₁ ∧ body t₁ s₁ = .thrown e s' := by
  intro n
  induction n with
  | zero => intro t s s' e h; cases h
  | succ n ih =>
      intro t s s' e h
      cases hbody : body t s with
      | ret r s₁ =>
          cases r with
          | inr b =>
              rw [loop_inr n hbody] at h
              cases h
          | inl t' =>
              rw [loop_inl n hbody] at h
              obtain ⟨k, t₁, s₂, hrounds, hlast⟩ := ih h
              exact ⟨k + 1, t₁, s₂, .step hbody hrounds, hlast⟩
      | thrown e' s₁ =>
          rw [loop_thrown n hbody] at h
          cases h
          exact ⟨0, t, s, .refl t s, hbody⟩
      | spin =>
          rw [loop_succ, hbody] at h
          cases h

/-! ### Bounds -/

/-- What the program comes to is the same for any larger bound. -/
def Steady (p : Nat → Prog ε σ α) : Prop := ∀ n m s, n ≤ m → p n s ≠ .spin → p m s = p n s

namespace Steady

theorem const (p : Prog ε σ α) : Steady fun _ => p := fun _ _ _ _ _ => rfl

theorem loop (body : τ → Prog ε σ (τ ⊕ β)) (t : τ) : Steady fun n => Prog.loop body n t :=
  fun _ _ _ hle h => loop_mono hle h

theorem bind {p : Nat → Prog ε σ α} {f : Nat → α → Prog ε σ β} (hp : Steady p)
    (hf : ∀ a, Steady fun n => f n a) : Steady fun n => p n >>= f n := by
  intro n m s hle h
  simp only [bind_apply] at h ⊢
  have hne : p n s ≠ .spin := fun hspin => h (by rw [hspin]; rfl)
  rw [hp n m s hle hne]
  cases hps : p n s with
  | ret a s' =>
      rw [hps] at h
      exact hf a n m s' hle h
  | thrown e s' => rfl
  | spin => exact absurd hps hne

theorem ite {c : Prop} [Decidable c] {p q : Nat → Prog ε σ α} (hp : Steady p) (hq : Steady q) :
    Steady fun n => if c then p n else q n := by
  intro n m s hle h
  split at h
  · simpa only [*, if_true] using hp n m s hle h
  · simpa only [*, if_false] using hq n m s hle h

theorem zoom {get : σ → τ} {put : τ → σ → σ} {p : Nat → Prog ε τ α} (hp : Steady p) :
    Steady fun n => Prog.zoom get put (p n) := by
  intro n m s hle h
  simp only [zoom_apply] at h ⊢
  have hne : p n (get s) ≠ .spin := fun hspin => h (by rw [hspin]; rfl)
  rw [hp n m (get s) hle hne]

/-- Two bounds large enough give the same outcome. -/
theorem agree {p : Nat → Prog ε σ α} (hp : Steady p) {n m : Nat} {s : σ} (hn : p n s ≠ .spin)
    (hm : p m s ≠ .spin) : p m s = p n s := by
  rcases Nat.le_total n m with hle | hle
  · exact hp n m s hle hn
  · exact (hp m n s hle hm).symm

end Steady

end Prog

end Lib
