import Socketpp.Lib.Triple

/-!
# Lib — Three ways to end

`Outcome.Ways Q E S`: `Q` after a return, `E` after an exception, and `S` where the run is cut off.  With what
it takes to be cut off as a postcondition, one run of a proof through a program gives both its partial
correctness and, where `S` does not hold, that it comes to an end (`Ways.sat`).
-/

namespace Lib

variable {ε ε' σ τ α β : Type}

namespace Outcome

/-- The postconditions of the three ways to end. -/
def Ways (Q : α → σ → Prop) (E : ε → σ → Prop) (S : Prop) : Outcome ε σ α → Prop
  | .ret a s    => Q a s
  | .thrown e s => E e s
  | .spin       => S

section Ways

variable {Q Q' : α → σ → Prop} {E E' : ε → σ → Prop} {S S' : Prop} {o : Outcome ε σ α}

theorem Ways.mono (h : o.Ways Q E S) (hQ : ∀ a s, Q a s → Q' a s) (hE : ∀ e s, E e s → E' e s)
    (hS : S → S') : o.Ways Q' E' S' := by
  cases o with
  | ret a s => exact hQ a s h
  | thrown e s => exact hE e s h
  | spin => exact hS h

/-- Where nothing cuts it off, the run comes to an end. -/
theorem Ways.sat (h : o.Ways Q E S) (hS : ¬ S) : o.Sat Q E := by
  cases o with
  | ret a s => exact h
  | thrown e s => exact h
  | spin => exact hS h

/-- A run that has come to an end. -/
theorem Ways.sat_of_sat {P : α → σ → Prop} {F : ε → σ → Prop} (h : o.Ways Q E S) (h' : o.Sat P F) :
    o.Sat (fun a s => Q a s ∧ P a s) fun e s => E e s ∧ F e s := by
  cases o with
  | ret a s => exact ⟨h, h'⟩
  | thrown e s => exact ⟨h, h'⟩
  | spin => exact h'.elim

theorem Sat.ways (h : o.Sat Q E) : o.Ways Q E S := by
  cases o with
  | ret a s => exact h
  | thrown e s => exact h
  | spin => exact h.elim

theorem Within.ways {P F : σ → Prop} (h : o.Within P F) : o.Ways (fun _ => P) (fun _ => F) (o = .spin) := by
  cases o with
  | ret a s => exact h
  | thrown e s => exact h
  | spin => rfl

theorem Ways.and_leaves {P : σ → Prop} (h : o.Ways Q E S) (h' : o.Leaves P) :
    o.Ways (fun a s => Q a s ∧ P s) (fun e s => E e s ∧ P s) S := by
  cases o with
  | ret a s => exact ⟨h, h'⟩
  | thrown e s => exact ⟨h, h'⟩
  | spin => exact h

/-- The rule of sequencing. -/
theorem Ways.andThen {f : α → Prog ε σ β} {Q' : β → σ → Prop} (h : o.Ways Q E S)
    (hf : ∀ a s, Q a s → (f a s).Ways Q' E S) : (o.andThen f).Ways Q' E S := by
  cases o with
  | ret a s => exact hf a s h
  | thrown e s => exact h
  | spin => exact h

theorem ways_mapState {f : σ → τ} {Q : α → τ → Prop} {E : ε → τ → Prop} :
    (o.mapState f).Ways Q E S ↔ o.Ways (fun a s => Q a (f s)) (fun e s => E e (f s)) S := by
  cases o <;> rfl

theorem ways_mapThrown {f : ε → ε'} {E : ε' → σ → Prop} :
    (o.mapThrown f).Ways Q E S ↔ o.Ways Q (fun e s => E (f e) s) S := by
  cases o <;> rfl

end Ways

end Outcome

/-- A loop that goes round again in every iteration. -/
theorem Prog.loop_never {body : τ → Prog ε σ (τ ⊕ β)} {P E : σ → Prop}
    (h : ∀ t s, P s → (body t s).Ways (fun r s' => r.isLeft = true ∧ P s') (fun _ => E) True) :
    ∀ n t s, P s → (Prog.loop body n t s).Ways (fun _ _ => False) (fun _ => E) True := by
  intro n
  induction n with
  | zero => exact fun _ _ _ => trivial
  | succ n ih =>
      intro t s hs
      rw [Prog.loop_succ]
      refine (h t s hs).andThen fun r s' ⟨hr, hs'⟩ => ?_
      cases r with
      | inl t' => exact ih t' s' hs'
      | inr b => cases hr

end Lib
