import Socketpp.Lib.Triple

/-!
# Lib — Trails

A machine with labelled steps `step q c q'` reads words.  `Trail step q l q'`: it can read `l` from `q` to
`q'`.  What stands in a word before a letter is read off the machine: the state it was in when it came to
the letter (`Trail.at_letter`), how it came into that state (`Trail.last`), and how it came into a set of
states it can only enter by certain letters (`Trail.since`).

`Left step log base q q'`: the states of a program that has added to its log `base` a word that leads from
`q` to `q'`.  With the rules of triples, that a program makes its calls in an order the machine allows is
proved one call at a time.  `Grew P` says no more than what the entries are.
-/

namespace Lib

variable {γ σ : Type}

/-- The words a machine can read. -/
inductive Trail (step : σ → γ → σ → Prop) (q : σ) : List γ → σ → Prop where
  | nil : Trail step q [] q
  | snoc {l : List γ} {c : γ} {q₁ q₂ : σ} (h : Trail step q l q₁) (hc : step q₁ c q₂) :
      Trail step q (l ++ [c]) q₂

namespace Trail

variable {step : σ → γ → σ → Prop} {q q₁ q' : σ} {l l' : List γ} {c : γ}

theorem one (h : step q c q') : Trail step q [c] q' := .snoc .nil h

theorem trans (h : Trail step q l q₁) (h' : Trail step q₁ l' q') : Trail step q (l ++ l') q' := by
  induction h' with
  | nil => rwa [List.append_nil]
  | snoc _ hc ih => rw [← List.append_assoc]; exact ih.snoc hc

theorem cons (hc : step q c q₁) (h : Trail step q₁ l q') : Trail step q (c :: l) q' := (one hc).trans h

/-- The last letter, or none. -/
theorem last (h : Trail step q l q') :
    (l = [] ∧ q' = q) ∨ ∃ pre c q₁, l = pre ++ [c] ∧ Trail step q pre q₁ ∧ step q₁ c q' := by
  cases h with
  | nil => exact .inl ⟨rfl, rfl⟩
  | snoc h hc => exact .inr ⟨_, _, _, rfl, h, hc⟩

/-- The state between two words. -/
theorem of_append (h : Trail step q l q') : ∀ {pre post : List γ}, l = pre ++ post →
    ∃ q₁, Trail step q pre q₁ ∧ Trail step q₁ post q' := by
  induction h with
  | nil =>
      intro pre post hl
      obtain ⟨rfl, rfl⟩ := List.append_eq_nil_iff.mp hl.symm
      exact ⟨q, .nil, .nil⟩
  | @snoc l c q₁ q₂ h hc ih =>
      intro pre post hl
      rcases List.eq_nil_or_concat post with rfl | ⟨post, d, rfl⟩
      · exact ⟨q₂, by rw [← List.append_nil pre, ← hl]; exact h.snoc hc, .nil⟩
      · rw [List.concat_eq_append, ← List.append_assoc] at hl
        obtain ⟨rfl, hd⟩ := List.append_inj' hl rfl
        cases hd
        obtain ⟨q₃, hpre, hpost⟩ := ih rfl
        exact ⟨q₃, hpre, by rw [List.concat_eq_append]; exact hpost.snoc hc⟩

theorem of_nil (h : Trail step q [] q') : q' = q := by
  obtain ⟨-, hq⟩ | ⟨pre, c, q₁, hl, -, -⟩ := h.last
  · exact hq
  · exact absurd hl.symm (List.append_ne_nil_of_right_ne_nil _ (List.cons_ne_nil _ _))

theorem of_snoc (h : Trail step q (l ++ [c]) q') : ∃ q₁, Trail step q l q₁ ∧ step q₁ c q' := by
  obtain ⟨hl, -⟩ | ⟨pre, d, q₁, hl, hpre, hd⟩ := h.last
  · exact absurd hl (List.append_ne_nil_of_right_ne_nil _ (List.cons_ne_nil _ _))
  · obtain ⟨rfl, he⟩ := List.append_inj' hl rfl
    cases he
    exact ⟨q₁, hpre, hd⟩

/-- The states about a letter. -/
theorem at_letter {pre post : List γ} (h : Trail step q l q') (hl : l = pre ++ c :: post) :
    ∃ q₁ q₂, Trail step q pre q₁ ∧ step q₁ c q₂ ∧ Trail step q₂ post q' := by
  obtain ⟨q₁, hpre, hrest⟩ := h.of_append hl
  obtain ⟨q₂, hletter, hpost⟩ := hrest.of_append (show c :: post = [c] ++ post from rfl)
  obtain ⟨q₃, hnil, hc⟩ := of_snoc (l := []) hletter
  obtain rfl := hnil.of_nil
  exact ⟨_, q₂, hpre, hc, hpost⟩

section Deterministic

variable (hstep : ∀ q c q₁ q₂, step q c q₁ → step q c q₂ → q₁ = q₂)
include hstep

theorem unique (h : Trail step q l q₁) : ∀ {q₂ : σ}, Trail step q l q₂ → q₁ = q₂ := by
  induction h with
  | nil => exact fun h' => h'.of_nil.symm
  | snoc _ hc ih =>
      intro q₂ h'
      obtain ⟨q₃, hpre, hd⟩ := h'.of_snoc
      obtain rfl := ih hpre
      exact hstep _ _ _ _ hc hd

/-- The last step is one from where the machine was. -/
theorem step_of_snoc (h : Trail step q l q₁) (h' : Trail step q (l ++ [c]) q') : step q₁ c q' := by
  obtain ⟨q₃, hpre, hd⟩ := h'.of_snoc
  obtain rfl := h.unique hstep hpre
  exact hd

end Deterministic

/-- No letter is read in a state without steps. -/
theorem stuck (h : Trail step q l q') (hq : ∀ c q', ¬ step q c q') : l = [] := by
  cases l with
  | nil => rfl
  | cons c l =>
      obtain ⟨q₁, q₂, hnil, hc, -⟩ := h.at_letter (show c :: l = [] ++ c :: l from rfl)
      obtain rfl := hnil.of_nil
      exact absurd hc (hq _ _)

/-- **Since the machine came into `S`.**  The letters after the one that brought it there are those it
stays in `S` with. -/
theorem since {S : σ → Prop} {P M : γ → Prop}
    (hstep : ∀ q₁ c q₂, step q₁ c q₂ → S q₂ → (¬ S q₁ ∧ P c) ∨ (S q₁ ∧ M c))
    (h : Trail step q l q') (hq : ¬ S q) (hq' : S q') :
    ∃ pre c mid, l = pre ++ c :: mid ∧ P c ∧ ∀ d ∈ mid, M d := by
  induction h with
  | nil => exact absurd hq' hq
  | @snoc l d q₁ q₂ _ hd ih =>
      rcases hstep q₁ d q₂ hd hq' with ⟨-, hP⟩ | ⟨hS, hM⟩
      · exact ⟨l, d, [], rfl, hP, List.forall_mem_nil _⟩
      · obtain ⟨pre, c, mid, rfl, hc, hmid⟩ := ih hS
        refine ⟨pre, c, mid ++ [d], List.append_assoc _ _ _, hc, ?_⟩
        exact List.forall_mem_append.mpr ⟨hmid, List.forall_mem_singleton.mpr hM⟩

end Trail

/-! ### Programs with a log -/

/-- The log `l'` is `l` and entries with `P`. -/
def Grew (P : γ → Prop) (l l' : List γ) : Prop := ∃ made, l' = l ++ made ∧ ∀ c ∈ made, P c

namespace Grew

variable {P : γ → Prop} {l l₁ l' : List γ} {c : γ}

theorem same (h : l' = l) : Grew P l l' := ⟨[], by rw [h, List.append_nil], List.forall_mem_nil _⟩

theorem one (h : l' = l ++ [c]) (hc : P c) : Grew P l l' := ⟨[c], h, List.forall_mem_singleton.mpr hc⟩

theorem trans (h : Grew P l l₁) (h' : Grew P l₁ l') : Grew P l l' := by
  obtain ⟨made, rfl, hmade⟩ := h
  obtain ⟨made', rfl, hmade'⟩ := h'
  exact ⟨made ++ made', List.append_assoc _ _ _, List.forall_mem_append.mpr ⟨hmade, hmade'⟩⟩

end Grew

section Log

variable {ε τ τ' α : Type} {step : σ → γ → σ → Prop}

/-- The log is `base` and a word that leads from `q` to `q'`. -/
def Left (step : σ → γ → σ → Prop) (log : τ → List γ) (base : List γ) (q q' : σ) (s : τ) : Prop :=
  ∃ made, log s = base ++ made ∧ Trail step q made q'

namespace Left

variable {log : τ → List γ} {log' : τ' → List γ} {base made : List γ} {q q₁ q' : σ} {s s' : τ} {c : γ}

theorem start (s : τ) (q : σ) : Left step log (log s) q q s := ⟨[], (List.append_nil _).symm, .nil⟩

theorem congr {t : τ'} (h : Left step log base q q' s) (hs : log' t = log s) :
    Left step log' base q q' t := by
  obtain ⟨made, hlog, ht⟩ := h
  exact ⟨made, hs.trans hlog, ht⟩

theorem more (h : Left step log base q q₁ s) (hs : log s' = log s ++ made) (hm : Trail step q₁ made q') :
    Left step log base q q' s' := by
  obtain ⟨before, hlog, ht⟩ := h
  exact ⟨before ++ made, by rw [hs, hlog, List.append_assoc], ht.trans hm⟩

theorem enter (h : Left step log base q q₁ s) (hs : log s' = log s ++ [c]) (hc : step q₁ c q') :
    Left step log base q q' s' := h.more hs (.one hc)

/-- What a run inside another state has added to a log of its own. -/
theorem inside {t' : τ'} (h : Left step log base q q₁ s) (h' : Left step log' [] q₁ q' t')
    (hs : log s' = log s ++ log' t') : Left step log base q q' s' := by
  obtain ⟨made, hlog, ht⟩ := h'
  rw [hlog, List.nil_append] at hs
  exact h.more hs ht

end Left

end Log

namespace Outcome

variable {ε τ α : Type} {o : Outcome ε τ α} {Q E : τ → Prop}

theorem Sat.within (h : o.Sat (fun _ => Q) fun _ => E) : o.Within Q E := by
  cases o with
  | ret a s => exact h
  | thrown e s => exact h
  | spin => exact h.elim

/-- What comes to an end, meets what holds if it does. -/
theorem Within.sat (h : o.Within Q E) (hend : ∃ r, o.result = some r) : o.Sat (fun _ => Q) fun _ => E := by
  cases o with
  | ret a s => exact h
  | thrown e s => exact h
  | spin => obtain ⟨r, hr⟩ := hend; cases hr

theorem Leaves.within {P : τ → Prop} (h : o.Leaves P) : o.Within P P := by
  cases o with
  | ret a s => exact h
  | thrown e s => exact h
  | spin => trivial

theorem Within.mono {Q' E' : τ → Prop} (h : o.Within Q E) (hQ : ∀ s, Q s → Q' s) (hE : ∀ s, E s → E' s) :
    o.Within Q' E' := by
  cases o with
  | ret a s => exact hQ s h
  | thrown e s => exact hE s h
  | spin => trivial

end Outcome

end Lib
