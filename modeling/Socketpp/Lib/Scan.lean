import Socketpp.Lib.Prog

/-!
# Lib — Scans

A loop that takes one look at its input in each iteration.  What it does on a look is a function
`look` to a `Glance`: it goes on, it stops behind the look or in front of it, or it stalls, that is
it leaves everything as it is and will look at the same again.  `scan look` runs it over a list of
looks and comes to nothing where it stalls; at the end of the list the loop ends too.

* `Follows`: what one iteration of a loop must do to follow `look`.
* `loop_scan`: the loop then ends exactly where the scan comes to something, and there as the scan
  says; one iteration more than there are looks is enough.
* `Returns`: what a program with loops comes to, however many iterations it takes.  `Runs`: steps
  made one after another.
-/

namespace Lib

variable {ε σ τ α β ν : Type}

/-- What a look comes to. -/
inductive Glance (α : Type) where
  | stall
  | leave (a : α)
  | stop (a : α)
  | go (a : α)

/-- Look after look, until one stops or stalls; with the looks that are left. -/
def scan (look : α → ν → Glance α) : α → List ν → Option (α × List ν)
  | a, []      => some (a, [])
  | a, v :: vs =>
    match look a v with
    | .stall    => none
    | .leave a' => some (a', v :: vs)
    | .stop a'  => some (a', vs)
    | .go a'    => scan look a' vs

section Scan

variable {look : α → ν → Glance α} {a a' : α} {v : ν} {vs : List ν}

@[simp] theorem scan_nil (a : α) : scan look a [] = some (a, []) := rfl

theorem scan_stall (h : look a v = .stall) : scan look a (v :: vs) = none := by
  simp only [scan, h]

theorem scan_leave (h : look a v = .leave a') : scan look a (v :: vs) = some (a', v :: vs) := by
  simp only [scan, h]

theorem scan_stop (h : look a v = .stop a') : scan look a (v :: vs) = some (a', vs) := by
  simp only [scan, h]

theorem scan_go (h : look a v = .go a') : scan look a (v :: vs) = scan look a' vs := by
  simp only [scan, h]

/-- The looks a scan takes, the one at which it ends or stalls included. -/
def seen (look : α → ν → Glance α) : α → List ν → List ν
  | _, []      => []
  | a, v :: vs =>
    v :: match look a v with
      | .go a' => seen look a' vs
      | _      => []

@[simp] theorem seen_nil (a : α) : seen look a [] = [] := rfl

theorem seen_go (h : look a v = .go a') : seen look a (v :: vs) = v :: seen look a' vs := by
  simp only [seen, h]

theorem mem_seen_head : v ∈ seen look a (v :: vs) := List.mem_cons_self

theorem mem_seen_tail {w : ν} (h : look a v = .go a') (hw : w ∈ seen look a' vs) :
    w ∈ seen look a (v :: vs) := by
  rw [seen_go h]
  exact List.mem_cons_of_mem v hw

/-- What every look keeps, a scan keeps. -/
theorem scan_keeps {I : α → Prop}
    (hI : ∀ {a a' v}, I a → look a v = .leave a' ∨ look a v = .stop a' ∨ look a v = .go a' → I a') :
    ∀ {vs vs' : List ν} {a a' : α}, I a → scan look a vs = some (a', vs') → I a' := by
  intro vs
  induction vs with
  | nil =>
      intro vs' a a' ha h
      cases h
      exact ha
  | cons v vs ih =>
      intro vs' a a' ha h
      cases hl : look a v with
      | stall => rw [scan_stall hl] at h; cases h
      | leave b => rw [scan_leave hl] at h; cases h; exact hI ha (Or.inl hl)
      | stop b => rw [scan_stop hl] at h; cases h; exact hI ha (Or.inr (Or.inl hl))
      | go b => rw [scan_go hl] at h; exact ih (hI ha (Or.inr (Or.inr hl))) h

/-- A scan that takes each look it ends at leaves the looks behind those it has taken. -/
theorem scan_rest (hlook : ∀ a v a', look a v ≠ .leave a') :
    ∀ {vs vs' : List ν} {a a' : α}, scan look a vs = some (a', vs') →
      vs' = vs.drop (seen look a vs).length := by
  intro vs
  induction vs with
  | nil =>
      intro vs' a a' h
      cases h
      rfl
  | cons v vs ih =>
      intro vs' a a' h
      cases hl : look a v with
      | stall => rw [scan_stall hl] at h; cases h
      | leave b => exact absurd hl (hlook a v b)
      | stop b =>
          rw [scan_stop hl] at h
          cases h
          simp only [seen, hl, List.length_singleton, List.drop_one, List.tail_cons]
      | go b =>
          rw [scan_go hl] at h
          rw [seen_go hl, List.length_cons, List.drop_succ_cons]
          exact ih h

/-- A scan leaves looks that were there. -/
theorem scan_suffix : ∀ {vs vs' : List ν} {a a' : α}, scan look a vs = some (a', vs') → vs' <:+ vs := by
  intro vs
  induction vs with
  | nil =>
      intro vs' a a' h
      cases h
      exact List.suffix_rfl
  | cons v vs ih =>
      intro vs' a a' h
      cases hl : look a v with
      | stall => rw [scan_stall hl] at h; cases h
      | leave b => rw [scan_leave hl] at h; cases h; exact List.suffix_rfl
      | stop b => rw [scan_stop hl] at h; cases h; exact List.suffix_cons v _
      | go b => rw [scan_go hl] at h; exact (ih h).trans (List.suffix_cons v vs)

/-- The items up to the first with `p`, that one included. -/
def upTo (p : ν → Prop) [DecidablePred p] : List ν → List ν
  | []      => []
  | v :: vs => v :: if p v then [] else upTo p vs

/-- Where a scan goes on behind the looks without `p`, whatever it carries, it takes the looks up
to the first with `p`. -/
theorem seen_eq_upTo {p : ν → Prop} [DecidablePred p] {I : α → Prop}
    (hp : ∀ {a v}, I a → p v → ∀ a', look a v ≠ .go a')
    (hgo : ∀ {a v}, I a → ¬ p v → ∃ a', look a v = .go a' ∧ I a') :
    ∀ {vs : List ν} {a : α}, I a → seen look a vs = upTo p vs := by
  intro vs
  induction vs with
  | nil => intro _ _; rfl
  | cons v vs ih =>
      intro a ha
      rw [upTo]
      by_cases hv : p v
      · rw [if_pos hv, seen]
        split
        · exact absurd ‹_› (hp ha hv _)
        · rfl
      · obtain ⟨a', hl, ha'⟩ := hgo ha hv
        rw [if_neg hv, seen_go hl, ih ha']

/-- A scan comes to something when no look it takes is one to stall at. -/
theorem isSome_scan_iff {p : ν → Prop} (hp : ∀ a v, look a v = .stall ↔ ¬ p v) :
    ∀ {vs : List ν} {a : α}, (scan look a vs).isSome ↔ ∀ v ∈ seen look a vs, p v := by
  intro vs
  induction vs with
  | nil => intro a; simp
  | cons v vs ih =>
      intro a
      have hv := hp a v
      cases hl : look a v with
      | stall => simpa [scan, seen, hl] using hv.mp hl
      | leave b => simpa [scan, seen, hl] using hv
      | stop b => simpa [scan, seen, hl] using hv
      | go b =>
          rw [hl] at hv
          have hpv : p v := Classical.byContradiction fun h => nomatch hv.mpr h
          rw [scan_go hl, seen_go hl, ih, List.forall_mem_cons]
          exact (and_iff_right hpv).symm

end Scan

/-! ### Loops that scan -/

/-- One iteration of `body` follows `look`.  `R t s a vs`: before an iteration with the carried
value `t`, in the state `s`, the scan is at `a` and the looks `vs` are left.  `Done b s a vs`: the
same after the last iteration. -/
structure Follows (body : τ → Prog ε σ (τ ⊕ β)) (look : α → ν → Glance α)
    (R : τ → σ → α → List ν → Prop) (Done : β → σ → α → List ν → Prop) : Prop where
  nil : ∀ {t s a}, R t s a [] → ∃ b s', body t s = .ret (.inr b) s' ∧ Done b s' a []
  stall : ∀ {t s a v vs}, R t s a (v :: vs) → look a v = .stall →
    ∃ t' s', body t s = .ret (.inl t') s' ∧ R t' s' a (v :: vs)
  leave : ∀ {t s a v vs a'}, R t s a (v :: vs) → look a v = .leave a' →
    ∃ b s', body t s = .ret (.inr b) s' ∧ Done b s' a' (v :: vs)
  stop : ∀ {t s a v vs a'}, R t s a (v :: vs) → look a v = .stop a' →
    ∃ b s', body t s = .ret (.inr b) s' ∧ Done b s' a' vs
  go : ∀ {t s a v vs a'}, R t s a (v :: vs) → look a v = .go a' →
    ∃ t' s', body t s = .ret (.inl t') s' ∧ R t' s' a' vs

section Follows

variable {body : τ → Prog ε σ (τ ⊕ β)} {look : α → ν → Glance α}
  {R : τ → σ → α → List ν → Prop} {Done : β → σ → α → List ν → Prop}

/-- **Loops that scan.**  Where the scan comes to something the loop ends so, in at most one
iteration for each look and one more; where it stalls the loop never ends. -/
theorem loop_scan (hf : Follows body look R Done) : ∀ {vs : List ν} {t : τ} {s : σ} {a : α},
    R t s a vs →
    match scan look a vs with
    | none => ∀ n, Prog.loop body n t s = .spin
    | some (a', vs') =>
      ∃ b s', Done b s' a' vs' ∧ ∀ n, vs.length < n → Prog.loop body n t s = .ret b s' := by
  intro vs
  induction vs with
  | nil =>
      intro t s a hR
      obtain ⟨b, s', hb, hd⟩ := hf.nil hR
      refine ⟨b, s', hd, fun n hn => ?_⟩
      obtain ⟨n, rfl⟩ := Nat.exists_eq_succ_of_ne_zero (Nat.ne_of_gt hn)
      exact Prog.loop_inr n hb
  | cons v vs ih =>
      intro t s a hR
      cases hl : look a v with
      | stall =>
          -- each round leaves the scan where it is
          rw [scan_stall hl]
          intro n
          refine Prog.loop_spins (I := fun t s => R t s a (v :: vs)) ?_ n t s hR
          intro t s h
          exact hf.stall h hl
      | leave a' =>
          rw [scan_leave hl]
          obtain ⟨b, s', hb, hd⟩ := hf.leave hR hl
          refine ⟨b, s', hd, fun n hn => ?_⟩
          obtain ⟨n, rfl⟩ := Nat.exists_eq_succ_of_ne_zero (Nat.ne_of_gt (Nat.zero_lt_of_lt hn))
          exact Prog.loop_inr n hb
      | stop a' =>
          rw [scan_stop hl]
          obtain ⟨b, s', hb, hd⟩ := hf.stop hR hl
          refine ⟨b, s', hd, fun n hn => ?_⟩
          obtain ⟨n, rfl⟩ := Nat.exists_eq_succ_of_ne_zero (Nat.ne_of_gt (Nat.zero_lt_of_lt hn))
          exact Prog.loop_inr n hb
      | go a' =>
          rw [scan_go hl]
          obtain ⟨t', s₁, hb, hR'⟩ := hf.go hR hl
          -- one round has been used up, and the looks behind `v` decide
          have := ih hR'
          cases hs : scan look a' vs with
          | none =>
              rw [hs] at this
              intro n
              cases n with
              | zero => rfl
              | succ n => rw [Prog.loop_inl n hb]; exact this n
          | some r =>
              rw [hs] at this
              obtain ⟨b, s', hd, hn⟩ := this
              refine ⟨b, s', hd, fun n hlt => ?_⟩
              obtain ⟨n, rfl⟩ := Nat.exists_eq_succ_of_ne_zero (Nat.ne_of_gt (Nat.zero_lt_of_lt hlt))
              rw [Prog.loop_inl n hb]
              exact hn n (Nat.lt_of_succ_lt_succ hlt)

end Follows

/-! ### Runs of any length -/

/-- A program given any number of iterations returns `a` in the state `s'`. -/
def Returns (p : Nat → Prog ε σ α) (s : σ) (a : α) (s' : σ) : Prop := ∃ n, p n s = .ret a s'

theorem Returns.loop_inl {body : τ → Prog ε σ (τ ⊕ β)} {t t' : τ} {s s₁ s' : σ} {b : β}
    (h : body t s = .ret (.inl t') s₁) (hn : Returns (fun n => Prog.loop body n t') s₁ b s') :
    Returns (fun n => Prog.loop body n t) s b s' := by
  obtain ⟨n, hn⟩ := hn
  exact ⟨n + 1, (Prog.loop_inl n h).trans hn⟩

theorem Returns.loop_inr {body : τ → Prog ε σ (τ ⊕ β)} {t : τ} {s s' : σ} {b : β}
    (h : body t s = .ret (.inr b) s') : Returns (fun n => Prog.loop body n t) s b s' :=
  ⟨1, Prog.loop_inr 0 h⟩

/-- Steps made one after another. -/
inductive Runs (R : ν → σ → σ → Prop) : List ν → σ → σ → Prop where
  | nil (s : σ) : Runs R [] s s
  | cons {x : ν} {xs : List ν} {s s₁ s' : σ} (step : R x s s₁) (rest : Runs R xs s₁ s') :
      Runs R (x :: xs) s s'

end Lib
