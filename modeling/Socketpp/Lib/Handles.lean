import Mathlib.Data.List.Perm.Subperm
import Socketpp.Lib.Trail

/-!
# Lib — Handles

What a program does with handles that a system gives out: descriptors, locks, buffers.  `Dealing.Leads` is
the discipline of nested blocks: a handle is used only while it is held, and the one acquired last is the
first to be released.

A log that the discipline can read is `Careful`: no handle is used or released that has not been acquired
once more than it has been released.  If it leads back to where it began, it is `Settled`: what has been
acquired has been released, each as often.
-/

namespace Lib

/-- What is done with a handle. -/
inductive Dealing (η : Type) where
  | acquire (h : η)
  | use (h : η)
  | release (h : η)
deriving DecidableEq

namespace Dealing

variable {η : Type}

/-- The discipline; the handles held, the last one first. -/
inductive Leads : List η → Dealing η → List η → Prop where
  | acquire (h : η) (held : List η) : Leads held (.acquire h) (h :: held)
  | use {h : η} {held : List η} (hmem : h ∈ held) : Leads held (.use h) held
  | release (h : η) (held : List η) : Leads (h :: held) (.release h) held

/-- The handles acquired. -/
def acquired (l : List (Dealing η)) : List η :=
  l.filterMap fun
    | .acquire h => some h
    | _          => none

/-- The handles released. -/
def released (l : List (Dealing η)) : List η :=
  l.filterMap fun
    | .release h => some h
    | _          => none

@[simp] theorem acquired_append (l l' : List (Dealing η)) : acquired (l ++ l') = acquired l ++ acquired l' :=
  List.filterMap_append

@[simp] theorem released_append (l l' : List (Dealing η)) : released (l ++ l') = released l ++ released l' :=
  List.filterMap_append

variable {held held' : List η} {l : List (Dealing η)}

/-- Uses of what is held. -/
theorem trail_uses (hl : ∀ d ∈ l, ∃ h ∈ held, d = .use h) : Trail Leads held l held := by
  induction l with
  | nil => exact .nil
  | cons d l ih =>
      rw [List.forall_mem_cons] at hl
      obtain ⟨h, hmem, rfl⟩ := hl.1
      exact (ih hl.2).cons (.use hmem)

/-! ### Books -/

variable [DecidableEq η]

/-- With `held` held at the beginning, a handle is used or released only where it has been acquired more often
than released. -/
structure Careful (held : List η) (l : List (Dealing η)) : Prop where
  used  : ∀ {pre h post}, l = pre ++ .use h :: post → (released pre).count h < (held ++ acquired pre).count h
  freed : ∀ {pre h post}, l = pre ++ .release h :: post → (released pre).count h < (held ++ acquired pre).count h

/-- And every handle acquired has been released. -/
structure Settled (held : List η) (l : List (Dealing η)) : Prop extends Careful held l where
  balanced : (acquired l).Perm (released l)

/-- The books of the discipline. -/
theorem count_of_trail (t : Trail Leads held l held') (h : η) :
    (held ++ acquired l).count h = (released l).count h + held'.count h := by
  induction t with
  | nil => simp [acquired, released]
  | @snoc l c q₁ q₂ _ hc ih =>
      rw [acquired_append, released_append]
      simp only [List.count_append] at ih ⊢
      cases hc with
      | acquire a _ =>
          have hacquired : acquired [Dealing.acquire a] = [a] := rfl
          have hreleased : released [Dealing.acquire a] = [] := rfl
          rw [hacquired, hreleased, List.count_nil, List.count_cons, List.count_cons, List.count_nil]
          omega
      | @use a _ hmem =>
          have hacquired : acquired [Dealing.use a] = [] := rfl
          have hreleased : released [Dealing.use a] = [] := rfl
          rw [hacquired, hreleased, List.count_nil]
          omega
      | release a _ =>
          have hacquired : acquired [Dealing.release a] = [] := rfl
          have hreleased : released [Dealing.release a] = [a] := rfl
          rw [hacquired, hreleased, List.count_nil, List.count_cons, List.count_nil]
          rw [List.count_cons] at ih
          omega

/-- **The discipline is careful.** -/
theorem careful_of_trail (t : Trail Leads held l held') : Careful held l := by
  have once_more : ∀ {pre : List (Dealing η)} {q : List η} {h : η}, Trail Leads held pre q → h ∈ q →
      (released pre).count h < (held ++ acquired pre).count h := by
    intro pre q h hpre hmem
    have hbooks := count_of_trail hpre h
    have hpos := List.count_pos_iff.mpr hmem
    omega
  constructor
  · intro pre h post hl
    obtain ⟨q₁, q₂, hpre, hstep, -⟩ := t.at_letter hl
    cases hstep with
    | use hmem => exact once_more hpre hmem
  · intro pre h post hl
    obtain ⟨q₁, q₂, hpre, hstep, -⟩ := t.at_letter hl
    cases hstep with
    | release => exact once_more hpre List.mem_cons_self

/-- What has been acquired is what has been released and what is held, where all that was held still is. -/
theorem acquired_of_trail {more : List η} (t : Trail Leads held l (more ++ held)) :
    (acquired l).Perm (more ++ released l) := by
  refine List.perm_iff_count.mpr fun h => ?_
  have hbooks := count_of_trail t h
  simp only [List.count_append] at hbooks ⊢
  omega

theorem released_of_trail {more : List η} (t : Trail Leads held l (more ++ held)) :
    (released l).Subperm (acquired l) :=
  (List.sublist_append_right more (released l)).subperm.trans (acquired_of_trail t).symm.subperm

/-- **And it settles** where it comes back. -/
theorem settled_of_trail (t : Trail Leads held l held) : Settled held l := by
  refine ⟨careful_of_trail t, List.perm_iff_count.mpr fun h => ?_⟩
  have hbooks := count_of_trail t h
  rw [List.count_append] at hbooks
  omega

end Dealing

end Lib
