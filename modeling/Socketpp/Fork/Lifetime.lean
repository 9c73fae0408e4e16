import Socketpp.Fork.Order

/-!
# Fork — the lifetime of a record

A record is deleted by its `Fork`, by `reaper_nohang`, or by a child that clears its list, and the
last two do not ask whether the `Fork` still exists.  As long as they only delete records without
one (`Spares`), every `Fork` points to a record, and nothing that has been deleted is used
(`forks_live`).  A child that exits before its `Fork` is destroyed breaks it (`is_child_freed`).
-/

namespace Socketpp
open Lib

namespace Fork

variable {m m' m₁ : Process} {a v : Nat}

/-- The events of a program that uses `Fork` objects: it constructs, destroys and asks them, children
die, and SIGCHLD is delivered. -/
def Event.OfFork : Event → Prop
  | .newFork _ _ | .dropFork _ | .is_child _ | .is_parent _ | .process_id _ | .dies _ | .sigchld
  | .go _ | .handle _ => True
  | _ => False

/-- The step deletes no record of a `Fork` object that exists or is under construction, and none that
a constructor is about to link to. -/
def Spares (m : Process) : Event → Prop
  | .handle _ => ∀ wpid v, m.handler = some (.remove wpid) → m.victim wpid = some v →
      v ∉ m.forks ∧ (∀ o, m.pc ≠ .made v o) ∧
        ∀ a o, m.pc = .link a o → m.link a ≠ some (some v)
  | .go _     => ∀ a o, m.pc = .clear a o → ∀ v ∈ m.records, v ∉ m.forks
  | _         => True

instance : (e : Event) → Decidable e.OfFork
  | .newFork _ _ | .dropFork _ | .is_child _ | .is_parent _ | .process_id _ | .dies _ | .sigchld
  | .go _ | .handle _ => isTrue trivial
  | .newProcess _ _ | .delete _ | .kill_process _ | .suicide_signal | .commit_suicide | .exit
  | .sigterm => isFalse id

theorem forall_clear {P : Prop} (p : Point) :
    (∀ _a ∈ (match p with
      | .clear a _ => some a
      | _ => none : Option Nat), P) ↔ ∀ a o, p = .clear a o → P := by
  cases p <;> simp

theorem forall_made (p : Point) (v : Nat) :
    (match p with
      | .made a _ => some a
      | _ => none : Option Nat) ≠ some v ↔ ∀ o, p ≠ .made v o := by
  cases p <;> simp

instance {P : Prop} [Decidable P] (p : Point) : Decidable (∀ a o, p = .clear a o → P) :=
  decidable_of_iff _ (forall_clear p)

instance (v : Nat) (p : Point) : Decidable (∀ o, p ≠ .made v o) := decidable_of_iff _ (forall_made p v)

instance (m : Process) : (e : Event) → Decidable (Spares m e)
  | .handle _ => by dsimp only [Spares]; infer_instance
  | .go _ => by dsimp only [Spares]; infer_instance
  | .newFork _ _ | .newProcess _ _ | .dropFork _ | .is_child _ | .is_parent _ | .process_id _ | .delete _
  | .kill_process _ | .suicide_signal | .commit_suicide | .exit | .sigterm | .dies _ | .sigchld =>
      isTrue trivial

/-- The places where a program with `Fork` objects can stand. -/
def Point.OfFork (m : Process) : Point → Prop
  | .idle       => True
  | .install _ o | .fork _ o | .next _ o | .link _ o | .clear _ o => o = .fork
  | .made a o   => o = .fork ∧ ∃ r, m.heap a = some r
  | .dropFork a => a ∈ m.forks
  | .dtor a k   => k = .main ∧ a ∉ m.forks ∧ ∃ r, m.heap a = some r ∧ r.pid ≤ 0
  | _           => False

/-- **The invariant**: every `Fork` has its record. -/
structure Owned (m : Process) : Prop where
  linked : Linked m
  live   : ∀ a ∈ m.forks, ∃ r, m.heap a = some r
  nodup  : m.forks.Nodup
  point  : m.pc.OfFork m

/-- Nothing that the program holds has come from the list. -/
theorem Owned.undisturbed (h : Owned m) {e : Event} (hspares : Spares m e) : Undisturbed m e := by
  have hpoint := h.point
  cases e with
  | handle ret =>
      intro wpid v hh hv
      refine ⟨?_, (hspares wpid v hh hv).2.2⟩
      cases hpc : m.pc with
      | dtor a k =>
          rw [hpc] at hpoint
          rw [hpoint.1]
          exact List.not_mem_nil
      | _ =>
          rw [hpc] at hpoint
          first
          | exact List.not_mem_nil
          | exact hpoint.elim
  | go ret =>
      refine ⟨fun a k hpc => ?_, fun a k p hpc => ?_, fun c hpc => ?_⟩
      all_goals
        rw [hpc] at hpoint
        exact hpoint.elim
  | _ => trivial

theorem Process.Fresh.owned (h : m.Fresh) : Owned m := by
  refine ⟨h.linked, ?_, ?_, ?_⟩
  · simp [h.forks]
  · simp [h.forks]
  · rw [h.idle.1]
    trivial

/-- The records are there that the program has got from its `Fork` objects. -/
theorem Owned.safe (h : Owned m) : m.Safe := by
  have hpoint := h.point
  intro b hb
  cases hpc : m.pc with
  | dropFork a =>
      rw [hpc] at hb hpoint
      rw [List.mem_singleton.mp hb]
      exact h.live a hpoint
  | dtor a k =>
      rw [hpc] at hb hpoint
      rw [List.mem_singleton.mp hb]
      obtain ⟨-, -, r, hr, -⟩ := hpoint
      exact ⟨r, hr⟩
  | kill_process a =>
      rw [hpc] at hpoint
      exact hpoint.elim
  | _ =>
      rw [hpc] at hb
      cases hb

/-- **No step fails.** -/
theorem Owned.exec (h : Owned m) {e : Event} (he : e.OfFork) (hen : e.Enabled m) :
    ∃ m', e.exec m = .ret () m' := by
  refine h.linked.exec_ret h.safe hen ?_
  cases e with
  | dropFork a => exact List.forall_mem_singleton.mpr (h.live a hen.2)
  | is_child a => exact List.forall_mem_singleton.mpr (h.live a hen.2)
  | is_parent a => exact List.forall_mem_singleton.mpr (h.live a hen.2)
  | process_id a => exact List.forall_mem_singleton.mpr (h.live a hen.2)
  | delete a => exact he.elim
  | kill_process a => exact he.elim
  | _ => exact List.forall_mem_nil _

/-- A step at which no record of a `Fork` is touched. -/
theorem Owned.same (h : Owned m) (hlinked : Linked m') (hforks : m'.forks = m.forks)
    (hheap : ∀ a ∈ m.forks, ∀ r, m.heap a = some r → ∃ r', m'.heap a = some r')
    (hpoint : m'.pc.OfFork m') : Owned m' := by
  refine ⟨hlinked, ?_, ?_, hpoint⟩
  · rw [hforks]
    intro a ha
    obtain ⟨r, hr⟩ := h.live a ha
    exact hheap a ha r hr
  · rw [hforks]
    exact h.nodup

/-- A store to one record leaves the others. -/
theorem live_update {b : Nat} {q : ForkProcess} (hheap : m'.heap = Function.update m.heap b (some q)) :
    ∀ a, ∀ r, m.heap a = some r → ∃ r', m'.heap a = some r' := by
  intro a r hr
  rw [hheap]
  rcases eq_or_ne a b with rfl | hne
  · exact ⟨q, Function.update_self ..⟩
  · exact ⟨r, by rw [Function.update_of_ne hne, hr]⟩

/-- A constructor keeps the invariant. -/
theorem Owned.constructs (h : Owned m) {ret : Int} {pc p : Point} (hpc : m.pc = pc)
    (hgoes : Constructs ret m pc p m₁) (hclear : ∀ a o, pc = .clear a o → ∀ v ∈ m.records, v ∉ m.forks)
    (hlinked : Linked m') (hm' : m' = { m₁ with pc := p }) : Owned m' := by
  have hpoint := h.point
  have hstands := h.linked.stands
  rw [hpc] at hpoint hstands
  subst hm'
  cases hgoes with
  | install a o => exact h.same hlinked rfl (fun _ _ r hr => ⟨r, hr⟩) hpoint
  | fork_parent o hr hpos => exact h.same hlinked rfl (fun a _ => live_update rfl a) hpoint
  | fork_child o hr hret => exact h.same hlinked rfl (fun a _ => live_update rfl a) hpoint
  | fork_failed o hr hneg =>
      exact h.same hlinked rfl (fun a _ => live_update rfl a) ⟨hpoint, _, Function.update_self ..⟩
  | next o hr => exact h.same hlinked rfl (fun a _ => live_update rfl a) hpoint
  | link a o =>
      obtain ⟨r, hb, -⟩ := hstands
      exact h.same hlinked rfl (fun _ _ r hr => ⟨r, hr⟩) ⟨hpoint, r, hb.here⟩
  | @clear a r o hr hoff =>
      refine h.same hlinked rfl (fun b hb r hr => ⟨r, ?_⟩) ⟨hpoint, r, ?_⟩
      · have hnot : b ∉ m.records := fun hmem => hclear a o rfl b hmem hb
        simp [Process.without, hnot, hr]
      · simp [Process.without, hoff, hr]
  | made_fork a =>
      obtain ⟨-, r, hr⟩ := hpoint
      exact ⟨hlinked, List.forall_mem_cons.mpr ⟨⟨r, hr⟩, h.live⟩,
        List.nodup_cons.mpr ⟨hstands.2.1, h.nodup⟩, trivial⟩
  | made_user a => exact absurd hpoint.1 (by simp)

/-- A destructor at work has a record without a child. -/
theorem Owned.destroys (h : Owned m) {ret : Int} {pc p : Point} (hpc : m.pc = pc)
    (hgoes : Destroys ret m pc p m₁) (hlinked : Linked m') (hm' : m' = { m₁ with pc := p }) : Owned m' := by
  have hpoint := h.point
  rw [hpc] at hpoint
  subst hm'
  cases hgoes with
  | @dropFork_dead a r hr hdead =>
      refine ⟨hlinked, fun b hb => h.live b (List.mem_of_mem_erase hb), h.nodup.erase a, rfl, ?_, r,
        hr, hdead⟩
      exact fun hmem => (h.nodup.mem_erase_iff.mp hmem).1 rfl
  | @dropFork a r hr hpos =>
      exact ⟨hlinked, fun b hb => h.live b (List.mem_of_mem_erase hb), h.nodup.erase a, trivial⟩
  | dtor_kill k hr hpos hkill =>
      obtain ⟨-, -, r, hr', hdead⟩ := hpoint
      obtain rfl := Option.some.inj (hr.symm.trans hr')
      omega
  | dtor_reap k hr hpos hkill =>
      obtain ⟨-, -, r, hr', hdead⟩ := hpoint
      obtain rfl := Option.some.inj (hr.symm.trans hr')
      omega
  | @dtor_dead a r k hr hdead =>
      obtain ⟨rfl, hnot, -⟩ := hpoint
      refine h.same hlinked rfl (fun b hb r hr => ⟨r, ?_⟩) trivial
      have hne : b ≠ a := fun hba => hnot (hba ▸ hb)
      exact (Function.update_of_ne hne ..).trans hr
  | _ => exact hpoint.elim

/-- **The program** keeps the invariant, if it spares the records of `Fork` objects. -/
theorem Owned.go (h : Owned m) {ret : Int} {p : Point} (hgoes : Goes ret m m.pc p m₁)
    (hspares : Spares m (.go ret)) (hm' : m' = { m₁ with pc := p }) : Owned m' := by
  have hlinked := h.linked.go hgoes (h.undisturbed hspares) hm'
  have hpoint := h.point
  cases hgoes with
  | constructs hgoes => exact h.constructs rfl hgoes hspares hlinked hm'
  | destroys hgoes => exact h.destroys rfl hgoes hlinked hm'
  | unlinks hgoes =>
      generalize m.pc = pc at hgoes hpoint
      cases hgoes <;> exact hpoint.elim
  | exits hgoes =>
      generalize m.pc = pc at hgoes hpoint
      cases hgoes <;> exact hpoint.elim

/-- **The handler** keeps the invariant, if it spares the records of `Fork` objects. -/
theorem Owned.handle (h : Owned m) {ret : Int} {hd : Handler} {h' : Option Handler}
    (hhd : m.handler = some hd) (hreaps : Reaps ret m hd h' m₁) (hspares : Spares m (.handle ret))
    (hm' : m' = { m₁ with handler := h', blocked := h'.isSome }) : Owned m' := by
  have hlinked := h.linked.handle hhd hreaps (h.undisturbed hspares) hm'
  subst hm'
  cases hreaps with
  | waited hpos => exact ⟨hlinked, h.live, h.nodup, h.point⟩
  | no_zombie hret => exact ⟨hlinked, h.live, h.nodup, h.point⟩
  | stranger hnone => exact ⟨hlinked, h.live, h.nodup, h.point⟩
  | @remove wpid v m₁ hv hoff =>
      obtain ⟨hforks, hmade, -⟩ := hspares wpid v hhd hv
      -- the other records stay, with another link at most
      have kept : ∀ b, b ≠ v → ∀ r, m.heap b = some r → ∃ r', m₁.heap b = some r' := by
        intro b hne r hr
        obtain ⟨q, hq⟩ := hoff.kept b hne
        exact ⟨{ r with next := q r }, by rw [hq, hr]; rfl⟩
      refine h.same hlinked hoff.forks (fun b hb => kept b fun hbv => hforks (hbv ▸ hb)) ?_
      show m₁.pc.OfFork _
      have hpoint := h.point
      rw [hoff.pc]
      cases hpc : m.pc with
      | made a o =>
          rw [hpc] at hpoint
          obtain ⟨ho, r, hr⟩ := hpoint
          refine ⟨ho, kept a ?_ r hr⟩
          rintro rfl
          exact hmade o hpc
      | dropFork a =>
          rw [hpc] at hpoint
          show a ∈ m₁.forks
          rwa [hoff.forks]
      | dtor a k =>
          rw [hpc] at hpoint
          obtain ⟨hk, hnot, r, hr, hdead⟩ := hpoint
          have hoffList : a ∉ m.records := fun hmem =>
            absurd (h.linked.tidy.positive a hmem r hr) (by omega)
          exact ⟨hk, by rw [hoff.forks]; exact hnot, r, by rw [hoff.other a hoffList, hr], hdead⟩
      | _ =>
          rw [hpc] at hpoint
          exact hpoint

/-- **One event** keeps the invariant. -/
theorem Owned.step (h : Owned m) {e : Event} (he : e.OfFork) (hen : e.Enabled m)
    (hspares : Spares m e) (hret : e.exec m = .ret () m') : Owned m' := by
  have hlinked := h.linked.exec hen (h.undisturbed hspares) hret
  have hpoint := h.point
  cases e with
  | newFork kill reason =>
      cases hret
      refine h.same hlinked rfl (fun a _ => live_update rfl a) rfl
  | dropFork a =>
      cases hret
      exact ⟨hlinked, h.live, h.nodup, hen.2⟩
  | is_child a =>
      obtain rfl := exec_looks (.inl rfl) hret
      exact h
  | is_parent a =>
      obtain rfl := exec_looks (.inr (.inl rfl)) hret
      exact h
  | process_id a =>
      obtain rfl := exec_looks (.inr (.inr rfl)) hret
      exact h
  | dies pid =>
      cases hret
      exact ⟨hlinked, h.live, h.nodup, h.point⟩
  | sigchld =>
      cases hret
      exact ⟨hlinked, h.live, h.nodup, h.point⟩
  | go ret =>
      obtain ⟨p, m₁, hgoes, rfl⟩ := exec_go h.linked.tidy.listed hen.2 hret
      exact h.go hgoes hspares rfl
  | handle ret =>
      obtain ⟨hd, hhd, -⟩ := hen
      obtain ⟨h', m₁, hreaps, hexec⟩ := exec_handle h.linked.tidy.listed hhd ret
      rw [hexec] at hret
      cases hret
      exact h.handle hhd hreaps hspares rfl
  | _ => exact he.elim

/-- **Records outlive their `Fork`.**  In every run in which `reaper_nohang` and the children spare
the records of `Fork` objects, each `Fork` has its record in every state, and no step, one that does
not spare them included, uses or deletes a record that has been deleted. -/
theorem forks_live {m₀ : Process} (hm₀ : m₀.Fresh) {es : List Event}
    (hrun : Run (fun _ m e => e.OfFork ∧ Spares m e) m₀ es m) :
    (∀ a ∈ m.forks, ∃ r, m.heap a = some r) ∧
    ∀ e : Event, e.OfFork → e.Enabled m → ∃ m', e.exec m = .ret () m' := by
  have howned : Owned m := by
    induction hrun with
    | start => exact hm₀.owned
    | step _ hen hmeets hret ih => exact ih.step hmeets.1 hen hmeets.2 hret
  exact ⟨howned.live, fun e he hen => howned.exec he hen⟩

/-- A process with no records and no children. -/
def blank : Process where
  heap    := fun _ => none
  fresh   := 0
  list    := none
  forks   := []
  objects := []
  pc      := .idle
  handler := none
  blocked := false
  running := []
  zombies := []
  pending := false
  sigchld := false
  sigterm := false
  kills   := []
  cerr    := []

theorem blank_fresh : blank.Fresh :=
  ⟨fun _ => rfl, rfl, rfl, rfl, ⟨rfl, rfl⟩, rfl, rfl, List.nodup_nil, nofun⟩

/-- A `Fork` in the parent of a child with the pid 5. -/
def forked : List Event := [.newFork false false, .go 0, .go 5, .go 0, .go 0, .go 0]

/-- A second `Fork`, whose child gets the pid 6; the first goes out of scope before its child exits and is
reaped, while the second one constructs a third, whose `fork` fails, and is asked. -/
def forkedTwice : List Event := forked ++ [.newFork true true, .go 0, .go 6, .go 0, .go 0, .go 0,
  .dropFork 0, .go 0, .dies 5, .newFork false false, .sigchld, .handle 5, .handle 0, .go 0, .go (-1),
  .go 0, .is_child 1, .dropFork 2, .go 0, .go 0]

theorem forks_live_forked :
    ∃ m, Run (fun _ m e => e.OfFork ∧ Spares m e) blank forkedTwice m ∧ m.forks = [1] ∧
      m.heap 0 = none ∧ (∃ r, m.heap 1 = some r) ∧ ∃ m', (Event.process_id 1).exec m = .ret () m' := by
  have hc : check (fun _ m e => e.OfFork ∧ Spares m e) [] forkedTwice blank = some _ := rfl
  have hrun := Run.of_check .start hc
  have hlive := forks_live blank_fresh hrun
  exact ⟨_, hrun, rfl, rfl, hlive.1 1 (List.mem_singleton_self 1),
    hlive.2 _ trivial ⟨⟨rfl, rfl⟩, List.mem_singleton_self 1⟩⟩

/-- **A child that exits first.**  It is reaped, and its record deleted, while its `Fork` exists. -/
theorem is_child_freed :
    ∃ m, Run (fun _ _ e => e.OfFork) blank (forked ++ [.dies 5, .sigchld, .handle 5, .handle 0]) m ∧
      (Event.is_child 0).Enabled m ∧ (Event.is_child 0).exec m = .thrown .freed m := by
  have hf : follow (forked ++ [.dies 5, .sigchld, .handle 5, .handle 0]) blank = some _ := rfl
  refine ⟨_, Run.of_follow hf ?_, ⟨⟨rfl, rfl⟩, List.mem_singleton_self 0⟩, rfl⟩
  simp [forked, Event.OfFork]

end Fork

end Socketpp
