import Socketpp.Fork.Lifetime

/-!
# Fork — reaping

A SIGCHLD that is raised while one is pending is lost, and `reaper_nohang` waits for one child each
time it runs.  So it misses a child for each signal that is lost, and no others: in a quiet state
every child that has exited is reaped exactly when no child has exited while a SIGCHLD was pending
(`reaped_iff`).
-/

namespace Socketpp
open Lib

namespace Fork

variable {m m' m₀ m₁ m₂ : Process} {es : List Event} {e : Event} {p : Int}
  {C D : List Event → Process → Event → Prop}

/-! ### Runs -/

/-- The last step of a run. -/
theorem Run.concat_inv (h : Run C m₀ (es ++ [e]) m') :
    ∃ m, Run C m₀ es m ∧ e.Enabled m ∧ C es m e ∧ e.exec m = .ret () m' := by
  generalize hl : es ++ [e] = l at h
  cases h with
  | start => simp at hl
  | step run enabled meets ret =>
      obtain ⟨rfl, he⟩ := List.append_inj' hl rfl
      cases he
      exact ⟨_, run, enabled, meets, ret⟩

/-- The events decide where a run leads to. -/
theorem Run.unique (h : Run C m₀ es m₁) : Run D m₀ es m₂ → m₁ = m₂ := by
  induction h generalizing m₂ with
  | start =>
      intro h
      generalize hl : ([] : List Event) = l at h
      cases h with
      | start => rfl
      | step => simp at hl
  | step _ _ _ ret ih =>
      intro h
      obtain ⟨m, hrun, -, -, hret⟩ := h.concat_inv
      obtain rfl := ih hrun
      rw [ret] at hret
      cases hret
      rfl

/-- One run after another, where the condition does not look back. -/
theorem Run.trans {D : Process → Event → Prop} {es' : List Event}
    (h : Run (fun _ m e => D m e) m₀ es m) (h' : Run (fun _ m e => D m e) m es' m') :
    Run (fun _ m e => D m e) m₀ (es ++ es') m' := by
  induction h' with
  | start => rwa [List.append_nil]
  | step _ hen hmeets hret ih =>
      rw [← List.append_assoc]
      exact .step ih hen hmeets hret

theorem Run.mono (h : Run C m₀ es m) (hCD : ∀ l m e, C l m e → D l m e) : Run D m₀ es m := by
  induction h with
  | start => exact .start
  | step _ hen hmeets hret ih => exact .step ih hen (hCD _ _ _ hmeets) hret

/-! ### Children that live -/

/-- Children die, SIGCHLD is delivered, and the handler runs. -/
def Event.OfReaping : Event → Prop
  | .dies _ | .sigchld | .handle _ => True
  | _                              => False

/-- The child that the handler has waited for, and whose record it has still to remove. -/
def Handler.hand : Option Handler → List Int
  | some (.remove wpid)    => [wpid]
  | some .waitpid | none => []

/-- No signal is pending, and the handler does not run. -/
def Process.Quiet (m : Process) : Prop := m.pending = false ∧ m.handler = none

/-- The process has children, all of them alive and on the list, and nothing else is going on. -/
structure Fleet (m : Process) : Prop where
  linked    : Linked m
  idle      : m.pc = .idle
  quiet     : m.Quiet
  blocked   : m.blocked = false
  installed : m.running ≠ [] → m.sigchld = true
  zombies   : m.zombies = []
  nodup     : m.running.Nodup
  pids      : (m.records.map m.pid).Perm (m.running.map some)

/-- Every child of `m₀` that has exited since has been waited for, and its record is not on the
list. -/
def Reaped (m₀ m : Process) : Prop :=
  ∀ p ∈ m₀.running, p ∉ m.running → p ∉ m.zombies ∧ ∀ a ∈ m.records, m.pid a ≠ some p

/-- **The invariant**: the records on the list are those of the children still to be reaped. -/
structure Following (m₀ m : Process) : Prop where
  linked    : Linked m
  idle      : m.pc = .idle
  blocked   : m.blocked = m.handler.isSome
  installed : m.running ≠ [] → m.sigchld = true
  nodup     : (m.running ++ m.zombies ++ Handler.hand m.handler).Nodup
  pids      : (m.records.map m.pid).Perm
    ((m.running ++ m.zombies ++ Handler.hand m.handler).map some)
  old       : ∀ p ∈ m.running ++ m.zombies, p ∈ m₀.running

theorem Fleet.following (h : Fleet m) : Following m m := by
  refine ⟨h.linked, h.idle, ?_, h.installed, ?_, ?_, ?_⟩
  · rw [h.blocked, h.quiet.2]
    rfl
  · rw [h.zombies, h.quiet.2]
    simpa [Handler.hand] using h.nodup
  · rw [h.zombies, h.quiet.2]
    simpa [Handler.hand] using h.pids
  · rw [h.zombies]
    simp

/-- The pids on the list are positive. -/
theorem Following.positive (h : Following m₀ m)
    (hp : p ∈ m.running ++ m.zombies ++ Handler.hand m.handler) :
    0 < p ∧ ∃ a ∈ m.records, m.pid a = some p := by
  have hmem : some p ∈ m.records.map m.pid := h.pids.mem_iff.mpr (List.mem_map_of_mem hp)
  obtain ⟨a, ha, hpid⟩ := List.mem_map.mp hmem
  obtain ⟨r, hr, rfl⟩ := pid_eq_some.mp hpid
  exact ⟨h.linked.tidy.positive a ha r hr, a, ha, hpid⟩

/-! ### One step -/

/-- A child dies. -/
theorem Following.dies (h : Following m₀ m) (hen : (Event.dies p).Enabled m)
    (hlinked : Linked m') (hm' : m' = { m with
      running := m.running.erase p
      zombies := m.zombies ++ [p]
      pending := m.pending || m.sigchld }) : Following m₀ m' := by
  subst hm'
  have hperm : (m.running.erase p ++ (m.zombies ++ [p])).Perm (m.running ++ m.zombies) := by
    have h₁ : (m.running.erase p ++ (m.zombies ++ [p])).Perm (p :: m.running.erase p ++ m.zombies) := by
      rw [← List.append_assoc]
      exact List.perm_append_singleton p _
    exact h₁.trans ((List.perm_cons_erase hen).symm.append_right _)
  have hall := hperm.append_right (Handler.hand m.handler)
  refine ⟨hlinked, h.idle, h.blocked, fun hne => h.installed ?_, hall.nodup_iff.mpr h.nodup,
    h.pids.trans (hall.symm.map some), fun q hq => h.old q (hperm.mem_iff.mp hq)⟩
  rintro hnil
  exact hne (by simp [hnil])

theorem Following.sigchld (h : Following m₀ m) (hen : Event.sigchld.Enabled m)
    (hlinked : Linked m') (hm' : m' = { m with
      pending := false
      blocked := true
      handler := some .waitpid }) : Following m₀ m' := by
  have hnone : m.handler = none := by
    have := h.blocked
    rw [hen.2.1] at this
    simpa using this.symm
  have hnodup := h.nodup
  have hpids := h.pids
  rw [hnone] at hnodup hpids
  subst hm'
  exact ⟨hlinked, h.idle, rfl, h.installed, hnodup, hpids, h.old⟩

/-- The handler waits for one of the zombies, if there is one. -/
theorem Following.waits (h : Following m₀ m) (hh : m.handler = some .waitpid) {ret : Int}
    (hret : ret ∈ m.zombies) (hlinked : Linked m') (hm' : m' = { m with
      zombies := m.zombies.erase ret
      handler := some (.remove ret)
      blocked := true }) : Following m₀ m' := by
  have hperm : (m.running ++ m.zombies.erase ret ++ [ret]).Perm (m.running ++ m.zombies) := by
    rw [List.append_assoc]
    refine List.Perm.append_left _ ?_
    exact (List.perm_append_singleton ret _).trans (List.perm_cons_erase hret).symm
  have hnodup := h.nodup
  have hpids := h.pids
  rw [hh, Handler.hand, List.append_nil] at hnodup hpids
  subst hm'
  refine ⟨hlinked, h.idle, rfl, h.installed, hperm.nodup_iff.mpr hnodup,
    hpids.trans (hperm.symm.map some), fun q hq => h.old q ?_⟩
  exact hperm.mem_iff.mp (List.mem_append_left _ hq)

theorem Unlinked.pid_eq {v b : Nat} (h : Unlinked m v m') (hb : b ≠ v) : m'.pid b = m.pid b := by
  obtain ⟨q, hq⟩ := h.kept b hb
  rw [Process.pid, Process.pid, hq, Option.map_map]
  rfl

theorem victim_eq_some {wpid : Int} {v : Nat} (h : m.victim wpid = some v) :
    v ∈ m.records ∧ m.pid v = some wpid :=
  ⟨List.mem_of_find?_eq_some h, by simpa using List.find?_some h⟩

/-- The handler removes the record of the child it has waited for. -/
theorem Following.removes (h : Following m₀ m) {wpid : Int} (hh : m.handler = some (.remove wpid))
    {v : Nat} (hv : m.victim wpid = some v) (hoff : Unlinked m v m₁) (hlinked : Linked m')
    (hm' : m' = { m₁ with handler := none, blocked := false }) : Following m₀ m' := by
  obtain ⟨hmem, hpid⟩ := victim_eq_some hv
  have hrec : m'.records = m.records.erase v := by
    rw [hm', ← (hoff.records h.linked.tidy).2]
    exact records_congr rfl rfl rfl
  have hmap : m'.records.map m'.pid = (m.records.erase v).map m.pid := by
    rw [hrec]
    refine List.map_congr_left fun b hb => ?_
    have hne : b ≠ v := (h.linked.tidy.listed.chain.nodup.mem_erase_iff.mp hb).1
    rw [hm']
    exact hoff.pid_eq hne
  have hnodup := h.nodup
  have hpids := h.pids
  rw [hh, Handler.hand] at hnodup hpids
  have hpids' : (m'.records.map m'.pid).Perm ((m.running ++ m.zombies).map some) := by
    -- the pids on both sides are those of before, without the one that is gone
    have h₁ := ((List.perm_cons_erase hmem).map m.pid).symm.trans hpids
    have h₂ := h₁.trans ((List.perm_append_singleton wpid (m.running ++ m.zombies)).map some)
    rw [List.map_cons, List.map_cons, hpid] at h₂
    rw [hmap]
    exact List.Perm.cons_inv h₂
  obtain ⟨_, _, _, hrest⟩ := hoff.rest
  subst hm'
  subst hrest
  refine ⟨hlinked, h.idle, rfl, h.installed, ?_, ?_, h.old⟩
  · rw [Handler.hand, List.append_nil]
    exact (List.nodup_append.mp hnodup).1
  · rw [Handler.hand, List.append_nil]
    exact hpids'

/-- The signals that have been raised and not lost: the handler has still to wait for them. -/
def Process.told (m : Process) : Nat :=
  (if m.pending = true then 1 else 0) + if m.handler = some .waitpid then 1 else 0

/-- No child dies while a SIGCHLD is pending. -/
def Timely (m : Process) (e : Event) : Prop := ∀ p, e = .dies p → m.pending = false

/-- `m'` has `k` zombies more than there are signals for, and one more if the step has lost one. -/
def Counts (m : Process) (e : Event) (m' : Process) (k : Nat) : Prop :=
  (Timely m e → m'.zombies.length = k + m'.told) ∧
    (¬ Timely m e → m'.zombies.length = k + 1 + m'.told)

theorem Counts.of_eq {k : Nat} (htimely : Timely m e) (h : m'.zombies.length = k + m'.told) :
    Counts m e m' k := ⟨fun _ => h, fun hnot => absurd htimely hnot⟩

/-- **One step.** -/
theorem Following.step (h : Following m₀ m) (he : e.OfReaping) (hen : e.Enabled m)
    (hret : e.exec m = .ret () m') {k : Nat} (hk : m.zombies.length = k + m.told) :
    Following m₀ m' ∧ Counts m e m' k := by
  have hcalm : Undisturbed m e := by
    cases e with
    | handle ret =>
        intro wpid v _ _
        rw [h.idle]
        exact ⟨nofun, nofun⟩
    | _ => trivial
  have hlinked := h.linked.exec hen hcalm hret
  cases e with
  | dies p =>
      cases hret
      refine ⟨h.dies hen hlinked rfl, ?_⟩
      have hsig : m.sigchld = true := h.installed (List.ne_nil_of_mem hen)
      cases hp : m.pending with
      | false =>
          refine .of_eq (fun _ _ => hp) ?_
          simp only [Process.told, hp, hsig, Bool.false_eq_true, if_false, Bool.or_true,
            if_true, List.length_append, List.length_singleton] at hk ⊢
          omega
      | true =>
          refine ⟨fun ht => absurd (ht p rfl) (by simp [hp]), fun _ => ?_⟩
          simp only [Process.told, hp, hsig, Bool.or_true, if_true, List.length_append,
            List.length_singleton] at hk ⊢
          omega
  | sigchld =>
      cases hret
      refine ⟨h.sigchld hen hlinked rfl, .of_eq nofun ?_⟩
      have hnone : m.handler = none := by
        have := h.blocked
        rw [hen.2.1] at this
        simpa using this.symm
      simpa [Process.told, hen.1, hnone] using hk
  | handle ret =>
      obtain ⟨hd, hhd, hallows⟩ := hen
      obtain ⟨h', m₁, hreaps, hexec⟩ := exec_handle h.linked.tidy.listed hhd ret
      rw [hexec] at hret
      cases hret
      cases hreaps with
      | waited hpos =>
          have hz : ret ∈ m.zombies := hallows.resolve_right fun hle => by omega
          refine ⟨h.waits hhd hz hlinked rfl, .of_eq nofun ?_⟩
          have hlen := List.length_erase_add_one hz
          simp only [Process.told, hhd, if_true] at hk ⊢
          simp only [Option.some.injEq, reduceCtorEq, if_false]
          omega
      | no_zombie hle =>
          -- there is a zombie for the signal that has called the handler
          have hz : ret ∈ m.zombies := by
            refine hallows.resolve_right fun hnil => ?_
            rw [hnil.2] at hk
            simp only [Process.told, hhd, if_true, List.length_nil] at hk
            omega
          have := (h.positive (List.mem_append_left _ (List.mem_append_right _ hz))).1
          omega
      | @remove wpid v m₁ hv hoff =>
          refine ⟨h.removes hhd hv hoff hlinked rfl, .of_eq nofun ?_⟩
          obtain ⟨_, _, _, hrest⟩ := hoff.rest
          rw [hrest]
          simpa [Process.told, hhd] using hk
      | @stranger wpid hnone =>
          have hmem : wpid ∈ m.running ++ m.zombies ++ Handler.hand m.handler := by
            rw [hhd]
            simp [Handler.hand]
          obtain ⟨-, a, ha, hpid⟩ := h.positive hmem
          have := List.find?_eq_none.mp hnone a ha
          simp [hpid] at this
  | _ => exact he.elim

/-- **A run**: the zombies there is no signal for are none exactly when no signal has been lost. -/
theorem Following.run (hm₀ : Fleet m₀) (hrun : Run (fun _ _ e => e.OfReaping) m₀ es m) :
    Following m₀ m ∧ ∃ k, m.zombies.length = k + m.told ∧
      (k = 0 ↔ Run (fun _ m e => e.OfReaping ∧ Timely m e) m₀ es m) := by
  induction hrun with
  | start =>
      refine ⟨hm₀.following, 0, ?_, iff_of_true rfl .start⟩
      simp [Process.told, hm₀.zombies, hm₀.quiet.1, hm₀.quiet.2]
  | @step es m m' e hrun hen he hret ih =>
      obtain ⟨hfol, k, hk, hiff⟩ := ih
      obtain ⟨hfol', hcounts⟩ := hfol.step he hen hret hk
      refine ⟨hfol', ?_⟩
      by_cases ht : Timely m e
      · refine ⟨k, hcounts.1 ht, hiff.trans ⟨fun hrun' => .step hrun' hen ⟨he, ht⟩ hret, ?_⟩⟩
        intro hrun'
        obtain ⟨m₁, hrun₁, -, -, -⟩ := hrun'.concat_inv
        rwa [hrun.unique hrun₁]
      · refine ⟨k + 1, hcounts.2 ht, iff_of_false (by omega) fun hrun' => ht ?_⟩
        obtain ⟨m₁, hrun₁, -, hmeets, -⟩ := hrun'.concat_inv
        rw [hrun.unique hrun₁]
        exact hmeets.2

/-- **No zombies are left** in a quiet state exactly when no child has died while a SIGCHLD was
pending. -/
theorem reaped_iff (hm₀ : Fleet m₀) (hrun : Run (fun _ _ e => e.OfReaping) m₀ es m)
    (hquiet : m.Quiet) :
    Reaped m₀ m ↔ Run (fun _ m e => e.OfReaping ∧ Timely m e) m₀ es m := by
  obtain ⟨hfol, k, hk, hiff⟩ := Following.run hm₀ hrun
  have hnodup := hfol.nodup
  have hpids := hfol.pids
  rw [Process.told, hquiet.1, hquiet.2] at hk
  rw [hquiet.2, Handler.hand, List.append_nil] at hnodup hpids
  have hlen : m.zombies.length = k := by simpa using hk
  rw [← hiff, ← hlen, List.length_eq_zero_iff]
  constructor
  · intro hreaped
    refine List.eq_nil_iff_forall_not_mem.mpr fun p hp => ?_
    have hnot : p ∉ m.running := fun hmem => (List.nodup_append.mp hnodup).2.2 p hmem p hp rfl
    exact (hreaped p (hfol.old p (List.mem_append_right _ hp)) hnot).1 hp
  · intro hnil p _ hp
    rw [hnil, List.append_nil] at hpids
    refine ⟨by simp [hnil], fun a ha hpid => hp ?_⟩
    have hmem := hpids.mem_iff.mp (List.mem_map.mpr ⟨a, ha, hpid⟩)
    simpa using hmem

/-! ### Fleets -/

/-- The state after `Fork (kill, reason)` in a parent whose child gets the given pid. -/
def Process.forked (m : Process) (kill reason : Bool) (pid : Int) : Process :=
  { m with
    heap    := Function.update m.heap m.fresh (some ⟨pid, kill, reason, m.list⟩)
    fresh   := m.fresh + 1
    list    := some m.fresh
    forks   := m.fresh :: m.forks
    sigchld := m.sigchld || decide (m.list = none)
    running := pid :: m.running }

theorem follow_fork (hm : m.Idle) (kill reason : Bool) {pid : Int} (hpos : 0 < pid)
    (hnew : pid ∉ m.children) :
    follow [.newFork kill reason, .go 0, .go pid, .go 0, .go 0, .go 0] m =
      some (m.forked kill reason pid) := by
  obtain ⟨hpc, hh⟩ := hm
  have hnew' : pid ∉ m.running ++ m.zombies := hnew
  by_cases hl : m.list = none
  · simp [follow, Event.Enabled, Process.Idle, hpc, hh, Event.exec, Fork.new, Point.Allows, Point.run,
      ctorInstall, ctorFork, ctorNext, ctorLink, ctorMade, load, store, Process.children, hpos, hnew',
      hl, Process.forked]
  · simp [follow, Event.Enabled, Process.Idle, hpc, hh, Event.exec, Fork.new, Point.Allows, Point.run,
      ctorInstall, ctorFork, ctorNext, ctorLink, ctorMade, load, store, Process.children, hpos, hnew',
      hl, Process.forked]

/-- One more child. -/
theorem Fleet.fork (h : Fleet m) (kill reason : Bool) {pid : Int} (hpos : 0 < pid)
    (hnew : pid ∉ m.running) : Fleet (m.forked kill reason pid) := by
  have hold : ∀ b ∈ m.records, b < m.fresh := fun b hb => (h.linked.tidy.knows hb).1
  have hfresh : m.fresh ∉ m.records := fun hmem => Nat.lt_irrefl _ (hold _ hmem)
  -- the new record is in front of the others, whose links and pids stay
  have hheap : ∀ b, b ≠ m.fresh → (m.forked kill reason pid).heap b = m.heap b := fun b hne =>
    Function.update_of_ne hne ..
  have hhere : (m.forked kill reason pid).heap m.fresh = some ⟨pid, kill, reason, m.list⟩ :=
    Function.update_self ..
  have hbelow : ∀ b q, (m.forked kill reason pid).heap b = some q → b < m.fresh + 1 := by
    intro b q hq
    rcases eq_or_ne b m.fresh with rfl | hne
    · exact Nat.lt_succ_self _
    · rw [hheap b hne] at hq
      exact Nat.lt_succ_of_lt (h.linked.tidy.listed.below b q hq)
  obtain ⟨htidy, hrec⟩ := h.linked.tidy.pushed hold hhere hpos rfl
    (fun b hb => hheap b (Nat.ne_of_lt (hold b hb))) hbelow rfl
  have knows : ∀ {b}, m.Knows b → (m.forked kill reason pid).Knows b := fun hb => by
    refine ⟨Nat.lt_succ_of_lt hb.1, fun r hr hpos => ?_⟩
    rw [hheap _ (Nat.ne_of_lt hb.1)] at hr
    rw [hrec]
    exact List.mem_cons_of_mem _ (hb.2 r hr hpos)
  have hlinked : Linked (m.forked kill reason pid) := by
    have hpc : (m.forked kill reason pid).pc = .idle := h.idle
    refine ⟨htidy, ?_, by rw [hpc]; nofun, by rw [hpc]; trivial⟩
    rintro b (hb | hb | hb)
    · rcases List.mem_cons.mp hb with rfl | hb
      · exact htidy.knows (by rw [hrec]; exact List.mem_cons_self)
      · exact knows (h.linked.known b (.inl hb))
    · exact knows (h.linked.known b (.inr (.inl hb)))
    · rw [hpc] at hb
      cases hb
  have hmap : (m.forked kill reason pid).records.map (m.forked kill reason pid).pid =
      some pid :: m.records.map m.pid := by
    rw [hrec, List.map_cons]
    congr 1
    · simp [Process.pid, Process.forked]
    · refine List.map_congr_left fun b hb => ?_
      have hne : b ≠ m.fresh := fun h => hfresh (h ▸ hb)
      simp [Process.pid, Process.forked, hne]
  refine ⟨hlinked, h.idle, h.quiet, h.blocked, fun _ => ?_, h.zombies,
    List.nodup_cons.mpr ⟨hnew, h.nodup⟩, ?_⟩
  · -- the first `Fork` installs the handler
    cases hl : m.list with
    | none => simp [Process.forked, hl]
    | some a =>
        have hmem := List.mem_map_of_mem (f := m.pid) (h.linked.tidy.list_mem hl)
        obtain ⟨q, hq, -⟩ := List.mem_map.mp (h.pids.mem_iff.mp hmem)
        simp [Process.forked, h.installed (List.ne_nil_of_mem hq)]
  · rw [hmap]
    exact h.pids.cons (some pid)

theorem blank_fleet : Fleet blank where
  linked    := blank_fresh.linked
  idle      := rfl
  quiet     := ⟨rfl, rfl⟩
  blocked   := rfl
  installed := fun h => absurd rfl h
  zombies   := rfl
  nodup     := List.nodup_nil
  pids      := List.Perm.refl []

/-- **Every fleet can be built**, of children with any pids. -/
theorem fleet_of_pids : ∀ pids : List Int, pids.Nodup → (∀ p ∈ pids, 0 < p) →
    ∃ es m, Run (fun _ _ e => e.OfFork) blank es m ∧ Fleet m ∧ m.running = pids := by
  intro pids
  induction pids with
  | nil =>
      intro _ _
      exact ⟨[], blank, .start, blank_fleet, rfl⟩
  | cons pid pids ih =>
      intro hnodup hpos
      obtain ⟨es, m, hrun, hfleet, hpids⟩ := ih (List.nodup_cons.mp hnodup).2
        fun p hp => hpos p (List.mem_cons_of_mem _ hp)
      have hnew : pid ∉ m.running := hpids ▸ (List.nodup_cons.mp hnodup).1
      have hchildren : pid ∉ m.children := by
        rw [Process.children, hfleet.zombies, List.append_nil]
        exact hnew
      refine ⟨_, _, hrun.append (follow_fork ⟨hfleet.idle, hfleet.quiet.2⟩ false false
        (hpos pid List.mem_cons_self) hchildren) ?_,
        hfleet.fork false false (hpos pid List.mem_cons_self) hnew, ?_⟩
      · simp [Event.OfFork]
      · rw [← hpids]
        rfl

theorem Following.fleet (h : Following m₀ m) (hquiet : m.Quiet) (hz : m.zombies = []) : Fleet m := by
  have hnodup := h.nodup
  have hpids := h.pids
  rw [hquiet.2, hz, Handler.hand, List.append_nil, List.append_nil] at hnodup hpids
  refine ⟨h.linked, h.idle, hquiet, ?_, h.installed, hz, hnodup, hpids⟩
  rw [h.blocked, hquiet.2]
  rfl

/-- A child exits, and is reaped before anything else happens. -/
theorem Fleet.reap (h : Fleet m) (hp : p ∈ m.running) :
    ∃ m', Run (fun _ m e => e.OfReaping ∧ Timely m e) m [.dies p, .sigchld, .handle p, .handle 0] m' ∧
      Fleet m' ∧ m'.running = m.running.erase p := by
  have hpos : 0 < p :=
    (h.following.positive (List.mem_append_left _ (List.mem_append_left _ hp))).1
  have hsig : m.sigchld = true := h.installed (List.ne_nil_of_mem hp)
  have hfol : ∀ {es m'}, Run (fun _ m e => e.OfReaping ∧ Timely m e) m es m' → Following m m' :=
    fun hrun => (Following.run h (hrun.mono fun _ _ _ h => h.1)).1
  have h₁ : Run (fun _ m e => e.OfReaping ∧ Timely m e) m ([] ++ [.dies p]) _ :=
    .step .start hp ⟨trivial, fun _ _ => h.quiet.1⟩ rfl
  have h₂ := Run.step (e := .sigchld) h₁ ⟨by simp [hsig], h.blocked, hsig, by simp [h.idle]⟩
    ⟨trivial, nofun⟩ rfl
  obtain ⟨h', m₃, hreaps, hexec⟩ := exec_handle (hfol h₂).linked.tidy.listed rfl p
  cases hreaps with
  | no_zombie hle => omega
  | waited =>
      have h₃ := Run.step (e := .handle p) h₂
        ⟨_, rfl, .inl (List.mem_append_right _ (List.mem_singleton_self p))⟩ ⟨trivial, nofun⟩ hexec
      have hz : (m.zombies ++ [p]).erase p = [] := by simp [h.zombies]
      obtain ⟨h', m₄, hreaps, hexec⟩ := exec_handle (hfol h₃).linked.tidy.listed rfl 0
      have h₄ := Run.step (e := .handle 0) h₃ ⟨_, rfl, trivial⟩ ⟨trivial, nofun⟩ hexec
      cases hreaps with
      | stranger => exact ⟨_, h₄, (hfol h₄).fleet ⟨rfl, rfl⟩ hz, rfl⟩
      | remove hv hoff =>
          obtain ⟨_, _, _, rfl⟩ := hoff.rest
          exact ⟨_, h₄, (hfol h₄).fleet ⟨rfl, rfl⟩ hz, rfl⟩

/-- The exits of the children, each reaped before the next. -/
def exits (pids : List Int) : List Event := pids.flatMap fun p => [.dies p, .sigchld, .handle p, .handle 0]

/-- A fleet whose children exit one by one. -/
theorem Fleet.reap_all : ∀ {pids : List Int} {m : Process}, Fleet m → m.running = pids →
    ∃ m', Run (fun _ m e => e.OfReaping ∧ Timely m e) m (exits pids) m' ∧ Fleet m' ∧ m'.running = [] := by
  intro pids
  induction pids with
  | nil => exact fun h hpids => ⟨_, .start, h, hpids⟩
  | cons p pids ih =>
      intro m h hpids
      obtain ⟨m₁, hrun, hfleet, hrest⟩ := h.reap (p := p) (hpids ▸ List.mem_cons_self)
      rw [hpids, List.erase_cons_head] at hrest
      obtain ⟨m', hrun', hfleet', hnil⟩ := ih hfleet hrest
      exact ⟨m', hrun.trans hrun', hfleet', hnil⟩

theorem reaped_iff_three : ∃ m₀ m, Fleet m₀ ∧ m₀.running = [5, 6, 7] ∧
    Run (fun _ _ e => e.OfReaping) m₀ (exits [5, 6, 7]) m ∧ m.running = [] ∧ Reaped m₀ m := by
  obtain ⟨es, m₀, -, hfleet, hpids⟩ := fleet_of_pids [5, 6, 7] (by decide) (by decide)
  obtain ⟨m, hrun, hfleet', hnil⟩ := hfleet.reap_all hpids
  have hrun' : Run (fun _ _ e => e.OfReaping) m₀ (exits [5, 6, 7]) m := hrun.mono fun _ _ _ h => h.1
  exact ⟨m₀, m, hfleet, hpids, hrun', hnil, (reaped_iff hfleet hrun' hfleet'.quiet).mpr hrun⟩

/-- **Two children exit at once.**  The second SIGCHLD is lost, and with it the second child. -/
theorem zombie_left : ∃ m₀ es m, Fleet m₀ ∧ Run (fun _ _ e => e.OfReaping) m₀ es m ∧ m.Quiet ∧
    ¬ Reaped m₀ m := by
  have hone : Fleet (blank.forked false false 5) := blank_fleet.fork false false (by decide) nofun
  have htwo : Fleet ((blank.forked false false 5).forked false false 6) :=
    hone.fork false false (by decide) (by decide)
  have hf : follow [.dies 5, .dies 6, .sigchld, .handle 5, .handle 0]
    ((blank.forked false false 5).forked false false 6) = some _ := rfl
  refine ⟨_, _, _, htwo, Run.of_follow hf (by simp [Event.OfReaping]), ⟨rfl, rfl⟩, fun h => ?_⟩
  exact (h 6 (by decide) (by decide)).1 (by decide)

end Fork

end Socketpp
