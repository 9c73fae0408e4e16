import Mathlib.Data.List.Induction
import Socketpp.Fork.Kills

/-!
# Fork — the end of the process

`~KillForks` deletes the records whose `kill_child` flag is set, and then waits for the other
children.  To delete a record is to leave the link of freed memory to the loop, which reads it; so
the destructor does what it is for if no flag is set, and only then (`killForks_ends_iff`).  The
sibling loop of `commit_suicide` reads the link first.

Children die and `reaper_nohang` runs while the destructor does; a record that the handler deletes
under the loop would leave it in freed memory as well, and the runs here are those without
(`Spared`).
-/

namespace Socketpp
open Lib

namespace Fork

variable {m m' m₀ m₁ : Process} {es : List Event} {e : Event} {a c : Nat} {p ret : Int}

/-! ### What the destructor is for -/

/-- The destructor begins, and the children of all records on the list are running. -/
structure Leaving (m : Process) : Prop where
  tidy     : Tidy m
  pc       : m.pc = .killForks m.list
  handler  : m.handler = none
  nodup    : m.children.Nodup
  positive : ∀ p ∈ m.children, 0 < p
  running  : ∀ a ∈ m.records, ∀ p, m.pid a = some p → p ∈ m.running

/-- What happens until the process has ended. -/
def Event.OfExit : Event → Prop
  | .dies _ | .sigchld | .go _ | .handle _ => True
  | _                                      => False

/-- The handler deletes no record that the destructor has taken from the list and still uses. -/
def Spared (m : Process) : Event → Prop
  | .handle _ => ∀ wpid v, m.handler = some (.remove wpid) → m.victim wpid = some v →
      v ∉ m.pc.walks
  | _         => True

/-- The child with this pid has a record whose `kill_child` flag is set. -/
def Process.Flagged (m : Process) (p : Int) : Prop :=
  ∃ a ∈ m.records, m.pid a = some p ∧ ¬ m.Mild a

/-- What holds on the way from `m₀`, where the destructor begins, to its end. -/
structure Clean (m₀ m : Process) : Prop where
  /-- no link is read of a record that has been deleted -/
  safe   : ∀ e : Event, e.OfExit → e.Enabled m → ∃ m', e.exec m = .ret () m'
  /-- SIGTERM for the flagged children, which have all got it and been waited for when the first
  loop ends -/
  kills  : ∃ sent, m.kills = m₀.kills ++ sent ∧ (sent.map Kill.pid).Nodup ∧
    (∀ k ∈ sent, k.signo = .sigterm ∧ m₀.Flagged k.pid) ∧
    (m.pc = .waitAll ∨ m.pc = .wait ∨ m.pc = .exited →
      ∀ p, m₀.Flagged p → p ∈ sent.map Kill.pid ∧ p ∉ m.children)
  /-- at the end all children of the list have been waited for -/
  waited : m.pc = .exited → ∀ a ∈ m₀.records, ∀ p, m₀.pid a = some p → p ∉ m.children
  /-- it goes on until it ends -/
  ends   : (∀ e : Event, e.OfExit → ¬ e.Enabled m) → m.pc = .exited

/-- **What the destructor is for**: every run is as it should be, and has an end. -/
def Ends (m₀ : Process) : Prop :=
  (∀ es m, Run (fun _ m e => e.OfExit ∧ Spared m e) m₀ es m → Clean m₀ m) ∧
    ∃ n, ∀ es m, Run (fun _ m e => e.OfExit ∧ Spared m e) m₀ es m → es.length ≤ n

/-! ### Where no flag is set -/

/-- Where the destructor can stand, if it deletes nothing. -/
def Point.Passes (m : Process) : Point → Prop
  | .killForks cur => ∀ a ∈ cur, a ∈ m.records
  | .killNext cur  => cur ∈ m.records
  | .waitAll | .wait | .exited => True
  | _              => False

/-- **The invariant**: what has left the list has been waited for. -/
structure Waiting (m₀ m : Process) : Prop where
  tidy     : Tidy m
  nodup    : m.children.Nodup
  positive : ∀ p ∈ m.children, 0 < p
  kept     : ∀ a ∈ m.records, m.pid a = m₀.pid a ∧ m.Mild a
  gone     : ∀ a ∈ m₀.records, a ∈ m.records ∨ ∀ p, m₀.pid a = some p → p ∉ m.children
  hand     : ∀ p, m.handler = some (.remove p) → p ∉ m.children
  kills    : m.kills = m₀.kills
  point    : m.pc.Passes m
  waited   : m.pc = .exited → ∀ a ∈ m₀.records, ∀ p, m₀.pid a = some p → p ∉ m.children

theorem Leaving.waiting (h : Leaving m) (hmild : ∀ a ∈ m.records, m.Mild a) : Waiting m m := by
  refine ⟨h.tidy, h.nodup, h.positive, fun a ha => ⟨rfl, hmild a ha⟩, fun a ha => .inl ha, ?_, rfl,
    ?_, ?_⟩
  · rw [h.handler]
    nofun
  · rw [h.pc]
    exact fun a ha => h.tidy.list_mem ha
  · rw [h.pc]
    nofun

/-- A bound for the steps that are left. -/
def Point.left : Point → Nat
  | .killForks (some cur) => 2 * cur + 5
  | .killForks none       => 3
  | .killNext cur         => 2 * cur + 4
  | .waitAll              => 2
  | .wait                 => 1
  | _                     => 0

def Handler.left : Option Handler → Nat
  | some .waitpid    => 2
  | some (.remove _) => 1
  | none             => 0

def Process.left (m : Process) : Nat :=
  7 * m.running.length + 2 * m.zombies.length + (if m.pending = true then 3 else 0) +
    Handler.left m.handler + m.pc.left

/-- A step that leaves the memory as it is. -/
theorem Waiting.same (h : Waiting m₀ m) (hheap : m'.heap = m.heap) (hfresh : m'.fresh = m.fresh)
    (hlist : m'.list = m.list) (hkills : m'.kills = m.kills)
    (hchildren : m'.children.Nodup ∧ ∀ p ∈ m'.children, p ∈ m.children)
    (hhand : ∀ p, m'.handler = some (.remove p) → p ∉ m'.children)
    (hpoint : m'.pc.Passes m)
    (hexited : m'.pc = .exited → m.pc = .exited ∨ m.list = none ∨ m.children = []) :
    Waiting m₀ m' := by
  have hrec := records_congr hheap hfresh hlist
  have hpid : m'.pid = m.pid := by
    funext b
    rw [Process.pid, Process.pid, hheap]
  refine ⟨h.tidy.same hheap hfresh hlist, hchildren.1, fun p hp => h.positive p (hchildren.2 p hp),
    ?_, ?_, hhand, hkills.trans h.kills, ?_, ?_⟩
  · rw [hrec, hpid]
    intro a ha
    refine ⟨(h.kept a ha).1, fun r hr => (h.kept a ha).2 r ?_⟩
    rw [← hheap]
    exact hr
  · rw [hrec]
    exact fun a ha => (h.gone a ha).imp_right fun hp p hpid hmem => hp p hpid (hchildren.2 p hmem)
  · cases hpc : m'.pc with
    | killForks cur =>
        rw [hpc] at hpoint
        rw [Point.Passes, hrec]
        exact hpoint
    | killNext cur =>
        rw [hpc] at hpoint
        rw [Point.Passes, hrec]
        exact hpoint
    | waitAll => trivial
    | wait => trivial
    | exited => trivial
    | _ => rw [hpc] at hpoint; exact hpoint
  · intro hpc a ha p hp hmem
    -- it had ended before, or the list is empty, or the process has no child left
    rcases hexited hpc with hpc | hnone | hnil
    · exact h.waited hpc a ha p hp (hchildren.2 p hmem)
    · have hrec : m.records = [] := by
        have := h.tidy.listed.chain
        rw [hnone] at this
        exact this.nil_inv
      rcases h.gone a ha with hmem' | hgone
      · rw [hrec] at hmem'
        cases hmem'
      · exact hgone p hp (hchildren.2 p hmem)
    · have := hchildren.2 p hmem
      rw [hnil] at this
      cases this

/-- A child has been waited for. -/
theorem Waiting.erase (h : Waiting m₀ m) (q : Int) :
    (m.running ++ m.zombies.erase q).Nodup ∧
      ∀ p ∈ m.running ++ m.zombies.erase q, p ∈ m.children ∧ (q ∈ m.zombies → p ≠ q) := by
  have hsub : (m.running ++ m.zombies.erase q).Sublist m.children :=
    List.Sublist.append_left List.erase_sublist _
  obtain ⟨-, hz, hdisj⟩ := List.nodup_append.mp h.nodup
  refine ⟨h.nodup.sublist hsub, fun p hp => ⟨hsub.subset hp, fun hq => ?_⟩⟩
  rintro rfl
  rcases List.mem_append.mp hp with hp | hp
  · exact hdisj p hp p hq rfl
  · exact (hz.mem_erase_iff.mp hp).1 rfl

theorem Waiting.dies (h : Waiting m₀ m) (hen : (Event.dies p).Enabled m)
    (hret : (Event.dies p).exec m = .ret () m') : Waiting m₀ m' ∧ m'.left < m.left := by
  cases hret
  have hperm : (m.running.erase p ++ (m.zombies ++ [p])).Perm m.children := by
    rw [← List.append_assoc]
    exact (List.perm_append_singleton p _).trans ((List.perm_cons_erase hen).symm.append_right _)
  refine ⟨h.same rfl rfl rfl rfl ⟨hperm.nodup_iff.mpr h.nodup, fun q => hperm.mem_iff.mp⟩
    (fun q hq hmem => h.hand q hq (hperm.mem_iff.mp hmem)) h.point .inl, ?_⟩
  have hlen : (m.running.erase p).length + 1 = m.running.length := by
    rw [List.length_erase_of_mem hen]
    exact Nat.succ_pred_eq_of_pos (List.length_pos_of_mem hen)
  -- a child that dies becomes a zombie, and at most one more SIGCHLD is pending
  have hpending : (if (m.pending || m.sigchld) = true then 3 else 0) ≤ 3 := by
    split <;> omega
  simp only [Process.left, List.length_append, List.length_singleton]
  omega

theorem Waiting.sigchld (h : Waiting m₀ m) (hen : Event.sigchld.Enabled m)
    (hret : Event.sigchld.exec m = .ret () m') : Waiting m₀ m' ∧ m'.left < m.left := by
  cases hret
  refine ⟨h.same rfl rfl rfl rfl ⟨h.nodup, fun _ hp => hp⟩ nofun h.point .inl, ?_⟩
  simp only [Process.left, hen.1, Handler.left, if_true, Bool.false_eq_true, if_false]
  omega

/-- The point stays where it is when a record leaves the list at which it does not stand. -/
theorem Point.Passes.unlinked {pt : Point} {v : Nat} (h : pt.Passes m) (hm : Tidy m)
    (hoff : Unlinked m v m') (hv : v ∉ pt.walks) : pt.Passes m' := by
  cases pt with
  | killForks cur =>
      intro a ha
      refine (hoff.mem_records hm).mpr ⟨?_, h a ha⟩
      rintro rfl
      exact hv (Option.mem_toList.mpr ha)
  | killNext cur =>
      refine (hoff.mem_records hm).mpr ⟨?_, h⟩
      rintro rfl
      exact hv (List.mem_singleton_self _)
  | waitAll => trivial
  | wait => trivial
  | exited => trivial
  | _ => exact h

theorem Waiting.handle (h : Waiting m₀ m) (hen : (Event.handle ret).Enabled m)
    (hspared : Spared m (.handle ret)) (hret : (Event.handle ret).exec m = .ret () m') :
    Waiting m₀ m' ∧ m'.left < m.left := by
  obtain ⟨hd, hhd, hallows⟩ := hen
  obtain ⟨h', m₁, hreaps, hexec⟩ := exec_handle h.tidy.listed hhd ret
  rw [hexec] at hret
  cases hret
  -- a step of the handler that waits for nobody counts down the handler alone
  have hleft : ∀ n, Process.left { m with handler := n } + Handler.left (some hd) =
      m.left + Handler.left n := by
    intro n
    simp only [Process.left, hhd]
    omega
  cases hreaps with
  | waited hpos =>
      have hz : ret ∈ m.zombies := hallows.resolve_right fun h => absurd h.1 (by omega)
      obtain ⟨hnodup, hmem⟩ := h.erase ret
      refine ⟨h.same rfl rfl rfl rfl ⟨hnodup, fun q hq => (hmem q hq).1⟩ ?_ h.point .inl, ?_⟩
      · intro q hq hq'
        cases hq
        exact (hmem ret hq').2 hz rfl
      · have hlen := List.length_erase_of_mem hz
        have hpos := List.length_pos_of_mem hz
        simp only [Process.left, hhd, Handler.left]
        omega
  | no_zombie hle =>
      refine ⟨h.same rfl rfl rfl rfl ⟨h.nodup, fun _ hp => hp⟩ nofun h.point .inl, ?_⟩
      have := hleft none
      simp only [Handler.left, Process.left] at this ⊢
      omega
  | @stranger wpid hnone =>
      refine ⟨h.same rfl rfl rfl rfl ⟨h.nodup, fun _ hp => hp⟩ nofun h.point .inl, ?_⟩
      have := hleft none
      simp only [Handler.left, Process.left] at this ⊢
      omega
  | @remove wpid v m₁ hv hoff =>
      -- the record at `v` leaves the list, and its child has been waited for
      obtain ⟨hmemv, hpidv⟩ := victim_eq_some hv
      have hpoint := h.point.unlinked h.tidy hoff (hspared wpid v hhd hv)
      obtain ⟨heap, list, cerr, rfl⟩ := hoff.rest
      have hrec : ∀ b, b ∈ Process.records { m with heap := heap, list := list, cerr := cerr } ↔
          b ≠ v ∧ b ∈ m.records := fun b => hoff.mem_records h.tidy
      refine ⟨⟨(hoff.tidy h.tidy).same rfl rfl rfl, h.nodup, h.positive, ?_, ?_, nofun, h.kills, ?_,
        h.waited⟩, ?_⟩
      · intro b hb
        obtain ⟨hne, hb⟩ := (hrec b).mp hb
        obtain ⟨q, hq⟩ := hoff.kept b hne
        refine ⟨?_, fun r hr => ?_⟩
        · rw [← (h.kept b hb).1, Process.pid, Process.pid, hq, Option.map_map]
          rfl
        · rw [hq, Option.map_eq_some_iff] at hr
          obtain ⟨r₀, hr₀, rfl⟩ := hr
          exact (h.kept b hb).2 r₀ hr₀
      · intro b hb
        rcases h.gone b hb with hmem | hgone
        · rcases eq_or_ne b v with rfl | hne
          · refine .inr fun q hq => ?_
            rw [← (h.kept b hmemv).1, hpidv] at hq
            cases hq
            exact h.hand wpid hhd
          · exact .inl ((hrec b).mpr ⟨hne, hmem⟩)
        · exact .inr hgone
      · cases hpc : m.pc with
        | killForks cur => rw [hpc] at hpoint; exact hpoint
        | killNext cur => rw [hpc] at hpoint; exact hpoint
        | waitAll => trivial
        | wait => trivial
        | exited => trivial
        | _ => rw [hpc] at hpoint; exact hpoint
      · have := hleft none
        simp only [Handler.left, Process.left] at this ⊢
        omega

/-- **The program goes on** from every point, and nearer to its end. -/
theorem Waiting.go (h : Waiting m₀ m) (hen : (Event.go ret).Enabled m) :
    ∃ m', (Event.go ret).exec m = .ret () m' ∧ Waiting m₀ m' ∧ m'.left < m.left := by
  obtain ⟨hhandler, hallows⟩ := hen
  have hpoint := h.point
  -- a step of the first loop
  have walks : ∀ pt : Point, m.pc.run ret m = .ret pt m → pt.Passes m → pt ≠ .exited →
      pt.left < m.pc.left →
      ∃ m', (Event.go ret).exec m = .ret () m' ∧ Waiting m₀ m' ∧ m'.left < m.left := by
    intro pt hrun hpass hne hlt
    refine ⟨_, exec_go_of_run hrun, h.same rfl rfl rfl rfl ⟨h.nodup, fun _ hp => hp⟩ h.hand hpass
      fun hpc => absurd hpc hne, ?_⟩
    simp only [Process.left]
    omega
  cases hpc : m.pc with
  | killForks cur =>
      rw [hpc] at hpoint walks
      cases cur with
      | none => exact walks .waitAll rfl trivial (by simp) (by decide)
      | some c =>
          have hc := hpoint c rfl
          obtain ⟨r, hr⟩ := h.tidy.listed.heap_of_mem hc
          have hkeep := (h.kept c hc).2 r hr
          refine walks (.killNext c) ?_ hc (by simp) ?_
          · simp [Point.run, killForks, load_of_some hr, hkeep]
          · simp only [Point.left]
            omega
  | killNext c =>
      rw [hpc] at hpoint walks
      obtain ⟨r, hr⟩ := h.tidy.listed.heap_of_mem hpoint
      refine walks (.killForks r.next) ?_ ?_ (by simp) ?_
      · simp [Point.run, killNext, load_of_some hr]
      · exact fun b hb => h.tidy.next_mem hr hpoint hb
      · cases hnext : r.next with
        | none =>
            simp only [Point.left]
            omega
        | some d =>
            have hlt := h.tidy.next_lt hpoint (link_eq_some.mpr ⟨r, hr, hnext⟩)
            simp only [Point.left]
            omega
  | waitAll =>
      by_cases hlist : m.list = none
      · refine ⟨_, exec_go_of_run (p := .exited) (s := m) (by simp [hpc, Point.run, Fork.waitAll, hlist]),
          h.same rfl rfl rfl rfl ⟨h.nodup, fun _ hp => hp⟩ h.hand trivial fun _ => .inr (.inl hlist), ?_⟩
        simp only [Process.left, hpc, Point.left]
        omega
      · rw [hpc] at walks
        exact walks .wait (by simp [Point.run, Fork.waitAll, hlist]) trivial (by simp) (by decide)
  | wait =>
      rw [hpc] at hallows
      rcases hallows with hz | ⟨rfl, hnil⟩
      · have hpos := h.positive ret (List.mem_append_right _ hz)
        obtain ⟨hnodup, hmem⟩ := h.erase ret
        refine ⟨_, exec_go_of_run (p := .waitAll) (s := { m with zombies := m.zombies.erase ret })
          (by simp [hpc, Point.run, Fork.wait, hpos]), h.same rfl rfl rfl rfl
          ⟨hnodup, fun q hq => (hmem q hq).1⟩ (fun q hq => ?_) trivial (by simp), ?_⟩
        · rw [hhandler] at hq
          cases hq
        · have hlen := List.length_erase_of_mem hz
          have hpos := List.length_pos_of_mem hz
          simp only [Process.left, hpc, Point.left]
          omega
      · refine ⟨_, exec_go_of_run (p := .exited) (s := m) (by simp [hpc, Point.run, Fork.wait]),
          h.same rfl rfl rfl rfl ⟨h.nodup, fun _ hp => hp⟩ h.hand trivial fun _ => .inr (.inr hnil), ?_⟩
        simp only [Process.left, hpc, Point.left]
        omega
  | exited => rw [hpc] at hallows; exact hallows.elim
  | _ => rw [hpc] at hpoint; exact hpoint.elim

/-- **One event.** -/
theorem Waiting.exec (h : Waiting m₀ m) (he : e.OfExit) (hen : e.Enabled m) (hspared : Spared m e)
    (hret : e.exec m = .ret () m') : Waiting m₀ m' ∧ m'.left < m.left := by
  cases e with
  | dies p => exact h.dies hen hret
  | sigchld => exact h.sigchld hen hret
  | go ret =>
      obtain ⟨m₁, hexec, hgo⟩ := h.go hen
      rw [hexec] at hret
      cases hret
      exact hgo
  | handle ret => exact h.handle hen hspared hret
  | _ => exact he.elim

/-- While the process has not ended, something can happen. -/
theorem Waiting.enabled (h : Waiting m₀ m) (hpc : m.pc ≠ .exited) :
    ∃ e : Event, e.OfExit ∧ e.Enabled m := by
  cases hh : m.handler with
  | some hd =>
      cases hd with
      | waitpid =>
          cases hz : m.zombies with
          | nil => exact ⟨.handle 0, trivial, .waitpid, hh, .inr ⟨Int.le_refl 0, hz⟩⟩
          | cons p l =>
              exact ⟨.handle p, trivial, .waitpid, hh, .inl (by rw [hz]; exact List.mem_cons_self)⟩
      | remove wpid => exact ⟨.handle 0, trivial, .remove wpid, hh, trivial⟩
  | none =>
      have hpoint := h.point
      cases hp : m.pc with
      | killForks cur => exact ⟨.go 0, trivial, hh, by rw [hp]; trivial⟩
      | killNext cur => exact ⟨.go 0, trivial, hh, by rw [hp]; trivial⟩
      | waitAll => exact ⟨.go 0, trivial, hh, by rw [hp]; trivial⟩
      | wait =>
          cases hz : m.zombies with
          | cons p l =>
              refine ⟨.go p, trivial, hh, ?_⟩
              rw [hp]
              exact .inl (by rw [hz]; exact List.mem_cons_self)
          | nil =>
              cases hr : m.running with
              | nil =>
                  refine ⟨.go (-1), trivial, hh, ?_⟩
                  rw [hp]
                  exact .inr ⟨rfl, by rw [Process.children, hz, hr]; rfl⟩
              | cons p l =>
                  refine ⟨.dies p, trivial, ?_⟩
                  rw [Event.Enabled, hr]
                  exact List.mem_cons_self
      | exited => exact absurd hp hpc
      | _ => rw [hp] at hpoint; exact hpoint.elim

theorem Waiting.clean (h : Waiting m₀ m) (hmild : ∀ a ∈ m₀.records, m₀.Mild a) : Clean m₀ m := by
  have hflagged : ∀ p, ¬ m₀.Flagged p := fun p ⟨a, ha, _, hnot⟩ => hnot (hmild a ha)
  refine ⟨fun e he hen => ?_, ⟨[], ?_, List.nodup_nil, List.forall_mem_nil _,
    fun _ p hp => absurd hp (hflagged p)⟩, h.waited, fun hstuck => ?_⟩
  · cases e with
    | dies p => exact ⟨_, rfl⟩
    | sigchld => exact ⟨_, rfl⟩
    | go ret =>
        obtain ⟨m', hexec, -⟩ := h.go hen
        exact ⟨m', hexec⟩
    | handle ret =>
        obtain ⟨hd, hhd, -⟩ := hen
        obtain ⟨_, _, -, hexec⟩ := exec_handle h.tidy.listed hhd ret
        exact ⟨_, hexec⟩
    | _ => exact he.elim
  · rw [List.append_nil]
    exact h.kills
  · by_contra hne
    obtain ⟨e, he, hen⟩ := h.enabled hne
    exact hstuck e he hen

theorem Leaving.run (h : Leaving m₀) (hmild : ∀ a ∈ m₀.records, m₀.Mild a)
    (hrun : Run (fun _ m e => e.OfExit ∧ Spared m e) m₀ es m) :
    Waiting m₀ m ∧ es.length + m.left ≤ m₀.left := by
  induction hrun with
  | start => exact ⟨h.waiting hmild, by simp⟩
  | step _ hen hmeets hret ih =>
      obtain ⟨hwaiting, hlt⟩ := ih.1.exec hmeets.1 hen hmeets.2 hret
      refine ⟨hwaiting, ?_⟩
      have hle := ih.2
      rw [List.length_append, List.length_singleton]
      omega

/-! ### Where a flag is set -/

/-- To read the link of a record that has been deleted is a fault. -/
theorem killNext_freed (hpc : m.pc = .killNext c) (hgone : m.heap c = none) (ret : Int) :
    (Event.go ret).exec m = .thrown .freed m := by
  rw [Event.exec, Prog.bind_apply, Prog.get_apply, Outcome.andThen_ret, hpc, Prog.bind_apply,
    Point.run, Fork.killNext, Prog.bind_apply, load_of_none hgone]
  rfl

/-- A step of the program, in a run of which every state is as it should be. -/
theorem Clean.go (h : Clean m₀ m) (ret : Int) (hlisted : Listed m)
    (hrun : Run (fun _ m e => e.OfExit ∧ Spared m e) m₀ es m) (hen : (Event.go ret).Enabled m) :
    ∃ pt m₁, Goes ret m m.pc pt m₁ ∧
      Run (fun _ m e => e.OfExit ∧ Spared m e) m₀ (es ++ [.go ret]) { m₁ with pc := pt } := by
  obtain ⟨m', hexec⟩ := h.safe (.go ret) trivial hen
  obtain ⟨pt, m₁, hgoes, rfl⟩ := exec_go hlisted hen.2 hexec
  exact ⟨pt, m₁, hgoes, .step hrun hen ⟨trivial, trivial⟩ hexec⟩

/-- The destructor deletes a flagged record: its child is killed, exits, and is waited for. -/
theorem follow_flagged {r : ForkProcess} (hh : m.handler = none) (hr : m.heap c = some r) (hpos : 0 < r.pid)
    (hkill : r.kill_child = true) (hpid : r.pid ∈ m.running) : ∃ kills out,
    follow [.go 0, .go 0, .go 0, .go 0, .dies r.pid, .go r.pid] { m with pc := .killForks (some c) } =
      some { m with
        pc      := .unlink c (.killForks c)
        running := m.running.erase r.pid
        zombies := (m.zombies ++ [r.pid]).erase r.pid
        pending := m.pending || m.sigchld
        kills   := kills
        cerr    := out } := by
  cases hreason : r.reason with
  | false =>
      refine ⟨m.kills ++ [⟨r.pid, .sigterm, true⟩], m.cerr, ?_⟩
      simp [follow, Event.Enabled, hh, Event.exec, Point.Allows, Point.run, Fork.killForks, Fork.dtor,
        Fork.reap_child, Fork.waitpid, load, hr, hkill, hpos, callKill, Caller.signo, Process.children, hpid,
        hreason, Caller.point]
  | true =>
      refine ⟨m.kills ++ [⟨r.pid, .sigterm, true⟩], m.cerr ++ [r.pid], ?_⟩
      simp [follow, Event.Enabled, hh, Event.exec, Point.Allows, Point.run, Fork.killForks, Fork.dtor,
        Fork.reap_child, Fork.waitpid, load, hr, hkill, hpos, callKill, Caller.signo, Process.children, hpid,
        hreason, Caller.point, infanticide_reason]

section Flagged

variable (h : Leaving m₀)
  (hclean : ∀ es m, Run (fun _ m e => e.OfExit ∧ Spared m e) m₀ es m → Clean m₀ m)

include h hclean

/-- The destructor deletes a flagged record at which the loop stands, and then reads its link. -/
theorem Leaving.not_flagged (hc : c ∈ m₀.records)
    (hrun : Run (fun _ m e => e.OfExit ∧ Spared m e) m₀ es { m₀ with pc := .killForks (some c) }) :
    m₀.Mild c := by
  intro r hr
  by_contra hkill
  have hpos := h.tidy.positive c hc r hr
  have hpid : r.pid ∈ m₀.running := h.running c hc r.pid (pid_eq_some.mpr ⟨r, hr, rfl⟩)
  have freed : ∀ {es m}, Run (fun _ m e => e.OfExit ∧ Spared m e) m₀ es m → m.pc = .killNext c →
      m.handler = none → m.heap c = none → False := by
    intro es m hrun hpc hh hgone
    obtain ⟨m', hexec⟩ := (hclean es m hrun).safe (.go 0) trivial ⟨hh, by rw [hpc]; trivial⟩
    rw [killNext_freed hpc hgone] at hexec
    cases hexec
  obtain ⟨kills, out, hkilled⟩ := follow_flagged h.handler hr hpos (by simpa using hkill) hpid
  have htidy : Tidy { m₀ with
      running := m₀.running.erase r.pid
      zombies := (m₀.zombies ++ [r.pid]).erase r.pid
      pending := m₀.pending || m₀.sigchld
      kills   := kills
      cerr    := out } := h.tidy.same rfl rfl rfl
  obtain ⟨n, -, m, hunlinked, hoff⟩ := htidy.unlink_follow h.handler (.killForks c) 0 hc
  have hrun := (hrun.append hkilled (by simp [Event.OfExit, Spared])).append hunlinked
    (by simp [Event.OfExit, Spared])
  have hgone := hoff.gone
  obtain ⟨heap, list, cerr, rfl⟩ := hoff.rest
  exact freed hrun rfl h.handler hgone

/-- The first loop comes to every record. -/
theorem Leaving.passes : ∀ {pre post : List Nat}, m₀.records = pre ++ post →
    (∀ a ∈ pre, m₀.Mild a) ∧
      ∃ es, Run (fun _ m e => e.OfExit ∧ Spared m e) m₀ es { m₀ with pc := .killForks post.head? } := by
  intro pre
  induction pre using List.reverseRecOn with
  | nil =>
      intro post hl
      have hlist : post.head? = m₀.list := by
        rw [← h.tidy.listed.chain.head?_eq, hl]
        rfl
      refine ⟨List.forall_mem_nil _, [], ?_⟩
      rw [hlist, ← h.pc]
      exact .start
  | append_singleton pre c ih =>
      intro post hl
      rw [List.append_assoc, List.singleton_append] at hl
      -- the loop has come to `c`, which is not flagged, so it goes on to the next record
      obtain ⟨hmild, es, hrun⟩ := ih hl
      have hc : c ∈ m₀.records := by simp [hl]
      have hspares := h.not_flagged hclean hc hrun
      obtain ⟨r, hr⟩ := h.tidy.listed.heap_of_mem hc
      have hnext : r.next = post.head? := by
        have hchain := h.tidy.listed.chain
        rw [hl] at hchain
        obtain ⟨r', hr', hnext⟩ := link_eq_some.mp hchain.link_next
        rwa [Option.some.inj (hr'.symm.trans hr)] at hnext
      have hlisted : ∀ pt, Listed { m₀ with pc := pt } := fun pt => by
        have htidy : Tidy { m₀ with pc := pt } := h.tidy.same rfl rfl rfl
        exact htidy.listed
      refine ⟨fun a ha => ?_, ?_⟩
      · rcases List.mem_append.mp ha with ha | ha
        · exact hmild a ha
        · rwa [List.mem_singleton.mp ha]
      · obtain ⟨_, _, hgoes, hrun⟩ := (hclean _ _ hrun).go 0 (hlisted _) hrun ⟨h.handler, trivial⟩
        cases hgoes with
        | constructs hgoes => cases hgoes
        | destroys hgoes => cases hgoes
        | unlinks hgoes => cases hgoes
        | exits hgoes =>
        cases hgoes with
        | killForks_dtor hr' hkill =>
            rw [hspares _ hr'] at hkill
            cases hkill
        | killForks_next =>
        obtain ⟨_, _, hgoes, hrun⟩ := (hclean _ _ hrun).go 0 (hlisted _) hrun ⟨h.handler, trivial⟩
        cases hgoes with
        | constructs hgoes => cases hgoes
        | destroys hgoes => cases hgoes
        | unlinks hgoes => cases hgoes
        | exits hgoes =>
        cases hgoes with
        | @killNext _ r' hr' =>
        rw [show r' = r from Option.some.inj (hr'.symm.trans hr), hnext] at hrun
        exact ⟨_, hrun⟩

end Flagged

/-- **The destructor does what it is for** exactly if no record on the list is flagged. -/
theorem killForks_ends_iff (h : Leaving m₀) : Ends m₀ ↔ ∀ a ∈ m₀.records, m₀.Mild a := by
  refine ⟨fun hends => ?_, fun hmild => ⟨fun es m hrun => ?_, m₀.left, fun es m hrun => ?_⟩⟩
  · exact (h.passes hends.1 (List.append_nil _).symm).1
  · exact (h.run hmild hrun).1.clean hmild
  · exact Nat.le_of_add_right_le (h.run hmild hrun).2

/-- The children of a fleet run when the destructor begins. -/
theorem Fleet.leaving (h : Fleet m) : Leaving { m with pc := .killForks m.list } := by
  have hpositive : ∀ p ∈ m.running, 0 < p := fun p hp =>
    (h.following.positive (List.mem_append_left _ (List.mem_append_left _ hp))).1
  have hrec : Process.records { m with pc := .killForks m.list } = m.records := records_congr rfl rfl rfl
  have hchildren : Process.children { m with pc := .killForks m.list } = m.running := by
    show m.running ++ m.zombies = m.running
    rw [h.zombies, List.append_nil]
  refine ⟨h.linked.tidy.same rfl rfl rfl, rfl, h.quiet.2, ?_, ?_, ?_⟩
  · rw [hchildren]
    exact h.nodup
  · rw [hchildren]
    exact hpositive
  rw [hrec]
  intro a ha p hp
  have hmem := h.pids.mem_iff.mp (List.mem_map.mpr ⟨a, ha, hp⟩)
  simpa using hmem

/-- A process at its end, with three children. -/
def leaving : Process :=
  { ((blank.forked false false 5).forked false true 6).forked false false 7 with pc := .killForks (some 2) }

theorem killForks_ends_unflagged : Ends leaving := by
  have hone : Fleet (blank.forked false false 5) := blank_fleet.fork false false (by decide) nofun
  have htwo : Fleet ((blank.forked false false 5).forked false true 6) :=
    hone.fork false true (by decide) (by decide)
  have hthree : Fleet (((blank.forked false false 5).forked false true 6).forked false false 7) :=
    htwo.fork false false (by decide) (by decide)
  have hmild : ∀ a ∈ leaving.records, leaving.Mild a := by decide
  exact (killForks_ends_iff hthree.leaving).mpr hmild

/-- A process at its end, with one child, which is to be killed. -/
def leavingFlagged : Process := { blank.forked true false 5 with pc := .killForks (some 0) }

/-- **One flagged record.**  It is deleted, and its link read. -/
theorem killForks_freed :
    ∃ m, Run (fun _ m e => e.OfExit ∧ Spared m e) leavingFlagged
        [.go 0, .go 0, .go 0, .go 0, .dies 5, .go 5, .go 0, .go 0, .go 0] m ∧
      (Event.go 0).Enabled m ∧ (Event.go 0).exec m = .thrown .freed m ∧
      Leaving leavingFlagged ∧ ¬ Ends leavingFlagged := by
  have hfleet : Fleet (blank.forked true false 5) := blank_fleet.fork true false (by decide) nofun
  have hf : follow [.go 0, .go 0, .go 0, .go 0, .dies 5, .go 5, .go 0, .go 0, .go 0] leavingFlagged =
    some _ := rfl
  have hrun := Run.of_follow (C := fun _ m e => e.OfExit ∧ Spared m e) hf ?_
  · refine ⟨_, hrun, ⟨rfl, trivial⟩, rfl, hfleet.leaving, fun hends => ?_⟩
    obtain ⟨m', hexec⟩ := (hends.1 _ _ hrun).safe (.go 0) trivial ⟨rfl, trivial⟩
    cases hexec
  · simp [Event.OfExit, Spared]

end Fork

end Socketpp
