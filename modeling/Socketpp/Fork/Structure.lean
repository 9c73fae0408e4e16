import Socketpp.Fork.Lifetime

/-!
# Fork — the structure of the list

The constructor, the destructor and `reaper_nohang` all edit one singly linked list.  Where each of
them runs to its end before the next begins, the list is a chain of exactly the records that have a
positive pid and have not been deleted, newest first (`list_structure`).  A child starts with no
list, and gets there without a call for the records of its siblings.
-/

namespace Socketpp
open Lib

namespace Fork

variable {m m' m₁ : Process} {a : Nat} {ret : Int} {o : Owner} {k g : Bool}

/-! ### Operations that run to their end -/

/-- The program goes `n` points on; all calls on the way return `ret`. -/
def steps (ret : Int) : Nat → ForkM Unit
  | 0     => return ()
  | n + 1 => do
    (Event.go ret).exec
    steps ret n

/-- What is done to the list: a record is constructed, where `fork` returns `ret`; one is deleted,
where `waitpid` returns `ret`; or SIGCHLD comes, and `waitpid` returns `wpid`. -/
inductive Op where
  | construct (o : Owner) (kill give_reason : Bool) (ret : Int)
  | delete (a : Nat) (ret : Int)
  | reaper_nohang (wpid : Int)

/-- A constructor has no more than five points, and a destructor no more than seven and two for each record
that it passes. -/
def Op.exec : Op → ForkM Unit
  | .construct o kill give_reason ret => do
    new o kill give_reason
    steps ret 5
  | .delete a ret => do
    (Event.delete a).exec
    steps ret (2 * (← get).fresh + 7)
  | .reaper_nohang wpid => do
    Event.sigchld.exec
    (Event.handle wpid).exec
    (Event.handle wpid).exec

/-- `fork` returns a pid, 0 or -1, and only records are deleted that have not been. -/
def Op.Legal (m : Process) : Op → Prop
  | .construct _ _ _ ret => 0 < ret ∨ ret = 0 ∨ ret = -1
  | .delete a _          => ∃ r, m.heap a = some r
  | .reaper_nohang _     => True

/-- The operations `ops`, one after the other. -/
inductive Op.Run (m₀ : Process) : List Op → Process → Prop where
  | start : Op.Run m₀ [] m₀
  | step {ops : List Op} {op : Op} {m m' : Process} (run : Op.Run m₀ ops m) (legal : op.Legal m)
      (ret : op.exec m = .ret () m') : Op.Run m₀ (ops ++ [op]) m'

/-- The point makes a call for a child. -/
def Point.calls : Point → Bool
  | .kill _ _ _ | .waitpid _ _ _ | .suicideKill _ _ _ | .wait => true
  | _                                                         => false

/-- **The structure of the list.** -/
structure Ordered (m : Process) : Prop where
  idle    : m.Idle
  chain   : Chain m.link m.list m.records
  nodup   : m.records.Nodup
  exactly : ∀ a, a ∈ m.records ↔ ∃ r, m.heap a = some r ∧ 0 < r.pid
  newest  : m.records.Pairwise (· > ·)

/-! ### Records that have been disowned -/

/-- The destructor only releases the memory of a record without a child. -/
theorem dtor_disowned {r : ForkProcess} (t : Return) (hr : m.heap a = some r) (hdead : r.pid ≤ 0) :
    dtor a t m = .ret t.point { m with heap := Function.update m.heap a none } := by
  rw [dtor, Prog.bind_apply, load_of_some hr, Outcome.andThen_ret, Prog.ite_apply,
    if_neg (by omega), Prog.bind_apply, free_of_some hr]
  rfl

/-- The loop of the child runs the destructor of each record, which makes no call. -/
theorem clearBody_dtor (p : Nat) : clearBody (some p) = do
    let r ← load p
    store p { r with pid := 0 }
    let _ ← dtor p .main
    return .inl r.next := by
  funext m
  cases hr : m.heap p with
  | none => simp only [clearBody, Prog.bind_apply, load_of_none hr]; rfl
  | some r =>
      have hr' : Function.update m.heap p (some { r with pid := 0 }) p = some { r with pid := 0 } :=
        Function.update_self ..
      have hdtor := dtor_disowned .main
        (m := { m with heap := Function.update m.heap p (some { r with pid := 0 }) }) hr'
        (Int.le_refl 0)
      have hfree := free_of_some
        (m := { m with heap := Function.update m.heap p (some { r with pid := 0 }) }) hr'
      simp only [clearBody, Prog.bind_apply, load_of_some hr, Outcome.andThen_ret, store_of_some hr,
        hdtor, hfree]

/-! ### The invariant -/

/-- The list is in order, and has all records of children. -/
structure Sound (m : Process) : Prop where
  tidy   : Tidy m
  listed : ∀ a r, m.heap a = some r → 0 < r.pid → a ∈ m.records

/-- Between two operations. -/
structure Settled (m : Process) : Prop extends Sound m where
  idle : m.Idle

theorem Settled.ordered (h : Settled m) : Ordered m := by
  refine ⟨h.idle, h.tidy.listed.chain, h.tidy.listed.chain.nodup, fun a => ⟨fun ha => ?_, ?_⟩,
    h.tidy.sorted⟩
  · obtain ⟨r, hr⟩ := h.tidy.listed.heap_of_mem ha
    exact ⟨r, hr, h.tidy.positive a ha r hr⟩
  · rintro ⟨r, hr, hpos⟩
    exact h.listed a r hr hpos

theorem Process.Fresh.settled (h : m.Fresh) : Settled m := by
  refine ⟨⟨h.linked.tidy, fun a r hr => ?_⟩, h.idle⟩
  rw [h.heap] at hr
  cases hr

/-- A step to a memory that is the same. -/
theorem Sound.same (h : Sound m) (hheap : m'.heap = m.heap) (hfresh : m'.fresh = m.fresh)
    (hlist : m'.list = m.list) : Sound m' := by
  refine ⟨h.tidy.same hheap hfresh hlist, ?_⟩
  rw [hheap, records_congr hheap hfresh hlist]
  exact h.listed

/-- A store of no child, or none any more, at a record that is not on the list. -/
theorem Sound.stored {q : Option ForkProcess} (h : Sound m) (hstored : Stored m a q m')
    (hq : ∀ r, q = some r → r.pid ≤ 0) : Sound m' := by
  refine ⟨hstored.tidy h.tidy, fun b r hr hpos => ?_⟩
  rw [(hstored.records h.tidy).2]
  rw [hstored.heap] at hr
  rcases eq_or_ne b a with rfl | hne
  · rw [Function.update_self] at hr
    have := hq r hr
    omega
  · rw [Function.update_of_ne hne] at hr
    exact h.listed b r hr hpos

/-- A record has left the list. -/
theorem Sound.unlinked (h : Sound m) {v : Nat} (hoff : Unlinked m v m') : Sound m' := by
  refine ⟨hoff.tidy h.tidy, fun b r hr hpos => ?_⟩
  rw [hoff.mem_records h.tidy]
  obtain ⟨hne, r₀, hr₀, hpid⟩ := hoff.heap hr
  exact ⟨hne, h.listed b r₀ hr₀ (hpid ▸ hpos)⟩

/-! ### The operations -/

/-- A point at which the program goes on. -/
theorem steps_succ {pt' : Point} (n : Nat) (pt : Point) (h : pt.run ret m = .ret pt' m₁) (hpc : m.pc = pt) :
    steps ret (n + 1) m = steps ret n { m₁ with pc := pt' } := by
  rw [steps, Event.exec, Prog.bind_apply, Prog.bind_apply, Prog.get_apply, Outcome.andThen_ret,
    Prog.bind_apply, hpc, h]
  rfl

/-- The program has come to its end. -/
theorem steps_idle (h : m.pc = .idle) (ret : Int) : ∀ n, steps ret n m = .ret () m := by
  intro n
  induction n with
  | zero => rfl
  | succ n ih =>
      have hm : { m with pc := .idle } = m := by rw [← h]
      rw [steps_succ n .idle rfl h, hm]
      exact ih

/-- A run of the machine in which only the program goes on. -/
theorem steps_of_follow (k : Nat) : ∀ {n : Nat} {m : Process},
    follow (List.replicate n (.go ret)) m = some m' → steps ret (k + n) m = steps ret k m' := by
  intro n
  induction n with
  | zero =>
      intro m h
      cases h
      rfl
  | succ n ih =>
      intro m h
      rw [List.replicate_succ, follow] at h
      split at h
      · split at h
        · rename_i hexec
          rw [← Nat.add_assoc, steps, Prog.bind_apply, hexec]
          exact ih h
        · cases h
      · cases h

/-- The constructor up to `fork`: the memory has a new record, which no one has seen. -/
structure Born (m : Process) (r : ForkProcess) (m' : Process) : Prop where
  heap    : m'.heap = Function.update m.heap m.fresh (some r)
  fresh   : m'.fresh = m.fresh + 1
  list    : m'.list = m.list
  handler : m'.handler = m.handler
  kills   : m'.kills = m.kills

theorem Born.here {r : ForkProcess} (h : Born m r m') : m'.heap m.fresh = some r := by
  rw [h.heap, Function.update_self]

theorem Born.stored {r : ForkProcess} (h : Born m r m') (hm : Tidy m) :
    Stored m m.fresh (some r) m' := by
  refine ⟨h.heap, h.list, ?_, fun hmem => Nat.lt_irrefl _ (hm.knows hmem).1, ?_⟩
  · rw [h.fresh]
    exact Nat.le_succ _
  · rw [h.fresh]
    exact Nat.lt_succ_self _

theorem install_run (a : Nat) (o : Owner) (ret : Int) (m : Process) : ∃ sigchld,
    (Point.install a o).run ret m = .ret (.fork a o) { m with sigchld := sigchld } := by
  by_cases hlist : m.list = none
  · exact ⟨true, by simp [Point.run, ctorInstall, hlist]⟩
  · exact ⟨m.sigchld, by simp [Point.run, ctorInstall, hlist]⟩

/-- The constructor comes to `fork`. -/
theorem construct_fork (m : Process) (o : Owner) (k g : Bool) (ret : Int) : ∃ m₁,
    Born m ⟨0, k, g, none⟩ m₁ ∧ m₁.pc = .fork m.fresh o ∧
      ∀ n, (do new o k g; steps ret (n + 1) : ForkM Unit) m = steps ret n m₁ := by
  obtain ⟨sigchld, hinstall⟩ := install_run m.fresh o ret { m with
    heap  := Function.update m.heap m.fresh (some ⟨0, k, g, none⟩)
    fresh := m.fresh + 1
    pc    := .install m.fresh o }
  refine ⟨{ m with
    heap    := Function.update m.heap m.fresh (some ⟨0, k, g, none⟩)
    fresh   := m.fresh + 1
    pc      := .fork m.fresh o
    sigchld := sigchld }, ⟨rfl, rfl, rfl, rfl, rfl⟩, rfl, fun n => ?_⟩
  exact steps_succ n _ hinstall rfl

/-- The constructor ends. -/
theorem made_steps (n : Nat) (ret : Int) (hpc : m.pc = .made a o) : ∃ forks objects,
    steps ret (n + 1) m =
      .ret () { m with forks := forks, objects := objects, pc := .idle } := by
  cases o with
  | fork =>
      refine ⟨a :: m.forks, m.objects, ?_⟩
      rw [steps_succ n _ rfl hpc]
      exact steps_idle rfl ret n
  | user =>
      refine ⟨m.forks, a :: m.objects, ?_⟩
      rw [steps_succ n _ rfl hpc]
      exact steps_idle rfl ret n

/-- A new record in front of the list. -/
theorem Sound.pushed {r : ForkProcess} (h : Sound m) (hpos : 0 < r.pid) (hnext : r.next = m.list)
    (hheap : m'.heap = Function.update m.heap m.fresh (some r)) (hfresh : m'.fresh = m.fresh + 1)
    (hlist : m'.list = some m.fresh) : Sound m' := by
  have hold : ∀ b ∈ m.records, b < m.fresh := fun b hb => (h.tidy.knows hb).1
  have hbelow : ∀ b q, m'.heap b = some q → b < m'.fresh := by
    intro b q hq
    rw [hheap] at hq
    rw [hfresh]
    rcases eq_or_ne b m.fresh with rfl | hne
    · exact Nat.lt_succ_self _
    · rw [Function.update_of_ne hne] at hq
      exact Nat.lt_succ_of_lt (h.tidy.listed.below b q hq)
  obtain ⟨htidy, hrec⟩ := h.tidy.pushed hold (by rw [hheap, Function.update_self]) hpos hnext
    (fun b hb => by rw [hheap, Function.update_of_ne (Nat.ne_of_lt (hold b hb))]) hbelow hlist
  refine ⟨htidy, ?_⟩
  rw [hrec, hheap]
  intro b q hq hqpos
  rcases eq_or_ne b m.fresh with rfl | hne
  · exact List.mem_cons_self
  · rw [Function.update_of_ne hne] at hq
    exact List.mem_cons_of_mem _ (h.listed b q hq hqpos)

/-- A `fork` in the parent. -/
theorem Settled.parent (h : Settled m) (hpos : 0 < ret) :
    ∃ m', (Op.construct o k g ret).exec m = .ret () m' ∧ Settled m' := by
  obtain ⟨m₁, hborn, hpc, hsteps⟩ := construct_fork m o k g ret
  have hfork : (Point.fork m.fresh o).run ret m₁ = .ret (.next m.fresh o) { m₁ with
      heap    := Function.update m₁.heap m.fresh (some ⟨ret, k, g, none⟩)
      running := ret :: m₁.running } := by
    simp [Point.run, ctorFork, load_of_some hborn.here, store_of_some hborn.here, hpos]
  have hnext : (Point.next m.fresh o).run ret { m₁ with
      heap    := Function.update m₁.heap m.fresh (some ⟨ret, k, g, none⟩)
      running := ret :: m₁.running
      pc      := .next m.fresh o } = .ret (.link m.fresh o) { m₁ with
        heap    := Function.update m₁.heap m.fresh (some ⟨ret, k, g, m₁.list⟩)
        running := ret :: m₁.running
        pc      := .next m.fresh o } := by
    simp [Point.run, ctorNext, load, store]
  obtain ⟨forks, objects, hmade⟩ : ∃ forks objects, steps ret 1 { m₁ with
      heap    := Function.update m₁.heap m.fresh (some ⟨ret, k, g, m₁.list⟩)
      running := ret :: m₁.running
      list    := some m.fresh
      pc      := .made m.fresh o } = .ret () { m₁ with
        heap    := Function.update m₁.heap m.fresh (some ⟨ret, k, g, m₁.list⟩)
        running := ret :: m₁.running
        list    := some m.fresh
        forks   := forks
        objects := objects
        pc      := .idle } := made_steps _ _ rfl
  refine ⟨?_, ?exec, ?settled⟩
  case exec =>
    rw [Op.exec, hsteps, steps_succ 3 _ hfork hpc, steps_succ 2 _ hnext rfl, steps_succ 1 _ rfl rfl]
    exact hmade
  refine ⟨h.toSound.pushed (r := ⟨ret, k, g, m₁.list⟩) hpos hborn.list ?_ hborn.fresh rfl, rfl,
    hborn.handler.trans h.idle.2⟩
  dsimp only
  rw [hborn.heap, Function.update_idem]

/-- A `fork` that fails. -/
theorem Settled.failed (h : Settled m) (hneg : ret < 0) :
    ∃ m', (Op.construct o k g ret).exec m = .ret () m' ∧ Settled m' := by
  obtain ⟨m₁, hborn, hpc, hsteps⟩ := construct_fork m o k g ret
  have hfork : (Point.fork m.fresh o).run ret m₁ = .ret (.made m.fresh o) { m₁ with
      heap := Function.update m₁.heap m.fresh (some ⟨ret, k, g, none⟩) } := by
    have hpos : ¬ 0 < ret := by omega
    have hzero : ret ≠ 0 := by omega
    simp [Point.run, ctorFork, load_of_some hborn.here, store_of_some hborn.here, hpos, hzero]
  obtain ⟨forks, objects, hmade⟩ : ∃ forks objects, steps ret 3 { m₁ with
      heap := Function.update m₁.heap m.fresh (some ⟨ret, k, g, none⟩)
      pc   := .made m.fresh o } = .ret () { m₁ with
        heap    := Function.update m₁.heap m.fresh (some ⟨ret, k, g, none⟩)
        forks   := forks
        objects := objects
        pc      := .idle } := made_steps _ _ rfl
  refine ⟨?_, ?exec, ?settled⟩
  case exec =>
    rw [Op.exec, hsteps, steps_succ 3 _ hfork hpc]
    exact hmade
  refine ⟨h.toSound.stored (a := m.fresh) (q := some ⟨ret, k, g, none⟩)
    ⟨?_, hborn.list, ?_, ?_, ?_⟩ ?_, rfl, hborn.handler.trans h.idle.2⟩
  · dsimp only
    rw [hborn.heap, Function.update_idem]
  · exact Nat.le_of_lt (by rw [hborn.fresh]; exact Nat.lt_succ_self _)
  · exact fun hmem => Nat.lt_irrefl _ (h.tidy.knows hmem).1
  · rw [hborn.fresh]
    exact Nat.lt_succ_self _
  · intro r hr
    cases hr
    exact Int.le_of_lt hneg

/-- The child clears the list it has got from its parent. -/
theorem clear_run {r : ForkProcess} (h : Settled m) (hborn : Born m r m₁) (ret : Int) :
    ∃ sigterm, (Point.clear m.fresh o).run ret m₁ =
      .ret (.made m.fresh o) { m₁.without m.records with list := none, sigterm := sigterm } := by
  have hstored := hborn.stored h.tidy
  obtain ⟨hlisted, hrec⟩ := hstored.records h.tidy
  have hclear := clearLoop hlisted.chain hlisted.length_le
  rw [hrec] at hclear
  have hr : (m₁.without m.records).heap m.fresh = some r := by
    have hoff := hstored.off
    simp [Process.without, hoff, hborn.here]
  have hload : load m.fresh { m₁.without m.records with list := none } =
      .ret r { m₁.without m.records with list := none } := load_of_some hr
  rw [Point.run, ctorClear, Prog.bind_apply, Prog.get_apply, Outcome.andThen_ret, Prog.bind_apply,
    hclear, Outcome.andThen_ret, Prog.bind_apply, Prog.modify_apply, Outcome.andThen_ret,
    Prog.bind_apply, hload, Outcome.andThen_ret]
  cases r.kill_child with
  | false => exact ⟨m₁.sigterm, rfl⟩
  | true => exact ⟨true, rfl⟩

/-- The list is empty, and all that is left is the record of this process. -/
theorem Sound.cleared {r : ForkProcess} (h : Sound m) (hborn : Born m r m₁)
    (hheap : m'.heap = (m₁.without m.records).heap) (hfresh : m'.fresh = m.fresh + 1)
    (hlist : m'.list = none) (hdead : r.pid ≤ 0) : Sound m' := by
  have left : ∀ {b q}, m'.heap b = some q → b < m'.fresh ∧ q.pid ≤ 0 := by
    intro b q hq
    rw [hheap] at hq
    by_cases hmem : b ∈ m.records
    · simp [Process.without, hmem] at hq
    · simp only [Process.without, hmem, if_false, hborn.heap] at hq
      rw [hfresh]
      rcases eq_or_ne b m.fresh with rfl | hne
      · rw [Function.update_self] at hq
        cases hq
        exact ⟨Nat.lt_succ_self _, hdead⟩
      · rw [Function.update_of_ne hne] at hq
        refine ⟨Nat.lt_succ_of_lt (h.tidy.listed.below b q hq), ?_⟩
        by_contra hpos
        exact hmem (h.listed b q hq (by omega))
  have hchain : Chain m'.link m'.list [] := by
    rw [hlist]
    exact .nil
  obtain ⟨hlisted, hrec⟩ := Listed.of_chain (fun b q hq => (left hq).1) hchain
  refine ⟨⟨hlisted, by rw [hrec]; exact .nil, by rw [hrec]; exact List.forall_mem_nil _⟩,
    fun b q hq hpos => ?_⟩
  have := (left hq).2
  omega

/-- **A `fork` in the child**: no list is left, and no call has been made on the way. -/
theorem Settled.child (h : Settled m) (o : Owner) (k g : Bool) :
    (∃ m', (Op.construct o k g 0).exec m = .ret () m' ∧ Settled m' ∧ m'.list = none) ∧
      ∀ n, ∃ m', (do new o k g; steps 0 n : ForkM Unit) m = .ret () m' ∧ m'.kills = m.kills ∧
        m'.pc.calls = false := by
  obtain ⟨m₁, hborn, hpc, hsteps⟩ := construct_fork m o k g 0
  have hfork : (Point.fork m.fresh o).run 0 m₁ = .ret (.clear m.fresh o) { m₁ with
      heap    := Function.update m₁.heap m.fresh (some ⟨0, k, g, none⟩)
      running := []
      zombies := []
      pending := false } := by
    simp [Point.run, ctorFork, load_of_some hborn.here, store_of_some hborn.here]
  have hborn₂ : Born m ⟨0, k, g, none⟩ { m₁ with
      heap    := Function.update m₁.heap m.fresh (some ⟨0, k, g, none⟩)
      running := []
      zombies := []
      pending := false
      pc      := .clear m.fresh o } := by
    refine ⟨?_, hborn.fresh, hborn.list, hborn.handler, hborn.kills⟩
    dsimp only
    rw [hborn.heap, Function.update_idem]
  obtain ⟨sigterm, hclear⟩ := clear_run (o := o) h hborn₂ 0
  have hends : ∀ n, ∃ m', steps 0 (n + 3) m₁ = .ret () m' ∧ m'.kills = m.kills ∧ m'.pc = .idle ∧
      Settled m' ∧ m'.list = none := by
    intro n
    rw [steps_succ (n + 2) _ hfork hpc, steps_succ (n + 1) _ hclear rfl]
    obtain ⟨forks, objects, hmade⟩ := made_steps (m := { Process.without _ m.records with
      list := none, sigterm := sigterm, pc := .made m.fresh o }) n 0 rfl
    refine ⟨_, hmade, hborn₂.kills, rfl, ?_, rfl⟩
    exact ⟨h.toSound.cleared hborn₂ rfl hborn₂.fresh rfl (Int.le_refl 0), rfl,
      hborn.handler.trans h.idle.2⟩
  refine ⟨?_, fun n => ?_⟩
  · obtain ⟨m', hexec, -, -, hsettled, hlist⟩ := hends 1
    exact ⟨m', (hsteps 4).trans hexec, hsettled, hlist⟩
  · -- however far the run has come, the child has signalled nobody
    rcases n with _ | _ | _ | _ | n
    · exact ⟨_, rfl, rfl, rfl⟩
    · exact ⟨m₁, hsteps 0, hborn.kills, by rw [hpc]; rfl⟩
    · exact ⟨_, (hsteps 1).trans (steps_succ 0 _ hfork hpc), hborn₂.kills, rfl⟩
    · refine ⟨_, (hsteps 2).trans ((steps_succ 1 _ hfork hpc).trans (steps_succ 0 _ hclear rfl)),
        hborn₂.kills, rfl⟩
    · obtain ⟨m', hexec, hkills, hidle, -⟩ := hends n
      exact ⟨m', (hsteps (n + 3)).trans hexec, hkills, by rw [hidle]; rfl⟩

/-- `waitpid` writes at most what has become of the child. -/
theorem waitpid_run {r : ForkProcess} (hr : m.heap a = some r) (pid ret : Int) :
    ∃ zombies cerr, (Point.waitpid a pid (.dtor .main)).run ret m =
      .ret (.unlink a .main) { m with zombies := zombies, cerr := cerr } := by
  rw [Point.run, waitpid, Prog.ite_apply]
  split
  · obtain ⟨out, hout⟩ := infanticide_reason_ret pid { m with zombies := m.zombies.erase pid }
    rw [Prog.bind_apply, Prog.modify_apply, Outcome.andThen_ret, Prog.bind_apply, load, hr]
    cases hreason : r.reason with
    | false =>
        refine ⟨m.zombies.erase pid, m.cerr, ?_⟩
        simp only [Outcome.andThen_ret, hreason, Bool.false_eq_true, if_false]
        rfl
    | true =>
        refine ⟨m.zombies.erase pid, out, ?_⟩
        simp only [Outcome.andThen_ret, hreason, if_true, Prog.bind_apply, hout]
        rfl
  · exact ⟨m.zombies, m.cerr, rfl⟩

/-- The destructor from `reap_child` on. -/
theorem Sound.reaped {r : ForkProcess} (h : Sound m) (hhandler : m.handler = none)
    (hpc : m.pc = .reap_child a (.dtor .main)) (hr : m.heap a = some r) (hpos : 0 < r.pid) {n : Nat}
    (hn : 2 * m.fresh + 5 ≤ n) : ∃ m', steps ret n m = .ret () m' ∧ Settled m' := by
  have hreap : (Point.reap_child a (.dtor .main)).run ret m =
      .ret (.waitpid a r.pid (.dtor .main)) m := by
    simp [Point.run, reap_child, load_of_some hr, hpos]
  obtain ⟨zombies, cerr, hwait⟩ := waitpid_run (m := { m with
    pc := .waitpid a r.pid (.dtor .main) }) hr r.pid ret
  have hsound : Sound { m with zombies := zombies, cerr := cerr } := h.same rfl rfl rfl
  obtain ⟨i, hi, m₁, hfollow, hoff⟩ := hsound.tidy.unlink_follow hhandler .main ret
    (hsound.listed a r hr hpos)
  replace hi : i ≤ 2 * m.fresh + 3 := hi
  obtain ⟨j, rfl⟩ : ∃ j, n = j + i + 2 := ⟨n - i - 2, by omega⟩
  have hsound₁ : Sound { m₁ with pc := .idle } := (hsound.unlinked hoff).same rfl rfl rfl
  refine ⟨{ m₁ with pc := .idle }, ?_, hsound₁, rfl, ?_⟩
  · rw [steps_succ _ _ hreap hpc, steps_succ _ _ hwait rfl, steps_of_follow j hfollow]
    exact steps_idle rfl ret j
  · obtain ⟨heap, list, cerr, rfl⟩ := hoff.rest
    exact hhandler

/-- A record is deleted. -/
theorem Settled.delete {r : ForkProcess} (h : Settled m) (hr : m.heap a = some r) (ret : Int) :
    ∃ m', (Op.delete a ret).exec m = .ret () m' ∧ Settled m' := by
  have hsound : Sound { m with objects := m.objects.erase a, pc := .dtor a .main } :=
    h.toSound.same rfl rfl rfl
  have hexec : (Op.delete a ret).exec m =
      steps ret (2 * m.fresh + 7) { m with objects := m.objects.erase a, pc := .dtor a .main } := rfl
  rw [hexec]
  generalize hm₁ : { m with objects := m.objects.erase a, pc := .dtor a .main } = m₁ at hsound
  have hpc : m₁.pc = .dtor a .main := by rw [← hm₁]
  have hfresh : m₁.fresh = m.fresh := by rw [← hm₁]
  have hhandler : m₁.handler = none := by rw [← hm₁]; exact h.idle.2
  have hr₁ : m₁.heap a = some r := by rw [← hm₁]; exact hr
  rw [← hfresh]
  by_cases hpos : 0 < r.pid
  · cases hkill : r.kill_child with
    | false =>
        have hrun : (Point.dtor a .main).run ret m₁ = .ret (.reap_child a (.dtor .main)) m₁ := by
          simp [Point.run, dtor, load_of_some hr₁, hpos, hkill]
        rw [steps_succ _ _ hrun hpc]
        have hsound : Sound { m₁ with pc := .reap_child a (.dtor .main) } := hsound.same rfl rfl rfl
        exact hsound.reaped hhandler rfl hr₁ hpos (Nat.le_succ _)
    | true =>
        have hrun : (Point.dtor a .main).run ret m₁ = .ret (.kill a r.pid (.dtor .main)) m₁ := by
          simp [Point.run, dtor, load_of_some hr₁, hpos, hkill]
        rw [steps_succ _ _ hrun hpc, steps_succ _ (.kill a r.pid (.dtor .main)) rfl rfl]
        have hsound : Sound { m₁ with
            kills := m₁.kills ++ [⟨r.pid, .sigterm, r.pid ∈ m₁.children⟩]
            pc    := .reap_child a (.dtor .main) } := hsound.same rfl rfl rfl
        exact hsound.reaped hhandler rfl hr₁ hpos (Nat.le_refl _)
  · -- a record without a child is not on the list, and is released where it stands
    have hoff : a ∉ m₁.records := by
      intro hmem
      exact hpos (hsound.tidy.positive a hmem r hr₁)
    have hstored : Stored m₁ a none { m₁ with
        heap := Function.update m₁.heap a none
        pc   := .idle } :=
      ⟨rfl, rfl, Nat.le_refl _, hoff, hsound.tidy.listed.below a r hr₁⟩
    refine ⟨_, ?_, hsound.stored hstored (by simp), rfl, hhandler⟩
    rw [steps_succ _ (.dtor a .main) (dtor_disowned .main hr₁ (by omega)) hpc]
    exact steps_idle rfl ret _

/-- `reaper_nohang` runs. -/
theorem Settled.reaper_nohang (h : Settled m) (wpid : Int) :
    ∃ m', (Op.reaper_nohang wpid).exec m = .ret () m' ∧ Settled m' := by
  have hsound : Sound { m with pending := false, blocked := true, handler := some .waitpid } :=
    h.toSound.same rfl rfl rfl
  obtain ⟨h', m₁, hreaps, hexec⟩ := exec_handle hsound.tidy.listed rfl wpid
  have hstart : (Op.reaper_nohang wpid).exec m =
      (do (Event.handle wpid).exec; (Event.handle wpid).exec : ForkM Unit)
        { m with pending := false, blocked := true, handler := some .waitpid } := rfl
  rw [hstart, Prog.bind_apply, hexec, Outcome.andThen_ret]
  cases hreaps with
  | no_zombie => exact ⟨_, rfl, hsound.same rfl rfl rfl, h.idle.1, rfl⟩
  | waited =>
      have hsound : Sound { m with
          pending := false
          zombies := m.zombies.erase wpid
          handler := some (.remove wpid)
          blocked := true } := h.toSound.same rfl rfl rfl
      obtain ⟨h'', m₂, hreaps, hexec⟩ := exec_handle hsound.tidy.listed rfl wpid
      refine ⟨_, hexec, ?_⟩
      cases hreaps with
      | stranger => exact ⟨hsound.same rfl rfl rfl, h.idle.1, rfl⟩
      | remove _ hoff =>
          refine ⟨(hsound.unlinked hoff).same rfl rfl rfl, ?_, rfl⟩
          obtain ⟨heap, list, cerr, rfl⟩ := hoff.rest
          exact h.idle.1

/-- **One operation** comes to its end, and keeps the list in order. -/
theorem Settled.exec (h : Settled m) {op : Op} (hlegal : op.Legal m) :
    ∃ m', op.exec m = .ret () m' ∧ Settled m' := by
  cases op with
  | construct o k g ret =>
      rcases hlegal with hpos | rfl | rfl
      · exact h.parent hpos
      · obtain ⟨⟨m', hexec, hsettled, -⟩, -⟩ := h.child o k g
        exact ⟨m', hexec, hsettled⟩
      · exact h.failed (by decide)
  | delete a ret =>
      obtain ⟨r, hr⟩ := hlegal
      exact h.delete hr ret
  | reaper_nohang wpid => exact h.reaper_nohang wpid

theorem Op.Run.settled {m₀ : Process} {ops : List Op} (hm₀ : Settled m₀) (hrun : Op.Run m₀ ops m) :
    Settled m := by
  induction hrun with
  | start => exact hm₀
  | step _ hlegal hret ih =>
      obtain ⟨m₁, hexec, hsettled⟩ := ih.exec hlegal
      rw [hexec] at hret
      cases hret
      exact hsettled

/-- **The structure of the list**, after any sequence of operations; every operation comes to its end.
A child gets there without a call, and has no list: its loop runs the destructor of each record, and that
of a record that has been disowned only releases its memory. -/
theorem list_structure {m₀ : Process} (hm₀ : m₀.Fresh) {ops : List Op} (hrun : Op.Run m₀ ops m) :
    Ordered m ∧ (∀ op : Op, op.Legal m → ∃ m', op.exec m = .ret () m' ∧ Ordered m') ∧
      (∀ o k g, (∃ m', (Op.construct o k g 0).exec m = .ret () m' ∧ m'.list = none) ∧
        ∀ n, ∃ m', (do new o k g; steps 0 n : ForkM Unit) m = .ret () m' ∧ m'.kills = m.kills ∧
          m'.pc.calls = false) ∧
      (∀ p, clearBody (some p) = do
        let r ← load p
        store p { r with pid := 0 }
        let _ ← dtor p .main
        return .inl r.next) ∧
      ∀ (s : Process) a r, s.heap a = some r → r.pid ≤ 0 →
        dtor a .main s = .ret .idle { s with heap := Function.update s.heap a none } := by
  have h := hrun.settled hm₀.settled
  refine ⟨h.ordered, fun op hlegal => ?_, fun o k g => ⟨?_, (h.child o k g).2⟩,
    clearBody_dtor, fun s a r hr hdead => dtor_disowned .main hr hdead⟩
  · obtain ⟨m', hexec, hsettled⟩ := h.exec hlegal
    exact ⟨m', hexec, hsettled.ordered⟩
  · obtain ⟨⟨m', hexec, -, hlist⟩, -⟩ := h.child o k g
    exact ⟨m', hexec, hlist⟩

theorem list_structure_three :
    ∃ m, Op.Run blank [.construct .user false true 5, .construct .user true false 7,
        .construct .fork false false (-1), .reaper_nohang 5] m ∧ m.records = [1] ∧ Ordered m := by
  have h₁ : Op.Run blank [.construct .user false true 5] _ := .step .start (.inl (by decide)) rfl
  have h₂ : Op.Run blank [.construct .user false true 5, .construct .user true false 7] _ :=
    .step h₁ (.inl (by decide)) rfl
  have h₃ : Op.Run blank [.construct .user false true 5, .construct .user true false 7,
    .construct .fork false false (-1)] _ := .step h₂ (.inr (.inr rfl)) rfl
  have h₄ : Op.Run blank [.construct .user false true 5, .construct .user true false 7,
    .construct .fork false false (-1), .reaper_nohang 5] _ := .step h₃ trivial rfl
  exact ⟨_, h₄, rfl, (list_structure blank_fresh h₄).1⟩

end Fork

end Socketpp
