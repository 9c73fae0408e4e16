import Socketpp.Fork.Records

/-!
# Fork — what one step can do

Every step of the program, as a relation on states: the parts of `Goes` have one rule for each way from
a point to the next, and `Reaps` has one for each step of the handler.  The invariants are shown rule by
rule, and never look at the code again (`go_goes`, `handler_reaps`).
-/

namespace Socketpp
open Lib

namespace Fork

/-- The constructor of a record goes on. -/
inductive Constructs (ret : Int) (m : Process) : Point → Point → Process → Prop where
  | install (a : Nat) (o : Owner) :
      Constructs ret m (.install a o) (.fork a o) { m with sigchld := m.sigchld || decide (m.list = none) }
  | fork_parent {a : Nat} {r : ForkProcess} (o : Owner) (rec : m.heap a = some r) (parent : 0 < ret) :
      Constructs ret m (.fork a o) (.next a o) { m with
        heap := Function.update m.heap a (some { r with pid := ret })
        running := ret :: m.running }
  | fork_child {a : Nat} {r : ForkProcess} (o : Owner) (rec : m.heap a = some r) (child : ret = 0) :
      Constructs ret m (.fork a o) (.clear a o) { m with
        heap := Function.update m.heap a (some { r with pid := 0 })
        running := []
        zombies := []
        pending := false }
  | fork_failed {a : Nat} {r : ForkProcess} (o : Owner) (rec : m.heap a = some r) (fails : ret < 0) :
      Constructs ret m (.fork a o) (.made a o) { m with
        heap := Function.update m.heap a (some { r with pid := ret }) }
  | next {a : Nat} {r : ForkProcess} (o : Owner) (rec : m.heap a = some r) :
      Constructs ret m (.next a o) (.link a o) { m with
        heap := Function.update m.heap a (some { r with next := m.list }) }
  | link (a : Nat) (o : Owner) : Constructs ret m (.link a o) (.made a o) { m with list := some a }
  | clear {a : Nat} {r : ForkProcess} (o : Owner) (rec : m.heap a = some r) (off : a ∉ m.records) :
      Constructs ret m (.clear a o) (.made a o) { m.without m.records with
        list := none
        sigterm := m.sigterm || r.kill_child }
  | made_fork (a : Nat) : Constructs ret m (.made a .fork) .idle { m with forks := a :: m.forks }
  | made_user (a : Nat) : Constructs ret m (.made a .user) .idle { m with objects := a :: m.objects }

/-- A destructor, or `kill_process`, goes on, up to where the child has been waited for. -/
inductive Destroys (ret : Int) (m : Process) : Point → Point → Process → Prop where
  | dropFork_dead {a : Nat} {r : ForkProcess} (rec : m.heap a = some r) (dead : r.pid ≤ 0) :
      Destroys ret m (.dropFork a) (.dtor a .main) { m with forks := m.forks.erase a }
  | dropFork {a : Nat} {r : ForkProcess} (rec : m.heap a = some r) (parent : 0 < r.pid) :
      Destroys ret m (.dropFork a) .idle { m with forks := m.forks.erase a }
  | dtor_kill {a : Nat} {r : ForkProcess} (k : Return) (rec : m.heap a = some r) (pos : 0 < r.pid)
      (kills : r.kill_child = true) :
      Destroys ret m (.dtor a k) (.kill a r.pid (.dtor k)) m
  | dtor_reap {a : Nat} {r : ForkProcess} (k : Return) (rec : m.heap a = some r) (pos : 0 < r.pid)
      (spares : r.kill_child = false) :
      Destroys ret m (.dtor a k) (.reap_child a (.dtor k)) m
  | dtor_dead {a : Nat} {r : ForkProcess} (k : Return) (rec : m.heap a = some r) (dead : r.pid ≤ 0) :
      Destroys ret m (.dtor a k) k.point { m with heap := Function.update m.heap a none }
  | kill_process {a : Nat} {r : ForkProcess} (rec : m.heap a = some r) (pos : 0 < r.pid) :
      Destroys ret m (.kill_process a) (.kill a r.pid .kill_process) m
  | kill_process_dead {a : Nat} {r : ForkProcess} (rec : m.heap a = some r) (dead : r.pid ≤ 0) :
      Destroys ret m (.kill_process a) .idle m
  | kill (a : Nat) (pid : Int) (c : Caller) :
      Destroys ret m (.kill a pid c) (.reap_child a c)
        { m with kills := m.kills ++ [⟨pid, c.signo, pid ∈ m.children⟩] }
  | reap {a : Nat} {r : ForkProcess} (c : Caller) (rec : m.heap a = some r) (pos : 0 < r.pid) :
      Destroys ret m (.reap_child a c) (.waitpid a r.pid c) m
  | reap_dead {a : Nat} {r : ForkProcess} (c : Caller) (rec : m.heap a = some r) (dead : r.pid ≤ 0) :
      Destroys ret m (.reap_child a c) (c.point a) m
  | waited {a : Nat} {r : ForkProcess} (pid : Int) (c : Caller) (out : List Int)
      (rec : m.heap a = some r) (zombie : ret = pid) :
      Destroys ret m (.waitpid a pid c) (c.point a)
        { m with zombies := m.zombies.erase pid, cerr := out }
  | not_waited (a : Nat) (pid : Int) (c : Caller) (other : ret ≠ pid) :
      Destroys ret m (.waitpid a pid c) (c.point a) m

/-- A destructor takes its record off the list, and releases it. -/
inductive Unlinks (m : Process) : Point → Point → Process → Prop where
  | head {a : Nat} (k : Return) (this : m.list = some a) :
      Unlinks m (.unlink a k) (.unlinkHead a k) m
  | other {a : Nat} (k : Return) (other : m.list ≠ some a) :
      Unlinks m (.unlink a k) (.searchList a k) m
  | unlinkHead {p : Nat} {r : ForkProcess} (a : Nat) (k : Return) (list : m.list = some p)
      (rec : m.heap p = some r) :
      Unlinks m (.unlinkHead a k) (.setList a k r.next) m
  | setList {a : Nat} {r : ForkProcess} (k : Return) (q : Option Nat) (rec : m.heap a = some r) :
      Unlinks m (.setList a k q) k.point { m with
        heap := Function.update m.heap a none
        list := q }
  | searchList (a : Nat) (k : Return) : Unlinks m (.searchList a k) (.search a k m.list) m
  | search_end {a : Nat} {r : ForkProcess} (k : Return) (rec : m.heap a = some r) :
      Unlinks m (.search a k none) k.point { m with heap := Function.update m.heap a none }
  | search_found {a p : Nat} {r : ForkProcess} (k : Return) (rec : m.heap p = some r)
      (this : r.next = some a) :
      Unlinks m (.search a k (some p)) (.found a k p) m
  | search_on {a p : Nat} {r : ForkProcess} (k : Return) (rec : m.heap p = some r)
      (other : r.next ≠ some a) :
      Unlinks m (.search a k (some p)) (.advance a k p) m
  | advance {p : Nat} {r : ForkProcess} (a : Nat) (k : Return) (rec : m.heap p = some r) :
      Unlinks m (.advance a k p) (.search a k r.next) m
  | found {a : Nat} {r : ForkProcess} (k : Return) (p : Nat) (rec : m.heap a = some r) :
      Unlinks m (.found a k p) (.setNext a k p r.next) m
  | setNext {a p : Nat} {r : ForkProcess} (k : Return) (q : Option Nat) (rec : m.heap p = some r) :
      Unlinks m (.setNext a k p q) k.point { m with
        heap := Function.update (Function.update m.heap p (some { r with next := q })) a none }

/-- `commit_suicide` or `~KillForks` goes on. -/
inductive Exits (ret : Int) (m : Process) : Point → Point → Process → Prop where
  | suicide_end : Exits ret m (.suicide none) (.killForks m.list) m
  | suicide_dtor {p : Nat} {r : ForkProcess} (rec : m.heap p = some r) (kills : r.kill_child = true) :
      Exits ret m (.suicide (some p)) (.dtor p (.commit_suicide r.next)) m
  | suicide_kill {p : Nat} {r : ForkProcess} (rec : m.heap p = some r)
      (spares : r.kill_child = false) :
      Exits ret m (.suicide (some p)) (.suicideKill p r.pid r.next) m
  | suicideKill (p : Nat) (pid : Int) (q : Option Nat) :
      Exits ret m (.suicideKill p pid q) (.dtor p (.commit_suicide q))
        { m with kills := m.kills ++ [⟨pid, .sigkill, pid ∈ m.children⟩] }
  | killForks_end : Exits ret m (.killForks none) .waitAll m
  | killForks_dtor {c : Nat} {r : ForkProcess} (rec : m.heap c = some r)
      (kills : r.kill_child = true) :
      Exits ret m (.killForks (some c)) (.dtor c (.killForks c)) m
  | killForks_next {c : Nat} {r : ForkProcess} (rec : m.heap c = some r)
      (spares : r.kill_child = false) :
      Exits ret m (.killForks (some c)) (.killNext c) m
  | killNext {c : Nat} {r : ForkProcess} (rec : m.heap c = some r) :
      Exits ret m (.killNext c) (.killForks r.next) m
  | waitAll (listed : m.list ≠ none) : Exits ret m .waitAll .wait m
  | waitAll_end (unlisted : m.list = none) : Exits ret m .waitAll .exited m
  | wait (zombie : 0 < ret) :
      Exits ret m .wait .waitAll { m with zombies := m.zombies.erase ret }
  | wait_end (none : ret ≤ 0) : Exits ret m .wait .exited m

/-- The program goes from a point of `m` to the next, which leaves the second state. -/
inductive Goes (ret : Int) (m : Process) (pc p : Point) (m' : Process) : Prop where
  | constructs (h : Constructs ret m pc p m')
  | destroys (h : Destroys ret m pc p m')
  | unlinks (h : Unlinks m pc p m')
  | exits (h : Exits ret m pc p m')

variable {m m' : Process} {ret : Int}

/-- A program that starts with a `load`. -/
theorem load_bind {α : Type} {a : Nat} {f : ForkProcess → ForkM α} {p : α}
    (h : (load a >>= f) m = .ret p m') : ∃ r, m.heap a = some r ∧ f r m = .ret p m' := by
  obtain ⟨r, m₁, hload, hf⟩ := Prog.bind_eq_ret h
  obtain ⟨hr, rfl⟩ := load_ret hload
  exact ⟨r, hr, hf⟩

/-- A program that loads a record and looks at it. -/
theorem load_ite {α : Type} {a : Nat} {c : ForkProcess → Prop} [DecidablePred c]
    {f g : ForkProcess → ForkM α} {p : α}
    (h : (load a >>= fun r => if c r then f r else g r) m = .ret p m') :
    ∃ r, m.heap a = some r ∧ (c r ∧ f r m = .ret p m' ∨ ¬ c r ∧ g r m = .ret p m') := by
  obtain ⟨r, hr, h⟩ := load_bind h
  rw [Prog.ite_apply] at h
  split at h
  · rename_i hc
    exact ⟨r, hr, .inl ⟨hc, h⟩⟩
  · rename_i hc
    exact ⟨r, hr, .inr ⟨hc, h⟩⟩

theorem ctorFork_constructs {a : Nat} {o : Owner} {p : Point} (h : ctorFork ret a o m = .ret p m') :
    Constructs ret m (.fork a o) p m' := by
  obtain ⟨r, hr, h⟩ := load_bind h
  rw [Prog.bind_apply, store_of_some hr, Outcome.andThen_ret, Prog.ite_apply] at h
  rcases Int.lt_trichotomy ret 0 with hlt | rfl | hgt
  · rw [if_neg (by omega), Prog.ite_apply, if_neg (by omega)] at h
    cases h
    exact .fork_failed o hr hlt
  · cases h
    exact .fork_child o hr rfl
  · rw [if_pos hgt] at h
    cases h
    exact .fork_parent o hr hgt

theorem ctorClear_constructs {a : Nat} {o : Owner} {p : Point} (hm : Listed m)
    (h : ctorClear a o m = .ret p m') : Constructs ret m (.clear a o) p m' := by
  rw [ctorClear, Prog.bind_apply, Prog.get_apply, Outcome.andThen_ret, Prog.bind_apply,
    clearLoop hm.chain hm.length_le, Outcome.andThen_ret, Prog.bind_apply, Prog.modify_apply,
    Outcome.andThen_ret] at h
  obtain ⟨r, hr, h⟩ := load_bind h
  -- the loop has deleted all records on the list, so the one just loaded was off it
  have hoff : a ∉ m.records := fun ha => by
    simp [Process.without, ha] at hr
  have hr' : m.heap a = some r := by simpa [Process.without, hoff] using hr
  have goal : Constructs ret m (.clear a o) (.made a o) _ := .clear o hr' hoff
  cases hk : r.kill_child with
  | false =>
      simp only [hk, Bool.false_eq_true, if_false] at h
      cases h
      simpa [hk, Process.without] using goal
  | true =>
      simp only [hk, if_true] at h
      cases h
      simpa [hk, Process.without] using goal

theorem ctorNext_constructs {a : Nat} {o : Owner} {p : Point} (h : ctorNext a o m = .ret p m') :
    Constructs ret m (.next a o) p m' := by
  obtain ⟨r, hr, h⟩ := load_bind h
  rw [Prog.bind_apply, Prog.get_apply, Outcome.andThen_ret, Prog.bind_apply, store_of_some hr,
    Outcome.andThen_ret] at h
  cases h
  exact .next o hr

theorem ctorMade_constructs {a : Nat} {o : Owner} {p : Point} (h : ctorMade a o m = .ret p m') :
    Constructs ret m (.made a o) p m' := by
  cases o with
  | fork =>
      cases h
      exact .made_fork a
  | user =>
      cases h
      exact .made_user a

theorem ctorInstall_constructs {a : Nat} {o : Owner} {p : Point} (h : ctorInstall a o m = .ret p m') :
    Constructs ret m (.install a o) p m' := by
  have goal : Constructs ret m (.install a o) _ _ := .install a o
  rw [ctorInstall, Prog.bind_apply, Prog.get_apply, Outcome.andThen_ret] at h
  by_cases hl : m.list = none
  · simp only [hl, if_true] at h
    cases h
    simpa [hl] using goal
  · simp only [hl, if_false] at h
    cases h
    simpa [hl] using goal

theorem dropFork_destroys {a : Nat} {p : Point} (h : dropFork a m = .ret p m') :
    Destroys ret m (.dropFork a) p m' := by
  obtain ⟨r, hr, h⟩ := load_bind h
  rw [Prog.bind_apply, Prog.modify_apply, Outcome.andThen_ret, Prog.ite_apply] at h
  split at h
  · rename_i hdead
    cases h
    exact .dropFork_dead hr hdead
  · rename_i hpos
    cases h
    exact .dropFork hr (by omega)

theorem dtor_destroys {a : Nat} {k : Return} {p : Point} (h : dtor a k m = .ret p m') :
    Destroys ret m (.dtor a k) p m' := by
  obtain ⟨r, hr, ⟨hpos, h⟩ | ⟨hdead, h⟩⟩ := load_ite h
  · rw [Prog.ite_apply] at h
    split at h
    · rename_i hkill
      cases h
      exact .dtor_kill k hr hpos hkill
    · rename_i hkill
      cases h
      exact .dtor_reap k hr hpos (by simpa using hkill)
  · rw [Prog.bind_apply, free_of_some hr, Outcome.andThen_ret] at h
    cases h
    exact .dtor_dead k hr (by omega)

theorem kill_process_destroys {a : Nat} {p : Point} (h : kill_process a m = .ret p m') :
    Destroys ret m (.kill_process a) p m' := by
  obtain ⟨r, hr, ⟨hpos, h⟩ | ⟨hdead, h⟩⟩ := load_ite h
  · cases h
    exact .kill_process hr hpos
  · cases h
    exact .kill_process_dead hr (by omega)

theorem reap_child_destroys {a : Nat} {c : Caller} {p : Point} (h : reap_child a c m = .ret p m') :
    Destroys ret m (.reap_child a c) p m' := by
  obtain ⟨r, hr, ⟨hpos, h⟩ | ⟨hdead, h⟩⟩ := load_ite h
  · cases h
    exact .reap c hr hpos
  · cases h
    exact .reap_dead c hr (by omega)

theorem waitpid_destroys {a : Nat} {pid : Int} {c : Caller} {p : Point}
    (h : waitpid ret a pid c m = .ret p m') : Destroys ret m (.waitpid a pid c) p m' := by
  rw [waitpid, Prog.ite_apply] at h
  split at h
  · rename_i hret
    rw [Prog.bind_apply, Prog.modify_apply, Outcome.andThen_ret] at h
    obtain ⟨r, hr, ⟨-, h⟩ | ⟨-, h⟩⟩ := load_ite h
    · obtain ⟨out, hout⟩ := infanticide_reason_ret pid { m with zombies := m.zombies.erase pid }
      rw [Prog.bind_apply, hout] at h
      cases h
      exact .waited pid c out hr hret
    · cases h
      exact .waited pid c m.cerr hr hret
  · rename_i hret
    cases h
    exact .not_waited a pid c hret

theorem search_unlinks {a : Nat} {k : Return} {q : Option Nat} {p : Point}
    (h : search a k q m = .ret p m') : Unlinks m (.search a k q) p m' := by
  cases q with
  | none =>
      obtain ⟨_, m₁, hfree, h⟩ := Prog.bind_eq_ret h
      obtain ⟨r, hr, rfl⟩ := free_ret hfree
      cases h
      exact .search_end k hr
  | some q =>
      obtain ⟨r, hr, ⟨hthis, h⟩ | ⟨hother, h⟩⟩ := load_ite h
      · cases h
        exact .search_found k hr hthis
      · cases h
        exact .search_on k hr hother

theorem unlinkHead_unlinks {a : Nat} {k : Return} {p : Point} (h : unlinkHead a k m = .ret p m') :
    Unlinks m (.unlinkHead a k) p m' := by
  rw [unlinkHead, Prog.bind_apply, Prog.get_apply, Outcome.andThen_ret] at h
  cases hl : m.list with
  | none =>
      rw [hl] at h
      cases h
  | some q =>
      rw [hl] at h
      obtain ⟨r, hr, h⟩ := load_bind h
      cases h
      exact .unlinkHead a k hl hr

theorem setList_unlinks {a : Nat} {k : Return} {q : Option Nat} {p : Point}
    (h : setList a k q m = .ret p m') : Unlinks m (.setList a k q) p m' := by
  rw [setList, Prog.bind_apply, Prog.modify_apply, Outcome.andThen_ret] at h
  obtain ⟨_, m₁, hfree, h⟩ := Prog.bind_eq_ret h
  obtain ⟨r, hr, rfl⟩ := free_ret hfree
  cases h
  exact .setList k q hr

theorem setNext_unlinks {a b : Nat} {k : Return} {q : Option Nat} {p : Point}
    (h : setNext a k b q m = .ret p m') : Unlinks m (.setNext a k b q) p m' := by
  obtain ⟨r, hr, h⟩ := load_bind h
  rw [Prog.bind_apply, store_of_some hr, Outcome.andThen_ret] at h
  obtain ⟨_, m₁, hfree, h⟩ := Prog.bind_eq_ret h
  obtain ⟨_, -, rfl⟩ := free_ret hfree
  cases h
  exact .setNext k q hr

theorem unlink_unlinks {a : Nat} {k : Return} {p : Point} (h : unlink a k m = .ret p m') :
    Unlinks m (.unlink a k) p m' := by
  rw [unlink, Prog.bind_apply, Prog.get_apply, Outcome.andThen_ret, Prog.ite_apply] at h
  split at h
  · rename_i hthis
    cases h
    exact .head k hthis
  · rename_i hother
    cases h
    exact .other k hother

theorem advance_unlinks {a q : Nat} {k : Return} {p : Point} (h : advance a k q m = .ret p m') :
    Unlinks m (.advance a k q) p m' := by
  obtain ⟨r, hr, h⟩ := load_bind h
  cases h
  exact .advance a k hr

theorem found_unlinks {a q : Nat} {k : Return} {p : Point} (h : found a k q m = .ret p m') :
    Unlinks m (.found a k q) p m' := by
  obtain ⟨r, hr, h⟩ := load_bind h
  cases h
  exact .found k q hr

theorem suicide_exits {q : Option Nat} {p : Point} (h : suicide q m = .ret p m') :
    Exits ret m (.suicide q) p m' := by
  cases q with
  | none =>
      cases h
      exact .suicide_end
  | some q =>
      obtain ⟨r, hr, ⟨hkill, h⟩ | ⟨hkill, h⟩⟩ := load_ite h
      · cases h
        exact .suicide_dtor hr hkill
      · cases h
        exact .suicide_kill hr (by simpa using hkill)

theorem killForks_exits {cur : Option Nat} {p : Point} (h : killForks cur m = .ret p m') :
    Exits ret m (.killForks cur) p m' := by
  cases cur with
  | none =>
      cases h
      exact .killForks_end
  | some c =>
      obtain ⟨r, hr, ⟨hkill, h⟩ | ⟨hkill, h⟩⟩ := load_ite h
      · cases h
        exact .killForks_dtor hr hkill
      · cases h
        exact .killForks_next hr (by simpa using hkill)

theorem killNext_exits {c : Nat} {p : Point} (h : killNext c m = .ret p m') :
    Exits ret m (.killNext c) p m' := by
  obtain ⟨r, hr, h⟩ := load_bind h
  cases h
  exact .killNext hr

theorem waitAll_exits {p : Point} (h : waitAll m = .ret p m') : Exits ret m .waitAll p m' := by
  rw [waitAll, Prog.bind_apply, Prog.get_apply, Outcome.andThen_ret, Prog.ite_apply] at h
  split at h
  · rename_i hnone
    cases h
    exact .waitAll_end hnone
  · rename_i hlist
    cases h
    exact .waitAll hlist

theorem wait_exits {p : Point} (h : wait ret m = .ret p m') : Exits ret m .wait p m' := by
  rw [wait, Prog.ite_apply] at h
  split at h
  · rename_i hpos
    cases h
    exact .wait hpos
  · rename_i hneg
    cases h
    exact .wait_end (by omega)

/-- **One step of the program**, where the list is a chain. -/
theorem go_goes {p : Point} (hm : Listed m) (hallows : m.pc.Allows m ret)
    (h : m.pc.run ret m = .ret p m') : Goes ret m m.pc p m' := by
  generalize m.pc = pc at hallows h ⊢
  cases pc with
  | idle => exact hallows.elim
  | exited => exact hallows.elim
  | install a o => exact .constructs (ctorInstall_constructs h)
  | fork a o => exact .constructs (ctorFork_constructs h)
  | next a o => exact .constructs (ctorNext_constructs h)
  | link a o =>
      cases h
      exact .constructs (.link a o)
  | clear a o => exact .constructs (ctorClear_constructs hm h)
  | made a o => exact .constructs (ctorMade_constructs h)
  | dropFork a => exact .destroys (dropFork_destroys h)
  | dtor a k => exact .destroys (dtor_destroys h)
  | kill_process a => exact .destroys (kill_process_destroys h)
  | kill a pid c =>
      cases h
      exact .destroys (.kill a pid c)
  | reap_child a c => exact .destroys (reap_child_destroys h)
  | waitpid a pid c => exact .destroys (waitpid_destroys h)
  | unlink a k => exact .unlinks (unlink_unlinks h)
  | unlinkHead a k => exact .unlinks (unlinkHead_unlinks h)
  | setList a k q => exact .unlinks (setList_unlinks h)
  | searchList a k =>
      cases h
      exact .unlinks (.searchList a k)
  | search a k q => exact .unlinks (search_unlinks h)
  | advance a k q => exact .unlinks (advance_unlinks h)
  | found a k q => exact .unlinks (found_unlinks h)
  | setNext a k b q => exact .unlinks (setNext_unlinks h)
  | suicide p => exact .exits (suicide_exits h)
  | suicideKill p pid q =>
      cases h
      exact .exits (.suicideKill p pid q)
  | killForks cur => exact .exits (killForks_exits h)
  | killNext c => exact .exits (killNext_exits h)
  | waitAll => exact .exits (waitAll_exits h)
  | wait => exact .exits (wait_exits h)

theorem exec_go {u : Unit} (hm : Listed m) (hallows : m.pc.Allows m ret)
    (h : (Event.go ret).exec m = .ret u m') :
    ∃ p m₁, Goes ret m m.pc p m₁ ∧ m' = { m₁ with pc := p } := by
  rw [Event.exec, Prog.bind_apply, Prog.get_apply, Outcome.andThen_ret] at h
  obtain ⟨p, m₁, hrun, h⟩ := Prog.bind_eq_ret h
  cases h
  exact ⟨p, m₁, go_goes hm hallows hrun, rfl⟩

/-- The events that only look at a record change nothing. -/
theorem exec_looks {e : Event} {a : Nat} {u : Unit}
    (he : e = .is_child a ∨ e = .is_parent a ∨ e = .process_id a) (h : e.exec m = .ret u m') :
    m' = m := by
  rcases he with rfl | rfl | rfl
  all_goals
    obtain ⟨_, m₁, hload, h⟩ := Prog.bind_eq_ret h
    obtain ⟨r, -, hload⟩ := load_bind hload
    cases hload
    cases h
    rfl

/-! ### The handler -/

/-- The handler goes on, and leaves the second state. -/
inductive Reaps (ret : Int) (m : Process) : Handler → Option Handler → Process → Prop where
  | waited (zombie : 0 < ret) :
      Reaps ret m .waitpid (some (.remove ret)) { m with zombies := m.zombies.erase ret }
  | no_zombie (nothing : ret ≤ 0) : Reaps ret m .waitpid none m
  | remove {wpid : Int} {v : Nat} {m' : Process} (found : m.victim wpid = some v)
      (off : Unlinked m v m') : Reaps ret m (.remove wpid) none m'
  | stranger {wpid : Int} (unknown : m.victim wpid = none) : Reaps ret m (.remove wpid) none m

/-- **One step of the handler** never fails where the list is a chain. -/
theorem handler_reaps (hm : Listed m) (h : Handler) :
    ∃ h' m', h.run ret m = .ret h' m' ∧ Reaps ret m h h' m' := by
  cases h with
  | waitpid =>
      by_cases hpos : 0 < ret
      · exact ⟨_, _, by simp only [Handler.run, hpos, if_true]; rfl, .waited hpos⟩
      · exact ⟨_, _, by simp only [Handler.run, hpos, if_false]; rfl, .no_zombie (by omega)⟩
  | remove wpid =>
      rcases remove_ret hm wpid with ⟨hnone, hrun⟩ | ⟨v, m', hsome, hrun, hoff⟩
      · refine ⟨none, m, ?_, .stranger hnone⟩
        rw [Handler.run, Prog.bind_apply, hrun]
        rfl
      · refine ⟨none, m', ?_, .remove hsome hoff⟩
        rw [Handler.run, Prog.bind_apply, hrun]
        rfl

theorem exec_handle (hm : Listed m) {h : Handler} (hh : m.handler = some h) (ret : Int) :
    ∃ h' m₁, Reaps ret m h h' m₁ ∧
      (Event.handle ret).exec m = .ret () { m₁ with handler := h', blocked := h'.isSome } := by
  obtain ⟨h', m₁, hrun, hreaps⟩ : ∃ h' m₁, h.run ret m = .ret h' m₁ ∧ Reaps ret m h h' m₁ :=
    handler_reaps hm h
  refine ⟨h', m₁, hreaps, ?_⟩
  rw [Event.exec, Prog.bind_apply, Prog.get_apply, Outcome.andThen_ret, hh]
  simp only [Prog.bind_apply, hrun, Outcome.andThen_ret, Prog.modify_apply]

end Fork

end Socketpp
