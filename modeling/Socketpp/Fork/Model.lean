import Socketpp.Lib.Chain
import Socketpp.Lib.Prog

/-!
# Fork — the model

`fork.cpp`, as it runs in one process.  A record is known by its address; no address is given
twice, and to use a record after it has been deleted is a fault.  At `fork` the model follows the
parent or the child: a child starts with the memory of its parent, and with no children.

Signals may arrive between any two steps of the program, so the program is a machine: a `Point` is
a place in the source, and `go` runs the code from there to the next.  Each point makes at most one
system call, whose return value is the argument of `go`; `Allows` says what the kernel may return.
While `reaper_nohang` runs, SIGCHLD is blocked and the program stands still; a SIGCHLD that comes
while one is pending is lost.  `commit_suicide` never returns, so it takes the place of what it
interrupts; `reaper_nohang` is installed with SA_RESTART, so no call is interrupted by it.

Between two points the program looks at `list` or at one record, or changes one of them, but for four
steps.  `list->next` is one step, as the record at the head is then the one whose destructor runs: its
child has been waited for, and `reaper_nohang` does not come to it.  The last store of the destructor
and the release of its record are one step: nobody else can reach the record then.  The loop in which a
child clears its list is one, and so is the removal in `reaper_nohang`: no SIGCHLD can come into them,
and a SIGTERM comes before or after.

What `infanticide_reason` writes is not modelled, only for which children it is called.
-/

namespace Socketpp
open Lib

namespace Fork

/-- The record of a child. -/
structure ForkProcess where
  pid        : Int
  kill_child : Bool
  reason     : Bool
  next       : Option Nat

inductive Signo where
  | sigkill
  | sigterm
deriving DecidableEq

/-- A call `kill (pid, signo)`, and whether `pid` was that of a child not yet waited for. -/
structure Kill where
  pid   : Int
  signo : Signo
  child : Bool

/-- Who has constructed a record: a `Fork`, which keeps it to itself, or the user. -/
inductive Owner where
  | fork
  | user
deriving DecidableEq

/-- Where `delete` returns to. -/
inductive Return where
  | main
  | commit_suicide (next : Option Nat)
  | killForks (cur : Nat)
deriving DecidableEq

/-- Who has called `kill` or `reap_child`. -/
inductive Caller where
  | dtor (k : Return)
  | kill_process
deriving DecidableEq

/-- The places in the source at which the program can stand. -/
inductive Point where
  | idle
  -- `ForkProcess (kill, give_reason)`
  | install (a : Nat) (o : Owner)
  | fork (a : Nat) (o : Owner)
  | next (a : Nat) (o : Owner)
  | link (a : Nat) (o : Owner)
  | clear (a : Nat) (o : Owner)
  | made (a : Nat) (o : Owner)
  -- `~Fork ()`
  | dropFork (a : Nat)
  -- `~ForkProcess ()`, `kill_process ()` and `reap_child ()`
  | dtor (a : Nat) (k : Return)
  | kill_process (a : Nat)
  | kill (a : Nat) (pid : Int) (c : Caller)
  | reap_child (a : Nat) (c : Caller)
  | waitpid (a : Nat) (pid : Int) (c : Caller)
  -- `~ForkProcess ()` from `if (list == this)` on
  | unlink (a : Nat) (k : Return)
  | unlinkHead (a : Nat) (k : Return)
  | setList (a : Nat) (k : Return) (next : Option Nat)
  | searchList (a : Nat) (k : Return)
  | search (a : Nat) (k : Return) (p : Option Nat)
  | advance (a : Nat) (k : Return) (p : Nat)
  | found (a : Nat) (k : Return) (p : Nat)
  | setNext (a : Nat) (k : Return) (p : Nat) (next : Option Nat)
  -- `commit_suicide ()`
  | suicide (p : Option Nat)
  | suicideKill (p : Nat) (pid : Int) (next : Option Nat)
  -- `~KillForks ()`
  | killForks (cur : Option Nat)
  | killNext (cur : Nat)
  | waitAll
  | wait
  | exited
deriving DecidableEq

/-- The places in `reaper_nohang`. -/
inductive Handler where
  | waitpid
  | remove (wpid : Int)
deriving DecidableEq

/-- A process: its records and the objects that use them, where it stands, and its part of the
kernel. -/
structure Process where
  heap    : Nat → Option ForkProcess
  fresh   : Nat
  list    : Option Nat
  /-- the `Fork` objects that exist, by the records they point to -/
  forks   : List Nat
  /-- the records the user has constructed, and not deleted -/
  objects : List Nat
  pc      : Point
  /-- where `reaper_nohang` stands, if it runs -/
  handler : Option Handler
  /-- SIGCHLD is blocked -/
  blocked : Bool
  running : List Int
  zombies : List Int
  /-- a SIGCHLD is pending -/
  pending : Bool
  /-- SIGCHLD has `reaper_nohang` as its handler -/
  sigchld : Bool
  /-- a signal has `commit_suicide` as its handler -/
  sigterm : Bool
  kills   : List Kill
  /-- the children whose end has been reported -/
  cerr    : List Int

/-- What the language forbids. -/
inductive Fault where
  | freed
  | null
deriving DecidableEq

abbrev ForkM := Prog Fault Process

namespace Process

/-- The children not yet waited for. -/
def children (m : Process) : List Int := m.running ++ m.zombies

/-- The link of the record at `a`. -/
def link (m : Process) (a : Nat) : Option (Option Nat) := (m.heap a).map ForkProcess.next

/-- The records on the list. -/
def records (m : Process) : List Nat := walk m.link m.fresh m.list

/-- The pid in the record at `a`. -/
def pid (m : Process) (a : Nat) : Option Int := (m.heap a).map ForkProcess.pid

/-- The record that `reaper_nohang` finds for `wpid`. -/
def victim (m : Process) (wpid : Int) : Option Nat := m.records.find? fun a => m.pid a = some wpid

end Process

/-! ### Memory -/

def load (a : Nat) : ForkM ForkProcess := fun m =>
  match m.heap a with
  | some r => .ret r m
  | none   => .thrown .freed m

def store (a : Nat) (r : ForkProcess) : ForkM Unit := do
  let _ ← load a
  modify fun m => { m with heap := Function.update m.heap a (some r) }

def free (a : Nat) : ForkM Unit := do
  let _ ← load a
  modify fun m => { m with heap := Function.update m.heap a none }

/-- `list = list->next`. -/
def popList : ForkM Unit := do
  match (← get).list with
  | none   => throw .null
  | some p => do
    let r ← load p
    modify fun m => { m with list := r.next }

/-- `infanticide_reason (pid, status)`. -/
def infanticide_reason (pid : Int) : ForkM Unit :=
  if 0 < pid then modify fun m => { m with cerr := m.cerr ++ [pid] } else return ()

/-- `kill (pid, signo)`. -/
def callKill (pid : Int) (signo : Signo) : ForkM Unit :=
  modify fun m => { m with kills := m.kills ++ [⟨pid, signo, pid ∈ m.children⟩] }

/-! ### The constructor -/

/-- `new ForkProcess (kill, give_reason)`, up to the body of the constructor; `pid` has no value
yet, and nothing reads it. -/
def new (o : Owner) (kill give_reason : Bool) : ForkM Unit :=
  modify fun m => { m with
    heap  := Function.update m.heap m.fresh (some ⟨0, kill, give_reason, none⟩)
    fresh := m.fresh + 1
    pc    := .install m.fresh o }

def ctorInstall (a : Nat) (o : Owner) : ForkM Point := do
  if (← get).list = none then modify fun m => { m with sigchld := true }
  return .fork a o

def ctorFork (ret : Int) (a : Nat) (o : Owner) : ForkM Point := do
  let r ← load a
  store a { r with pid := ret }
  if 0 < ret then do
    modify fun m => { m with running := ret :: m.running }
    return .next a o
  else if ret = 0 then do
    modify fun m => { m with running := [], zombies := [], pending := false }
    return .clear a o
  else return .made a o

def ctorNext (a : Nat) (o : Owner) : ForkM Point := do
  let r ← load a
  store a { r with next := (← get).list }
  return .link a o

def ctorLink (a : Nat) (o : Owner) : ForkM Point := do
  modify fun m => { m with list := some a }
  return .made a o

/-- The body of `while (p)` in the branch of the child; the destructor does nothing for a `pid`
of 0. -/
def clearBody : Option Nat → ForkM (Option Nat ⊕ Unit)
  | none   => return .inr ()
  | some p => do
    let r ← load p
    store p { r with pid := 0 }
    free p
    return .inl r.next

def ctorClear (a : Nat) (o : Owner) : ForkM Point := do
  let m ← get
  Prog.loop clearBody (m.fresh + 1) m.list
  modify fun m => { m with list := none }
  if (← load a).kill_child then modify fun m => { m with sigterm := true }
  return .made a o

def ctorMade (a : Nat) : Owner → ForkM Point
  | .fork => do
    modify fun m => { m with forks := a :: m.forks }
    return .idle
  | .user => do
    modify fun m => { m with objects := a :: m.objects }
    return .idle

/-! ### The destructors, and what they call -/

def Return.point : Return → Point
  | .main                => .idle
  | .commit_suicide next => .suicide next
  | .killForks cur       => .killNext cur

def Caller.signo : Caller → Signo
  | .dtor _       => .sigterm
  | .kill_process => .sigkill

/-- Where `reap_child` returns to. -/
def Caller.point (a : Nat) : Caller → Point
  | .dtor k       => .unlink a k
  | .kill_process => .idle

/-- `delete` of the record at `a`, up to the first system call. -/
def dtor (a : Nat) (k : Return) : ForkM Point := do
  let r ← load a
  if 0 < r.pid then
    if r.kill_child then return .kill a r.pid (.dtor k) else return .reap_child a (.dtor k)
  else do
    free a
    return k.point

def kill_process (a : Nat) : ForkM Point := do
  let r ← load a
  if 0 < r.pid then return .kill a r.pid .kill_process else return .idle

def reap_child (a : Nat) (c : Caller) : ForkM Point := do
  let r ← load a
  if 0 < r.pid then return .waitpid a r.pid c else return c.point a

def waitpid (ret : Int) (a : Nat) (pid : Int) (c : Caller) : ForkM Point := do
  if ret = pid then do
    modify fun m => { m with zombies := m.zombies.erase pid }
    if (← load a).reason then infanticide_reason pid
  return c.point a

/-- `if (list == this)`. -/
def unlink (a : Nat) (k : Return) : ForkM Point := do
  if (← get).list = some a then return .unlinkHead a k else return .searchList a k

/-- `list->next`. -/
def unlinkHead (a : Nat) (k : Return) : ForkM Point := do
  match (← get).list with
  | none   => throw .null
  | some p => return .setList a k (← load p).next

/-- `list = list->next`, and the end of the destructor. -/
def setList (a : Nat) (k : Return) (next : Option Nat) : ForkM Point := do
  modify fun m => { m with list := next }
  free a
  return k.point

/-- `p = list`. -/
def searchList (a : Nat) (k : Return) : ForkM Point := do
  return .search a k (← get).list

/-- `p` and `p->next == this`; the destructor ends where there is no `p`. -/
def search (a : Nat) (k : Return) : Option Nat → ForkM Point
  | none   => do
    free a
    return k.point
  | some p => do
    if (← load p).next = some a then return .found a k p else return .advance a k p

/-- `p = p->next`. -/
def advance (a : Nat) (k : Return) (p : Nat) : ForkM Point := do
  return .search a k (← load p).next

/-- `next`, which is that of the record to be deleted. -/
def found (a : Nat) (k : Return) (p : Nat) : ForkM Point := do
  return .setNext a k p (← load a).next

/-- `p->next = next`, and the end of the destructor. -/
def setNext (a : Nat) (k : Return) (p : Nat) (next : Option Nat) : ForkM Point := do
  let r ← load p
  store p { r with next }
  free a
  return k.point

/-- `~Fork ()`. -/
def dropFork (a : Nat) : ForkM Point := do
  let r ← load a
  modify fun m => { m with forks := m.forks.erase a }
  if r.pid ≤ 0 then return .dtor a .main else return .idle

def is_child (a : Nat) : ForkM Bool := do
  return (← load a).pid = 0

def is_parent (a : Nat) : ForkM Bool := do
  return 0 < (← load a).pid

def process_id (a : Nat) : ForkM Int := do
  return (← load a).pid

/-! ### `reaper_nohang` -/

/-- The body of `while (cur)`; the loop carries `prev` and `cur`. -/
def removeBody (wpid : Int) :
    Option Nat × Option Nat → ForkM ((Option Nat × Option Nat) ⊕ Unit)
  | (_, none)        => return .inr ()
  | (prev, some cur) => do
    let r ← load cur
    if r.pid = wpid then do
      store cur { r with pid := -1 }
      match prev with
      | some p => do
        let q ← load p
        store p { q with next := r.next }
      | none   => popList
      if r.reason then infanticide_reason wpid
      free cur
      return .inr ()
    else return .inl (some cur, r.next)

def remove (wpid : Int) : ForkM Unit := do
  let m ← get
  Prog.loop (removeBody wpid) (m.fresh + 1) (none, m.list)

/-! ### `commit_suicide` and `~KillForks` -/

def suicide : Option Nat → ForkM Point
  | none   => return .killForks (← get).list
  | some p => do
    let r ← load p
    if r.kill_child then return .dtor p (.commit_suicide r.next)
    else return .suicideKill p r.pid r.next

def suicideKill (p : Nat) (pid : Int) (next : Option Nat) : ForkM Point := do
  callKill pid .sigkill
  return .dtor p (.commit_suicide next)

def killForks : Option Nat → ForkM Point
  | none     => return .waitAll
  | some cur => do
    if (← load cur).kill_child then return .dtor cur (.killForks cur) else return .killNext cur

def killNext (cur : Nat) : ForkM Point := do
  return .killForks (← load cur).next

/-- `list`, of `while (list && wait (0) > 0)`. -/
def waitAll : ForkM Point := do
  if (← get).list = none then return .exited else return .wait

/-- `wait (0) > 0`. -/
def wait (ret : Int) : ForkM Point := do
  if 0 < ret then do
    modify fun m => { m with zombies := m.zombies.erase ret }
    return .waitAll
  else return .exited

/-! ### The machine -/

/-- Run the program from a point to the next. -/
def Point.run (ret : Int) : Point → ForkM Point
  | .idle                     => return .idle
  | .install a o              => ctorInstall a o
  | .fork a o                 => ctorFork ret a o
  | .next a o                 => ctorNext a o
  | .link a o                 => ctorLink a o
  | .clear a o                => ctorClear a o
  | .made a o                 => ctorMade a o
  | .dropFork a               => Fork.dropFork a
  | .dtor a k                 => Fork.dtor a k
  | .kill_process a           => Fork.kill_process a
  | .kill a pid c             => do
    callKill pid c.signo
    return .reap_child a c
  | .reap_child a c           => Fork.reap_child a c
  | .waitpid a pid c          => Fork.waitpid ret a pid c
  | .unlink a k               => Fork.unlink a k
  | .unlinkHead a k           => Fork.unlinkHead a k
  | .setList a k q            => Fork.setList a k q
  | .searchList a k           => Fork.searchList a k
  | .search a k p             => Fork.search a k p
  | .advance a k p            => Fork.advance a k p
  | .found a k p              => Fork.found a k p
  | .setNext a k p q          => Fork.setNext a k p q
  | .suicide p                => Fork.suicide p
  | .suicideKill p pid q      => Fork.suicideKill p pid q
  | .killForks cur            => Fork.killForks cur
  | .killNext cur             => Fork.killNext cur
  | .waitAll                  => Fork.waitAll
  | .wait                     => Fork.wait ret
  | .exited                   => return .exited

/-- The steps of the handler. -/
def Handler.run (ret : Int) : Handler → ForkM (Option Handler)
  | .waitpid     =>
    if 0 < ret then do
      modify fun m => { m with zombies := m.zombies.erase ret }
      return some (.remove ret)
    else return none
  | .remove wpid => do
    Fork.remove wpid
    return none

/-- What can happen: the program calls a function of the library, a child ends, a signal arrives,
or what runs goes on. -/
inductive Event where
  | newFork (kill reason : Bool)
  | newProcess (kill give_reason : Bool)
  | dropFork (a : Nat)
  | is_child (a : Nat)
  | is_parent (a : Nat)
  | process_id (a : Nat)
  | delete (a : Nat)
  | kill_process (a : Nat)
  | suicide_signal
  | commit_suicide
  | exit
  | sigterm
  | dies (pid : Int)
  | sigchld
  | go (ret : Int)
  | handle (ret : Int)
deriving DecidableEq

/-- What the kernel may return to the system call at a point. -/
def Point.Allows (m : Process) (ret : Int) : Point → Prop
  | .idle | .exited  => False
  | .fork _ _        => (0 < ret ∧ ret ∉ m.children) ∨ ret = 0 ∨ ret = -1
  | .waitpid _ pid _ => (ret = pid ∧ pid ∈ m.zombies) ∨ (ret = -1 ∧ pid ∉ m.children)
  | .wait            => ret ∈ m.zombies ∨ (ret = -1 ∧ m.children = [])
  | _                => True

def Handler.Allows (m : Process) (ret : Int) : Handler → Prop
  | .waitpid  => ret ∈ m.zombies ∨ (ret ≤ 0 ∧ m.zombies = [])
  | .remove _ => True

/-- The program is outside of the library, and no handler runs. -/
def Process.Idle (m : Process) : Prop := m.pc = .idle ∧ m.handler = none

/-- What can happen in a state. -/
def Event.Enabled (m : Process) : Event → Prop
  | .newFork _ _ | .newProcess _ _ | .suicide_signal | .commit_suicide | .exit => m.Idle
  | .dropFork a | .is_child a | .is_parent a | .process_id a => m.Idle ∧ a ∈ m.forks
  | .delete a | .kill_process a => m.Idle ∧ a ∈ m.objects
  | .sigterm    => m.sigterm = true ∧ m.pc ≠ .exited
  | .dies pid   => pid ∈ m.running
  | .sigchld    => m.pending = true ∧ m.blocked = false ∧ m.sigchld = true ∧ m.pc ≠ .exited
  | .go ret     => m.handler = none ∧ m.pc.Allows m ret
  | .handle ret => ∃ h, m.handler = some h ∧ h.Allows m ret

def Event.exec : Event → ForkM Unit
  | .newFork kill reason         => new .fork kill reason
  | .newProcess kill give_reason => new .user kill give_reason
  | .dropFork a     => modify fun m => { m with pc := .dropFork a }
  | .is_child a     => do
    let _ ← Fork.is_child a
  | .is_parent a    => do
    let _ ← Fork.is_parent a
  | .process_id a   => do
    let _ ← Fork.process_id a
  | .delete a       => modify fun m => { m with
      objects := m.objects.erase a
      pc      := .dtor a .main }
  | .kill_process a => modify fun m => { m with pc := .kill_process a }
  | .suicide_signal => modify fun m => { m with sigterm := true }
  | .commit_suicide => modify fun m => { m with pc := .suicide m.list }
  | .exit           => modify fun m => { m with pc := .killForks m.list }
  | .sigterm        => modify fun m => { m with pc := .suicide m.list, handler := none }
  | .dies pid       => modify fun m => { m with
      running := m.running.erase pid
      zombies := m.zombies ++ [pid]
      pending := m.pending || m.sigchld }
  | .sigchld        => modify fun m => { m with
      pending := false
      blocked := true
      handler := some .waitpid }
  | .go ret         => do
    let p ← (← get).pc.run ret
    modify fun m => { m with pc := p }
  | .handle ret     => do
    match (← get).handler with
    | none   => return ()
    | some h => do
      let h' ← h.run ret
      modify fun m => { m with handler := h', blocked := h'.isSome }

/-- A run of the machine in which every step meets the condition `C`, on the events up to then, the
state and the event to come. -/
inductive Run (C : List Event → Process → Event → Prop) (m₀ : Process) :
    List Event → Process → Prop where
  | start : Run C m₀ [] m₀
  | step {es : List Event} {m m' : Process} {e : Event} (run : Run C m₀ es m)
      (enabled : e.Enabled m) (meets : C es m e) (ret : e.exec m = .ret () m') :
      Run C m₀ (es ++ [e]) m'

instance (m : Process) (ret : Int) (p : Point) : Decidable (p.Allows m ret) := by
  cases p <;> dsimp only [Point.Allows] <;> infer_instance

instance (m : Process) (ret : Int) (h : Handler) : Decidable (h.Allows m ret) := by
  cases h <;> dsimp only [Handler.Allows] <;> infer_instance

instance (m : Process) : Decidable m.Idle :=
  inferInstanceAs (Decidable (m.pc = .idle ∧ m.handler = none))

instance (m : Process) (e : Event) : Decidable (e.Enabled m) := by
  cases e with
  | handle ret =>
      cases hh : m.handler with
      | none => exact isFalse (by rintro ⟨h, h', -⟩; rw [hh] at h'; cases h')
      | some h =>
          exact decidable_of_iff (h.Allows m ret)
            ⟨fun ha => ⟨h, hh, ha⟩, fun ⟨_, hh', ha⟩ => by rw [hh] at hh'; cases hh'; exact ha⟩
  | _ => dsimp only [Event.Enabled]; infer_instance

/-- The state that the events lead to, if they can happen and none of them fails. -/
def follow : List Event → Process → Option Process
  | [],      m => some m
  | e :: es, m =>
    if e.Enabled m then
      match e.exec m with
      | .ret _ m' => follow es m'
      | _         => none
    else none

theorem Run.append {C : List Event → Process → Event → Prop} {m₀ : Process} :
    ∀ {es : List Event} {l : List Event} {m m' : Process}, Run C m₀ l m → follow es m = some m' →
      (∀ e ∈ es, ∀ l m, C l m e) → Run C m₀ (l ++ es) m' := by
  intro es
  induction es with
  | nil =>
      intro l m m' hrun hf _
      cases hf
      rwa [List.append_nil]
  | cons e es ih =>
      intro l m m' hrun hf hC
      rw [follow] at hf
      split at hf
      · rename_i hen
        split at hf
        · rename_i m₁ hexec
          have := ih (.step hrun hen (hC e List.mem_cons_self l m) hexec) hf
            fun e he => hC e (List.mem_cons_of_mem _ he)
          rwa [List.append_assoc, List.singleton_append] at this
        · cases hf
      · cases hf

theorem Run.of_follow {C : List Event → Process → Event → Prop} {m₀ m : Process} {es : List Event}
    (h : follow es m₀ = some m) (hC : ∀ e ∈ es, ∀ l m, C l m e) : Run C m₀ es m :=
  Run.append .start h hC

/-- Where the events lead to, if they can happen, none of them fails, and each meets the condition; `l` are
those before. -/
def check (C : List Event → Process → Event → Prop) [∀ l m e, Decidable (C l m e)] (l : List Event) :
    List Event → Process → Option Process
  | [],      m => some m
  | e :: es, m =>
    if e.Enabled m ∧ C l m e then
      match e.exec m with
      | .ret _ m' => check C (l ++ [e]) es m'
      | _         => none
    else none

theorem Run.of_check {C : List Event → Process → Event → Prop} [∀ l m e, Decidable (C l m e)]
    {m₀ : Process} : ∀ {es l : List Event} {m m' : Process}, Run C m₀ l m → check C l es m = some m' →
      Run C m₀ (l ++ es) m' := by
  intro es
  induction es with
  | nil =>
      intro l m m' hrun hc
      cases hc
      rwa [List.append_nil]
  | cons e es ih =>
      intro l m m' hrun hc
      rw [check] at hc
      split at hc
      · rename_i hen
        split at hc
        · rename_i m₁ hexec
          have := ih (.step hrun hen.1 hen.2 hexec) hc
          rwa [List.append_assoc, List.singleton_append] at this
        · cases hc
      · cases hc

/-- A process that has not used the library yet; it may have children of its own. -/
structure Process.Fresh (m : Process) : Prop where
  heap     : ∀ a, m.heap a = none
  list     : m.list = none
  forks    : m.forks = []
  objects  : m.objects = []
  idle     : m.Idle
  blocked  : m.blocked = false
  kills    : m.kills = []
  nodup    : m.children.Nodup
  positive : ∀ p ∈ m.children, 0 < p

end Fork

end Socketpp
