import Socketpp.Kernel
import Socketpp.Lib.StdList
import Socketpp.Sockbuf.Model

/-!
# Sig — the model

`sig.cpp`, function by function: the registry of signal handlers and the dispositions it keeps in
the kernel.  `η` is the type of the pointers to handlers, a null pointer is `none`; `object` says
which of them point to a handler that exists, and the signal it has been constructed for.

Each call to the system is answered by an environment, which may make it fail; the answers of
`sigaction`, `sigemptyset` and their like are all it decides.  `mask (signo)`, `unmask (signo)` and
the queries for pending signals touch neither the registry nor a disposition, and are not part of
this model.

The `operator()` of a handler is a `Behaviour`: any list of operations on the registry, chosen by
all there is to see.
-/

namespace Socketpp
open Lib

/-- What a signal does to the process: `SIG_DFL`, the function `sighandler`, or something else. -/
inductive Disposition where
  | sig_dfl
  | sighandler
  | other (address : Nat)
deriving DecidableEq

/-- `sigset_t`. -/
abbrev Sigset := Int → Bool

/-- `struct sigaction`. -/
structure Sigaction where
  sa_handler : Disposition
  sa_mask    : Sigset
  sa_flags   : BitVec 32

/-- A `struct sigaction` with the given handler, an empty mask and no flags. -/
def Sigaction.plain (d : Disposition) : Sigaction := ⟨d, fun _ => false, 0⟩

def SIGKILL : Int := 9

def SIGSTOP : Int := 19

/-- A signal that can be blocked. -/
def blockable (signo : Int) : Bool := signo ≠ SIGKILL && signo ≠ SIGSTOP

/-- What `sigaction` stores: it takes the signals that cannot be blocked out of `sa_mask`, and reports no
error. -/
def Sigaction.stored (sa : Sigaction) : Sigaction :=
  { sa with sa_mask := fun signo => sa.sa_mask signo && blockable signo }

/-- What the build has found: `HAVE_SIGACTION`, and the value of `SA_INTERRUPT` where there is
one. -/
structure Platform where
  haveSigaction : Bool
  saInterrupt   : Option (BitVec 32)

/-- The answers to system calls: `none` is success, `some e` is -1 with `errno` set to `e`. -/
abbrev Env (κ : Type) := κ → Option Int × κ

/-- No system call fails. -/
def Env.Succeeds {κ : Type} (E : Env κ) : Prop := ∀ k, (E k).1 = none

/-- The registry, the handlers, and the dispositions in the kernel.  `smap [signo]` makes an empty
list where there is none, so every signal has a list. -/
structure Sig (η κ : Type) where
  smap   : Int → StdList η
  object : η → Option Int
  action : Int → Sigaction
  sys    : κ

abbrev SigM (η κ : Type) := Prog Thrown (Sig η κ)

namespace Sig

variable {η κ : Type}

/-- The handlers registered for `signo`, in their order. -/
def members (s : Sig η κ) (signo : Int) : List η := (s.smap signo).vals

/-- Change the list of `signo`. -/
def onList (signo : Int) (f : StdList η → StdList η) (s : Sig η κ) : Sig η κ :=
  { s with smap := Function.update s.smap signo (f (s.smap signo)) }

/-- A system call that changes nothing; -1 is thrown. -/
def syscall (E : Env κ) (operation specification : String) : SigM η κ Unit := fun s =>
  match E s.sys with
  | (none, k)   => .ret () { s with sys := k }
  | (some e, k) => .thrown (.err e operation specification) { s with sys := k }

/-- `sigaction (signo, 0, &sa)`. -/
def getAction (E : Env κ) (signo : Int) (operation : String) : SigM η κ Sigaction := do
  syscall E operation ""
  return (← get).action signo

/-- `sigaction (signo, &sa, 0)`. -/
def setAction (E : Env κ) (signo : Int) (sa : Sigaction) (operation specification : String) :
    SigM η κ Unit := do
  syscall E operation specification
  modify fun s => { s with action := Function.update s.action signo sa.stored }

/-- `signal (signo, d)`, whose return value is not looked at. -/
def signal (E : Env κ) (signo : Int) (d : Disposition) : SigM η κ Unit := fun s =>
  match E s.sys with
  | (none, k)   => .ret () { s with
      sys := k
      action := Function.update s.action signo { s.action signo with sa_handler := d } }
  | (some _, k) => .ret () { s with sys := k }

/-! ### The registry -/

/-- The installation of `sighandler` in `set`. -/
def install (P : Platform) (E : Env κ) (signo : Int) : SigM η κ Unit :=
  if P.haveSigaction then do
    let sa ← getAction E signo "sig::set"
    if sa.sa_handler ≠ .sighandler then do
      syscall E "sig::set" "sigemptyset() call failed"
      setAction E signo (Sigaction.plain .sighandler) "sig::set" "sigaction() call failed"
    else return ()
  else signal E signo .sighandler

def set [DecidableEq η] (P : Platform) (E : Env κ) (signo : Int) : Option η → SigM η κ Bool
  | none         => return false
  | some handler => do
    let v := (← get).smap signo
    if v.cells.isEmpty then do
      install P E signo
      modify (onList signo fun v => v.pushBack handler)
      return true
    else
      match v.find handler with
      | none   => do
        modify (onList signo fun v => v.pushBack handler)
        return true
      | some _ => return false

def unset [DecidableEq η] (signo : Int) : Option η → SigM η κ Bool
  | none         => return false
  | some handler => do
    match ((← get).smap signo).find handler with
    | some j => do
      modify (onList signo fun v => v.erase j.id)
      return true
    | none   => return false

def unbind (P : Platform) (E : Env κ) (signo : Int) : SigM η κ Unit := do
  modify (onList signo StdList.clear)
  if P.haveSigaction then do
    let sa ← getAction E signo "sig::unbind"
    if sa.sa_handler = .sighandler then do
      syscall E "sig::unbind" ""
      setAction E signo (Sigaction.plain .sig_dfl) "sig::unbind" ""
    else return ()
  else signal E signo .sig_dfl

/-- `handler (signo)`, for the object at `h`. -/
def construct [DecidableEq η] (P : Platform) (E : Env κ) (h : η) (signo : Int) : SigM η κ Unit := do
  let _ ← set P E signo (some h)
  modify fun s => { s with object := Function.update s.object h (some signo) }

/-- `~handler ()`, for the object at `h`, if there is one. -/
def destroy [DecidableEq η] (h : η) : SigM η κ Unit := do
  match (← get).object h with
  | none       => return ()
  | some signo => do
    let _ ← unset signo (some h)
    modify fun s => { s with object := Function.update s.object h none }

/-! ### Masks and flags -/

/-- The branch that starts `mask`, `unmask` and `sysresume`: a disposition that is not ours is
replaced, with our own the function goes on as `ours`. -/
def takeOver (E : Env κ) (operation : String) (sa : Sigaction) (ours : SigM η κ Sigaction) :
    SigM η κ Sigaction :=
  if sa.sa_handler ≠ .sighandler then do
    syscall E operation ""
    return Sigaction.plain .sighandler
  else ours

/-- `mask (siga, sigb)`. -/
def mask (E : Env κ) (siga sigb : Int) : SigM η κ Unit := do
  let sa ← getAction E siga "sig::mask"
  let sa ← takeOver E "sig::mask" sa (return sa)
  syscall E "sig::mask" ""
  setAction E siga { sa with sa_mask := Function.update sa.sa_mask sigb true } "sig::mask" ""

/-- `unmask (siga, sigb)`. -/
def unmask (E : Env κ) (siga sigb : Int) : SigM η κ Unit := do
  let sa ← getAction E siga "sig::unmask"
  let sa ← takeOver E "sig::unmask" sa do
    syscall E "sig::unmask" ""
    return { sa with sa_mask := Function.update sa.sa_mask sigb false }
  setAction E siga sa "sig::unmask" ""

def sysresume (P : Platform) (E : Env κ) (signo : Int) (set : Bool) : SigM η κ Unit := do
  let sa ← getAction E signo "sig::sysresume"
  let sa ← takeOver E "sig::sysresume" sa (return sa)
  match P.saInterrupt with
  | none      => return ()
  | some flag =>
    let flags := if set = false then sa.sa_flags ||| flag else sa.sa_flags &&& ~~~flag
    setAction E signo { sa with sa_flags := flags } "sig::sysresume" ""

/-! ### Operations -/

/-- The operations on the registry and the dispositions. -/
inductive Op (η : Type) where
  | set (signo : Int) (handler : Option η)
  | unset (signo : Int) (handler : Option η)
  | unbind (signo : Int)
  | construct (h : η) (signo : Int)
  | destroy (h : η)
  | mask (siga sigb : Int)
  | unmask (siga sigb : Int)
  | sysresume (signo : Int) (set : Bool)

def Op.exec [DecidableEq η] (P : Platform) (E : Env κ) : Op η → SigM η κ Unit
  | .set signo handler   => do
    let _ ← Sig.set P E signo handler
  | .unset signo handler => do
    let _ ← Sig.unset signo handler
  | .unbind signo        => Sig.unbind P E signo
  | .construct h signo   => Sig.construct P E h signo
  | .destroy h           => Sig.destroy h
  | .mask siga sigb      => Sig.mask E siga sigb
  | .unmask siga sigb    => Sig.unmask E siga sigb
  | .sysresume signo on  => Sig.sysresume P E signo on

/-! ### Delivery -/

/-- What the `operator()` of a handler does before it returns: operations on the registry, chosen
by the user's state, the registry, the handler and the signal. -/
abbrev Behaviour (η κ υ : Type) := υ → Sig η κ → η → Int → List (Op η) × υ

/-- A call `(*handler) (signo)`: whether the handler is registered for `signo` at that time, and
whether it exists. -/
structure Invocation (η : Type) where
  handler    : η
  registered : Bool
  alive      : Bool

/-- The registry, the user's state, and the calls made up to now. -/
structure Delivery (η κ υ : Type) where
  reg  : Sig η κ
  user : υ
  log  : List (Invocation η)

/-- The one thing `std::list` forbids. -/
inductive Misuse where
  /-- `++` on an iterator whose element has been erased -/
  | erased
deriving DecidableEq

abbrev KillM (η κ υ : Type) := Prog Misuse (Delivery η κ υ)

/-- Run the operations in turn; the handler catches what they throw. -/
def runOps [DecidableEq η] (P : Platform) (E : Env κ) : List (Op η) → Sig η κ → Sig η κ
  | [],        s => s
  | op :: ops, s =>
    match op.exec P E s with
    | .ret _ s'    => runOps P E ops s'
    | .thrown _ s' => runOps P E ops s'
    | .spin        => s

variable {υ : Type}

/-- `(*handler) (signo)`. -/
def Delivery.invoke [DecidableEq η] (P : Platform) (E : Env κ) (B : Behaviour η κ υ) (signo : Int)
    (h : η) (d : Delivery η κ υ) : Delivery η κ υ :=
  { reg  := runOps P E (B d.user d.reg h signo).1 d.reg
    user := (B d.user d.reg h signo).2
    log  := d.log ++ [⟨h, h ∈ d.reg.members signo, (d.reg.object h).isSome⟩] }

/-- The body of `for (phnd handler : v)` and the `++` behind it; the loop carries the iterator. -/
def killBody [DecidableEq η] (P : Platform) (E : Env κ) (B : Behaviour η κ υ) (signo : Int) :
    Option (Cell η) → KillM η κ υ (Option (Cell η) ⊕ Unit)
  | none   => return .inr ()
  | some c => do
    modify (Delivery.invoke P E B signo c.val)
    match ((← get).reg.smap signo).next c.id with
    | none   => throw .erased
    | some i => return .inl i

def kill [DecidableEq η] (P : Platform) (E : Env κ) (B : Behaviour η κ υ) (n : Nat) (signo : Int) :
    KillM η κ υ Unit := do
  let s ← get
  Prog.loop (killBody P E B signo) n (s.reg.smap signo).begin

end Sig

end Socketpp
