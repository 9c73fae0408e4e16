import Socketpp.Sockbuf.Gates

/-!
# Sockbuf — the calls beside the stream

`sockbuf::read`, `recv`, `recvfrom`, `recvmsg`, `write`, `send`, `sendto` and `sendmsg` go to the kernel
directly and leave the two areas alone.  `SocketKernel` adds what they call to a kernel; addresses
(`sockAddr`) and messages (`msghdr`) are of any type, as no method of sockbuf looks into them.

`Wire` is a sockbuf with its kernel and all calls that it has made, in one list.  A method that is a
program over `Proc Sockbuf κ` is run there with a list of its own, which is then appended (`inside`).
-/

namespace Socketpp
open Lib

/-- A kernel with the calls for messages. -/
structure SocketKernel (α μ κ : Type) extends SendKernel κ where
  recv     : κ → (fd : Int) → (len : Nat) → (msgf : Int) → ReadResult len × κ
  recvfrom : κ → (fd : Int) → (sa : α) → (len : Nat) → (msgf : Int) → ReadResult len × α × κ
  recvmsg  : κ → (fd : Int) → (msg : μ) → (msgf : Int) → Except Int (Nat × μ) × κ
  sendto   : κ → (fd : Int) → (bs : List Byte) → (msgf : Int) → (sa : α) → WriteResult bs.length × κ
  sendmsg  : κ → (fd : Int) → (msg : μ) → (msgf : Int) → Except Int Nat × κ

/-- A call made by a sockbuf, with what it gave. -/
inductive WireCall (α μ : Type) where
  | sys (c : Syscall)
  | recv (fd : Int) (len : Nat) (msgf : Int) (received : Option (List Byte))
  | recvfrom (fd : Int) (sa : α) (len : Nat) (msgf : Int) (received : Option (List Byte × α))
  | recvmsg (fd : Int) (msg : μ) (msgf : Int) (received : Option (Nat × μ))
  | send (c : SendCall)
  | sendto (sa : α) (c : SendCall)
  | sendmsg (fd : Int) (msg : μ) (msgf : Int) (sent : Option Nat)

def ReadResult.toExcept {len : Nat} : ReadResult len → Except Int (List Byte)
  | .data bs _ _ => .ok bs
  | .eof         => .ok []
  | .failed e    => .error e

namespace Sockbuf

variable {α μ κ β : Type}

/-- A sockbuf, its kernel, `errno`, the calls made so far, and the bytes stored through the pointers that
the callers of its methods have passed. -/
structure Wire (α μ κ : Type) where
  obj   : Sockbuf
  kern  : κ
  errno : Int
  calls : List (WireCall α μ)
  dst   : List Byte

abbrev WireM (α μ κ : Type) := Prog Thrown (Wire α μ κ)

namespace Wire

/-- The sockbuf with a list of calls of its own. -/
def proc (w : Wire α μ κ) : Proc Sockbuf κ := ⟨w.obj, w.kern, w.errno, []⟩

/-- Behind the calls in `s`. -/
def behind (s : Proc Sockbuf κ) (w : Wire α μ κ) : Wire α μ κ :=
  { w with obj := s.obj, kern := s.sys.kern, errno := s.sys.errno
           calls := w.calls ++ s.sys.trace.map .sys }

/-- Run a method that makes no other calls. -/
def inside (p : SockM κ β) : WireM α μ κ β := Prog.zoom proc behind p

/-- The same for a method that stores through its caller's pointer. -/
def getting (p : Prog Thrown (Getting κ) β) : WireM α μ κ β :=
  Prog.zoom (fun w => ⟨w.proc, w.dst⟩) (fun t w => { w.behind t.proc with dst := t.dst }) p

/-- The same for `send`, whose other calls come after the wait. -/
def sending (p : Prog Thrown (Sender κ) β) : WireM α μ κ β :=
  Prog.zoom (fun w => ⟨w.proc, []⟩)
    (fun t w => { w.behind t.proc with calls := (w.behind t.proc).calls ++ t.sends.map .send }) p

/-- Make a call on the descriptor of the sockbuf. -/
def ask (c : κ → (fd : Int) → Except Int β × κ) (entry : (fd : Int) → Option β → WireCall α μ) :
    WireM α μ κ (Option β) := fun w =>
  match c w.kern w.obj.rep.sock with
  | (.ok b, k)    => .ret (some b) { w with kern := k, calls := w.calls ++ [entry w.obj.rep.sock (some b)] }
  | (.error e, k) =>
    .ret none { w with kern := k, errno := e, calls := w.calls ++ [entry w.obj.rep.sock none] }

/-- Store through the caller's pointer. -/
def store (bs : List Byte) (w : Wire α μ κ) : Wire α μ κ := { w with dst := w.dst ++ bs }

variable (N : SocketKernel α μ κ)

/-! ### Input -/

/-- What `recv`, `recvfrom` and `recvmsg` have in common: `rval`, which is -1 where the call fails. -/
def receive (operation : String) (c : κ → Int → Except Int β × κ) (entry : Int → Option β → WireCall α μ) :
    WireM α μ κ β := do
  inside (guardRead operation N.toKernel)
  let rval ← ask c entry
  inside (checked operation rval)

/-- `read (buf, len)`. -/
def read (len : Nat) : WireM α μ κ Nat := do
  let bs ← inside (Sockbuf.read N.toKernel len)
  modify (store bs)
  return bs.length

def recv (len : Nat) (msgf : Int) : WireM α μ κ Nat := do
  let bs ← receive N "sockbuf::recv"
    (fun k fd => ((N.recv k fd len msgf).1.toExcept, (N.recv k fd len msgf).2))
    (fun fd r => .recv fd len msgf r)
  modify (store bs)
  return bs.length

/-- The address is that of the sender. -/
def recvfrom (sa : α) (len : Nat) (msgf : Int) : WireM α μ κ (Nat × α) := do
  let (bs, sa') ← receive N "sockbuf::recvfrom"
    (fun k fd => ((N.recvfrom k fd sa len msgf).1.toExcept.map fun bs => (bs, (N.recvfrom k fd sa len msgf).2.1),
      (N.recvfrom k fd sa len msgf).2.2))
    (fun fd r => .recvfrom fd sa len msgf r)
  modify (store bs)
  return (bs.length, sa')

def recvmsg (msg : μ) (msgf : Int) : WireM α μ κ (Nat × μ) :=
  receive N "sockbuf::recvmsg" (fun k fd => N.recvmsg k fd msg msgf) fun fd r => .recvmsg fd msg msgf r

/-! ### Output -/

/-- `write (buf, len)`. -/
def write (buf : Mem Byte) (len : Int) : WireM α μ κ Nat := inside (writeCounted N.toKernel buf len)

def send (buf : Mem Byte) (len msgf : Int) : WireM α μ κ Nat :=
  sending (Sockbuf.send N.toSendKernel buf len msgf)

/-- `::sendto`. -/
def callSendto (sa : α) (msgf : Int) (bs : List Byte) : WireM α μ κ (Option Nat) := fun w =>
  match N.sendto w.kern w.obj.rep.sock bs msgf sa with
  | (.accepted n _ _, k) => .ret (some n)
      { w with kern := k, calls := w.calls ++ [.sendto sa ⟨w.obj.rep.sock, bs, msgf, some n⟩] }
  | (.failed e, k) => .ret none
      { w with kern := k, errno := e, calls := w.calls ++ [.sendto sa ⟨w.obj.rep.sock, bs, msgf, none⟩] }

def sendto (sa : α) (buf : Mem Byte) (len msgf : Int) : WireM α μ κ Nat := do
  inside (awaitFor "sockbuf::sendto" N.toKernel)
  offerLoop (callSendto N sa msgf) .int buf len

/-- One call, for one message; a failure throws 0. -/
def sendmsg (msg : μ) (msgf : Int) : WireM α μ κ Nat := do
  inside (awaitFor "sockbuf::sendmsg" N.toKernel)
  match ← ask (fun k fd => N.sendmsg k fd msg msgf) (fun fd r => .sendmsg fd msg msgf r) with
  | none      => throw (.int 0)
  | some wlen => return wlen

end Wire

/-! ### The operations -/

/-- The operations of the stream, and those beside it. -/
inductive WireOp (α μ : Type) where
  | stream (op : SockOp)
  | read (len : Nat)
  | recv (len : Nat) (msgf : Int)
  | recvfrom (sa : α) (len : Nat) (msgf : Int)
  | recvmsg (msg : μ) (msgf : Int)
  | write (buf : Mem Byte) (len : Int)
  | send (buf : Mem Byte) (len msgf : Int)
  | sendto (sa : α) (buf : Mem Byte) (len msgf : Int)
  | sendmsg (msg : μ) (msgf : Int)

def WireOp.exec (N : SocketKernel α μ κ) : WireOp α μ → WireM α μ κ Int
  | .stream op                => Wire.getting (op.exec N.toKernel)
  | .read len                 => (fun n : Nat => (n : Int)) <$> Wire.read N len
  | .recv len msgf            => (fun n : Nat => (n : Int)) <$> Wire.recv N len msgf
  | .recvfrom sa len msgf     => (fun r : Nat × α => (r.1 : Int)) <$> Wire.recvfrom N sa len msgf
  | .recvmsg msg msgf         => (fun r : Nat × μ => (r.1 : Int)) <$> Wire.recvmsg N msg msgf
  | .write buf len            => (fun n : Nat => (n : Int)) <$> Wire.write N buf len
  | .send buf len msgf        => (fun n : Nat => (n : Int)) <$> Wire.send N buf len msgf
  | .sendto sa buf len msgf   => (fun n : Nat => (n : Int)) <$> Wire.sendto N sa buf len msgf
  | .sendmsg msg msgf         => (fun n : Nat => (n : Int)) <$> Wire.sendmsg N msg msgf

end Sockbuf

end Socketpp
