import Socketpp.Ftp.Model
import Socketpp.Sockinet.Model

/-!
# Ftp — the data connection

`ftpdata` and `useraddr`, function by function.  `ftpdata` has two sockbufs of its own, `sb`, on which it
listens, and `c`, the connection accepted; `Transfer` is the ftpbuf with them, with what is left in the
stream `i` and what has been written to the stream `o`.  `closed` lists the descriptors closed, each with
the calls made before.

Neither sockbuf is copied, so its destructor always finds `rep.use_count () == 1`.  It also runs where an
exception leaves its block (`inBlock`).  A destructor is `noexcept`: one that throws ends the program, and
no other destructor runs.
-/

namespace Socketpp
open Lib

/-- What `new char [BUFSIZ]` finds in memory, for the two buffers of a sockbuf. -/
structure Alloc where
  gbuf : Mem Byte
  pbuf : Mem Byte

/-- The stream that a transfer is received into: `o` of the ftpbuf itself, or another one. -/
inductive OStream where
  | own
  | file
deriving DecidableEq

/-- The objects of a transfer. -/
structure Transfer where
  ftp    : Ftpbuf
  sb     : Sockbuf
  c      : Sockbuf
  i      : List Byte
  o      : List Byte
  cerr   : List Byte
  closed : List (Int × List Syscall)

abbrev TransferM (κ : Type) := Prog Thrown (Proc Transfer κ)

/-- What ends a block early: an exception, or `std::terminate`. -/
inductive Raised where
  | exception (e : Thrown)
  | terminate
deriving DecidableEq

/-- Let the exceptions of a program through. -/
def raising {σ α : Type} (p : Prog Thrown σ α) : Prog Raised σ α := p.mapThrown .exception

def noexcept {σ α : Type} (p : Prog Thrown σ α) : Prog Raised σ α := p.mapThrown fun _ => .terminate

/-- A block, and the destructor at its end. -/
def inBlock {σ α : Type} (destructor : Prog Thrown σ Unit) (block : Prog Raised σ α) :
    Prog Raised σ α := do
  let a ← tryCatch block fun
    | .exception e => do
      noexcept destructor
      throw (.exception e)
    | .terminate => throw .terminate
  noexcept destructor
  return a

/-- `inet_ntoa`: the dotted decimal form. -/
def inet_ntoa (ina : InAddr) : List Byte :=
  Ftpbuf.decimal ina.a.toNat ++ ascii "." ++ Ftpbuf.decimal ina.b.toNat ++ ascii "." ++
    Ftpbuf.decimal ina.c.toNat ++ ascii "." ++ Ftpbuf.decimal ina.d.toNat

namespace Ftpbuf

variable {κ : Type}

/-- The address of the local host. -/
def localhost (N : NetKernel κ) : FtpM κ InAddr := do
  match ← netCall N.gethostname with
  | none => throw (.err EADDRNOTAVAIL "ftp::replycodea" "")
  | some hostname =>
    match ← call fun y => .ret (N.gethostbyname y.kern hostname).1
        { y with kern := (N.gethostbyname y.kern hostname).2 } with
    | none   => throw (.err EADDRNOTAVAIL "ftp::replycodea" "")
    | some h => return h

/-- `addr` of `useraddr`, after the `sprintf`. -/
def portArg (ina : InAddr) (portno : Nat) : List Byte :=
  (inet_ntoa ina).map (fun p => if p = 46 then 44 else p) ++
    ascii "," ++ decimal (portno / 256 : Nat) ++ ascii "," ++ decimal (portno % 256 : Nat)

def useraddr (N : NetKernel κ) (n : Nat) (sa : Sockinetaddr) : FtpM κ Byte := do
  let ina ← if sa.sin_addr = ⟨0, 0, 0, 0⟩ then localhost N else pure sa.sin_addr
  sendCmd N.toKernel n (ascii "PORT") (some (portArg ina (ntohs sa.sin_port)))

end Ftpbuf

namespace Transfer

variable {κ : Type}

/-! ### The objects -/

/-- Run a method of the ftpbuf. -/
def onFtp {α : Type} (p : FtpM κ α) : TransferM κ α :=
  Prog.zoom (fun s => ⟨s.obj.ftp, s.sys⟩) (fun t s => ⟨{ s.obj with ftp := t.obj }, t.sys⟩) p

/-- Run a method of `sb`. -/
def onSb {α : Type} (p : SockM κ α) : TransferM κ α :=
  Prog.zoom (fun s => ⟨s.obj.sb, s.sys⟩) (fun t s => ⟨{ s.obj with sb := t.obj }, t.sys⟩) p

/-- Run a method of `c`. -/
def onC {α : Type} (p : SockM κ α) : TransferM κ α :=
  Prog.zoom (fun s => ⟨s.obj.c, s.sys⟩) (fun t s => ⟨{ s.obj with c := t.obj }, t.sys⟩) p

/-- `c.sgetn (buf, n)`, and what it has stored in `buf`. -/
def sgetnC (K : Kernel κ) (n : Nat) : TransferM κ (Nat × List Byte) :=
  Prog.zoom (fun s => (⟨⟨s.obj.c, s.sys⟩, []⟩ : Sockbuf.Getting κ))
    (fun t s => ⟨{ s.obj with c := t.proc.obj }, t.proc.sys⟩) do
      let rdsz ← Sockbuf.xsgetn K n
      let t ← get
      return (rdsz, t.dst)

/-- `o->write (buf, rdsz)`. -/
def writeTo (o : OStream) (bs : List Byte) (x : Transfer) : Transfer :=
  match o with
  | .own  => { x with ftp := x.ftp.writeO bs }
  | .file => { x with o := x.o ++ bs }

/-- `sockinetbuf sb (ty, proto)`. -/
def openSb (N : NetKernel κ) (B : ℕ+) (m : Alloc) (ty proto : Int) : TransferM κ Unit := do
  match ← netCall fun k => N.socket k af_inet ty proto with
  | some soc => modify (Proc.onObj fun x => { x with sb := Sockbuf.ofDesc B soc m.gbuf m.pbuf })
  | none =>
    let s ← get
    throw (.err s.sys.errno "sockbuf::sockbuf" "socket creation failed")

/-- `sockbuf c = sb.accept ()`. -/
def openC (N : NetKernel κ) (B : ℕ+) (m : Alloc) : TransferM κ Unit := do
  let socfd ← onSb (Sockbuf.accept N)
  modify (Proc.onObj fun x => { x with c := Sockbuf.ofDesc B socfd m.gbuf m.pbuf })

/-- `close (rep->sock)` in `~sockbuf`. -/
def close (N : NetKernel κ) (b : Sockbuf) : TransferM κ Unit := do
  let s ← get
  modify (Proc.onObj fun x => { x with closed := x.closed ++ [(b.rep.sock, s.sys.trace)] })
  match ← netCall fun k => N.close k b.rep.sock with
  | some _ => return ()
  | none =>
    let s ← get
    throw (.err s.sys.errno "sockbuf::~sockbuf" b.sockname)

/-- `sb.~sockinetbuf ()`. -/
def destroySb (N : NetKernel κ) : TransferM κ Unit := do
  let _ ← onSb (Sockbuf.overflow N.toKernel eofValue)
  let s ← get
  close N s.obj.sb

/-- `c.~sockbuf ()`. -/
def destroyC (N : NetKernel κ) : TransferM κ Unit := do
  let _ ← onC (Sockbuf.overflow N.toKernel eofValue)
  let s ← get
  close N s.obj.c

/-! ### The transfer -/

/-- The body of `while ((rdsz = c.sgetn (buf, 1024)) != EOF)`. -/
def receiveRound (K : Kernel κ) (o : OStream) : TransferM κ (Unit ⊕ Unit) := do
  let (rdsz, buf) ← sgetnC K 1024
  if (rdsz : Int) ≠ eofValue then do
    modify (Proc.onObj (writeTo o (buf.take rdsz)))
    return .inl ()
  else return .inr ()

/-- The block of `if (o)`. -/
def receive (N : NetKernel κ) (B : ℕ+) (m : Alloc) (n : Nat) (o : OStream) :
    Prog Raised (Proc Transfer κ) Unit := do
  raising (openC N B m)
  inBlock (destroyC N) (raising (Prog.loop (fun _ => receiveRound N.toKernel o) n ()))

/-- The body of `while ((rdsz = rb->sgetn (buf, 1024)) > 0)`. -/
def sendRound (K : Kernel κ) : TransferM κ (Unit ⊕ Unit) := do
  let s ← get
  let buf := s.obj.i.take 1024
  modify (Proc.onObj fun x => { x with i := x.i.drop 1024 })
  if 0 < buf.length then do
    let wrsz ← onC (Sockbuf.xsputn K buf)
    if buf.length ≠ wrsz then
      modify (Proc.onObj fun x => { x with cerr := x.cerr ++ ascii "write error\n" })
    return .inl ()
  else return .inr ()

/-- The block of `else if (i)`.  A round takes a byte from `i`, so the bound of the loop is never
reached. -/
def send (N : NetKernel κ) (B : ℕ+) (m : Alloc) : Prog Raised (Proc Transfer κ) Unit := do
  raising (openC N B m)
  let s ← get
  inBlock (destroyC N) (raising (Prog.loop (fun _ => sendRound N.toKernel) (s.obj.i.length + 1) ()))

/-- `ftpdata` up to the reply to `cmd`, `sb` being open. -/
def connect (N : NetKernel κ) (n : Nat) (portno : Int) (cmd : List Byte) (arg : Option (List Byte)) :
    TransferM κ Byte := do
  let _ ← onSb (Sockinetbuf.bind_until_success N n portno)
  let sa ← onSb (Sockinetbuf.localaddr N)
  let _ ← onFtp (Ftpbuf.useraddr N n sa)
  onSb (Sockbuf.listen N 1)
  onFtp (Ftpbuf.sendCmd N.toKernel n cmd arg)

/-- `ftpdata` behind a reply that is no error: the transfer and its reply. -/
def transfer (N : NetKernel κ) (B : ℕ+) (m : Alloc) (n : Nat) (i : Bool) (o : Option OStream) :
    Prog Raised (Proc Transfer κ) Byte := do
  match o, i with
  | some o, _     => receive N B m n o
  | none,   true  => send N B m
  | none,   false => pure ()
  raising (onFtp (Ftpbuf.getResponse N.toKernel n))

/-- `i` says whether there is a stream to send; `m` and `m'` are the allocations of `sb` and `c`. -/
def ftpdata (N : NetKernel κ) (B : ℕ+) (m m' : Alloc) (n : Nat) (portno : Int) (i : Bool)
    (o : Option OStream) (cmd : List Byte) (arg : Option (List Byte)) :
    Prog Raised (Proc Transfer κ) Byte := do
  raising (openSb N B m sock_stream 0)
  inBlock (destroySb N) do
    if IsError (← raising (connect N n portno cmd arg)) then return rca_error
    else transfer N B m' n i o

end Transfer

end Socketpp
