import Socketpp.Sockbuf.Model

/-!
# Sockinet — the model

`sockinet.cpp`: the address of an internet socket, and the methods of sockinetbuf that make, bind and
name one; with the methods of sockbuf under them.

An address is kept in network byte order, as in memory: a port is two bytes and a host four, the most
significant first.  `NetKernel` is a kernel with the calls on sockets added.  They hand over no bytes,
and are not entered in the trace.
-/

namespace Socketpp
open Lib

/-- `EADDRINUSE`. -/
def EADDRINUSE : Int := 98

/-- `EADDRNOTAVAIL`. -/
def EADDRNOTAVAIL : Int := 99

/-- `EINVAL`. -/
def EINVAL : Int := 22

/-- `AF_INET`, which is `sockinetbuf::af_inet`. -/
def af_inet : Int := 2

/-- `SOCK_STREAM`, which is `sockbuf::sock_stream`. -/
def sock_stream : Int := 1

/-! ### Addresses -/

/-- A port in network byte order. -/
structure NetPort where
  hi : Byte
  lo : Byte
deriving DecidableEq

/-- `in_addr`: a host in network byte order. -/
structure InAddr where
  a : Byte
  b : Byte
  c : Byte
  d : Byte
deriving DecidableEq

/-- `htons`, called with an `int`: it takes the lower 16 bits. -/
def htons (n : Int) : NetPort := ⟨UInt8.ofInt (n / 256), UInt8.ofInt n⟩

def ntohs (p : NetPort) : Nat := p.hi.toNat * 256 + p.lo.toNat

/-- `htonl`, called with an `unsigned long`: it takes the lower 32 bits. -/
def htonl (n : Nat) : InAddr :=
  ⟨UInt8.ofNat (n / 2 ^ 24), UInt8.ofNat (n / 2 ^ 16), UInt8.ofNat (n / 2 ^ 8), UInt8.ofNat n⟩

/-- `INADDR_ANY`. -/
def INADDR_ANY : Nat := 0

theorem toNat_ofInt (n : Int) : (UInt8.ofInt n).toNat = (n % 256).toNat := by
  rw [UInt8.ofInt, UInt8.toNat_ofNat']
  omega

/-- The port read back is the number, as far as 16 bits hold it. -/
theorem ntohs_htons (n : Int) : (ntohs (htons n) : Int) = n % 65536 := by
  simp only [ntohs, htons, toNat_ofInt]
  omega

/-- `sockinetaddr`. -/
structure Sockinetaddr where
  sin_family : Int
  sin_addr   : InAddr
  sin_port   : NetPort
deriving DecidableEq

/-- `sockinetaddr (addr, port_no)`. -/
def sockinetaddr (addr : Nat) (port_no : Int) : Sockinetaddr := ⟨af_inet, htonl addr, htons port_no⟩

/-! ### The calls -/

/-- A kernel with sockets.  `accept` answers with the descriptor of the connection, `gethostname` with
the name of the host, and `gethostbyname` with the first address of a host, where there is one. -/
structure NetKernel (κ : Type) extends Kernel κ where
  socket        : κ → (domain : Int) → (st : Int) → (proto : Int) → Except Int Int × κ
  bind          : κ → (fd : Int) → Sockinetaddr → Except Int Unit × κ
  listen        : κ → (fd : Int) → (num : Int) → Except Int Unit × κ
  accept        : κ → (fd : Int) → Except Int Int × κ
  getsockname   : κ → (fd : Int) → Except Int Sockinetaddr × κ
  close         : κ → (fd : Int) → Except Int Unit × κ
  gethostname   : κ → Except Int (List Byte) × κ
  gethostbyname : κ → (name : List Byte) → Option InAddr × κ

/-- Take an answer; `none` is the return value -1. -/
def Sys.answer {κ ε α : Type} (y : Sys κ) : Except Int α × κ → Outcome ε (Sys κ) (Option α)
  | (.ok a, k)    => .ret (some a) { y with kern := k }
  | (.error e, k) => .ret none { y with kern := k, errno := e }

/-- Make a call on sockets. -/
def netCall {β κ α : Type} (c : κ → Except Int α × κ) : Prog Thrown (Proc β κ) (Option α) :=
  call fun y => y.answer (c y.kern)

theorem netCall_ok {β κ α : Type} {c : κ → Except Int α × κ} {s : Proc β κ} {a : α} {k : κ}
    (h : c s.sys.kern = (.ok a, k)) :
    netCall c s = .ret (some a) { s with sys := { s.sys with kern := k } } := by
  show (s.sys.answer (c s.sys.kern)).mapState (fun y => { s with sys := y }) = _
  rw [h]
  rfl

theorem netCall_error {β κ α : Type} {c : κ → Except Int α × κ} {s : Proc β κ} {e : Int} {k : κ}
    (h : c s.sys.kern = (.error e, k)) :
    netCall c s = .ret none { s with sys := { s.sys with kern := k, errno := e } } := by
  show (s.sys.answer (c s.sys.kern)).mapState (fun y => { s with sys := y }) = _
  rw [h]
  rfl

namespace Sockbuf

variable {κ : Type}

/-- `sockbuf::bind`. -/
def bind (N : NetKernel κ) (sa : Sockinetaddr) : SockM κ Unit := do
  let s ← get
  checked "sockbuf::bind" (← netCall fun k => N.bind k s.obj.rep.sock sa)

def listen (N : NetKernel κ) (num : Int) : SockM κ Unit := do
  let s ← get
  checked "sockbuf::listen" (← netCall fun k => N.listen k s.obj.rep.sock num)

def accept (N : NetKernel κ) : SockM κ Int := do
  let s ← get
  match ← netCall fun k => N.accept k s.obj.rep.sock with
  | some socfd => return socfd
  | none =>
    let s ← get
    if s.sys.errno = EINVAL then throw (.err s.sys.errno "sockbuf::accept" "did you forget to call listen()?")
    else throw (.err s.sys.errno "sockbuf::accept" s.obj.sockname)

end Sockbuf

namespace Sockinetbuf

variable {κ : Type}

def localaddr (N : NetKernel κ) : SockM κ Sockinetaddr := do
  let s ← get
  match ← netCall fun k => N.getsockname k s.obj.rep.sock with
  | some sin => return sin
  | none =>
    let s ← get
    throw (.err s.sys.errno "sockinetbuf::localaddr" "")

/-- `bind (port_no)`. -/
def bindPort (N : NetKernel κ) (port_no : Int) : SockM κ Unit :=
  Sockbuf.bind N (sockinetaddr INADDR_ANY port_no)

/-- `catch (err & e)` of `bind_until_success`, which has already counted `portno` up. -/
def bindCatch (portno : Int) : Thrown → SockM κ (Int ⊕ Int)
  | .err e operation specification =>
    if e ≠ EADDRINUSE then throw (.err e operation specification) else return .inl portno
  | e => throw e

/-- The body of `for (;;)`. -/
def bindRound (N : NetKernel κ) (portno : Int) : SockM κ (Int ⊕ Int) :=
  tryCatch (do
    bindPort N portno
    return .inr portno) (bindCatch (portno + 1))

def bind_until_success (N : NetKernel κ) (n : Nat) (portno : Int) : SockM κ Int :=
  Prog.loop (bindRound N) n portno

end Sockinetbuf

end Socketpp
