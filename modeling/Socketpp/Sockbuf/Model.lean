import Mathlib.Data.PNat.Basic
import Socketpp.Lib.Mem
import Socketpp.Kernel

/-!
# Sockbuf — the model

`sockstream.cpp`, function by function.  Pointers into the two buffers are offsets from their
first byte, so `eback ()` and `pbase ()` are 0 and a null area is `none`; the buffers themselves
are memories, whose cells outside `[0, BUFSIZ)` stand for whatever lies around the allocation.

A method is a program over `Proc Sockbuf κ`, the object and the system it runs in.  The loop of
`write` and the recursions of `xsputn` and `xsgetn` take a bound on their depth; their wrappers
give one that is never reached, and a run that did reach it would be cut off.

`sputc`, `sgetc`, `sbumpc`, `sungetc` and `sputbackc` are those of `std::streambuf`.
-/

namespace Socketpp
open Lib

/-- What the code throws: `socketpp::err` with its errno, operation and specification, the `int`
of `throw wlen`, and `sockoob`. -/
inductive Thrown where
  | err (e : Int) (operation specification : String)
  | int (wlen : Nat)
  | sockoob
deriving DecidableEq

/-- `EOF`. -/
def eofValue : Int := -1

/-- No byte, read as `unsigned char`, is `EOF`. -/
theorem byte_ne_eof (c : Byte) : (c.toNat : Int) ≠ eofValue := by
  have : (0 : Int) ≤ c.toNat := Int.natCast_nonneg _
  unfold eofValue
  omega

/-- `ETIMEDOUT`. -/
def ETIMEDOUT : Int := 110

/-- A `BUFSIZ`, for the runs on fixed inputs. -/
def bufsiz : ℕ+ := 1024

/-- `sockbuf::sockcnt`, what the copies of a sockbuf share.  `gend` and `pend` are the ends of
the input and the output buffer. -/
structure Sockcnt where
  sock : Int
  /-- -1: block, 0: poll, > 0: seconds to wait -/
  stmo : Int
  rtmo : Int
  oob  : Bool
  gend : Nat
  pend : Nat

/-- The get area. -/
structure GetArea where
  mem   : Mem Byte
  gptr  : Nat
  egptr : Nat

/-- The put area. -/
structure PutArea where
  mem   : Mem Byte
  pptr  : Nat
  epptr : Nat

structure Sockbuf where
  rep      : Sockcnt
  getArea  : Option GetArea
  putArea  : Option PutArea
  sockname : String

/-- An object and the system it makes its calls to. -/
structure Proc (β κ : Type) where
  obj : β
  sys : Sys κ

abbrev SockM (κ : Type) := Prog Thrown (Proc Sockbuf κ)

/-- Make a system call. -/
def call {β κ α : Type} (c : Prog Thrown (Sys κ) α) : Prog Thrown (Proc β κ) α :=
  Prog.zoom Proc.sys (fun y s => { s with sys := y }) c

/-- Change the object. -/
def Proc.onObj {β κ : Type} (f : β → β) (s : Proc β κ) : Proc β κ := { s with obj := f s.obj }

namespace PutArea

/-- `setp (pbase (), pend)`. -/
def setp (p : PutArea) (pend : Nat) : PutArea := { p with pptr := 0, epptr := pend }

/-- `memcpy (pptr (), s, n); pbump (n)`. -/
def fill (p : PutArea) (s : List Byte) : PutArea :=
  { p with mem := p.mem.store p.pptr s, pptr := p.pptr + s.length }

/-- `*pptr () = c; pbump (1)`. -/
def putc (p : PutArea) (c : Byte) : PutArea :=
  { p with mem := p.mem.write p.pptr c, pptr := p.pptr + 1 }

/-- The bytes from `wlen` on, moved to `pbase ()`: the recovery of `sync`. -/
def keepUnwritten (p : PutArea) (wlen pend : Nat) : PutArea :=
  { mem := p.mem.moveDown 0 wlen (p.pptr - wlen), pptr := p.pptr - wlen, epptr := pend }

end PutArea

/-- `gbump (n)`. -/
def GetArea.gbump (a : GetArea) (n : Nat) : GetArea := { a with gptr := a.gptr + n }

/-- `gbump (-1)`. -/
def GetArea.gback (a : GetArea) : GetArea := { a with gptr := a.gptr - 1 }

/-- `setg (eback (), eback (), eback () + rlen)`, with the bytes `::read` has stored. -/
def GetArea.refill (a : GetArea) (bs : List Byte) : GetArea :=
  { mem := a.mem.store 0 bs, gptr := 0, egptr := bs.length }

namespace Sockbuf

variable {κ : Type}

/-- `sockbuf (sd)`; `gbuf` and `pbuf` are the two allocations, uninitialised. -/
def ofDesc (BUFSIZ : ℕ+) (sd : Int) (gbuf pbuf : Mem Byte) : Sockbuf :=
  { rep := { sock := sd, stmo := -1, rtmo := -1, oob := false, gend := BUFSIZ, pend := BUFSIZ }
    getArea := some { mem := gbuf, gptr := BUFSIZ, egptr := BUFSIZ }
    putArea := some { mem := pbuf, pptr := 0, epptr := BUFSIZ }
    sockname := "" }

/-- The bytes in `[pbase, pptr)`. -/
def pending (b : Sockbuf) : List Byte :=
  match b.putArea with
  | none   => []
  | some p => p.mem.slice 0 p.pptr

/-- The bytes in `[gptr, egptr)`. -/
def unread (b : Sockbuf) : List Byte :=
  match b.getArea with
  | none   => []
  | some a => a.mem.slice a.gptr (a.egptr - a.gptr)

def onPut (f : PutArea → PutArea) (b : Sockbuf) : Sockbuf := { b with putArea := b.putArea.map f }

def onGet (f : GetArea → GetArea) (b : Sockbuf) : Sockbuf := { b with getArea := b.getArea.map f }

/-! ### Timeouts -/

def sendtimeout (wp : Int) : SockM κ Int := do
  let s ← get
  modify (Proc.onObj fun b => { b with rep := { b.rep with stmo := if wp < 0 then -1 else wp } })
  return s.obj.rep.stmo

def recvtimeout (wp : Int) : SockM κ Int := do
  let s ← get
  modify (Proc.onObj fun b => { b with rep := { b.rep with rtmo := if wp < 0 then -1 else wp } })
  return s.obj.rep.rtmo

def oob (b : Bool) : SockM κ Bool := do
  let s ← get
  modify (Proc.onObj fun o => { o with rep := { o.rep with oob := b } })
  return s.obj.rep.oob

/-- Throw `err (errno, operation, sockname)` where a call has returned -1. -/
def checked {α : Type} (operation : String) (r : Option α) : SockM κ α := do
  match r with
  | some a => return a
  | none =>
    let s ← get
    throw (.err s.sys.errno operation s.obj.sockname)

def isReadready (K : Kernel κ) (wp_sec : Int) : SockM κ Nat := do
  let s ← get
  checked "sockbuf::is_readready" (← call (Sys.selectRead K s.obj.rep.sock wp_sec))

def isWriteready (K : Kernel κ) (wp_sec : Int) : SockM κ Nat := do
  let s ← get
  checked "sockbuf::is_writeready" (← call (Sys.selectWrite K s.obj.rep.sock wp_sec))

def atmark (K : Kernel κ) : SockM κ Bool := do
  let s ← get
  checked "sockbuf::atmark" (← call (Sys.sockatmark K s.obj.rep.sock))

/-! ### Output -/

/-- `while (len > 0)` of `write`: `rest` is `[pbuf + wlen, pbuf + wlen + len)`. -/
def writeLoop (K : Kernel κ) : Nat → List Byte → Nat → SockM κ Nat
  | _,         [],     wlen => return wlen
  | 0,         _ :: _, _    => Prog.spin
  | depth + 1, b :: l, wlen => do
    let s ← get
    match ← call (Sys.write K s.obj.rep.sock (b :: l)) with
    | none      => throw (.int wlen)
    | some wval => writeLoop K depth ((b :: l).drop wval) (wlen + wval)

/-- The wait of `write` for the socket to become writable. -/
def awaitWriteready (K : Kernel κ) : SockM κ Unit := do
  let s ← get
  if s.obj.rep.stmo = -1 then return ()
  else if (← isWriteready K s.obj.rep.stmo) = 0 then
    throw (.err ETIMEDOUT "sockbuf::write" s.obj.sockname)
  else return ()

def write (K : Kernel κ) (bs : List Byte) : SockM κ Nat := do
  awaitWriteready K
  writeLoop K bs.length bs 0

/-- `errMessage` of `sync`. -/
def syncMessage (sockname : String) (wlen : Nat) : String :=
  "(" ++ sockname ++ ")" ++ if wlen = 0 then "" else " wlen=(" ++ toString wlen ++ ")"

/-- `catch (int wlen)` of `sync`. -/
def syncCatch : Thrown → SockM κ Nat
  | .int wlen => do
    modify (Proc.onObj fun b =>
      if wlen = 0 then b else b.onPut fun p => p.keepUnwritten wlen b.rep.pend)
    let s ← get
    throw (.err s.sys.errno "sockbuf::sync" (syncMessage s.obj.sockname wlen))
  | e => throw e

def sync (K : Kernel κ) : SockM κ Int := do
  let s ← get
  match s.obj.putArea with
  | none   => return 0
  | some p =>
    if 0 < p.pptr ∧ p.pptr ≤ p.epptr then do
      let _ ← tryCatch (write K (p.mem.slice 0 p.pptr)) syncCatch
      modify (Proc.onObj fun b => b.onPut fun p => p.setp b.rep.pend)
      return 0
    else return 0

def overflow (K : Kernel κ) (c : Int) : SockM κ Int := do
  let s ← get
  match s.obj.putArea with
  | none   => return eofValue
  | some p =>
    if c = eofValue then sync K
    else do
      let _ ← if p.pptr = p.epptr then sync K else pure 0
      modify (Proc.onObj (onPut fun p => p.putc (UInt8.ofInt c)))
      return c

def sputc (K : Kernel κ) (c : Byte) : SockM κ Int := do
  let s ← get
  match s.obj.putArea with
  | none   => overflow K c.toNat
  | some p =>
    if p.pptr < p.epptr then do
      modify (Proc.onObj (onPut fun p => p.putc c))
      return c.toNat
    else overflow K c.toNat

/-- `epptr () - pptr ()`. -/
def room (b : Sockbuf) : Nat :=
  match b.putArea with
  | none   => 0
  | some p => p.epptr - p.pptr

def xsputnRec (K : Kernel κ) : Nat → List Byte → SockM κ Nat
  | 0,         _ => Prog.spin
  | depth + 1, s => do
    let wval := (← get).obj.room
    if s.length ≤ wval then do
      modify (Proc.onObj (onPut fun p => p.fill s))
      return s.length
    else do
      modify (Proc.onObj (onPut fun p => p.fill (s.take wval)))
      if (← overflow K eofValue) ≠ eofValue then
        return wval + (← xsputnRec K depth (s.drop wval))
      else return wval

def xsputn (K : Kernel κ) (s : List Byte) : SockM κ Nat := xsputnRec K (s.length + 2) s

/-! ### Input -/

/-- The wait of `read` for the socket to become readable. -/
def awaitReadready (K : Kernel κ) : SockM κ Unit := do
  let s ← get
  if s.obj.rep.rtmo = -1 then return ()
  else if (← isReadready K s.obj.rep.rtmo) = 0 then
    throw (.err ETIMEDOUT "sockbuf::read" s.obj.sockname)
  else return ()

/-- The check of `read` for out-of-band data. -/
def checkOob (K : Kernel κ) : SockM κ Unit := do
  let s ← get
  if s.obj.rep.oob then
    if ← atmark K then throw .sockoob else return ()
  else return ()

/-- `[]` is the return value 0. -/
def read (K : Kernel κ) (len : Nat) : SockM κ (List Byte) := do
  awaitReadready K
  checkOob K
  let s ← get
  checked "sockbuf::read" (← call (Sys.read K s.obj.rep.sock len))

/-- The method of sockbuf, which does not override the one of `std::streambuf`. -/
def showmanyc (b : Sockbuf) : Nat :=
  match b.getArea with
  | none   => 0
  | some a => if a.gptr < a.egptr then a.egptr - a.gptr else 0

def underflow (K : Kernel κ) : SockM κ Int := do
  let s ← get
  match s.obj.getArea with
  | none   => return eofValue
  | some a =>
    if a.gptr < a.egptr then return (a.mem a.gptr).toNat
    else do
      match ← read K s.obj.rep.gend with
      | []      => return eofValue
      | b :: bs =>
        modify (Proc.onObj (onGet fun a => a.refill (b :: bs)))
        return b.toNat

def uflow (K : Kernel κ) : SockM κ Int := do
  let ret ← underflow K
  if ret = eofValue then return eofValue
  else do
    modify (Proc.onObj (onGet fun a => a.gbump 1))
    return ret

def sgetc (K : Kernel κ) : SockM κ Int := do
  let s ← get
  match s.obj.getArea with
  | none   => underflow K
  | some a => if a.gptr < a.egptr then return (a.mem a.gptr).toNat else underflow K

def sbumpc (K : Kernel κ) : SockM κ Int := do
  let s ← get
  match s.obj.getArea with
  | none   => uflow K
  | some a =>
    if a.gptr < a.egptr then do
      modify (Proc.onObj (onGet fun a => a.gbump 1))
      return (a.mem a.gptr).toNat
    else uflow K

/-- A caller of `xsgetn`: the sockbuf, its system, and the bytes stored so far through the
pointer the caller passed. -/
structure Getting (κ : Type) where
  proc : Proc Sockbuf κ
  dst  : List Byte

/-- `memcpy (s, gptr (), n); gbump (n)`. -/
def copyOut (n : Nat) (t : Getting κ) : Getting κ :=
  match t.proc.obj.getArea with
  | none   => t
  | some a => { proc := t.proc.onObj (onGet fun a => a.gbump n), dst := t.dst ++ a.mem.slice a.gptr n }

/-- Run a method that does not store through the caller's pointer. -/
def within {α : Type} (p : SockM κ α) : Prog Thrown (Getting κ) α :=
  Prog.zoom Getting.proc (fun q t => { t with proc := q }) p

def xsgetnRec (K : Kernel κ) : Nat → Nat → Prog Thrown (Getting κ) Nat
  | 0,         _ => Prog.spin
  | depth + 1, n => do
    let rval := (← get).proc.obj.showmanyc
    if n ≤ rval then do
      modify (copyOut n)
      return n
    else do
      modify (copyOut rval)
      if (← within (underflow K)) ≠ eofValue then
        return rval + (← xsgetnRec K depth (n - rval))
      else return rval

def xsgetn (K : Kernel κ) (n : Nat) : Prog Thrown (Getting κ) Nat := xsgetnRec K (n + 2) n

def pbackfail (_c : Int) : SockM κ Int := return eofValue

def sungetc : SockM κ Int := do
  let s ← get
  match s.obj.getArea with
  | none   => pbackfail eofValue
  | some a =>
    if 0 < a.gptr then do
      modify (Proc.onObj (onGet fun a => a.gback))
      return (a.mem (a.gptr - 1)).toNat
    else pbackfail eofValue

def sputbackc (c : Byte) : SockM κ Int := do
  let s ← get
  match s.obj.getArea with
  | none   => pbackfail c.toNat
  | some a =>
    if 0 < a.gptr ∧ a.mem (a.gptr - 1) = c then do
      modify (Proc.onObj (onGet fun a => a.gback))
      return (a.mem (a.gptr - 1)).toNat
    else pbackfail c.toNat

/-! ### Shutdown -/

/-- The `::shutdown` call at the end of `shutdown`. -/
def shutdownCall (K : Kernel κ) (sh : Shuthow) : SockM κ Unit := do
  let s ← get
  checked "sockbuf::shutdown" (← call (Sys.shutdown K s.obj.rep.sock sh))

/-- `delete [] eback (); setg (0, 0, 0)`. -/
def dropGet (b : Sockbuf) : Sockbuf := { b with getArea := none }

/-- `delete [] pbase (); setp (0, 0)`. -/
def dropPut (b : Sockbuf) : Sockbuf := { b with putArea := none }

def shutdown (K : Kernel κ) : Shuthow → SockM κ Unit
  | .shut_read => do
    modify (Proc.onObj dropGet)
    shutdownCall K .shut_read
  | .shut_write => do
    modify (Proc.onObj dropPut)
    shutdownCall K .shut_write
  | .shut_readwrite => do
    -- `shutdown (shut_read)` and `shutdown (shut_write)`
    modify (Proc.onObj dropGet)
    shutdownCall K .shut_read
    modify (Proc.onObj dropPut)
    shutdownCall K .shut_write
    shutdownCall K .shut_readwrite

end Sockbuf

end Socketpp
