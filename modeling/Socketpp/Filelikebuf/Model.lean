import Socketpp.Sockbuf.Model

/-!
# Filelikebuf — the model

`filelikebuf.cpp` on POSIX, function by function, over the kernel of the sockbuf.  The two classes
are near copies, but the record that the copies of a filelikebuf share starts with both buffer ends
null, and no function sets them.  So an area here knows the address of its first byte, `gptr ()`
and `pptr ()` are offsets from it, and `egptr ()` and `epptr ()` are offsets that may be negative:
the offset of the null pointer is minus the address.

Pointer differences go through `int` and, as the count of `::read`, through `size_t` (`asInt`,
`asSize`).  A `memcpy` with a negative count does not come back (`Prog.spin`), nor does an `xsputn`
that finds no room after each flush.  The bound on the depth of `xsgetn` is reached only where
`::read` gives more bytes than an `int` counts.
-/

namespace Socketpp
open Lib

/-- Conversion to `int`. -/
def asInt (z : Int) : Int := z.bmod (2 ^ 32)

/-- Conversion to `size_t`. -/
def asSize (z : Int) : Nat := (z % 2 ^ 64).toNat

/-- `filelikebuf::filecnt`, what the copies of a filelikebuf share.  `gend` and `pend` are
addresses. -/
structure Filecnt where
  file : Int
  gend : Nat
  pend : Nat

/-- The null pointer. -/
def nullptr : Nat := 0

/-- `filecnt (s)`. -/
def Filecnt.ofDesc (s : Int) : Filecnt := { file := s, gend := nullptr, pend := nullptr }

/-- The get area; `eback` is an address. -/
structure FileGetArea where
  eback : Nat
  mem   : Mem Byte
  gptr  : Nat
  egptr : Int

/-- The put area; `pbase` is an address. -/
structure FilePutArea where
  pbase : Nat
  mem   : Mem Byte
  pptr  : Nat
  epptr : Int

structure Filelikebuf where
  rep      : Filecnt
  getArea  : Option FileGetArea
  putArea  : Option FilePutArea
  sockname : String

abbrev FileM (κ : Type) := Prog Thrown (Proc Filelikebuf κ)

namespace FilePutArea

/-- `setp (pbase (), pend)`. -/
def setp (p : FilePutArea) (pend : Nat) : FilePutArea :=
  { p with pptr := 0, epptr := (pend : Int) - p.pbase }

/-- `memcpy (pptr (), s, n); pbump (n)`. -/
def fill (p : FilePutArea) (s : List Byte) : FilePutArea :=
  { p with mem := p.mem.store p.pptr s, pptr := p.pptr + s.length }

/-- `*pptr () = c; pbump (1)`. -/
def putc (p : FilePutArea) (c : Byte) : FilePutArea :=
  { p with mem := p.mem.write p.pptr c, pptr := p.pptr + 1 }

/-- The bytes from `wlen` on, moved to `pbase ()`: the recovery of `sync`. -/
def keepUnwritten (p : FilePutArea) (wlen pend : Nat) : FilePutArea :=
  { p with
    mem := p.mem.moveDown 0 wlen (p.pptr - wlen)
    pptr := p.pptr - wlen
    epptr := (pend : Int) - p.pbase }

end FilePutArea

namespace FileGetArea

/-- `gbump (n)`. -/
def gbump (a : FileGetArea) (n : Nat) : FileGetArea := { a with gptr := a.gptr + n }

/-- The bytes `::read` stores from `eback ()` on. -/
def stored (a : FileGetArea) (bs : List Byte) : FileGetArea := { a with mem := a.mem.store 0 bs }

/-- `setg (eback (), eback (), eback () + rlen)`. -/
def setg (a : FileGetArea) (rlen : Int) : FileGetArea := { a with gptr := 0, egptr := rlen }

end FileGetArea

namespace Filelikebuf

variable {κ : Type}

/-- `filelikebuf (fd)`.  `gbuf` and `pbuf` are the two allocations, uninitialised, at the addresses
`gaddr` and `paddr`. -/
def ofDesc (BUFSIZ : ℕ+) (fd : Int) (gaddr paddr : ℕ+) (gbuf pbuf : Mem Byte) : Filelikebuf :=
  { rep := Filecnt.ofDesc fd
    getArea := some { eback := gaddr, mem := gbuf, gptr := BUFSIZ, egptr := (BUFSIZ : Nat) }
    putArea := some { pbase := paddr, mem := pbuf, pptr := 0, epptr := (BUFSIZ : Nat) }
    sockname := "filelikebuf " ++ toString fd }

def onPut (f : FilePutArea → FilePutArea) (b : Filelikebuf) : Filelikebuf :=
  { b with putArea := b.putArea.map f }

def onGet (f : FileGetArea → FileGetArea) (b : Filelikebuf) : Filelikebuf :=
  { b with getArea := b.getArea.map f }

/-! ### Output -/

/-- `while (len > 0)` of `write`: `rest` is `[pbuf + wlen, pbuf + wlen + len)`. -/
def writeLoop (K : Kernel κ) : Nat → List Byte → Nat → FileM κ Nat
  | _,         [],     wlen => return wlen
  | 0,         _ :: _, _    => Prog.spin
  | depth + 1, b :: l, wlen => do
    let s ← get
    match ← call (Sys.write K s.obj.rep.file (b :: l)) with
    | none      => throw (.int wlen)
    | some wval => writeLoop K depth ((b :: l).drop wval) (wlen + wval)

def write (K : Kernel κ) (bs : List Byte) : FileM κ Nat := writeLoop K bs.length bs 0

/-- `catch (int wlen)` of `sync`. -/
def syncCatch : Thrown → FileM κ Nat
  | .int wlen => do
    modify (Proc.onObj fun b =>
      if wlen = 0 then b else b.onPut fun p => p.keepUnwritten wlen b.rep.pend)
    let s ← get
    throw (.err s.sys.errno "filelikebuf::sync" (Sockbuf.syncMessage s.obj.sockname wlen))
  | e => throw e

def sync (K : Kernel κ) : FileM κ Int := do
  let s ← get
  match s.obj.putArea with
  | none   => return 0
  | some p =>
    if 0 < p.pptr ∧ (p.pptr : Int) ≤ p.epptr then do
      let _ ← tryCatch (write K (p.mem.slice 0 p.pptr)) syncCatch
      modify (Proc.onObj fun b => b.onPut fun p => p.setp b.rep.pend)
      return 0
    else return 0

def overflow (K : Kernel κ) (c : Int) : FileM κ Int := do
  let s ← get
  match s.obj.putArea with
  | none   => return eofValue
  | some p =>
    if c = eofValue then sync K
    else do
      let _ ← if (p.pptr : Int) = p.epptr then sync K else pure 0
      modify (Proc.onObj (onPut fun p => p.putc (UInt8.ofInt c)))
      return c

def sputc (K : Kernel κ) (c : Byte) : FileM κ Int := do
  let s ← get
  match s.obj.putArea with
  | none   => overflow K c.toNat
  | some p =>
    if (p.pptr : Int) < p.epptr then do
      modify (Proc.onObj (onPut fun p => p.putc c))
      return c.toNat
    else overflow K c.toNat

/-- `int wval = epptr () - pptr ()`. -/
def room (b : Filelikebuf) : Int :=
  match b.putArea with
  | none   => 0
  | some p => asInt (p.epptr - p.pptr)

def xsputnRec (K : Kernel κ) : Nat → List Byte → FileM κ Nat
  | 0,         _ => Prog.spin
  | depth + 1, s => do
    let wval := (← get).obj.room
    if (s.length : Int) ≤ wval then do
      modify (Proc.onObj (onPut fun p => p.fill s))
      return s.length
    -- `memcpy (pptr (), s, wval)`
    else if wval < 0 then Prog.spin
    else do
      modify (Proc.onObj (onPut fun p => p.fill (s.take wval.toNat)))
      if (← overflow K eofValue) ≠ eofValue then
        return wval.toNat + (← xsputnRec K depth (s.drop wval.toNat))
      else return wval.toNat

def xsputn (K : Kernel κ) (s : List Byte) : FileM κ Nat := xsputnRec K (s.length + 2) s

/-! ### Input -/

/-- `int rval = ::read (..)`. -/
def readRval : Option (List Byte) → Int
  | none    => -1
  | some bs => asInt bs.length

/-- `if (rval == -1) throw err (errno, "filelikebuf::read", sockname); return rval` of `read`. -/
def checkRval (rval : Int) : FileM κ Int := do
  let s ← get
  if rval = -1 then throw (.err s.sys.errno "filelikebuf::read" s.obj.sockname)
  else return rval

/-- `read (eback (), len)`, the only use the methods make of `read`. -/
def read (K : Kernel κ) (len : Int) : FileM κ Int := do
  let s ← get
  let r ← call (Sys.read K s.obj.rep.file (asSize len))
  modify (Proc.onObj (onGet fun a => a.stored (r.getD [])))
  checkRval (readRval r)

/-- The method of filelikebuf, which does not override the one of `std::streambuf`. -/
def showmanyc (b : Filelikebuf) : Int :=
  match b.getArea with
  | none   => 0
  | some a => if (a.gptr : Int) < a.egptr then asInt (a.egptr - a.gptr) else 0

/-- `*gptr ()`. -/
def current (b : Filelikebuf) : Byte :=
  match b.getArea with
  | none   => 0
  | some a => a.mem a.gptr

def underflow (K : Kernel κ) : FileM κ Int := do
  let s ← get
  match s.obj.getArea with
  | none   => return eofValue
  | some a =>
    if (a.gptr : Int) < a.egptr then return (a.mem a.gptr).toNat
    else do
      let rlen ← read K (asInt ((s.obj.rep.gend : Int) - a.eback))
      if rlen = 0 then return eofValue
      else do
        modify (Proc.onObj (onGet fun a => a.setg rlen))
        return ((← get).obj.current).toNat

def uflow (K : Kernel κ) : FileM κ Int := do
  let ret ← underflow K
  if ret = eofValue then return eofValue
  else do
    modify (Proc.onObj (onGet fun a => a.gbump 1))
    return ret

def sgetc (K : Kernel κ) : FileM κ Int := do
  let s ← get
  match s.obj.getArea with
  | none   => underflow K
  | some a => if (a.gptr : Int) < a.egptr then return (a.mem a.gptr).toNat else underflow K

def sbumpc (K : Kernel κ) : FileM κ Int := do
  let s ← get
  match s.obj.getArea with
  | none   => uflow K
  | some a =>
    if (a.gptr : Int) < a.egptr then do
      modify (Proc.onObj (onGet fun a => a.gbump 1))
      return (a.mem a.gptr).toNat
    else uflow K

/-- A caller of `xsgetn`: the filelikebuf, its system, and the bytes stored so far through the
pointer the caller passed. -/
structure Getting (κ : Type) where
  proc : Proc Filelikebuf κ
  dst  : List Byte

/-- `memcpy (s, gptr (), n); gbump (n)`. -/
def copyOut (n : Nat) (t : Getting κ) : Getting κ :=
  match t.proc.obj.getArea with
  | none   => t
  | some a => { proc := t.proc.onObj (onGet fun a => a.gbump n), dst := t.dst ++ a.mem.slice a.gptr n }

/-- Run a method that does not store through the caller's pointer. -/
def within {α : Type} (p : FileM κ α) : Prog Thrown (Getting κ) α :=
  Prog.zoom Getting.proc (fun q t => { t with proc := q }) p

def xsgetnRec (K : Kernel κ) : Nat → Nat → Prog Thrown (Getting κ) Nat
  | 0,         _ => Prog.spin
  | depth + 1, n => do
    let rval := (← get).proc.obj.showmanyc
    if (n : Int) ≤ rval then do
      modify (copyOut n)
      return n
    -- `memcpy (s, gptr (), rval)`
    else if rval < 0 then Prog.spin
    else do
      modify (copyOut rval.toNat)
      if (← within (underflow K)) ≠ eofValue then
        return rval.toNat + (← xsgetnRec K depth (n - rval.toNat))
      else return rval.toNat

def xsgetn (K : Kernel κ) (n : Nat) : Prog Thrown (Getting κ) Nat := xsgetnRec K (n + 2) n

end Filelikebuf

end Socketpp
