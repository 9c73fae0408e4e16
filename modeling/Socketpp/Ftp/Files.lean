import Socketpp.Ftp.Data

/-!
# Ftp — local files

The methods of ftpbuf that transfer a file, function by function.  `std::ofstream f (path)` opens the
file with the default mode, which truncates it; what is written to `f` is in the file once `f` has been
destroyed, and goes nowhere if the file could not be opened.  `std::ifstream f (path)` reads the file, and
is empty if it could not be opened.  A null path opens no file.
-/

namespace Socketpp
open Lib

/-- The local files, and which of them can be opened. -/
structure Disk where
  content  : List Byte → Option (List Byte)
  writable : List Byte → Bool
  readable : List Byte → Bool

/-- The objects of a transfer, and the local file `f`. -/
structure Client where
  transfer : Transfer
  disk     : Disk
  /-- the file that `f` has open for writing -/
  f        : Option (List Byte)

abbrev ClientM (κ : Type) := Prog Raised (Proc Client κ)

/-- The transfer, in its system. -/
def Proc.transfer {κ : Type} (s : Proc Client κ) : Proc Transfer κ := ⟨s.obj.transfer, s.sys⟩

/-- The file at `path` has this content. -/
def Disk.write (d : Disk) (path bs : List Byte) : Disk :=
  { d with content := Function.update d.content path (some bs) }

namespace Client

variable {κ : Type}

def onTransfer {α : Type} (p : Prog Raised (Proc Transfer κ) α) : ClientM κ α :=
  Prog.zoom Proc.transfer (fun t s => ⟨{ s.obj with transfer := t.obj }, t.sys⟩) p

/-! ### Local streams -/

/-- `std::ofstream f (lpath)`. -/
def openOut (lpath : Option (List Byte)) (x : Client) : Client :=
  let x := { x with transfer := { x.transfer with o := [] } }
  match lpath.filter x.disk.writable with
  | some path => { x with f := some path, disk := x.disk.write path [] }
  | none      => { x with f := none }

/-- The destructor of `std::ofstream f`. -/
def closeOut (x : Client) : Client :=
  match x.f with
  | some path => { x with f := none, disk := x.disk.write path x.transfer.o }
  | none      => x

/-- `std::ifstream f (lpath)`. -/
def openIn (lpath : List Byte) (x : Client) : Client :=
  let bs := if x.disk.readable lpath then (x.disk.content lpath).getD [] else []
  { x with transfer := { x.transfer with i := bs } }

/-! ### Methods -/

/-- `list (rpath, justnames)`. -/
def list (N : NetKernel κ) (B : ℕ+) (m m' : Alloc) (n : Nat) (rpath : Option (List Byte))
    (justnames : Bool) : ClientM κ Byte := do
  let s ← get
  let o := s.obj.transfer.ftp.o.map fun _ => OStream.own
  if justnames then onTransfer (Transfer.ftpdata N B m m' n 10000 false o (ascii "NLST") rpath)
  else onTransfer (Transfer.ftpdata N B m m' n 10000 false o (ascii "LIST") rpath)

/-- `getfile` up to the transfer of the file; `l` and `l'` are the allocations of `list`. -/
def openFile (N : NetKernel κ) (B : ℕ+) (l l' : Alloc) (n : Nat) (rpath lpath : Option (List Byte)) :
    ClientM κ Unit := do
  let lpath := lpath.or rpath
  if rpath = none then do
    let _ ← list N B l l' n none false
  modify (Proc.onObj (openOut lpath))

def getfile (N : NetKernel κ) (B : ℕ+) (m m' l l' : Alloc) (n : Nat)
    (rpath lpath : Option (List Byte)) : ClientM κ Byte := do
  openFile N B l l' n rpath lpath
  inBlock (modify (Proc.onObj closeOut))
    (onTransfer (Transfer.ftpdata N B m m' n 10000 false (some .file) (ascii "RETR") rpath))

/-- `putfile (lpath, rpath)`. -/
def putfile (N : NetKernel κ) (B : ℕ+) (m m' : Alloc) (n : Nat) (lpath rpath : Option (List Byte)) :
    ClientM κ Byte := do
  let rpath := rpath.or lpath
  match lpath with
  | none       => return rca_error
  | some lpath => do
    modify (Proc.onObj (openIn lpath))
    onTransfer (Transfer.ftpdata N B m m' n 10000 true none (ascii "STOR") rpath)

/-- `putfile (lpath)`. -/
def putunique (N : NetKernel κ) (B : ℕ+) (m m' : Alloc) (n : Nat) (lpath : Option (List Byte)) :
    ClientM κ Byte := do
  match lpath with
  | none       => return rca_error
  | some lpath => do
    modify (Proc.onObj (openIn lpath))
    onTransfer (Transfer.ftpdata N B m m' n 10000 true none (ascii "STOU") (some lpath))

/-- The source computes `rpath`, and passes a null argument. -/
def append (N : NetKernel κ) (B : ℕ+) (m m' : Alloc) (n : Nat) (lpath _rpath : Option (List Byte)) :
    ClientM κ Byte := do
  match lpath with
  | none       => return rca_error
  | some lpath => do
    modify (Proc.onObj (openIn lpath))
    onTransfer (Transfer.ftpdata N B m m' n 10000 true none (ascii "APPE") none)

end Client

end Socketpp
