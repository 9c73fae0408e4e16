import Socketpp.Protocol.Derived

/-!
# Ftp — the model

`ftp.cpp` and the methods in `ftp.h` that talk on the control connection, function by function.
`replycode` is the array of five `char`s, as a memory; the constructor sets its last cell and
leaves the others as they are.  A value of `replycodea` is the `char` it is made
from, as a byte, and is compared as a `char` is (`IsError`).  `o` is the stream the
replies are sent to, as the bytes written to it so far, and `none` where there is none.

The methods with a data connection, and `useraddr`, are in `Ftp.Data`.
-/

namespace Socketpp
open Lib

structure Ftpbuf extends Sockbuf where
  replycode : Mem Byte
  o         : Option (List Byte)

instance : Derived Ftpbuf where
  base := Ftpbuf.toSockbuf
  rebase x b := { x with toSockbuf := b }
  base_rebase _ _ := rfl
  rebase_base _ := rfl
  rebase_rebase _ _ _ := rfl

abbrev FtpM (κ : Type) := Prog Thrown (Proc Ftpbuf κ)

/-- `ftp::rca_error`. -/
def rca_error : Byte := 52

/-- The value of a `char`, which is signed. -/
def charValue (c : Byte) : Int := c.toInt8.toInt

/-- `c >= rca_error`. -/
def IsError (c : Byte) : Prop := charValue rca_error ≤ charValue c

instance : DecidablePred IsError := fun c => inferInstanceAs (Decidable (charValue rca_error ≤ charValue c))

/-- It is the byte, less 256 from 128 on. -/
theorem charValue_eq (c : Byte) :
    charValue c = if c.toNat < 128 then (c.toNat : Int) else c.toNat - 256 := by
  rw [charValue, Int8.toInt, UInt8.toBitVec_toInt8, BitVec.toInt_eq_toNat_cond, UInt8.toNat_toBitVec]
  split <;> split <;> omega

theorem isError_iff (c : Byte) : IsError c ↔ 52 ≤ c.toNat ∧ c.toNat < 128 := by
  have hlt := c.toNat_lt
  have herror : charValue rca_error = 52 := rfl
  rw [IsError, herror, charValue_eq]
  split <;> omega

theorem isError_rca_error : IsError rca_error := (isError_iff rca_error).mpr ⟨Nat.le_refl 52, by decide⟩

/-- `ftp::reptype`. -/
inductive Reptype where
  | rt_ascii_nonprint | rt_ascii_telnet | rt_ascii_asa
  | rt_ebcdic_nonprint | rt_ebcdic_telnet | rt_ebcdic_asa
  | rt_image | rt_local

/-- The table `::reptype`. -/
def Reptype.name : Reptype → String
  | rt_ascii_nonprint  => "A N"
  | rt_ascii_telnet    => "A T"
  | rt_ascii_asa       => "A C"
  | rt_ebcdic_nonprint => "E N"
  | rt_ebcdic_telnet   => "E T"
  | rt_ebcdic_asa      => "E C"
  | rt_image           => "I"
  | rt_local           => "L "

/-- `ftp::filestru`. -/
inductive Filestru where
  | fs_file | fs_record | fs_page

/-- The table `::filestru`. -/
def Filestru.name : Filestru → String
  | fs_file   => "F"
  | fs_record => "R"
  | fs_page   => "P"

/-- `ftp::transmode`. -/
inductive Transmode where
  | tm_stream | tm_block | tm_comp

/-- The table `::transmode`. -/
def Transmode.name : Transmode → String
  | tm_stream => "S"
  | tm_block  => "B"
  | tm_comp   => "C"

/-! ### C strings -/

/-- The cells `strncpy` writes for a source with the given first cells: up to a NUL, then NULs. -/
def strncpyCells : List Byte → List Byte
  | []     => []
  | c :: s => if c = 0 then 0 :: s.map (fun _ => 0) else c :: strncpyCells s

/-- `strncpy (dst, src, n)`; `s` is the `n` cells at `src`. -/
def strncpy (dst : Mem Byte) (s : List Byte) : Mem Byte := dst.store 0 (strncpyCells s)

/-- `strncmp (s, t, n)`, given the `n` cells at either. -/
def strncmp : List Byte → List Byte → Int
  | c :: s, d :: t =>
    if c ≠ d then (c.toNat : Int) - d.toNat else if c = 0 then 0 else strncmp s t
  | _, _ => 0

namespace Ftpbuf
open Sockbuf

variable {κ : Type}

/-- `ftpbuf (out)`, on the socket `sd`; `replycode` is what the array holds before. -/
def ofDesc (BUFSIZ : ℕ+) (sd : Int) (gbuf pbuf replycode : Mem Byte) (out : Option (List Byte)) :
    Ftpbuf :=
  { Sockbuf.ofDesc BUFSIZ sd gbuf pbuf with replycode := replycode.write 4 0, o := out }

def xsputn (K : Kernel κ) (s : List Byte) : FtpM κ Nat := inherited (Sockbuf.xsputn K s)

def sync (K : Kernel κ) : FtpM κ Int := inherited (Sockbuf.sync K)

def gbump (n : Nat) : FtpM κ PUnit := inherited (modify (Proc.onObj (onGet fun a => a.gbump n)))

/-! ### Replies -/

/-- `o->write (q, i)`. -/
def writeO (bs : List Byte) (x : Ftpbuf) : Ftpbuf := { x with o := x.o.map fun out => out ++ bs }

/-- `strncpy (replycode, q, 3); replycode [3] = ' '`. -/
def setReplycode (q : List Byte) (x : Ftpbuf) : Ftpbuf :=
  { x with replycode := (strncpy x.replycode q).write 3 32 }

/-- What `get_response` does with the line at `q`: the code of a first line is kept, a later line
is compared with it. -/
def checkLine (firstline : Bool) (mem : Mem Byte) (q : Nat) : FtpM κ (Bool ⊕ Unit) :=
  if firstline then do
    modify (Proc.onObj (setReplycode (mem.slice q 3)))
    if mem (q + 3) = 32 then return .inr () else return .inl false
  else do
    let s ← get
    if strncmp (mem.slice q 4) (s.obj.replycode.slice 0 4) = 0 then return .inr ()
    else return .inl false

/-- The body of `while (underflow () != EOF)`; `inl` goes round again, with `firstline`. -/
def readLine (firstline : Bool) : FtpM κ (Bool ⊕ Unit) := do
  let s ← get
  match s.obj.getArea with
  | none   => return .inl firstline
  | some a =>
    let n := a.egptr - a.gptr
    if n < 5 then return .inl firstline
    else do
      let i := a.zap n
      modify (Proc.onObj (writeO (a.mem.slice a.gptr i)))
      gbump i
      checkLine firstline a.mem a.gptr

def getResponse (K : Kernel κ) (n : Nat) : FtpM κ Byte := do
  Prog.loop (readRound K readLine) n true
  let s ← get
  return s.obj.replycode 0

/-! ### Commands -/

/-- `if (arg) { xsputn (" ", 1); xsputn (arg, ::strlen (arg)); }`. -/
def putArg (K : Kernel κ) : Option (List Byte) → FtpM κ Nat
  | none     => return 0
  | some arg => do
    let _ ← xsputn K [32]
    xsputn K arg

def sendCmd (K : Kernel κ) (n : Nat) (cmd : List Byte) (arg : Option (List Byte)) : FtpM κ Byte := do
  let _ ← xsputn K cmd
  let _ ← putArg K arg
  let _ ← xsputn K [13, 10]
  let _ ← sync K
  getResponse K n

def help (K : Kernel κ) (n : Nat) : FtpM κ Byte := sendCmd K n (ascii "HELP") none

def noop (K : Kernel κ) (n : Nat) : FtpM κ Byte := sendCmd K n (ascii "NOOP") none

def quit (K : Kernel κ) (n : Nat) : FtpM κ Byte := sendCmd K n (ascii "QUIT") none

def abort (K : Kernel κ) (n : Nat) : FtpM κ Byte := sendCmd K n (ascii "ABOR") none

def pwd (K : Kernel κ) (n : Nat) : FtpM κ Byte := sendCmd K n (ascii "PWD") none

def system (K : Kernel κ) (n : Nat) : FtpM κ Byte := sendCmd K n (ascii "SYST") none

def status (K : Kernel κ) (n : Nat) : FtpM κ Byte := sendCmd K n (ascii "STAT") none

def user (K : Kernel κ) (n : Nat) (name : Option (List Byte)) : FtpM κ Byte :=
  sendCmd K n (ascii "USER") name

def passwd (K : Kernel κ) (n : Nat) (pw : Option (List Byte)) : FtpM κ Byte :=
  sendCmd K n (ascii "PASS") pw

def acct (K : Kernel κ) (n : Nat) (ac : Option (List Byte)) : FtpM κ Byte :=
  sendCmd K n (ascii "ACCT") ac

def cd (K : Kernel κ) (n : Nat) (dir : Option (List Byte)) : FtpM κ Byte :=
  sendCmd K n (ascii "CWD") dir

def rmfile (K : Kernel κ) (n : Nat) (rpath : Option (List Byte)) : FtpM κ Byte :=
  sendCmd K n (ascii "DELE") rpath

def rmdir (K : Kernel κ) (n : Nat) (rpath : Option (List Byte)) : FtpM κ Byte :=
  sendCmd K n (ascii "RMD") rpath

def mkdir (K : Kernel κ) (n : Nat) (rpath : Option (List Byte)) : FtpM κ Byte :=
  sendCmd K n (ascii "MKD") rpath

/-- `sprintf (buf, "%d", n)`. -/
def decimal (n : Int) : List Byte := ascii (toString n)

/-- `portno >> 8` and `portno & 0xff`, as `"%d,%d"`. -/
def server_port (K : Kernel κ) (n : Nat) (portno : Int) : FtpM κ Byte :=
  sendCmd K n (ascii "PASV") (some (decimal (portno / 256) ++ ascii "," ++ decimal (portno % 256)))

def allocate (K : Kernel κ) (n : Nat) (numbytes : Int) : FtpM κ Byte :=
  sendCmd K n (ascii "ALLO") (some (decimal numbytes))

def restart (K : Kernel κ) (n : Nat) (marker : Int) : FtpM κ Byte :=
  sendCmd K n (ascii "REST") (some (decimal marker))

def rep_type (K : Kernel κ) (n : Nat) (rt : Reptype) : FtpM κ Byte :=
  sendCmd K n (ascii "TYPE") (some (ascii rt.name))

def file_stru (K : Kernel κ) (n : Nat) (fs : Filestru) : FtpM κ Byte :=
  sendCmd K n (ascii "STRU") (some (ascii fs.name))

/-- The source sends `STRU` here too. -/
def trans_mode (K : Kernel κ) (n : Nat) (tm : Transmode) : FtpM κ Byte :=
  sendCmd K n (ascii "STRU") (some (ascii tm.name))

def rename (K : Kernel κ) (n : Nat) : Option (List Byte) → Option (List Byte) → FtpM κ Byte
  | some rpath, some newrpath => do
    if IsError (← sendCmd K n (ascii "RNFR") (some rpath)) then return rca_error
    else sendCmd K n (ascii "RNTO") (some newrpath)
  | _, _ => return rca_error

end Ftpbuf

end Socketpp
