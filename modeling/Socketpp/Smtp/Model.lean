import Socketpp.Protocol.Derived

/-!
# Smtp — the model

`smtp.cpp` and the methods in `smtp.h`, function by function.  A C string is the list of its bytes
before the NUL; a buffer passed with a length is a memory, whose cells behind the length hold
whatever lies there.  `output` is the stream the replies are sent to, as the bytes written to it
so far, and `none` where there is none.

The loops of `get_response` and of `data (filename)` run until the connection or the file says
so; they take the number of iterations they are given.
-/

namespace Socketpp
open Lib

structure Smtpbuf extends Sockbuf where
  output : Option (List Byte)

instance : Derived Smtpbuf where
  base := Smtpbuf.toSockbuf
  rebase x b := { x with toSockbuf := b }
  base_rebase _ _ := rfl
  rebase_base _ := rfl
  rebase_rebase _ _ _ := rfl

abbrev SmtpM (κ : Type) := Prog Thrown (Proc Smtpbuf κ)

namespace Smtpbuf
open Sockbuf

variable {κ : Type}

/-- `smtpbuf (out)`, on the socket `sd`. -/
def ofDesc (BUFSIZ : ℕ+) (sd : Int) (gbuf pbuf : Mem Byte) (out : Option (List Byte)) : Smtpbuf :=
  { Sockbuf.ofDesc BUFSIZ sd gbuf pbuf with output := out }

/-- `output->write (q, i)`. -/
def writeOutput (bs : List Byte) (x : Smtpbuf) : Smtpbuf :=
  { x with output := x.output.map fun out => out ++ bs }

def sputc (K : Kernel κ) (c : Byte) : SmtpM κ Int := inherited (Sockbuf.sputc K c)

def xsputn (K : Kernel κ) (s : List Byte) : SmtpM κ Nat := inherited (Sockbuf.xsputn K s)

def sync (K : Kernel κ) : SmtpM κ Int := inherited (Sockbuf.sync K)

def gbump (n : Nat) : SmtpM κ PUnit := inherited (modify (Proc.onObj (onGet fun a => a.gbump n)))

/-! ### Replies -/

/-- The `for` loop of `get_response`: the first line goes to `output`, and out of the area. -/
def zapLine (a : GetArea) (n : Nat) : SmtpM κ PUnit :=
  if a.zap n ≤ n then do
    modify (Proc.onObj (writeOutput (a.mem.slice a.gptr (a.zap n))))
    gbump (a.zap n)
  else pure ⟨⟩

/-- The body of `while (underflow () != EOF)`; `inl` goes round again. -/
def readLine (_ : Unit) : SmtpM κ (Unit ⊕ Unit) := do
  let s ← get
  match s.obj.getArea with
  | none   => return .inl ()
  | some a =>
    let n := a.egptr - a.gptr
    if n < 5 then return .inl ()
    else do
      zapLine a n
      -- `if (q [3] != '-') break`
      if a.mem (a.gptr + 3) = 45 then return .inl () else return .inr ()

def getResponse (K : Kernel κ) (n : Nat) : SmtpM κ Unit := Prog.loop (readRound K readLine) n ()

/-- `if (output) get_response ()`. -/
def response (K : Kernel κ) (n : Nat) : SmtpM κ Unit := do
  let s ← get
  if s.obj.output.isSome then getResponse K n else return ()

/-! ### Commands -/

/-- `if (s) xsputn (s, ::strlen (s))`. -/
def putString (K : Kernel κ) : Option (List Byte) → SmtpM κ Nat
  | none   => return 0
  | some s => xsputn K s

def sendCmd (K : Kernel κ) (n : Nat) (cmd : List Byte) (s p : Option (List Byte)) :
    SmtpM κ Unit := do
  let _ ← xsputn K cmd
  let _ ← putString K s
  let _ ← putString K p
  let _ ← xsputn K [13, 10]
  let _ ← sync K
  response K n

/-- `name` is what `localhost ()` gives. -/
def helo (K : Kernel κ) (n : Nat) (name : List Byte) : SmtpM κ Unit := do
  response K n
  sendCmd K n (ascii "HELO ") (some name) none

def quit (K : Kernel κ) (n : Nat) : SmtpM κ Unit := sendCmd K n (ascii "QUIT") none none

def turn (K : Kernel κ) (n : Nat) : SmtpM κ Unit := sendCmd K n (ascii "TURN") none none

def rset (K : Kernel κ) (n : Nat) : SmtpM κ Unit := sendCmd K n (ascii "RSET") none none

def noop (K : Kernel κ) (n : Nat) : SmtpM κ Unit := sendCmd K n (ascii "NOOP") none none

def vrfy (K : Kernel κ) (n : Nat) (s : Option (List Byte)) : SmtpM κ Unit :=
  sendCmd K n (ascii "VRFY ") s none

def expn (K : Kernel κ) (n : Nat) (s : Option (List Byte)) : SmtpM κ Unit :=
  sendCmd K n (ascii "EXPN ") s none

def help (K : Kernel κ) (n : Nat) (s : Option (List Byte)) : SmtpM κ Unit :=
  sendCmd K n (ascii "HELP ") s none

def mail (K : Kernel κ) (n : Nat) : Option (List Byte) → SmtpM κ Unit
  | some reverse_path => sendCmd K n (ascii "MAIL FROM:<") (some reverse_path) (some (ascii ">"))
  | none              => sendCmd K n (ascii "MAIL FROM:<>") none none

def rcpt (K : Kernel κ) (n : Nat) : Option (List Byte) → SmtpM κ Unit
  | some forward_path => sendCmd K n (ascii "RCPT TO:<") (some forward_path) (some (ascii ">"))
  | none              => return ()

/-- `data ()`. -/
def data (K : Kernel κ) (n : Nat) : SmtpM κ Unit := sendCmd K n (ascii "DATA") none none

/-! ### The message body -/

/-- `if (*p == '.') sputc ('.')`. -/
def doubleDot (K : Kernel κ) (buf : Mem Byte) (p : Nat) : SmtpM κ Int :=
  if buf p = 46 then sputc K 46 else return 0

/-- The body of the `for` loop of `send_buf`. -/
def sendByte (K : Kernel κ) (buf : Mem Byte) (p : Nat) : SmtpM κ Int :=
  if buf p = 10 then do
    let _ ← sputc K 13
    let _ ← sputc K (buf p)
    doubleDot K buf (p + 1)
  else sputc K (buf p)

/-- `for (int i = 0; i < len; i++, p++)`, for the rounds that are left. -/
def sendLoop (K : Kernel κ) (buf : Mem Byte) : Nat → Nat → SmtpM κ Unit
  | 0,     _ => return ()
  | k + 1, p => do
    let _ ← sendByte K buf p
    sendLoop K buf k (p + 1)

def sendBuf (K : Kernel κ) (buf : Option (Mem Byte)) (len : Int) : SmtpM κ Unit :=
  match buf with
  | none     => return ()
  | some buf =>
    if len ≤ 0 then return ()
    else do
      let _ ← doubleDot K buf 0
      sendLoop K buf len.toNat 0

/-- CR LF `.` CR LF, the flush and the reply: the end of both `data` functions. -/
def endData (K : Kernel κ) (n : Nat) : SmtpM κ Unit := do
  let _ ← xsputn K [13, 10, 46, 13, 10]
  let _ ← sync K
  response K n

/-- `data (buf, len)`. -/
def dataBuf (K : Kernel κ) (n : Nat) (buf : Option (Mem Byte)) (len : Int) : SmtpM κ Unit := do
  data K n
  sendBuf K buf len
  endData K n

/-- The descriptor `data (filename)` reads from; 0 without a file, or without access to it. -/
def openFile (K : Kernel κ) : Option String → SmtpM κ Int
  | none      => return 0
  | some path => do
    match ← call (Sys.open_ K path) with
    | none    => return 0
    | some fd => return fd

/-- The body of `while ((rcnt = ::read (fd, buf, sizeof (buf))) > 0)`. -/
def fileBody (K : Kernel κ) (fd : Int) (buf : Mem Byte) : SmtpM κ (Mem Byte ⊕ Unit) := do
  match ← call (Sys.read K fd 1024) with
  | none | some [] => return .inr ()
  | some (b :: bs) => do
    sendBuf K (some (buf.store 0 (b :: bs))) (b :: bs).length
    return .inl (buf.store 0 (b :: bs))

/-- `data (filename)`; `buf` is the array on the stack, uninitialised. -/
def dataFile (K : Kernel κ) (n : Nat) (filename : Option String) (buf : Mem Byte) :
    SmtpM κ Unit := do
  data K n
  let fd ← openFile K filename
  Prog.loop (fileBody K fd) n buf
  endData K n

end Smtpbuf

end Socketpp
