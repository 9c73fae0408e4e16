import Socketpp.Sockbuf.Model

/-!
# Echo — the model

What the child of `echo::echobuf::serve_clients` does with the connection it is given: the two nested
loops of `echo.cpp`.  Both `while` loops take the number of iterations they are given.
-/

namespace Socketpp
open Lib

/-- The child of `serve_clients`: `sockbuf s (accept ())` and `char buf [1024]`. -/
structure EchoChild where
  s   : Sockbuf
  buf : Mem Byte

abbrev EchoM (κ : Type) := Prog Thrown (Proc EchoChild κ)

namespace EchoChild

variable {κ : Type}

/-- The child at its first `read`, on the connection `sd`.  Its buffer is uninitialised. -/
def accepted (BUFSIZ : ℕ+) (sd : Int) (gbuf pbuf buf : Mem Byte) : EchoChild :=
  { s := Sockbuf.ofDesc BUFSIZ sd gbuf pbuf, buf := buf }

/-- Run a method of `s`. -/
def onS {α : Type} (p : SockM κ α) : EchoM κ α :=
  Prog.zoom (fun q => ⟨q.obj.s, q.sys⟩) (fun t q => ⟨{ q.obj with s := t.obj }, t.sys⟩) p

/-- `s.read (buf, len)`. -/
def read (K : Kernel κ) (len : Nat) : EchoM κ Int := do
  let bs ← onS (Sockbuf.read K len)
  modify (Proc.onObj fun x => { x with buf := x.buf.store 0 bs })
  return bs.length

/-- `s.write (buf, len)`.  Nothing is written where `len` is not positive. -/
def write (K : Kernel κ) (len : Int) : EchoM κ Int := do
  let q ← get
  let wlen ← onS (Sockbuf.write K (q.obj.buf.slice 0 len.toNat))
  return wlen

/-- The body of `while (rcnt != 0)`, with the test. -/
def writeRound (K : Kernel κ) (rcnt : Int) : EchoM κ (Int ⊕ Unit) := do
  if rcnt = 0 then return .inr ()
  else do
    let wcnt ← write K rcnt
    if wcnt = -1 then do
      let q ← get
      throw (.err q.sys.errno "" "")
    else return .inl (rcnt - wcnt)

/-- The body of `while ((rcnt = s.read (buf, 1024)) > 0)`, with the test. -/
def echoRound (K : Kernel κ) (n : Nat) (_ : Unit) : EchoM κ (Unit ⊕ Unit) := do
  let rcnt ← read K 1024
  if 0 < rcnt then do
    Prog.loop (writeRound K) n rcnt
    return .inl ()
  else return .inr ()

/-- The child, with the status it exits with.  Between its loops and `exit (0)` it only sleeps. -/
def serveClient (K : Kernel κ) (n : Nat) : EchoM κ Int := do
  Prog.loop (echoRound K n) n ()
  return 0

end EchoChild

end Socketpp
