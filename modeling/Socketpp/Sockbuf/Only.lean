import Socketpp.Lib.Beside
import Socketpp.Sockbuf.Frame

/-!
# Sockbuf — its own descriptor

A sockbuf makes its calls on its own descriptor.  So its functions do the same against two kernels that
answer alike there (`Kernel.SameOn`), whatever they answer elsewhere.
-/

namespace Socketpp
open Lib

variable {κ : Type} {K K' : Kernel κ} {fd : Int}

/-- On `fd` the two kernels give the same answers to the calls of a stream. -/
structure Kernel.SameOn (K K' : Kernel κ) (fd : Int) : Prop where
  write       : ∀ k bs, K.write k fd bs = K'.write k fd bs
  read        : ∀ k len, K.read k fd len = K'.read k fd len
  selectRead  : ∀ k sec, K.selectRead k fd sec = K'.selectRead k fd sec
  selectWrite : ∀ k sec, K.selectWrite k fd sec = K'.selectWrite k fd sec
  sockatmark  : ∀ k, K.sockatmark k fd = K'.sockatmark k fd

namespace Sockbuf

/-- The descriptor of the object is `fd`. -/
def OnFd (fd : Int) (s : Proc Sockbuf κ) : Prop := s.obj.rep.sock = fd

/-- Calls that do the same on the system. -/
theorem meet_call {α : Type} {c c' : Prog Thrown (Sys κ) α} (h : ∀ y, c y = c' y) :
    Prog.Meet (OnFd fd) (call c) (call c') :=
  have hsame : Prog.Meet (fun _ => True) c c' := fun y _ => ⟨h y, by cases c y <;> trivial⟩
  hsame.zoom (fun _ _ => trivial) fun _ _ hs _ => hs

/-- A call on the descriptor of the object, and what follows it. -/
theorem meet_own {α β : Type} (c c' : Int → Prog Thrown (Sys κ) α) {f g : α → SockM κ β}
    (h : ∀ y, c fd y = c' fd y) (hf : ∀ a, Prog.Meet (OnFd fd) (f a) (g a)) :
    Prog.Meet (OnFd fd) (do f (← call (c (← get).obj.rep.sock))) (do g (← call (c' (← get).obj.rep.sock))) := by
  refine .get_bind fun s hs => ?_
  rw [show s.obj.rep.sock = fd from hs]
  exact Prog.Meet.bind (meet_call h) hf s hs

theorem meet_checked {α : Type} (operation : String) (r : Option α) :
    Prog.Meet (OnFd fd) (checked operation r : SockM κ α) (checked operation r) := by
  cases r with
  | some a => exact .pure a
  | none => exact .bind .get fun _ => .throw _

/-! ### Output -/

theorem meet_isWriteready (h : K.SameOn K' fd) (sec : Int) :
    Prog.Meet (OnFd fd) (isWriteready K sec) (isWriteready K' sec) :=
  meet_own (fun fd => Sys.selectWrite K fd sec) (fun fd => Sys.selectWrite K' fd sec)
    (fun y => by rw [Sys.selectWrite, Sys.selectWrite, h.selectWrite]) fun _ => meet_checked _ _

theorem meet_awaitWriteready (h : K.SameOn K' fd) :
    Prog.Meet (OnFd fd) (awaitWriteready K) (awaitWriteready K') :=
  .bind .get fun _ => .ite (.pure _) (.bind (meet_isWriteready h _) fun _ => .ite (.throw _) (.pure _))

theorem meet_writeLoop (h : K.SameOn K' fd) : ∀ (depth : Nat) (bs : List Byte) (wlen : Nat),
    Prog.Meet (OnFd fd) (writeLoop K depth bs wlen) (writeLoop K' depth bs wlen) := by
  intro depth
  induction depth with
  | zero =>
      intro bs wlen
      cases bs with
      | nil => exact .pure _
      | cons b l => exact .spin
  | succ depth ih =>
      intro bs wlen
      cases bs with
      | nil => exact .pure _
      | cons b l =>
          refine meet_own (fun fd => Sys.write K fd (b :: l)) (fun fd => Sys.write K' fd (b :: l))
            (fun y => by rw [Sys.write, Sys.write, h.write]) fun r => ?_
          cases r with
          | none => exact .throw _
          | some wval => exact ih _ _

theorem meet_write (h : K.SameOn K' fd) (bs : List Byte) :
    Prog.Meet (OnFd fd) (write K bs) (write K' bs) :=
  .bind (meet_awaitWriteready h) fun _ => meet_writeLoop h _ _ _

theorem meet_syncCatch (e : Thrown) :
    Prog.Meet (OnFd fd) (syncCatch e : SockM κ Nat) (syncCatch e) := by
  cases e with
  | int wlen =>
      refine .bind (.modify fun s hs => ?_) fun _ => .bind .get fun _ => .throw _
      show (if wlen = 0 then s.obj else _).rep.sock = fd
      split <;> exact hs
  | _ => exact .throw _

theorem meet_sync (h : K.SameOn K' fd) : Prog.Meet (OnFd fd) (sync K) (sync K') := by
  refine .bind .get fun s => ?_
  cases s.obj.putArea with
  | none => exact .pure _
  | some p =>
      refine .ite (.bind (.tryCatch (meet_write h _) meet_syncCatch) fun _ => ?_) (.pure _)
      exact .bind (.modify fun _ hs => hs) fun _ => .pure _

theorem meet_overflow (h : K.SameOn K' fd) (c : Int) :
    Prog.Meet (OnFd fd) (overflow K c) (overflow K' c) := by
  refine .bind .get fun s => ?_
  cases s.obj.putArea with
  | none => exact .pure _
  | some p =>
      have putc : Prog.Meet (OnFd fd) (do
          modify (Proc.onObj (onPut fun p => p.putc (UInt8.ofInt c)))
          return c : SockM κ Int) (do
          modify (Proc.onObj (onPut fun p => p.putc (UInt8.ofInt c)))
          return c) := .bind (.modify fun _ hs => hs) fun _ => .pure _
      exact .ite (meet_sync h) (.ite (.bind (meet_sync h) fun _ => putc) (.bind (.pure _) fun _ => putc))

theorem meet_xsputnRec (h : K.SameOn K' fd) : ∀ (depth : Nat) (bs : List Byte),
    Prog.Meet (OnFd fd) (xsputnRec K depth bs) (xsputnRec K' depth bs) := by
  intro depth
  induction depth with
  | zero => exact fun _ => .spin
  | succ depth ih =>
      intro bs
      refine .bind .get fun s => .ite (.bind (.modify fun _ hs => hs) fun _ => .pure _) ?_
      refine .bind (.modify fun _ hs => hs) fun _ => .bind (meet_overflow h _) fun _ => ?_
      exact .ite (.bind (ih _) fun _ => .pure _) (.pure _)

theorem meet_xsputn (h : K.SameOn K' fd) (bs : List Byte) :
    Prog.Meet (OnFd fd) (xsputn K bs) (xsputn K' bs) := meet_xsputnRec h _ _

/-! ### Input -/

theorem meet_isReadready (h : K.SameOn K' fd) (sec : Int) :
    Prog.Meet (OnFd fd) (isReadready K sec) (isReadready K' sec) :=
  meet_own (fun fd => Sys.selectRead K fd sec) (fun fd => Sys.selectRead K' fd sec)
    (fun y => by rw [Sys.selectRead, Sys.selectRead, h.selectRead]) fun _ => meet_checked _ _

theorem meet_atmark (h : K.SameOn K' fd) : Prog.Meet (OnFd fd) (atmark K) (atmark K') :=
  meet_own (Sys.sockatmark K) (Sys.sockatmark K')
    (fun y => by rw [Sys.sockatmark, Sys.sockatmark, h.sockatmark]) fun _ => meet_checked _ _

theorem meet_awaitReadready (h : K.SameOn K' fd) :
    Prog.Meet (OnFd fd) (awaitReadready K) (awaitReadready K') :=
  .bind .get fun _ => .ite (.pure _) (.bind (meet_isReadready h _) fun _ => .ite (.throw _) (.pure _))

theorem meet_checkOob (h : K.SameOn K' fd) : Prog.Meet (OnFd fd) (checkOob K) (checkOob K') :=
  .bind .get fun _ => .ite (.bind (meet_atmark h) fun _ => .ite (.throw _) (.pure _)) (.pure _)

theorem meet_read (h : K.SameOn K' fd) (len : Nat) : Prog.Meet (OnFd fd) (read K len) (read K' len) :=
  .bind (meet_awaitReadready h) fun _ => .bind (meet_checkOob h) fun _ =>
    meet_own (fun fd => Sys.read K fd len) (fun fd => Sys.read K' fd len)
      (fun y => by rw [Sys.read, Sys.read, h.read]) fun _ => meet_checked _ _

theorem meet_underflow (h : K.SameOn K' fd) : Prog.Meet (OnFd fd) (underflow K) (underflow K') := by
  refine .bind .get fun s => ?_
  cases s.obj.getArea with
  | none => exact .pure _
  | some a =>
      refine .ite (.pure _) (.bind (meet_read h _) fun bs => ?_)
      cases bs with
      | nil => exact .pure _
      | cons b bs => exact .bind (.modify fun _ hs => hs) fun _ => .pure _

end Sockbuf

end Socketpp
