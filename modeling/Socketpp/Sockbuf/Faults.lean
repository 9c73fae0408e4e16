import Socketpp.Lib.Triple
import Socketpp.Sockbuf.Frame

/-!
# Sockbuf — what a put can throw for

With no timeout set, a put function makes no call but `::write`, so it throws only after one has failed
(`xsputn_faults`, `overflow_faults`).
-/

namespace Socketpp
open Lib

/-- Behind the calls `base` a `::write` on `fd` has failed. -/
def WriteFailed (fd : Int) (base calls : List Syscall) : Prop :=
  ∃ made bs, calls = base ++ made ∧ Syscall.write fd bs none ∈ made

theorem WriteFailed.append {fd : Int} {base calls : List Syscall} (h : WriteFailed fd base calls)
    (c : List Syscall) : WriteFailed fd base (calls ++ c) := by
  obtain ⟨made, bs, rfl, hm⟩ := h
  exact ⟨made ++ c, bs, List.append_assoc _ _ _, List.mem_append_left c hm⟩

namespace Sockbuf

variable {κ : Type} {K : Kernel κ} {fd : Int} {base : List Syscall}

/-- The object is on the descriptor `fd`, and waits for nothing before it writes. -/
structure Unwaiting (fd : Int) (base : List Syscall) (s : Proc Sockbuf κ) : Prop where
  sock  : s.obj.rep.sock = fd
  stmo  : s.obj.rep.stmo = -1
  calls : base <+: s.sys.trace

/-- A `::write` on `fd` has failed before the state. -/
def Faulty (fd : Int) (base : List Syscall) (s : Proc Sockbuf κ) : Prop :=
  WriteFailed fd base s.sys.trace

/-- A failure is not taken back. -/
theorem putFrame_faulty (K : Kernel κ) (fd : Int) (base : List Syscall) :
    PutFrame K fun s s' : Proc Sockbuf κ => Faulty fd base s → Faulty fd base s' where
  refl _ h := h
  trans _ _ _ h h' := fun hf => h' (h hf)
  write _ _ := keeps_writeCall fun _ y _ _ ht h => by
    show WriteFailed fd base y.trace
    rw [ht]
    exact h.append _
  selectWrite _ _ := keeps_answer fun _ y _ _ ht h => by
    show WriteFailed fd base y.trace
    rw [ht]
    exact h.append _
  put _ _ h := h

theorem writeLoop_faults : ∀ (depth : Nat) (rest : List Byte) (wlen : Nat),
    Prog.Triple (Unwaiting fd base) (writeLoop K depth rest wlen) (Unwaiting fd base) (Faulty fd base) := by
  intro depth
  induction depth with
  | zero =>
      intro rest wlen
      cases rest with
      | nil => exact .pure _
      | cons b l => exact .spin
  | succ depth ih =>
      intro rest wlen
      cases rest with
      | nil => exact .pure _
      | cons b l =>
          refine .get_bind fun s hs => ?_
          simp only [call, Prog.bind_apply, Prog.zoom_apply, Sys.write]
          rcases K.write s.sys.kern s.obj.rep.sock (b :: l) with ⟨r, k⟩
          cases r with
          | accepted n pos le =>
              exact ih _ _ _ ⟨hs.sock, hs.stmo, hs.calls.trans (List.prefix_append _ _)⟩
          | failed e =>
              obtain ⟨made, hmade⟩ := hs.calls
              refine ⟨made ++ [.write fd (b :: l) none], b :: l, ?_, List.mem_append_right _ ?_⟩
              · rw [← List.append_assoc, hmade, ← hs.sock]
                rfl
              · exact List.mem_singleton_self _

theorem write_faults (bs : List Byte) :
    Prog.Triple (Unwaiting fd base) (write K bs) (Unwaiting fd base) (Faulty fd base) := by
  refine .bind (.get_bind fun s hs => ?_) fun _ => writeLoop_faults _ bs 0
  simp only [Prog.ite_apply, hs.stmo, if_true]
  exact hs

theorem sync_faults : Prog.Triple (Unwaiting fd base) (sync K) (Unwaiting fd base) (Faulty fd base) := by
  refine .bind .get fun s => ?_
  cases s.obj.putArea with
  | none => exact .pure _
  | some p =>
      refine .ite (.bind (.tryCatch (write_faults _) fun e => ?_) fun _ => ?_) (.pure _)
      · cases e with
        | int wlen => exact .bind (.modify fun _ hs => hs) fun _ => .bind .get fun _ => .throw _
        | err e op spec => exact .throw _
        | sockoob => exact .throw _
      · exact .bind (.modify fun _ hs => ⟨hs.sock, hs.stmo, hs.calls⟩) fun _ => .pure _

theorem overflow_faults (c : Int) :
    Prog.Triple (Unwaiting fd base) (overflow K c) (Unwaiting fd base) (Faulty fd base) := by
  refine .bind .get fun s => ?_
  cases s.obj.putArea with
  | none => exact .pure _
  | some p =>
      have store : Prog.Triple (Unwaiting fd base) (do
          modify (Proc.onObj (onPut fun p => p.putc (UInt8.ofInt c)))
          return c : SockM κ Int) (Unwaiting fd base) (Faulty fd base) :=
        .bind (.modify fun _ hs => ⟨hs.sock, hs.stmo, hs.calls⟩) fun _ => .pure _
      exact .ite sync_faults (.ite (.bind sync_faults fun _ => store) (.bind (.pure _) fun _ => store))

theorem xsputn_faults (bs : List Byte) :
    Prog.Triple (Unwaiting fd base) (xsputn K bs) (Unwaiting fd base) (Faulty fd base) := by
  have levels : ∀ (depth : Nat) (bs : List Byte),
      Prog.Triple (Unwaiting fd base) (xsputnRec K depth bs) (Unwaiting fd base) (Faulty fd base) := by
    intro depth
    induction depth with
    | zero => exact fun bs => .spin
    | succ depth ih =>
        intro bs
        have fill : ∀ xs, Prog.Triple (Unwaiting fd base) (modify (Proc.onObj (onPut fun p => p.fill xs)) :
            SockM κ PUnit) (Unwaiting fd base) (Faulty fd base) :=
          fun xs => .modify fun _ hs => ⟨hs.sock, hs.stmo, hs.calls⟩
        refine .bind .get fun s => .ite (.bind (fill _) fun _ => .pure _) ?_
        refine .bind (fill _) fun _ => .bind (overflow_faults _) fun v => ?_
        exact .ite (.bind (ih _) fun _ => .pure _) (.pure _)
  exact levels _ bs

end Sockbuf

end Socketpp
