import Socketpp.Sockbuf.Copies
import Socketpp.Sockbuf.Frame

/-!
# Sockbuf — what a method does through an object

A put leaves the get area and a get leaves the put area, and both leave the descriptor and the ends
of the buffers (`PutOp.exec_frame`, `GetOp.exec_frame`).  Without a put area a put accepts nothing,
and without a get area a get obtains nothing and reads nothing (`PutOp.exec_bare`,
`GetOp.exec_bare`).  Where the kernel's calls succeed, no get throws (`GetOp.exec_quiet`).
-/

namespace Socketpp
open Lib

variable {κ : Type} {K : Kernel κ}

/-! ### Puts -/

namespace PutOp
open Sockbuf

/-- The put side's part of the shared record, and the get side. -/
structure Keeps (s s' : Proc Sockbuf κ) : Prop where
  sock    : s'.obj.rep.sock = s.obj.rep.sock
  pend    : s'.obj.rep.pend = s.obj.rep.pend
  getArea : s'.obj.getArea = s.obj.getArea

theorem Keeps.of_getSame {s s' : Proc Sockbuf κ} (h : GetSame (fun _ : κ => ()) s s') :
    Keeps s s' := ⟨by rw [h.rep], by rw [h.rep], h.getArea⟩

/-- **Puts** leave the get side. -/
theorem exec_frame (op : PutOp) (s : Proc Sockbuf κ) : (op.exec K s).Leaves (Keeps s) := by
  have hframe : PutFrame K (GetSame fun _ : κ => ()) := putFrame_getSame (fun _ _ _ => rfl) fun _ _ _ => rfl
  cases op with
  | sputc c => exact (keeps_sputc hframe c s).mono fun _ => .of_getSame
  | overflow c => exact (keeps_overflow hframe c s).mono fun _ => .of_getSame
  | sputn bs =>
      exact (hframe.keeps_bind (keeps_xsputn hframe bs) (fun _ => hframe.keeps_pure _) s).mono
        fun _ => .of_getSame
  | sync => exact (keeps_sync hframe s).mono fun _ => .of_getSame
  | sendtimeout wp => exact ⟨rfl, rfl, rfl⟩

end PutOp

/-- The areas and the system are as they were, and so is what the settings do not change. -/
structure Untouched (s s' : Proc Sockbuf κ) : Prop where
  sock    : s'.obj.rep.sock = s.obj.rep.sock
  pend    : s'.obj.rep.pend = s.obj.rep.pend
  getArea : s'.obj.getArea = s.obj.getArea
  putArea : s'.obj.putArea = s.obj.putArea
  sys     : s'.sys = s.sys

theorem Untouched.refl (s : Proc Sockbuf κ) : Untouched s s := ⟨rfl, rfl, rfl, rfl, rfl⟩

namespace Sockbuf

theorem onPut_none {b : Sockbuf} (h : b.putArea = none) (f : PutArea → PutArea) : b.onPut f = b := by
  rw [onPut, h, Option.map_none, ← h]

theorem overflow_none {s : Proc Sockbuf κ} (h : s.obj.putArea = none) (c : Int) :
    overflow K c s = .ret eofValue s := by
  simp only [overflow, Prog.bind_apply, Prog.get_apply, Outcome.andThen_ret, h]
  rfl

end Sockbuf

namespace PutOp
open Sockbuf

/-- What a put without a put area returns. -/
def refusal : PutOp → Int
  | .sputc _ | .overflow _ => eofValue
  | .sputn _ | .sync | .sendtimeout _ => 0

/-- **A put without a put area** reports a failure, a flush nothing to do, and the state is the one
before. -/
theorem exec_refused {op : PutOp} (hop : ∀ wp, op ≠ .sendtimeout wp) {s : Proc Sockbuf κ}
    (h : s.obj.putArea = none) : op.exec K s = .ret op.refusal s := by
  cases op with
  | sputc c =>
      simp only [exec, Sockbuf.sputc, Prog.bind_apply, Prog.get_apply, Outcome.andThen_ret, h,
        overflow_none h, refusal]
  | overflow c => exact overflow_none h c
  | sputn bs =>
      have hroom : s.obj.room = 0 := by simp only [room, h]
      have hfill : ∀ f : PutArea → PutArea, s.onObj (onPut f) = s := fun f => by
        rw [Proc.onObj, onPut_none h]
      simp only [exec, Prog.map_apply, xsputn, xsputnRec, Prog.bind_apply, Prog.get_apply,
        Outcome.andThen_ret, hroom, Prog.ite_apply, Prog.modify_apply, hfill, overflow_none h]
      split
      · rename_i hlen
        rw [List.length_eq_zero_iff.mp (Nat.le_zero.mp hlen)]
        rfl
      · rfl
  | sync =>
      simp only [exec, Sockbuf.sync, Prog.bind_apply, Prog.get_apply, Outcome.andThen_ret, h]
      rfl
  | sendtimeout wp => exact absurd rfl (hop wp)

theorem reported_refusal (op : PutOp) : op.reported op.refusal = [] := by
  cases op <;> simp [reported, refusal]

/-- It accepts nothing, and does nothing. -/
theorem exec_bare (op : PutOp) {s : Proc Sockbuf κ} (h : s.obj.putArea = none) :
    (op.exec K s).Sat (fun v s' => op.reported v = [] ∧ Untouched s s') (fun _ _ => False) := by
  by_cases hop : ∃ wp, op = .sendtimeout wp
  · obtain ⟨wp, rfl⟩ := hop
    exact ⟨rfl, rfl, rfl, rfl, rfl, rfl⟩
  · rw [exec_refused (fun wp he => hop ⟨wp, he⟩) h]
    exact ⟨op.reported_refusal, .refl s⟩

end PutOp

/-! ### Gets -/

/-- The calls of the get side succeed: the wait finds the descriptor readable, there is no
out-of-band mark, and `::read` gives bytes or the end of file. -/
structure Kernel.ReadSucceeds (K : Kernel κ) : Prop where
  read       : ∀ k fd len e, (K.read k fd len).1 ≠ .failed e
  selectRead : ∀ k fd sec, ∃ n k', K.selectRead k fd sec = (.ok (n + 1), k')
  sockatmark : ∀ k fd, ∃ k', K.sockatmark k fd = (.ok false, k')

namespace GetOp
open Sockbuf

/-- The number of bytes an operation asks for. -/
def asked : GetOp → Nat
  | .sgetc | .underflow | .sbumpc | .uflow => 1
  | .sgetn n => n
  | .recvtimeout _ | .oob _ => 0

/-- The number of bytes that the return value `v` reports. -/
def obtained : GetOp → Int → Nat
  | .sgetc, v | .underflow, v | .sbumpc, v | .uflow, v => if v = eofValue then 0 else 1
  | .sgetn _, v => v.toNat
  | .recvtimeout _, _ | .oob _, _ => 0

/-- The put side's part of the shared record, and the put side. -/
structure Keeps (s s' : Proc Sockbuf κ) : Prop where
  sock    : s'.obj.rep.sock = s.obj.rep.sock
  pend    : s'.obj.rep.pend = s.obj.rep.pend
  putArea : s'.obj.putArea = s.obj.putArea
  sent    : ∀ fd, sentOn fd s'.sys.trace = sentOn fd s.sys.trace

theorem Keeps.of_putSame {s s' : Proc Sockbuf κ} (h : PutSame s s') : Keeps s s' :=
  ⟨by rw [h.rep], by rw [h.rep], h.putArea, h.sent⟩

/-- **Gets** leave the put side. -/
theorem exec_frame (op : GetOp) (t : Getting κ) :
    (op.exec K t).Leaves fun t' => Keeps t.proc t'.proc := by
  have hframe := getFrame_putSame K
  have hunder : (within (Sockbuf.underflow K) t).Leaves fun t' => Keeps t.proc t'.proc :=
    (keeps_within (keeps_underflow hframe) t).mono fun _ => .of_putSame
  have huflow : (within (Sockbuf.uflow K) t).Leaves fun t' => Keeps t.proc t'.proc :=
    (keeps_within (keeps_uflow hframe) t).mono fun _ => .of_putSame
  cases op with
  | sgetc => rw [exec, sgetc_eq]; exact hunder
  | underflow => exact hunder
  | sbumpc => rw [exec, sbumpc_eq]; exact huflow
  | uflow => exact huflow
  | sgetn n =>
      rw [exec, Prog.map_apply]
      exact Prog.leaves_map _ ((keeps_xsgetnRec hframe _ n t).mono fun _ => .of_putSame)
  | recvtimeout wp => exact ⟨rfl, rfl, rfl, fun _ => rfl⟩
  | oob b => exact ⟨rfl, rfl, rfl, fun _ => rfl⟩

theorem underflow_none {s : Proc Sockbuf κ} (h : s.obj.getArea = none) :
    Sockbuf.underflow K s = .ret eofValue s := by
  simp only [Sockbuf.underflow, Prog.bind_apply, Prog.get_apply, Outcome.andThen_ret, h]
  rfl

/-- What a get without a get area returns. -/
def refusal : GetOp → Int
  | .sgetc | .underflow | .sbumpc | .uflow => eofValue
  | .sgetn _ | .recvtimeout _ | .oob _ => 0

/-- **A get without a get area** reports end of file, and the state is the one before. -/
theorem exec_refused {op : GetOp} (hwait : ∀ wp, op ≠ .recvtimeout wp) (hoob : ∀ b, op ≠ .oob b)
    {t : Getting κ} (h : t.proc.obj.getArea = none) : op.exec K t = .ret op.refusal t := by
  have hunder : within (Sockbuf.underflow K) t = .ret eofValue t := by
    rw [within, Prog.zoom_apply, underflow_none h]
    rfl
  have huflow : within (Sockbuf.uflow K) t = .ret eofValue t := by
    rw [within, Prog.zoom_apply, Sockbuf.uflow, Prog.bind_apply, underflow_none h]
    rfl
  cases op with
  | sgetc => rw [exec, sgetc_eq, hunder]; rfl
  | underflow => exact hunder
  | sbumpc => rw [exec, sbumpc_eq, huflow]; rfl
  | uflow => exact huflow
  | sgetn n =>
      have hmany : t.proc.obj.showmanyc = 0 := by simp only [showmanyc, h]
      have hcopy : ∀ k, copyOut k t = t := fun k => by simp only [copyOut, h]
      simp only [exec, Prog.map_apply, xsgetn, xsgetnRec, Prog.bind_apply, Prog.get_apply,
        Outcome.andThen_ret, hmany, Prog.ite_apply, Prog.modify_apply, hcopy, hunder]
      split
      · rename_i hn
        obtain rfl := Nat.le_zero.mp hn
        rfl
      · rfl
  | recvtimeout wp => exact absurd rfl (hwait wp)
  | oob b => exact absurd rfl (hoob b)

theorem obtained_refusal (op : GetOp) : op.obtained op.refusal = 0 := by
  cases op <;> rfl

/-- It obtains nothing, and does nothing. -/
theorem exec_bare (op : GetOp) {t : Getting κ} (h : t.proc.obj.getArea = none) :
    (op.exec K t).Sat (fun v t' => op.obtained v = 0 ∧ Untouched t.proc t'.proc)
      (fun _ _ => False) := by
  by_cases hset : (∃ wp, op = .recvtimeout wp) ∨ ∃ b, op = .oob b
  · rcases hset with ⟨wp, rfl⟩ | ⟨b, rfl⟩
    · exact ⟨rfl, rfl, rfl, rfl, rfl, rfl⟩
    · exact ⟨rfl, rfl, rfl, rfl, rfl, rfl⟩
  · rw [exec_refused (fun wp he => hset (.inl ⟨wp, he⟩)) (fun b he => hset (.inr ⟨b, he⟩)) h]
    exact ⟨op.obtained_refusal, .refl _⟩

/-! #### Where the kernel's calls succeed -/

theorem awaitReadready_quiet (hK : K.ReadSucceeds) : Prog.Quiet (awaitReadready K) := by
  intro s
  obtain ⟨n, k, hs⟩ := hK.selectRead s.sys.kern s.obj.rep.sock s.obj.rep.rtmo
  rw [awaitReadready, Prog.bind_apply, Prog.get_apply, Outcome.andThen_ret, Prog.ite_apply]
  split
  · trivial
  · simp [isReadready, call, Sys.selectRead, Sys.enterAnswer, hs, checked, Outcome.Quiet]

theorem checkOob_quiet (hK : K.ReadSucceeds) : Prog.Quiet (checkOob K) := by
  intro s
  obtain ⟨k, hs⟩ := hK.sockatmark s.sys.kern s.obj.rep.sock
  rw [checkOob, Prog.bind_apply, Prog.get_apply, Outcome.andThen_ret, Prog.ite_apply]
  split
  · simp [atmark, call, Sys.sockatmark, Sys.enterAnswer, hs, checked, Outcome.Quiet]
  · trivial

theorem read_quiet (hK : K.ReadSucceeds) (len : Nat) : Prog.Quiet (Sockbuf.read K len) := by
  refine .bind (awaitReadready_quiet hK) fun _ => .bind (checkOob_quiet hK) fun _ => ?_
  intro s
  have hread := hK.read s.sys.kern s.obj.rep.sock len
  rw [Prog.bind_apply, Prog.get_apply, Outcome.andThen_ret, Prog.bind_apply]
  simp only [call, Prog.zoom_apply, Sys.read]
  cases hr : K.read s.sys.kern s.obj.rep.sock len with
  | mk r k =>
      cases r with
      | data bs pos le => trivial
      | eof => trivial
      | failed e => exact absurd (congrArg Prod.fst hr) (hread e)

theorem underflow_quiet (hK : K.ReadSucceeds) : Prog.Quiet (Sockbuf.underflow K) := by
  refine .bind .get fun s => ?_
  cases s.obj.getArea with
  | none => exact .pure _
  | some a =>
      refine .ite (.pure _) (.bind (read_quiet hK _) fun bs => ?_)
      cases bs with
      | nil => exact .pure _
      | cons b bs => exact .bind (.modify _) fun _ => .pure _

theorem uflow_quiet (hK : K.ReadSucceeds) : Prog.Quiet (Sockbuf.uflow K) :=
  .bind (underflow_quiet hK) fun _ => .ite (.pure _) (.bind (.modify _) fun _ => .pure _)

theorem xsgetnRec_quiet (hK : K.ReadSucceeds) : ∀ depth n, Prog.Quiet (xsgetnRec K depth n) := by
  intro depth
  induction depth with
  | zero => exact fun n _ => trivial
  | succ depth ih =>
      intro n
      refine .bind .get fun t => .ite (.bind (.modify _) fun _ => .pure _) ?_
      refine .bind (.modify _) fun _ => .bind (.zoom (underflow_quiet hK)) fun v => ?_
      exact .ite (.bind (ih _) fun _ => .pure _) (.pure _)

/-- **No get throws** where the kernel's calls succeed. -/
theorem exec_quiet (hK : K.ReadSucceeds) (op : GetOp) : Prog.Quiet (op.exec K) := by
  cases op with
  | sgetc => rw [exec, sgetc_eq]; exact .zoom (underflow_quiet hK)
  | underflow => exact .zoom (underflow_quiet hK)
  | sbumpc => rw [exec, sbumpc_eq]; exact .zoom (uflow_quiet hK)
  | uflow => exact .zoom (uflow_quiet hK)
  | sgetn n =>
      intro t
      rw [exec, Prog.map_apply]
      have h := xsgetnRec_quiet hK (n + 2) n t
      rw [← xsgetn] at h
      cases hx : xsgetn K n t with
      | ret k t' => trivial
      | thrown e t' => rw [hx] at h; exact h
      | spin => trivial
  | recvtimeout wp => exact fun _ => trivial
  | oob b => exact fun _ => trivial

/-- **A get with a get area** obtains all it asks for, or has met the end of file, or throws. -/
theorem exec_obtains (op : GetOp) {t : Getting κ} (h : t.proc.obj.Readable) :
    (op.exec K t).Sat (fun v t' => t'.proc.obj.Readable ∧
      (op.obtained v = op.asked ∨ EofDuring t.proc t'.proc))
      (fun _ t' => t'.proc.obj.Readable) := by
  have peek : (within (Sockbuf.underflow K) t).Sat (fun v t' => t'.proc.obj.Readable ∧
      ((if v = eofValue then 0 else 1) = 1 ∨ EofDuring t.proc t'.proc))
      (fun _ t' => t'.proc.obj.Readable) := by
    refine (within_sat (underflow_sat h)).mono ?_ fun _ _ h => h.1.readable
    rintro v t' ⟨⟨hp, ⟨-, -, heof⟩ | ⟨c, l, -, rfl⟩⟩, -⟩
    · exact ⟨hp.readable, .inr heof⟩
    · exact ⟨hp.readable, .inl (if_neg (byte_ne_eof c))⟩
  have bump : (within (Sockbuf.uflow K) t).Sat (fun v t' => t'.proc.obj.Readable ∧
      ((if v = eofValue then 0 else 1) = 1 ∨ EofDuring t.proc t'.proc))
      (fun _ t' => t'.proc.obj.Readable) := by
    refine (within_sat (uflow_sat h)).mono ?_ fun _ _ h => h.1.readable
    rintro v t' ⟨⟨xs, hp, ⟨-, -, heof⟩ | ⟨c, -, rfl⟩⟩, -⟩
    · exact ⟨hp.readable, .inr heof⟩
    · exact ⟨hp.readable, .inl (if_neg (byte_ne_eof c))⟩
  cases op with
  | sgetc => rw [exec, sgetc_eq]; exact peek
  | underflow => exact peek
  | sbumpc => rw [exec, sbumpc_eq]; exact bump
  | uflow => exact bump
  | sgetn n =>
      rw [exec, Prog.map_apply]
      refine (xsgetn_sat h n).andThen ?_ ?_
      · rintro r t' ⟨xs, rfl, hle, hc, heof⟩
        refine ⟨hc.1.readable, ?_⟩
        rcases Nat.eq_or_lt_of_le hle with heq | hlt
        · exact .inl heq
        · exact .inr (heof hlt)
      · rintro e t' ⟨xs, -, hc⟩
        exact hc.1.readable
  | recvtimeout wp => exact ⟨h, .inl rfl⟩
  | oob b => exact ⟨h, .inl rfl⟩

end GetOp

end Socketpp
