import Socketpp.Sockbuf.Inert
import Socketpp.Sockbuf.Waits

/-!
# Sockbuf — what can be had without waiting

`howmanyc` adds the bytes unread to those that `ioctl (FIONREAD)` reports.  The call stores an `int`, and
`nread` gives it a `long` that nobody has set: the upper half stays what it was.

`Queue` is what a kernel says of the bytes that have arrived: they stay until they are read, and there is no
end of file before them.  `Kernel.watched` notes whether a call has had to wait for one.

`howmanyc_kept`: where the upper half is zero, the gets that ask for no more than `howmanyc` has told never
wait, and have all they ask for.  `Ample` is the invariant.
-/

namespace Socketpp
open Lib

/-- A kernel that tells how many bytes have arrived: `ioctl (FIONREAD)`. -/
structure QueueKernel (κ : Type) extends Kernel κ where
  fionread : κ → (fd : Int) → Except Int (BitVec 32) × κ

/-- It hands over no bytes, and is not entered in the trace. -/
def Sys.fionread {κ ε : Type} (N : QueueKernel κ) (fd : Int) : Prog ε (Sys κ) (Option (BitVec 32)) := fun y =>
  match N.fionread y.kern fd with
  | (.ok n, k)    => .ret (some n) { y with kern := k }
  | (.error e, k) => .ret none { y with kern := k, errno := e }

namespace Sockbuf

variable {κ : Type}

/-- `arg` is the half of `long arg` that the call leaves as it is. -/
def nread (N : QueueKernel κ) (arg : BitVec 32) : SockM κ Int := do
  let s ← get
  let n ← checked "sockbuf::nread" (← call (Sys.fionread N s.obj.rep.sock))
  return (arg ++ n).toInt

def howmanyc (N : QueueKernel κ) (arg : BitVec 32) : SockM κ Int := do
  let s ← get
  return s.obj.showmanyc + (← nread N arg)

end Sockbuf

/-! ### The bytes that have arrived -/

/-- The number of bytes that a read has given. -/
def ReadResult.size {len : Nat} : ReadResult len → Nat
  | .data bs _ _ => bs.length
  | .eof         => 0
  | .failed _    => 0

/-- `arrived k fd` bytes have arrived on `fd` and are not read yet.  More may come at any time. -/
structure Queue {κ : Type} (N : QueueKernel κ) where
  arrived     : κ → (fd : Int) → Nat
  fionread    : ∀ k fd n k', N.fionread k fd = (.ok n, k') → n.toInt = arrived k' fd
  read        : ∀ k fd len, arrived k fd ≤ (N.read k fd len).1.size + arrived (N.read k fd len).2 fd
  eof         : ∀ k fd len, 0 < len → (N.read k fd len).1 = .eof → arrived k fd = 0
  selectRead  : ∀ k fd sec, arrived k fd ≤ arrived (N.selectRead k fd sec).2 fd
  sockatmark  : ∀ k fd, arrived k fd ≤ arrived (N.sockatmark k fd).2 fd
  write       : ∀ k fd bs fd', arrived k fd' ≤ arrived (N.write k fd bs).2 fd'
  selectWrite : ∀ k fd sec fd', arrived k fd' ≤ arrived (N.selectWrite k fd sec).2 fd'
  shut_write  : ∀ k fd, arrived k fd ≤ arrived (N.shutdown k fd .shut_write).2 fd

/-- A kernel, and whether a call has waited for bytes to arrive. -/
structure Watch (κ : Type) where
  kern   : κ
  waited : Bool

/-- The kernel `K`, watched. -/
def Kernel.watched {κ : Type} (K : Kernel κ) (arrived : κ → (fd : Int) → Nat) : Kernel (Watch κ) where
  write w fd bs        := ((K.write w.kern fd bs).1, ⟨(K.write w.kern fd bs).2, w.waited⟩)
  read w fd len        :=
    ((K.read w.kern fd len).1, ⟨(K.read w.kern fd len).2, w.waited || arrived w.kern fd == 0⟩)
  selectRead w fd sec  :=
    ((K.selectRead w.kern fd sec).1, ⟨(K.selectRead w.kern fd sec).2, w.waited || arrived w.kern fd == 0⟩)
  selectWrite w fd sec := ((K.selectWrite w.kern fd sec).1, ⟨(K.selectWrite w.kern fd sec).2, w.waited⟩)
  sockatmark w fd      := ((K.sockatmark w.kern fd).1, ⟨(K.sockatmark w.kern fd).2, w.waited⟩)
  shutdown w fd how    := ((K.shutdown w.kern fd how).1, ⟨(K.shutdown w.kern fd how).2, w.waited⟩)
  open_ w path         := ((K.open_ w.kern path).1, ⟨(K.open_ w.kern path).2, w.waited⟩)

/-- The same with `FIONREAD`, which does not wait. -/
def QueueKernel.watched {κ : Type} (N : QueueKernel κ) (arrived : κ → (fd : Int) → Nat) : QueueKernel (Watch κ) :=
  { N.toKernel.watched arrived with
    fionread := fun w fd => ((N.fionread w.kern fd).1, ⟨(N.fionread w.kern fd).2, w.waited⟩) }

/-! ### What is asked for -/

namespace SockOp
open Sockbuf

/-- The bytes that an operation asks for. -/
def asks : SockOp → Nat
  | .get op => op.asked
  | _       => 0

/-- The bytes that an operation takes. -/
def taking : SockOp → Nat
  | .get .sbumpc | .get .uflow => 1
  | .get (.sgetn n)            => n
  | _                          => 0

/-- No operation asks for more than is left of `m` bytes. -/
def Modest : Nat → List SockOp → Prop
  | _, []        => True
  | m, op :: ops => op.asks ≤ m ∧ Modest (m - op.taking) ops

instance decidableModest : ∀ m ops, Decidable (Modest m ops)
  | _, []        => inferInstanceAs (Decidable True)
  | m, op :: ops =>
    have := decidableModest (m - op.taking) ops
    inferInstanceAs (Decidable (_ ∧ _))

/-- Nothing has waited, and a get that has returned has obtained what it asked for, unless the get side is shut. -/
def Prompt {κ : Type} (op : SockOp) (t : Getting (Watch κ)) (r : Except Thrown Int) (t' : Getting (Watch κ)) :
    Prop :=
  t'.proc.sys.kern.waited = false ∧
    ∀ g v, op = .get g → r = .ok v → t.proc.obj.Readable → g.obtained v = g.asked

end SockOp

namespace Sockbuf

variable {κ : Type} {N : QueueKernel κ} {Q : Queue N} {m n : Nat}
  {s s₁ s' : Proc Sockbuf (Watch κ)} {t : Getting (Watch κ)}

/-- The bytes that have arrived on the descriptor of the object. -/
def arrivedIn (Q : Queue N) (s : Proc Sockbuf (Watch κ)) : Nat :=
  Q.arrived s.sys.kern.kern s.obj.rep.sock

/-- Nothing has waited, and `m` bytes are unread or have arrived. -/
structure Ample (Q : Queue N) (m : Nat) (s : Proc Sockbuf (Watch κ)) : Prop where
  readable : s.obj.Readable
  gend     : 0 < s.obj.rep.gend
  waited   : s.sys.kern.waited = false
  enough   : m ≤ s.obj.showmanyc + arrivedIn Q s

theorem Ample.less (h : Ample Q m s) (hn : n ≤ m) : Ample Q n s :=
  ⟨h.readable, h.gend, h.waited, Nat.le_trans hn h.enough⟩

/-! ### The calls of a get -/

/-- Nothing has been taken from what has arrived, and where there was any, nothing has waited. -/
structure Lies (Q : Queue N) (s s' : Proc Sockbuf (Watch κ)) : Prop where
  obj     : s'.obj = s.obj
  waited  : 0 < arrivedIn Q s → s'.sys.kern.waited = s.sys.kern.waited
  arrived : arrivedIn Q s ≤ arrivedIn Q s'

theorem Lies.refl (s : Proc Sockbuf (Watch κ)) : Lies Q s s := ⟨rfl, fun _ => rfl, Nat.le_refl _⟩

theorem Lies.trans (h₁ : Lies Q s s₁) (h₂ : Lies Q s₁ s') : Lies Q s s' :=
  ⟨h₂.obj.trans h₁.obj,
    fun hpos => (h₂.waited (Nat.lt_of_lt_of_le hpos h₁.arrived)).trans (h₁.waited hpos),
    Nat.le_trans h₁.arrived h₂.arrived⟩

/-- A call that answers with a value, and throws where it returned -1. -/
theorem answer_lies {α : Type} {c : Option α → Syscall} {op : String} {a : Except Int α × Watch κ}
    (hw : 0 < arrivedIn Q s → a.2.waited = s.sys.kern.waited)
    (ha : arrivedIn Q s ≤ Q.arrived a.2.kern s.obj.rep.sock) :
    ((((s.sys.enterAnswer c a : Outcome Thrown (Sys (Watch κ)) (Option α)).mapState
        fun y => ({ s with sys := y } : Proc Sockbuf (Watch κ))).andThen fun r => checked op r)).Sat
      (fun _ => Lies Q s) (fun _ => Lies Q s) := by
  obtain ⟨r, k⟩ := a
  cases r with
  | ok v => exact ⟨rfl, hw, ha⟩
  | error e => exact ⟨rfl, hw, ha⟩

theorem notes_not {w : Bool} {k : Nat} (h : 0 < k) : (w || k == 0) = w := by
  rw [show (k == 0) = false from beq_false_of_ne (Nat.ne_of_gt h), Bool.or_false]

theorem awaitReadready_lies (s : Proc Sockbuf (Watch κ)) :
    (awaitReadready (N.toKernel.watched Q.arrived) s).Sat (fun _ => Lies Q s) (fun _ => Lies Q s) := by
  simp only [awaitReadready, Prog.bind_apply, Prog.get_apply, Outcome.andThen_ret, Prog.ite_apply]
  split
  · exact .refl s
  · refine Outcome.Sat.andThen (answer_lies notes_not (Q.selectRead _ _ _)) (fun r s₁ h₁ => ?_) fun _ _ h => h
    simp only [Prog.ite_apply]
    split
    · exact h₁
    · exact h₁

theorem checkOob_lies (s : Proc Sockbuf (Watch κ)) :
    (checkOob (N.toKernel.watched Q.arrived) s).Sat (fun _ => Lies Q s) (fun _ => Lies Q s) := by
  simp only [checkOob, Prog.bind_apply, Prog.get_apply, Outcome.andThen_ret, Prog.ite_apply]
  split
  · refine Outcome.Sat.andThen (answer_lies (fun _ => rfl) (Q.sockatmark _ _)) (fun r s₁ h₁ => ?_) fun _ _ h => h
    simp only [Prog.ite_apply]
    split
    · exact h₁
    · exact h₁
  · exact .refl s

/-- One `::read` where bytes have arrived. -/
theorem read_call_ample {len : Nat} (hlen : 0 < len) (hpos : 0 < arrivedIn Q s) :
    ((call (Sys.read (N.toKernel.watched Q.arrived) s.obj.rep.sock len) s).andThen fun r => checked "sockbuf::read" r).Sat
      (fun bs s' => s'.obj = s.obj ∧ s'.sys.kern.waited = s.sys.kern.waited ∧ bs ≠ [] ∧
        arrivedIn Q s ≤ bs.length + arrivedIn Q s')
      (fun _ => Lies Q s) := by
  have hread := Q.read s.sys.kern.kern s.obj.rep.sock len
  have heof := Q.eof s.sys.kern.kern s.obj.rep.sock len hlen
  simp only [call, Prog.zoom_apply, Sys.read, Kernel.watched]
  rcases hr : N.read s.sys.kern.kern s.obj.rep.sock len with ⟨r, k⟩
  rw [hr] at hread heof
  cases r with
  | data bs pos le => exact ⟨rfl, notes_not hpos, List.ne_nil_of_length_pos pos, hread⟩
  | eof => exact absurd (heof rfl) (Nat.ne_of_gt hpos)
  | failed e =>
      rw [ReadResult.size, Nat.zero_add] at hread
      exact ⟨rfl, fun _ => notes_not hpos, hread⟩

/-- **`read`** where bytes have arrived waits for nothing. -/
theorem read_ample {len : Nat} (hlen : 0 < len) (hpos : 0 < arrivedIn Q s) :
    (read (N.toKernel.watched Q.arrived) len s).Sat
      (fun bs s' => s'.obj = s.obj ∧ s'.sys.kern.waited = s.sys.kern.waited ∧ bs ≠ [] ∧
        arrivedIn Q s ≤ bs.length + arrivedIn Q s')
      (fun _ => Lies Q s) := by
  simp only [read, Prog.bind_apply]
  refine (awaitReadready_lies s).andThen (fun _ s₁ h₁ => ?_) fun _ _ h => h
  refine (checkOob_lies s₁).andThen (fun _ s₂ h₂ => ?_) fun _ _ h => h₁.trans h
  have h := h₁.trans h₂
  simp only [Prog.bind_apply, Prog.get_apply, Outcome.andThen_ret]
  refine (read_call_ample hlen (Nat.lt_of_lt_of_le hpos h.arrived)).mono ?_ fun _ _ hl => h.trans hl
  rintro bs s' ⟨hobj, hw, hne, hle⟩
  exact ⟨hobj.trans h.obj, hw.trans (h.waited hpos), hne, Nat.le_trans h.arrived hle⟩

/-! ### The gets -/

theorem Ample.lies (h : Ample Q m s) (hpos : 0 < arrivedIn Q s) (hl : Lies Q s s') : Ample Q m s' := by
  refine ⟨hl.obj ▸ h.readable, hl.obj ▸ h.gend, (hl.waited hpos).trans h.waited, ?_⟩
  rw [hl.obj]
  exact Nat.le_trans h.enough (Nat.add_le_add_left hl.arrived _)

/-- `gptr ()` has moved over `n` bytes. -/
theorem Ample.gbump (h : Ample Q m s) (hn : n ≤ s.obj.showmanyc) :
    Ample Q (m - n) (s.onObj (onGet fun a => a.gbump n)) := by
  obtain ⟨a, ha⟩ := h.readable
  have hmany : (s.obj.onGet fun a => a.gbump n).showmanyc = s.obj.showmanyc - n := by
    rw [showmanyc_eq] at hn
    rw [showmanyc_eq, showmanyc_eq, unread_gbump ha hn, List.length_drop]
  refine ⟨h.readable.onGet _, h.gend, h.waited, ?_⟩
  have henough := h.enough
  show m - n ≤ (s.obj.onGet fun a => a.gbump n).showmanyc + arrivedIn Q s
  omega

/-- **`underflow`** has a byte, and waits for nothing. -/
theorem underflow_ample (h : Ample Q m s) (hm : 0 < m) : (underflow (N.toKernel.watched Q.arrived) s).Sat
    (fun v s' => Ample Q m s' ∧ v ≠ eofValue ∧ 0 < s'.obj.showmanyc) (fun _ => Ample Q m) := by
  obtain ⟨a, ha⟩ := h.readable
  have hmany : s.obj.showmanyc = if a.gptr < a.egptr then a.egptr - a.gptr else 0 := by
    simp only [showmanyc, ha]
  simp only [underflow, Prog.bind_apply, Prog.get_apply, Outcome.andThen_ret, ha, Prog.ite_apply]
  split
  · rename_i hlt
    rw [if_pos hlt] at hmany
    exact ⟨h, byte_ne_eof _, by omega⟩
  · rename_i hge
    rw [if_neg hge] at hmany
    have henough := h.enough
    have hpos : 0 < arrivedIn Q s := by omega
    refine (read_ample h.gend hpos).andThen (fun bs s₁ h₁ => ?_) fun _ _ hl => h.lies hpos hl
    obtain ⟨hobj, hw, hne, hle⟩ := h₁
    cases bs with
    | nil => exact absurd rfl hne
    | cons b bs =>
        have hlen : (s₁.obj.onGet fun a => a.refill (b :: bs)).showmanyc = (b :: bs).length := by
          rw [showmanyc_eq, unread_refill (hobj ▸ ha)]
        have hgend : 0 < s₁.obj.rep.gend := hobj ▸ h.gend
        refine ⟨⟨(hobj ▸ h.readable : s₁.obj.Readable).onGet _, hgend, hw.trans h.waited, ?_⟩,
          byte_ne_eof b, ?_⟩
        · show m ≤ (s₁.obj.onGet fun a => a.refill (b :: bs)).showmanyc + arrivedIn Q s₁
          omega
        · show 0 < (s₁.obj.onGet fun a => a.refill (b :: bs)).showmanyc
          rw [hlen]
          exact Nat.succ_pos _

theorem uflow_ample (h : Ample Q m s) (hm : 0 < m) : (uflow (N.toKernel.watched Q.arrived) s).Sat
    (fun v s' => Ample Q (m - 1) s' ∧ v ≠ eofValue) (fun _ => Ample Q (m - 1)) := by
  rw [uflow, Prog.bind_apply]
  refine (underflow_ample h hm).andThen (fun v s₁ h₁ => ?_) fun _ _ h => h.less (Nat.sub_le m 1)
  obtain ⟨h₁, hne, hpos⟩ := h₁
  rw [Prog.ite_apply, if_neg hne]
  exact ⟨h₁.gbump hpos, hne⟩

theorem copyOut_ample (h : Ample Q m t.proc) (hn : n ≤ t.proc.obj.showmanyc) :
    Ample Q (m - n) (copyOut n t).proc := by
  obtain ⟨a, ha⟩ := h.readable
  have hcopy : (copyOut n t).proc = t.proc.onObj (onGet fun a => a.gbump n) := by
    simp only [copyOut, ha]
  rw [hcopy]
  exact h.gbump hn

/-- **The recursion of `xsgetn`**, with a level for each refill. -/
theorem xsgetnRec_ample : ∀ (depth n m : Nat) (t : Getting (Watch κ)), Ample Q m t.proc → n ≤ m →
    n + (if t.proc.obj.showmanyc = 0 then 1 else 0) < depth →
    (xsgetnRec (N.toKernel.watched Q.arrived) depth n t).Sat
      (fun r t' => Ample Q (m - n) t'.proc ∧ r = n) (fun _ t' => Ample Q (m - n) t'.proc) := by
  intro depth
  induction depth with
  | zero => intro n m t _ _ hd; omega
  | succ depth ih =>
      intro n m t h hle hd
      simp only [xsgetnRec, Prog.bind_apply, Prog.get_apply, Outcome.andThen_ret, Prog.ite_apply,
        Prog.modify_apply]
      split
      · rename_i hn
        exact ⟨copyOut_ample h hn, rfl⟩
      · rename_i hn
        -- all that is unread is copied out, and more must have arrived
        have h₁ := copyOut_ample h (Nat.le_refl t.proc.obj.showmanyc)
        refine (within_sat (underflow_ample h₁ (by omega))).andThen ?_ ?_
        · rintro v t₂ ⟨⟨h₂, hne, hpos⟩, -⟩
          simp only [hne, ne_eq, not_false_eq_true, if_true, Prog.bind_apply]
          have hrest : m - t.proc.obj.showmanyc - (n - t.proc.obj.showmanyc) = m - n := by omega
          refine (ih (n - t.proc.obj.showmanyc) _ t₂ h₂ (by omega) ?_).andThen ?_ ?_
          · rw [if_neg (Nat.ne_of_gt hpos)]
            split at hd <;> omega
          · rintro r t' ⟨h₃, rfl⟩
            rw [hrest] at h₃
            exact ⟨h₃, by omega⟩
          · intro e t' h₃
            rw [hrest] at h₃
            exact h₃
        · rintro e t' ⟨h₂, -⟩
          exact h₂.less (by omega)

theorem xsgetn_ample (h : Ample Q m t.proc) (hn : n ≤ m) : (xsgetn (N.toKernel.watched Q.arrived) n t).Sat
    (fun r t' => Ample Q (m - n) t'.proc ∧ r = n) (fun _ t' => Ample Q (m - n) t'.proc) :=
  xsgetnRec_ample (n + 2) n m t h hn (by split <;> omega)

/-! ### The other operations -/

/-- Nothing has waited, and as long as the get side is open, `m` bytes can be had. -/
structure Promised (Q : Queue N) (m : Nat) (s : Proc Sockbuf (Watch κ)) : Prop where
  gend   : 0 < s.obj.rep.gend
  waited : s.sys.kern.waited = false
  enough : s.obj.Readable → m ≤ s.obj.showmanyc + arrivedIn Q s

theorem Promised.ample (h : Promised Q m s) (hr : s.obj.Readable) : Ample Q m s :=
  ⟨hr, h.gend, h.waited, h.enough hr⟩

theorem Ample.promised (h : Ample Q m s) : Promised Q m s := ⟨h.gend, h.waited, fun _ => h.enough⟩

/-- What a put leaves of the get side: it takes none of the bytes that have arrived, on any descriptor. -/
structure Spares (Q : Queue N) (s s' : Proc Sockbuf (Watch κ)) : Prop where
  sock    : s'.obj.rep.sock = s.obj.rep.sock
  gend    : s'.obj.rep.gend = s.obj.rep.gend
  getArea : s'.obj.getArea = s.obj.getArea
  waited  : s'.sys.kern.waited = s.sys.kern.waited
  arrived : ∀ fd, Q.arrived s.sys.kern.kern fd ≤ Q.arrived s'.sys.kern.kern fd

theorem putFrame_spares (Q : Queue N) : PutFrame (N.toKernel.watched Q.arrived) (Spares Q) where
  refl _ := ⟨rfl, rfl, rfl, rfl, fun _ => Nat.le_refl _⟩
  trans _ _ _ h h' := ⟨h'.sock.trans h.sock, h'.gend.trans h.gend, h'.getArea.trans h.getArea,
    h'.waited.trans h.waited, fun fd => Nat.le_trans (h.arrived fd) (h'.arrived fd)⟩
  write _ _ := keeps_writeCall fun s y _ hk _ => ⟨rfl, rfl, rfl, by
    show y.kern.waited = _
    rw [hk]
    rfl, fun fd => by
    show _ ≤ Q.arrived y.kern.kern fd
    rw [hk]
    exact Q.write _ _ _ _⟩
  selectWrite _ _ := keeps_answer fun s y _ hk _ => ⟨rfl, rfl, rfl, by
    show y.kern.waited = _
    rw [hk]
    rfl, fun fd => by
    show _ ≤ Q.arrived y.kern.kern fd
    rw [hk]
    exact Q.selectWrite _ _ _ _⟩
  put _ _ := ⟨rfl, rfl, rfl, rfl, fun _ => Nat.le_refl _⟩

theorem Promised.spares (h : Promised Q m s) (hs : Spares Q s s') : Promised Q m s' := by
  refine ⟨hs.gend ▸ h.gend, hs.waited.trans h.waited, fun ⟨a, ha⟩ => ?_⟩
  have henough := h.enough ⟨a, hs.getArea ▸ ha⟩
  have hmany : s'.obj.showmanyc = s.obj.showmanyc := by simp only [showmanyc, hs.getArea]
  have harrived : arrivedIn Q s ≤ arrivedIn Q s' := by
    rw [arrivedIn, arrivedIn, hs.sock]
    exact hs.arrived _
  omega

theorem putOp_promised (op : PutOp) (h : Promised Q m t.proc) :
    ((SockOp.put op).exec (N.toKernel.watched Q.arrived) t).Leaves fun t' => Promised Q m t'.proc := by
  by_cases hset : ∃ wp, op = .sendtimeout wp
  · obtain ⟨wp, rfl⟩ := hset
    exact ⟨h.gend, h.waited, h.enough⟩
  · have hputs : (SockOp.put op).puts = true := by
      cases op with
      | sendtimeout wp => exact absurd ⟨wp, rfl⟩ hset
      | sputc _ | overflow _ | sputn _ | sync => rfl
    exact (exec_puts_frame (putFrame_spares Q) hputs t).mono fun _ hs => h.spares hs.1

/-- A put-back gives a byte more. -/
theorem sungetc_promised (h : Promised Q m s) : (sungetc s).Leaves (Promised Q m) := by
  rw [sungetc_eq]
  cases ha : s.obj.getArea with
  | none => exact h
  | some a =>
      dsimp only
      split
      · refine ⟨h.gend, h.waited, fun _ => ?_⟩
        have henough := h.enough ⟨a, ha⟩
        have hmany : s.obj.showmanyc ≤ (s.obj.onGet fun a => a.gback).showmanyc := by
          simp only [showmanyc, onGet, ha, Option.map_some, GetArea.gback]
          split <;> split <;> omega
        show m ≤ (s.obj.onGet fun a => a.gback).showmanyc + arrivedIn Q s
        omega
      · exact h

theorem sputbackc_promised (c : Byte) (h : Promised Q m s) : (sputbackc c s).Leaves (Promised Q m) := by
  rw [sputbackc_eq]
  split
  · exact sungetc_promised h
  · exact h

/-- Without a get area nothing is promised. -/
theorem Promised.called (h : Promised Q m s) {sh : Shuthow} (hsh : s.obj.Readable → sh = .shut_write)
    (hc : Called (N.toKernel.watched Q.arrived) sh s s') : Promised Q m s' := by
  refine ⟨hc.obj ▸ h.gend, ?_, fun hr => ?_⟩
  · rw [hc.kern]
    exact h.waited
  · rw [hc.obj] at hr
    obtain rfl := hsh hr
    rw [arrivedIn, hc.obj, hc.kern]
    exact Nat.le_trans (h.enough hr) (Nat.add_le_add_left (Q.shut_write _ _) _)

theorem Promised.dropGet (h : Promised Q m s) : Promised Q m (s.onObj dropGet) := by
  refine ⟨h.gend, h.waited, ?_⟩
  rintro ⟨a, ha⟩
  cases ha

theorem shutdown_promised (sh : Shuthow) (h : Promised Q m s) :
    (shutdown (N.toKernel.watched Q.arrived) sh s).Leaves (Promised Q m) := by
  have bare : ∀ {s : Proc Sockbuf (Watch κ)} {sh : Shuthow}, s.obj.getArea = none → s.obj.Readable →
      sh = .shut_write := by
    rintro s sh hnone ⟨a, ha⟩
    rw [hnone] at ha
    cases ha
  cases sh with
  | shut_read => exact (shutdownCall_leaves .shut_read _).mono fun _ => h.dropGet.called (bare rfl)
  | shut_write =>
      have hdrop : Promised Q m (s.onObj dropPut) := ⟨h.gend, h.waited, h.enough⟩
      exact (shutdownCall_leaves .shut_write _).mono fun _ => hdrop.called fun _ => rfl
  | shut_readwrite =>
      have shut : ∀ s₁ : Proc Sockbuf (Watch κ), Promised Q m s₁ ∧ s₁.obj.getArea = none → ∀ sh,
          (shutdownCall (N.toKernel.watched Q.arrived) sh s₁).Leaves
            fun s' => Promised Q m s' ∧ s'.obj.getArea = none := fun s₁ h₁ sh =>
        (shutdownCall_leaves sh s₁).mono fun s' hc => ⟨h₁.1.called (bare h₁.2) hc, by rw [hc.obj, h₁.2]⟩
      suffices hboth : (shutdown (N.toKernel.watched Q.arrived) .shut_readwrite s).Leaves
          fun s' => Promised Q m s' ∧ s'.obj.getArea = none from hboth.mono fun _ => And.left
      refine (shut (s.onObj Sockbuf.dropGet) ⟨h.dropGet, rfl⟩ _).andThen fun _ s₁ h₁ => ?_
      refine (shut (s₁.onObj dropPut) ⟨⟨h₁.1.gend, h₁.1.waited, h₁.1.enough⟩, h₁.2⟩ _).andThen fun _ s₂ h₂ => ?_
      exact shut s₂ h₂ _

/-! ### Sessions -/

/-- **A get** that asks for no more than is promised. -/
theorem getOp_promised (op : GetOp) (h : Promised Q m t.proc) (hask : op.asked ≤ m) :
    (op.exec (N.toKernel.watched Q.arrived) t).Sat
      (fun v t' => Promised Q (m - (SockOp.get op).taking) t'.proc ∧
        (t.proc.obj.Readable → op.obtained v = op.asked))
      (fun _ t' => Promised Q (m - (SockOp.get op).taking) t'.proc) := by
  by_cases hset : (∃ wp, op = .recvtimeout wp) ∨ ∃ b, op = .oob b
  · rcases hset with ⟨wp, rfl⟩ | ⟨b, rfl⟩
    · exact ⟨⟨h.gend, h.waited, h.enough⟩, fun _ => rfl⟩
    · exact ⟨⟨h.gend, h.waited, h.enough⟩, fun _ => rfl⟩
  by_cases hr : t.proc.obj.Readable
  · have ha := h.ample hr
    have peek : 0 < m → (within (underflow (N.toKernel.watched Q.arrived)) t).Sat
        (fun v t' => Promised Q (m - 0) t'.proc ∧ (t.proc.obj.Readable → (if v = eofValue then 0 else 1) = 1))
        (fun _ t' => Promised Q (m - 0) t'.proc) := fun hm =>
      (within_sat (underflow_ample ha hm)).mono (fun v _ h => ⟨h.1.1.promised, fun _ => if_neg h.1.2.1⟩)
        fun _ _ h => h.1.promised
    have bump : 0 < m → (within (uflow (N.toKernel.watched Q.arrived)) t).Sat
        (fun v t' => Promised Q (m - 1) t'.proc ∧ (t.proc.obj.Readable → (if v = eofValue then 0 else 1) = 1))
        (fun _ t' => Promised Q (m - 1) t'.proc) := fun hm =>
      (within_sat (uflow_ample ha hm)).mono (fun v _ h => ⟨h.1.1.promised, fun _ => if_neg h.1.2⟩)
        fun _ _ h => h.1.promised
    cases op with
    | sgetc => rw [GetOp.exec, sgetc_eq]; exact peek hask
    | underflow => exact peek hask
    | sbumpc => rw [GetOp.exec, sbumpc_eq]; exact bump hask
    | uflow => exact bump hask
    | sgetn n =>
        rw [GetOp.exec, Prog.map_apply]
        refine (xsgetn_ample ha hask).andThen ?_ fun _ _ h => h.promised
        rintro r t' ⟨h', rfl⟩
        exact ⟨h'.promised, fun _ => rfl⟩
    | recvtimeout wp => exact absurd (.inl ⟨wp, rfl⟩) hset
    | oob b => exact absurd (.inr ⟨b, rfl⟩) hset
  · -- nothing is left to promise, and nothing is done
    have hnone : t.proc.obj.getArea = none := by
      cases hg : t.proc.obj.getArea with
      | none => rfl
      | some a => exact absurd ⟨a, hg⟩ hr
    rw [GetOp.exec_refused (fun wp he => hset (.inl ⟨wp, he⟩)) (fun b he => hset (.inr ⟨b, he⟩)) hnone]
    exact ⟨⟨h.gend, h.waited, fun hr' => absurd hr' hr⟩, fun hr' => absurd hr' hr⟩

/-- The invariant of a session: what is promised covers what is still asked for. -/
def Covers (Q : Queue N) (ops : List SockOp) (t : Getting (Watch κ)) : Prop :=
  Reached (N.toKernel.watched Q.arrived) t.proc.obj ∧ ∃ m, SockOp.Modest m ops ∧ Promised Q m t.proc

/-- **One operation.** -/
theorem exec_covers (op : SockOp) (ops : List SockOp) (t : Getting (Watch κ)) (h : Covers Q (op :: ops) t) :
    (op.exec (N.toKernel.watched Q.arrived) t).Sat
      (fun v t' => op.Prompt t (.ok v) t' ∧ Covers Q ops t')
      (fun e t' => op.Prompt t (.error e) t' ∧ Covers Q ops t') := by
  obtain ⟨hreached, m, ⟨hask, hrest⟩, hp⟩ := h
  have hleaves := reached_leaves hreached op t.proc.sys t.dst
  have other : (∀ g, op ≠ .get g) → (op.exec (N.toKernel.watched Q.arrived) t).Leaves
      (fun t' => Promised Q m t'.proc) → op.taking = 0 →
      (op.exec (N.toKernel.watched Q.arrived) t).Sat
        (fun v t' => op.Prompt t (.ok v) t' ∧ Covers Q ops t')
        (fun e t' => op.Prompt t (.error e) t' ∧ Covers Q ops t') := by
    intro hne h htakes
    rw [htakes] at hrest
    have hend := hreached.exec_ends t.proc.sys t.dst op
    have after : ∀ (r : Except Thrown Int) (t' : Getting (Watch κ)),
        Promised Q m t'.proc ∧ Reached (N.toKernel.watched Q.arrived) t'.proc.obj →
        op.Prompt t r t' ∧ Covers Q ops t' := fun r t' h =>
      ⟨⟨h.1.waited, fun g _ he => absurd he (hne g)⟩, h.2, m, hrest, h.1⟩
    refine ((h.within.sat ?_).and_leaves hleaves).mono (fun v t' => after _ t') fun e t' => after _ t'
    obtain ⟨r, t', hres⟩ := hend
    exact ⟨_, hres⟩
  cases op with
  | get op =>
      refine ((getOp_promised op hp hask).and_leaves hleaves).mono ?_ ?_
      · rintro v t' ⟨⟨hp', hall⟩, hreached'⟩
        refine ⟨⟨hp'.waited, fun g w he hv hr => ?_⟩, hreached', _, hrest, hp'⟩
        cases he
        cases hv
        exact hall hr
      · rintro e t' ⟨hp', hreached'⟩
        exact ⟨⟨hp'.waited, fun _ _ _ hv => by cases hv⟩, hreached', _, hrest, hp'⟩
  | put op => exact other (fun g he => by cases he) (putOp_promised op hp) rfl
  | sungetc =>
      refine other (fun g he => by cases he) ?_ rfl
      exact Outcome.leaves_mapState.mpr (sungetc_promised hp)
  | sputbackc c =>
      refine other (fun g he => by cases he) ?_ rfl
      exact Outcome.leaves_mapState.mpr (sputbackc_promised c hp)
  | shutdown sh =>
      refine other (fun g he => by cases he) ?_ rfl
      exact Prog.leaves_map _ (Outcome.leaves_mapState.mpr (shutdown_promised sh hp))

/-- The input buffer of an object reached has room. -/
theorem Reached.gend_pos {K : Kernel κ} {b : Sockbuf} (h : Reached K b) : 0 < b.rep.gend := by
  induction h with
  | ofDesc B sd gbuf pbuf => exact B.pos
  | @step b y dst op r t _ came ih =>
      have hsets : ∀ rep : Sockcnt, (op.sets rep).gend = rep.gend := by
        intro rep
        cases op with
        | put op => cases op <;> rfl
        | get op => cases op <;> rfl
        | sungetc | sputbackc _ | shutdown _ => rfl
      have hstream := stream_exec (K := K) op ⟨⟨b, y⟩, dst⟩
      cases hx : op.exec K ⟨⟨b, y⟩, dst⟩ with
      | ret a t' =>
          rw [hx] at came hstream
          cases came
          rw [hstream.1, hsets]
          exact ih
      | thrown e t' =>
          rw [hx] at came hstream
          cases came
          rw [hstream.1, hsets]
          exact ih
      | spin =>
          rw [hx] at came
          cases came
  | shared stmo rtmo oob _ ih => exact ih
  | setname name _ ih => exact ih
  | copy _ ih => exact ih

/-- What `nread` gives, for a number of bytes that an `int` holds. -/
theorem toInt_long (arg n : BitVec 32) {k : Nat} (hn : n.toInt = k) :
    (arg ++ n).toInt = k + 2 ^ 32 * arg.toInt := by
  have hnat : (n.toNat : Int) = k := by
    rw [← hn, BitVec.toInt_eq_toNat_cond, if_pos]
    rw [BitVec.toInt_eq_toNat_cond] at hn
    split at hn
    · assumption
    · omega
  rw [BitVec.toInt_append, hnat]
  exact Int.add_comm _ _

/-- **What `howmanyc` tells.** -/
theorem howmanyc_told {arg : BitVec 32} {v : Int} (h : howmanyc (N.watched Q.arrived) arg s = .ret v s') :
    s'.obj = s.obj ∧ s'.sys.kern.waited = s.sys.kern.waited ∧
      v = s'.obj.showmanyc + arrivedIn Q s' + 2 ^ 32 * arg.toInt := by
  simp only [howmanyc, nread, call, Sys.fionread, QueueKernel.watched, Prog.bind_apply, Prog.get_apply,
    Outcome.andThen_ret, Prog.zoom_apply] at h
  rcases hf : N.fionread s.sys.kern.kern s.obj.rep.sock with ⟨a, k⟩
  rw [hf] at h
  cases a with
  | error e => cases h
  | ok n =>
      cases h
      refine ⟨rfl, rfl, ?_⟩
      rw [toInt_long arg n (Q.fionread _ _ _ _ hf), ← Int.add_assoc]
      rfl

/-- **What `howmanyc` promises.**  On any object reached it tells the number of bytes that are unread or have
arrived, and 2^32 times what it has found in the upper half of `arg`.  Where that is zero: in every session of
any operations whose gets ask for no more, no call waits for a byte, and as long as the get side is open each
get that returns has all it has asked for. -/
theorem howmanyc_kept (Q : Queue N) {arg : BitVec 32} {v : Int}
    (hs : Reached (N.toKernel.watched Q.arrived) s.obj) (hw : s.sys.kern.waited = false)
    (h : howmanyc (N.watched Q.arrived) arg s = .ret v s') :
    v = s'.obj.showmanyc + arrivedIn Q s' + 2 ^ 32 * arg.toInt ∧
      (arg = 0 → ∀ dst ops, SockOp.Modest v.toNat ops →
        Each SockOp.Prompt ⟨s', dst⟩ ops
          (session (SockOp.exec (N.toKernel.watched Q.arrived)) ops ⟨s', dst⟩)) := by
  obtain ⟨hobj, hwaited, hv⟩ := howmanyc_told h
  refine ⟨hv, ?_⟩
  rintro rfl dst ops hmodest
  refine each_session exec_covers ops ⟨s', dst⟩
    ⟨hobj ▸ hs, v.toNat, hmodest, hobj ▸ hs.gend_pos, hwaited.trans hw, fun _ => ?_⟩
  show v.toNat ≤ s'.obj.showmanyc + arrivedIn Q s'
  rw [show (0 : BitVec 32).toInt = 0 from BitVec.toInt_zero] at hv
  omega

/-- A kernel in which `k` bytes `x` have arrived, given two at a time. -/
def pairs : QueueKernel Nat where
  write k _ bs      := (.all bs, k)
  read k _ len      :=
    if h : 0 < min (min k 2) len then
      (.data (List.replicate (min (min k 2) len) 120) (by rwa [List.length_replicate])
        (by rw [List.length_replicate]; exact Nat.min_le_right _ _), k - min (min k 2) len)
    else (.eof, k)
  selectRead k _ _  := (.ok 1, k)
  selectWrite k _ _ := (.ok 1, k)
  sockatmark k _    := (.ok false, k)
  shutdown k _ _    := (.ok (), k)
  open_ k _         := (.error 2, k)
  fionread k _      := if k < 2 ^ 31 then (.ok (BitVec.ofNat 32 k), k) else (.error 22, k)

theorem pairs_fionread {k k' : Nat} {fd : Int} {n : BitVec 32} (h : pairs.fionread k fd = (.ok n, k')) :
    n.toInt = k' := by
  simp only [pairs] at h
  split at h
  · cases h
    rename_i hk
    rw [BitVec.toInt_eq_toNat_cond, BitVec.toNat_ofNat]
    omega
  · cases h

theorem pairs_read (k : Nat) (fd : Int) (len : Nat) :
    k ≤ (pairs.read k fd len).1.size + (pairs.read k fd len).2 := by
  simp only [pairs]
  split
  · simp only [ReadResult.size, List.length_replicate]
    omega
  · exact Nat.le_add_left _ _

theorem pairs_eof {k : Nat} {fd : Int} {len : Nat} (hlen : 0 < len) (h : (pairs.read k fd len).1 = .eof) :
    k = 0 := by
  simp only [pairs] at h
  split at h
  · cases h
  · omega

def pairsQueue : Queue pairs where
  arrived k _         := k
  fionread _ _ _ _ h  := pairs_fionread h
  read                := pairs_read
  eof _ _ _ hlen h    := pairs_eof hlen h
  selectRead k _ _    := Nat.le_refl k
  sockatmark k _      := Nat.le_refl k
  write k _ _ _       := Nat.le_refl k
  selectWrite k _ _ _ := Nat.le_refl k
  shut_write k _      := Nat.le_refl k

/-- Five bytes have arrived on the descriptor 3. -/
def five : Proc Sockbuf (Watch Nat) := ⟨ofDesc bufsiz 3 (fun _ => 0) fun _ => 0, ⟨5, false⟩, 0, []⟩

/-- They are taken one by one and together, and the last one twice. -/
def nibbles : List SockOp :=
  [.get .sbumpc, .get (.sgetn 3), .put (.sputc 33), .get .sgetc, .sungetc, .get (.sgetn 1)]

theorem howmanyc_kept_five :
    Each SockOp.Prompt ⟨five, []⟩ nibbles
      (session (SockOp.exec (pairs.toKernel.watched pairsQueue.arrived)) nibbles ⟨five, []⟩) :=
  (howmanyc_kept pairsQueue (.ofDesc bufsiz 3 _ _) rfl
    (rfl : howmanyc (pairs.watched pairsQueue.arrived) 0 five = .ret 5 five)).2 rfl [] nibbles (by decide)

end Sockbuf

end Socketpp
