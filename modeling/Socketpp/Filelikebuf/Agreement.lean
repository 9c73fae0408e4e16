import Socketpp.Filelikebuf.Model
import Socketpp.Lib.Beside
import Socketpp.Sockbuf.Input
import Socketpp.Sockbuf.Output

/-!
# Filelikebuf — next to a sockbuf

A filelikebuf and a sockbuf on the same descriptor, taken through the same operations (`StreamOp`)
by the same kernel.  `Agrees`: step by step both come to an end, and show the same value or both
throw, the same calls, the same bytes handed out and the same offsets of the four pointers.

They drift apart in two ways.  A filelikebuf whose `::write` is accepted sets `epptr ()` to the
null end of `filecnt`, and its first `::read` asks for the `int` that the null end makes of the
buffer's address.  `Drifts` says, on the sockbuf's state before a step, that the step is one of
these; `Sticks`, that no step of a run is.

`Alike` is the simulation relation: the two objects differ in their buffer ends only.  A step that
does not drift keeps it and shows the same on both sides (`exec_beside`), so a run that sticks
agrees (`Sticks.agrees`).
-/

namespace Socketpp
open Lib

variable {κ : Type} {K : Kernel κ}

/-- The operations of both classes. -/
inductive StreamOp where
  | sputc (c : Byte)
  | sputn (s : List Byte)
  | sync
  | sgetc
  | sbumpc
  | sgetn (n : Nat)

/-- The offsets of `pptr ()`, `epptr ()`, `gptr ()` and `egptr ()`, of the areas there are. -/
structure Offsets where
  put : Option (Int × Int)
  get : Option (Int × Int)
deriving DecidableEq

/-- What an operation shows: the value, unless it threw, and after it the calls made so far, the
bytes stored by `sgetn` so far, and the offsets. -/
structure Shown where
  value   : Option Int
  calls   : List Syscall
  stored  : List Byte
  offsets : Offsets
deriving DecidableEq

def Sockbuf.offsets (b : Sockbuf) : Offsets :=
  { put := b.putArea.map fun p => (p.pptr, p.epptr)
    get := b.getArea.map fun a => (a.gptr, a.egptr) }

def Sockbuf.Getting.shown (r : Except Thrown Int) (t : Sockbuf.Getting κ) : Shown :=
  { value := r.toOption, calls := t.proc.sys.trace, stored := t.dst, offsets := t.proc.obj.offsets }

def Filelikebuf.offsets (b : Filelikebuf) : Offsets :=
  { put := b.putArea.map fun p => (p.pptr, p.epptr)
    get := b.getArea.map fun a => (a.gptr, a.egptr) }

def Filelikebuf.Getting.shown (r : Except Thrown Int) (u : Filelikebuf.Getting κ) : Shown :=
  { value := r.toOption, calls := u.proc.sys.trace, stored := u.dst, offsets := u.proc.obj.offsets }

/-- A caller of `b` that has been given nothing yet. -/
def Sockbuf.caller (b : Sockbuf) (y : Sys κ) : Sockbuf.Getting κ :=
  { proc := { obj := b, sys := y }, dst := [] }

def Filelikebuf.caller (b : Filelikebuf) (y : Sys κ) : Filelikebuf.Getting κ :=
  { proc := { obj := b, sys := y }, dst := [] }

/-- The kernel accepts some of `bs`. -/
def Kernel.Accepts (K : Kernel κ) (k : κ) (fd : Int) (bs : List Byte) : Prop :=
  match (K.write k fd bs).1 with
  | .accepted _ _ _ => True
  | .failed _       => False

/-- The address `a` and the size `n` of a buffer whose end has the low 32 bits of null. -/
def EndsLikeNull (n a : Nat) : Prop := 2 ^ 32 ∣ n + a

namespace StreamOp

def onSockbuf (K : Kernel κ) : StreamOp → Prog Thrown (Sockbuf.Getting κ) Int
  | .sputc c => Sockbuf.within (Sockbuf.sputc K c)
  | .sputn s => (fun n : Nat => (n : Int)) <$> Sockbuf.within (Sockbuf.xsputn K s)
  | .sync    => Sockbuf.within (Sockbuf.sync K)
  | .sgetc   => Sockbuf.within (Sockbuf.sgetc K)
  | .sbumpc  => Sockbuf.within (Sockbuf.sbumpc K)
  | .sgetn n => (fun n : Nat => (n : Int)) <$> Sockbuf.xsgetn K n

def onFilelikebuf (K : Kernel κ) : StreamOp → Prog Thrown (Filelikebuf.Getting κ) Int
  | .sputc c => Filelikebuf.within (Filelikebuf.sputc K c)
  | .sputn s => (fun n : Nat => (n : Int)) <$> Filelikebuf.within (Filelikebuf.xsputn K s)
  | .sync    => Filelikebuf.within (Filelikebuf.sync K)
  | .sgetc   => Filelikebuf.within (Filelikebuf.sgetc K)
  | .sbumpc  => Filelikebuf.within (Filelikebuf.sbumpc K)
  | .sgetn n => (fun n : Nat => (n : Int)) <$> Filelikebuf.xsgetn K n

/-- What the operation has `::write` offered first: a full buffer, or for `sync` a buffer with
anything in it. -/
def offered : StreamOp → Sockbuf → List Byte
  | .sputc _, b => if b.room = 0 then b.pending else []
  | .sputn s, b => if s.length ≤ b.room then [] else b.pending ++ s.take b.room
  | .sync,    b => b.pending
  | _,        _ => []

/-- The operation needs a `::read`. -/
def Refills : StreamOp → Sockbuf → Prop
  | .sgetc,   b => b.unread = []
  | .sbumpc,  b => b.unread = []
  | .sgetn n, b => b.unread.length < n
  | _,        _ => False

/-- The step is one that the two classes take differently, with the get area of the filelikebuf at
the address `gaddr`. -/
def Drifts (K : Kernel κ) (BUFSIZ gaddr : Nat) (op : StreamOp) (s : Proc Sockbuf κ) : Prop :=
  K.Accepts s.sys.kern s.obj.rep.sock (op.offered s.obj) ∨
    (op.Refills s.obj ∧ ¬ EndsLikeNull BUFSIZ gaddr)

end StreamOp

/-- The two runs show the same after each operation. -/
def Agrees (K : Kernel κ) :
    List StreamOp → Sockbuf.Getting κ → Filelikebuf.Getting κ → Prop
  | [],        _, _ => True
  | op :: ops, t, u => ∃ r t' r' u',
      (op.onSockbuf K t).result = some (r, t') ∧ (op.onFilelikebuf K u).result = some (r', u') ∧
      t'.shown r = u'.shown r' ∧ Agrees K ops t' u'

/-- No step of the sockbuf's run drifts. -/
def Sticks (K : Kernel κ) (BUFSIZ gaddr : Nat) : List StreamOp → Sockbuf.Getting κ → Prop
  | [],        _ => True
  | op :: ops, t => ¬ op.Drifts K BUFSIZ gaddr t.proc ∧
      ∀ r t', (op.onSockbuf K t).result = some (r, t') → Sticks K BUFSIZ gaddr ops t'

/-! ### The conversions -/

/-- A number that an `int` holds. -/
theorem asInt_of_nat {n : Nat} (h : n < 2 ^ 31) : asInt n = n := by
  unfold asInt
  exact Int.bmod_eq_of_le (by omega) (by omega)

/-- The count that the first `::read` of a filelikebuf asks for. -/
theorem asSize_null_eq_iff {n a : Nat} (h : 0 < n) (h' : n < 2 ^ 31) :
    asSize (asInt ((nullptr : Int) - a)) = n ↔ EndsLikeNull n a := by
  unfold asSize asInt nullptr EndsLikeNull
  rw [Int.bmod_def]
  split <;> omega

/-! ### The simulation relation -/

/-- The put areas have the same pointers and the same bytes pending. -/
structure FilePutArea.Like (BUFSIZ : Nat) (q : FilePutArea) (p : PutArea) : Prop where
  pptr   : q.pptr = p.pptr
  epptr  : q.epptr = p.epptr
  bytes  : q.mem.slice 0 p.pptr = p.mem.slice 0 p.pptr
  inside : p.pptr ≤ p.epptr
  whole  : p.epptr = BUFSIZ
  addr   : 0 < q.pbase

/-- The get areas have the same pointers and the same bytes unread. -/
structure FileGetArea.Like (BUFSIZ gaddr : Nat) (h : FileGetArea) (g : GetArea) : Prop where
  gptr  : h.gptr = g.gptr
  egptr : h.egptr = g.egptr
  bytes : h.mem.slice g.gptr (g.egptr - g.gptr) = g.mem.slice g.gptr (g.egptr - g.gptr)
  whole : g.egptr ≤ BUFSIZ
  addr  : h.eback = gaddr

/-- The two objects are alike, up to the ends in their shared records. -/
structure Alike (BUFSIZ gaddr : Nat) (s : Proc Sockbuf κ) (t : Proc Filelikebuf κ) : Prop where
  sys  : t.sys = s.sys
  rep  : t.obj.rep = Filecnt.ofDesc s.obj.rep.sock
  stmo : s.obj.rep.stmo = -1
  rtmo : s.obj.rep.rtmo = -1
  oob  : s.obj.rep.oob = false
  gend : s.obj.rep.gend = BUFSIZ
  pend : s.obj.rep.pend = BUFSIZ
  put  : ∃ p q, s.obj.putArea = some p ∧ t.obj.putArea = some q ∧ q.Like BUFSIZ p
  get  : ∃ g h, s.obj.getArea = some g ∧ t.obj.getArea = some h ∧ h.Like BUFSIZ gaddr g

/-- The callers have been given the same. -/
structure AlikeTo (BUFSIZ gaddr : Nat) (t : Sockbuf.Getting κ) (u : Filelikebuf.Getting κ) : Prop where
  proc : Alike BUFSIZ gaddr t.proc u.proc
  dst  : u.dst = t.dst

section Alike

variable {B gaddr : Nat} {s : Proc Sockbuf κ} {t : Proc Filelikebuf κ}

/-- Entering the same call on both sides. -/
theorem Alike.enter (h : Alike B gaddr s t) (y : Sys κ) :
    Alike B gaddr { s with sys := y } { t with sys := y } :=
  ⟨rfl, h.rep, h.stmo, h.rtmo, h.oob, h.gend, h.pend, h.put, h.get⟩

theorem Alike.writable (h : Alike B gaddr s t) (hB : 0 < B) : s.obj.Writable := by
  obtain ⟨p, q, hp, -, hl⟩ := h.put
  exact ⟨p, hp, hl.inside, hl.whole.trans h.pend.symm, by rw [h.pend]; exact hB⟩

theorem Alike.readable (h : Alike B gaddr s t) : s.obj.Readable := by
  obtain ⟨g, -, hg, -⟩ := h.get
  exact ⟨g, hg⟩

theorem Alike.onPut (h : Alike B gaddr s t) {f : PutArea → PutArea}
    {f' : FilePutArea → FilePutArea} (hf : ∀ p q, s.obj.putArea = some p → q.Like B p →
      (f' q).Like B (f p)) :
    Alike B gaddr (s.onObj (Sockbuf.onPut f)) (t.onObj (Filelikebuf.onPut f')) := by
  obtain ⟨p, q, hp, hq, hl⟩ := h.put
  exact ⟨h.sys, h.rep, h.stmo, h.rtmo, h.oob, h.gend, h.pend,
    ⟨f p, f' q, by simp [Proc.onObj, Sockbuf.onPut, hp], by simp [Proc.onObj, Filelikebuf.onPut, hq],
      hf p q hp hl⟩, h.get⟩

theorem Alike.onGet (h : Alike B gaddr s t) {f : GetArea → GetArea}
    {f' : FileGetArea → FileGetArea} (hf : ∀ g g', s.obj.getArea = some g → g'.Like B gaddr g →
      (f' g').Like B gaddr (f g)) :
    Alike B gaddr (s.onObj (Sockbuf.onGet f)) (t.onObj (Filelikebuf.onGet f')) := by
  obtain ⟨g, g', hg, hg', hl⟩ := h.get
  exact ⟨h.sys, h.rep, h.stmo, h.rtmo, h.oob, h.gend, h.pend, h.put,
    ⟨f g, f' g', by simp [Proc.onObj, Sockbuf.onGet, hg],
      by simp [Proc.onObj, Filelikebuf.onGet, hg'], hf g g' hg hl⟩⟩

theorem FilePutArea.Like.fill {p : PutArea} {q : FilePutArea} (h : q.Like B p) {bs : List Byte}
    (hbs : p.pptr + bs.length ≤ p.epptr) : (q.fill bs).Like B (p.fill bs) := by
  refine ⟨by simp only [FilePutArea.fill, PutArea.fill, h.pptr], h.epptr, ?_, hbs, h.whole, h.addr⟩
  have hq := q.mem.slice_store_append 0 p.pptr bs
  have hp := p.mem.slice_store_append 0 p.pptr bs
  rw [Nat.zero_add] at hq hp
  simp only [FilePutArea.fill, PutArea.fill, h.pptr, hq, hp, h.bytes]

theorem FilePutArea.Like.putc {p : PutArea} {q : FilePutArea} (h : q.Like B p)
    (hp : p.pptr < p.epptr) (c : Byte) : (q.putc c).Like B (p.putc c) := by
  have hfill : (q.fill [c]).Like B (p.fill [c]) := h.fill hp
  exact hfill

theorem FileGetArea.Like.gbump {g : GetArea} {h : FileGetArea} (hl : h.Like B gaddr g) {n : Nat}
    (hn : n ≤ g.egptr - g.gptr) : (h.gbump n).Like B gaddr (g.gbump n) := by
  refine ⟨by simp only [FileGetArea.gbump, GetArea.gbump, hl.gptr], hl.egptr, ?_, hl.whole, hl.addr⟩
  have hb := congrArg (List.drop n) hl.bytes
  rw [Mem.drop_slice _ _ hn, Mem.drop_slice _ _ hn, Nat.sub_sub] at hb
  exact hb

/-- The get areas after a `::read` of the same bytes. -/
theorem FileGetArea.Like.refill {g : GetArea} {h : FileGetArea} (hl : h.Like B gaddr g)
    {bs : List Byte} (hbs : bs.length ≤ B) :
    ((h.stored bs).setg bs.length).Like B gaddr (g.refill bs) :=
  ⟨rfl, rfl, by
    simp only [FileGetArea.setg, FileGetArea.stored, GetArea.refill, Nat.sub_zero, Mem.slice_store],
    hbs, hl.addr⟩

end Alike

/-! ### Output -/

/-- The kernel that does not accept refuses. -/
theorem Kernel.refuses {k : κ} {fd : Int} {b : Byte} {l : List Byte}
    (h : ¬ K.Accepts k fd (b :: l)) : ∃ e k', K.write k fd (b :: l) = (.failed e, k') := by
  unfold Kernel.Accepts at h
  cases hw : K.write k fd (b :: l) with
  | mk r k' =>
      cases r with
      | accepted n pos le => rw [hw] at h; exact absurd trivial h
      | failed e => exact ⟨e, k', rfl⟩

namespace Sockbuf

/-- `sync` where the kernel refuses what is pending. -/
theorem sync_refused {s : Proc Sockbuf κ} {p : PutArea} (hp : s.obj.putArea = some p)
    (hin : 0 < p.pptr ∧ p.pptr ≤ p.epptr) (hs : s.obj.rep.stmo = -1) {e : Int} {k : κ}
    (hw : K.write s.sys.kern s.obj.rep.sock (p.mem.slice 0 p.pptr) = (.failed e, k)) :
    ∃ x, sync K s = .thrown x { s with
      sys := s.sys.enterFailed k e (.write s.obj.rep.sock (p.mem.slice 0 p.pptr) none) } := by
  obtain ⟨n, hn⟩ := Nat.exists_eq_succ_of_ne_zero (Nat.pos_iff_ne_zero.mp hin.1)
  simp only [sync, Prog.bind_apply, Prog.get_apply, Outcome.andThen_ret, hp, Prog.ite_apply,
    if_pos hin, Prog.tryCatch_apply, write, awaitWriteready, if_pos hs, Prog.pure_apply,
    Mem.length_slice]
  rw [hn, Mem.slice_succ] at hw ⊢
  simp only [writeLoop, Prog.bind_apply, Prog.get_apply, Outcome.andThen_ret, call, Prog.zoom_apply,
    Sys.write, hw, Outcome.mapState_ret, Prog.throw_apply, Outcome.handle_thrown, syncCatch,
    Prog.modify_apply, if_true, Outcome.andThen_thrown]
  exact ⟨_, rfl⟩

end Sockbuf

namespace Filelikebuf

theorem sync_refused {t : Proc Filelikebuf κ} {q : FilePutArea} (hq : t.obj.putArea = some q)
    (hin : 0 < q.pptr ∧ (q.pptr : Int) ≤ q.epptr) {e : Int} {k : κ}
    (hw : K.write t.sys.kern t.obj.rep.file (q.mem.slice 0 q.pptr) = (.failed e, k)) :
    ∃ x, sync K t = .thrown x { t with
      sys := t.sys.enterFailed k e (.write t.obj.rep.file (q.mem.slice 0 q.pptr) none) } := by
  obtain ⟨n, hn⟩ := Nat.exists_eq_succ_of_ne_zero (Nat.pos_iff_ne_zero.mp hin.1)
  simp only [sync, Prog.bind_apply, Prog.get_apply, Outcome.andThen_ret, hq, Prog.ite_apply,
    if_pos hin, Prog.tryCatch_apply, write, Mem.length_slice]
  rw [hn, Mem.slice_succ] at hw ⊢
  simp only [writeLoop, Prog.bind_apply, Prog.get_apply, Outcome.andThen_ret, call, Prog.zoom_apply,
    Sys.write, hw, Outcome.mapState_ret, Prog.throw_apply, Outcome.handle_thrown, syncCatch,
    Prog.modify_apply, if_true, Outcome.andThen_thrown]
  exact ⟨_, rfl⟩

end Filelikebuf

section Output

variable {B gaddr : Nat} {s : Proc Sockbuf κ} {t : Proc Filelikebuf κ}

/-- **`sync`** where nothing is accepted: with nothing pending neither object does anything, and
otherwise both throw. -/
theorem sync_beside (h : Alike B gaddr s t)
    (hK : ¬ K.Accepts s.sys.kern s.obj.rep.sock s.obj.pending) :
    (Sockbuf.sync K s).Beside
      (fun v s' v' t' => v = 0 ∧ v' = 0 ∧ s' = s ∧ t' = t ∧ s.obj.pending = [])
      (fun _ s' _ t' => Alike B gaddr s' t') (Filelikebuf.sync K t) := by
  obtain ⟨p, q, hp, hq, hl⟩ := h.put
  have hq0 : t.obj.rep.file = s.obj.rep.sock := by rw [h.rep]; rfl
  by_cases h0 : 0 < p.pptr
  · have hin : 0 < p.pptr ∧ p.pptr ≤ p.epptr := ⟨h0, hl.inside⟩
    have hin' : 0 < q.pptr ∧ (q.pptr : Int) ≤ q.epptr := by
      rw [hl.pptr, hl.epptr]
      exact ⟨h0, by exact_mod_cast hl.inside⟩
    rw [Sockbuf.pending_eq hp] at hK
    obtain ⟨e, k, hw⟩ : ∃ e k, K.write s.sys.kern s.obj.rep.sock (p.mem.slice 0 p.pptr) =
        (.failed e, k) := by
      obtain ⟨n, hn⟩ := Nat.exists_eq_succ_of_ne_zero (Nat.pos_iff_ne_zero.mp h0)
      rw [hn, Mem.slice_succ] at hK ⊢
      exact Kernel.refuses hK
    have hbytes : q.mem.slice 0 q.pptr = p.mem.slice 0 p.pptr := by rw [hl.pptr, hl.bytes]
    obtain ⟨x, hs⟩ := Sockbuf.sync_refused hp hin h.stmo hw
    obtain ⟨x', ht⟩ := Filelikebuf.sync_refused (K := K) (e := e) (k := k) hq hin'
      (by rw [hbytes, h.sys, hq0]; exact hw)
    rw [hs, ht, hbytes, h.sys, hq0]
    exact h.enter _
  · have hempty : s.obj.pending = [] := by
      rw [Sockbuf.pending_eq hp, Nat.eq_zero_of_not_pos h0, Mem.slice_zero]
    have hs : Sockbuf.sync K s = .ret 0 s := by
      simp only [Sockbuf.sync, Prog.bind_apply, Prog.get_apply, Outcome.andThen_ret, hp,
        Prog.ite_apply, if_neg (fun h : 0 < p.pptr ∧ _ => h0 h.1), Prog.pure_apply]
    have ht : Filelikebuf.sync K t = .ret 0 t := by
      rw [← hl.pptr] at h0
      simp only [Filelikebuf.sync, Prog.bind_apply, Prog.get_apply, Outcome.andThen_ret, hq,
        Prog.ite_apply, if_neg (fun h : 0 < q.pptr ∧ _ => h0 h.1), Prog.pure_apply]
    rw [hs, ht]
    exact ⟨rfl, rfl, rfl, rfl, hempty⟩

/-- The two objects have the same room, as an `int` counts it. -/
theorem Alike.room (h : Alike B gaddr s t) (hB : B < 2 ^ 31) : t.obj.room = s.obj.room := by
  obtain ⟨p, q, hp, hq, hl⟩ := h.put
  have hin := hl.inside
  have hwhole := hl.whole
  rw [Filelikebuf.room, Sockbuf.room, hp, hq]
  show asInt (q.epptr - q.pptr) = ((p.epptr - p.pptr : Nat) : Int)
  rw [hl.epptr, hl.pptr, ← Int.ofNat_sub hin, asInt_of_nat (by omega)]

/-- **`sputc`.** -/
theorem sputc_beside (h : Alike B gaddr s t) (hB : 0 < B) (c : Byte)
    (hK : ¬ K.Accepts s.sys.kern s.obj.rep.sock ((StreamOp.sputc c).offered s.obj)) :
    (Sockbuf.sputc K c s).Beside (fun v s' v' t' => v' = v ∧ Alike B gaddr s' t')
      (fun _ s' _ t' => Alike B gaddr s' t') (Filelikebuf.sputc K c t) := by
  obtain ⟨p, q, hp, hq, hl⟩ := h.put
  have hroom : s.obj.room = p.epptr - p.pptr := by simp only [Sockbuf.room, hp]
  simp only [Sockbuf.sputc, Filelikebuf.sputc, Prog.bind_apply, Prog.get_apply, Outcome.andThen_ret,
    hp, hq, Prog.ite_apply, hl.pptr, hl.epptr, Int.ofNat_lt, Prog.modify_apply]
  by_cases hlt : p.pptr < p.epptr
  · rw [if_pos hlt, if_pos hlt]
    refine ⟨rfl, h.onPut fun p' q' hp' hl' => hl'.putc ?_ c⟩
    obtain rfl : p = p' := Option.some.inj (hp.symm.trans hp')
    exact hlt
  · -- the area is full: `overflow` syncs, and the kernel refuses
    rw [if_neg hlt, if_neg hlt]
    have heq : p.pptr = p.epptr := by have := hl.inside; omega
    rw [StreamOp.offered, if_pos (by omega)] at hK
    simp only [Sockbuf.overflow, Filelikebuf.overflow, Prog.bind_apply, Prog.get_apply,
      Outcome.andThen_ret, hp, hq, Prog.ite_apply, if_neg (byte_ne_eof c), hl.pptr, hl.epptr,
      Int.ofNat_inj, if_pos heq]
    refine (sync_beside h hK).andThen ?_ fun _ _ _ _ h => h
    rintro v s' v' t' ⟨-, -, -, -, hempty⟩
    rw [Sockbuf.pending_eq hp] at hempty
    have hlen := congrArg List.length hempty
    rw [Mem.length_slice, heq, hl.whole] at hlen
    exact absurd hlen (Nat.pos_iff_ne_zero.mp hB)

/-- The same bytes stored where there is room. -/
theorem Alike.fill (h : Alike B gaddr s t) {xs : List Byte} (hxs : xs.length ≤ s.obj.room) :
    Alike B gaddr (s.onObj (Sockbuf.onPut fun p => p.fill xs))
      (t.onObj (Filelikebuf.onPut fun q => q.fill xs)) := by
  refine h.onPut fun p q hp hl => hl.fill ?_
  have := hl.inside
  simp only [Sockbuf.room, hp] at hxs
  omega

/-- **`xsputn`.** -/
theorem xsputn_beside (h : Alike B gaddr s t) (hB : 0 < B) (hB' : B < 2 ^ 31) (bs : List Byte)
    (hK : ¬ K.Accepts s.sys.kern s.obj.rep.sock ((StreamOp.sputn bs).offered s.obj)) :
    (Sockbuf.xsputn K bs s).Beside (fun v s' v' t' => v' = v ∧ Alike B gaddr s' t')
      (fun _ s' _ t' => Alike B gaddr s' t') (Filelikebuf.xsputn K bs t) := by
  obtain ⟨p, q, hp, hq, hl⟩ := h.put
  have hroom : s.obj.room = p.epptr - p.pptr := by simp only [Sockbuf.room, hp]
  simp only [Sockbuf.xsputn, Filelikebuf.xsputn, Sockbuf.xsputnRec, Filelikebuf.xsputnRec,
    Prog.bind_apply, Prog.get_apply, Outcome.andThen_ret, Prog.ite_apply, h.room hB', Int.ofNat_le,
    Prog.modify_apply, Int.toNat_natCast]
  by_cases hle : bs.length ≤ s.obj.room
  · rw [if_pos hle, if_pos hle]
    exact ⟨rfl, h.fill hle⟩
  · -- the rest does not fit: the filled area is offered, and the kernel refuses
    rw [if_neg hle, if_neg hle, if_neg (by omega)]
    rw [StreamOp.offered, if_neg hle] at hK
    have htake : (bs.take s.obj.room).length ≤ s.obj.room := by rw [List.length_take]; omega
    have h₁ := h.fill htake
    have hpend := Sockbuf.pending_fill hp (bs.take s.obj.room)
    have hsync := sync_beside (K := K) h₁ (by
      show ¬ K.Accepts s.sys.kern s.obj.rep.sock (Sockbuf.pending (s.obj.onPut _))
      rw [hpend]
      exact hK)
    have hput₁ : (s.onObj (Sockbuf.onPut fun p => p.fill (bs.take s.obj.room))).obj.putArea =
        some (p.fill (bs.take s.obj.room)) := by simp [Proc.onObj, Sockbuf.onPut, hp]
    have hput₂ : (t.onObj (Filelikebuf.onPut fun q => q.fill (bs.take s.obj.room))).obj.putArea =
        some (q.fill (bs.take s.obj.room)) := by simp [Proc.onObj, Filelikebuf.onPut, hq]
    simp only [Sockbuf.overflow, Filelikebuf.overflow, Prog.bind_apply, Prog.get_apply,
      Outcome.andThen_ret, hput₁, hput₂, if_true]
    refine hsync.andThen ?_ fun _ _ _ _ h => h
    rintro v s' v' t' ⟨-, -, -, -, hempty⟩
    have hlen := congrArg List.length (hpend.symm.trans hempty)
    rw [Sockbuf.pending_eq hp, List.length_append, Mem.length_slice, List.length_take,
      List.length_nil] at hlen
    have := hl.whole
    omega

end Output

/-! ### Input -/

/-- One `::read`, which gives no more than it is asked for. -/
theorem Sys.read_spec (K : Kernel κ) (fd : Int) (n : Nat) (y : Sys κ) :
    ∃ r y', (Sys.read K fd n : Prog Thrown (Sys κ) _) y = .ret r y' ∧
      (∀ bs ∈ r, bs.length ≤ n) ∧ y'.trace = y.trace ++ [.read fd n r] := by
  unfold Sys.read
  cases K.read y.kern fd n with
  | mk r k =>
      cases r with
      | data bs pos le => exact ⟨_, _, rfl, by simpa using le, rfl⟩
      | eof => exact ⟨_, _, rfl, by simp, rfl⟩
      | failed e => exact ⟨_, _, rfl, by simp, rfl⟩

namespace Filelikebuf

theorem checkRval_natCast (n : Nat) (t : Proc Filelikebuf κ) : checkRval (n : Int) t = .ret n t := by
  rw [checkRval, Prog.bind_apply, Prog.get_apply, Outcome.andThen_ret, Prog.ite_apply,
    if_neg (by omega), Prog.pure_apply]

theorem onGet_stored_nil (t : Proc Filelikebuf κ) : t.onObj (onGet fun a => a.stored []) = t := by
  have hid : (fun a : FileGetArea => a.stored []) = id := rfl
  rw [Proc.onObj, onGet, hid, Option.map_id, id_eq]

theorem onGet_onGet (t : Proc Filelikebuf κ) (f f' : FileGetArea → FileGetArea) :
    (t.onObj (onGet f)).onObj (onGet f') = t.onObj (onGet fun a => f' (f a)) := by
  rw [Proc.onObj, Proc.onObj, Proc.onObj, onGet, onGet, onGet, Option.map_map]
  rfl

/-- `read`, by what `::read` has given. -/
theorem read_eq {t t' : Proc Filelikebuf κ} {len : Int} {n : Nat} (hn : asSize len = n)
    {r : Option (List Byte)} (hr : call (Sys.read K t.obj.rep.file n) t = .ret r t') :
    read K len t = checkRval (readRval r) (t'.onObj (onGet fun a => a.stored (r.getD []))) := by
  rw [read, Prog.bind_apply, Prog.get_apply, Outcome.andThen_ret, hn, Prog.bind_apply, hr,
    Outcome.andThen_ret, Prog.bind_apply, Prog.modify_apply, Outcome.andThen_ret]

theorem underflow_of_unread {t : Proc Filelikebuf κ} {a : FileGetArea} (ha : t.obj.getArea = some a)
    (hlt : (a.gptr : Int) < a.egptr) : underflow K t = .ret ((a.mem a.gptr).toNat : Int) t := by
  simp only [underflow, Prog.bind_apply, Prog.get_apply, Outcome.andThen_ret, ha, Prog.ite_apply,
    if_pos hlt, Prog.pure_apply]

/-- `sgetc` is `underflow`. -/
theorem sgetc_eq : sgetc K = underflow K := by
  funext t
  simp only [sgetc, Prog.bind_apply, Prog.get_apply, Outcome.andThen_ret]
  cases ha : t.obj.getArea with
  | none => rfl
  | some a =>
      simp only [Prog.ite_apply]
      split
      · rename_i hlt
        rw [underflow_of_unread ha hlt]
        rfl
      · rfl

/-- `sbumpc` is `uflow`. -/
theorem sbumpc_eq : sbumpc K = uflow K := by
  funext t
  simp only [sbumpc, Prog.bind_apply, Prog.get_apply, Outcome.andThen_ret]
  cases ha : t.obj.getArea with
  | none => rfl
  | some a =>
      simp only [Prog.ite_apply]
      split
      · rename_i hlt
        simp only [uflow, Prog.bind_apply, underflow_of_unread ha hlt, Outcome.andThen_ret,
          byte_ne_eof, if_false, Prog.modify_apply]
      · rfl

end Filelikebuf

/-- A blocking `read`, without the check for out-of-band data, is the call. -/
theorem Sockbuf.read_blocking {s : Proc Sockbuf κ} (hr : s.obj.rep.rtmo = -1)
    (ho : s.obj.rep.oob = false) (len : Nat) :
    Sockbuf.read K len s =
      (call (Sys.read K s.obj.rep.sock len) s).andThen (checked "sockbuf::read") := by
  simp only [Sockbuf.read, awaitReadready, checkOob, Prog.bind_apply, Prog.get_apply,
    Outcome.andThen_ret, Prog.ite_apply, if_pos hr, Prog.pure_apply, ho]
  rfl

section Input

variable {B gaddr : Nat} {s : Proc Sockbuf κ} {t : Proc Filelikebuf κ}

/-- The bytes at `gptr ()`. -/
theorem FileGetArea.Like.current {g : GetArea} {h : FileGetArea} (hl : h.Like B gaddr g)
    (hlt : g.gptr < g.egptr) : h.mem h.gptr = g.mem g.gptr := by
  obtain ⟨n, hn⟩ : ∃ n, g.egptr - g.gptr = n + 1 := ⟨g.egptr - g.gptr - 1, by omega⟩
  have hb := hl.bytes
  rw [hn, Mem.slice_succ, Mem.slice_succ] at hb
  rw [hl.gptr]
  exact (List.cons.inj hb).1

/-- **`underflow`** with unread bytes, or where the two ask for the same count. -/
theorem underflow_beside (h : Alike B gaddr s t) (hB : 0 < B) (hB' : B < 2 ^ 31)
    (hs : s.obj.unread = [] → EndsLikeNull B gaddr) :
    (Sockbuf.underflow K s).Beside
      (fun v s' v' t' => v' = v ∧ Alike B gaddr s' t' ∧ (v ≠ eofValue → s'.obj.unread ≠ []))
      (fun _ s' _ t' => Alike B gaddr s' t') (Filelikebuf.underflow K t) := by
  obtain ⟨g, f, hg, hf, hl⟩ := h.get
  have hsock : t.obj.rep.file = s.obj.rep.sock := by rw [h.rep]; rfl
  have hnull : t.obj.rep.gend = nullptr := by rw [h.rep]; rfl
  by_cases hlt : g.gptr < g.egptr
  · have hlt' : (f.gptr : Int) < f.egptr := by
      rw [hl.gptr, hl.egptr]
      exact_mod_cast hlt
    rw [Sockbuf.underflow_of_unread hg hlt, Filelikebuf.underflow_of_unread hf hlt', hl.current hlt]
    exact ⟨rfl, h, fun _ he => (Sockbuf.unread_nil_iff hg).mp he hlt⟩
  · have hcount : asSize (asInt ((t.obj.rep.gend : Int) - f.eback)) = B := by
      rw [hnull, hl.addr]
      exact (asSize_null_eq_iff hB hB').mpr (hs ((Sockbuf.unread_nil_iff hg).mpr hlt))
    obtain ⟨r, y, hr, hlen, -⟩ := Sys.read_spec K s.obj.rep.sock B s.sys
    have hrs : call (Sys.read K s.obj.rep.sock B) s = .ret r { s with sys := y } := by
      rw [call, Prog.zoom_apply, hr, Outcome.mapState_ret]
    have hrt : call (Sys.read K t.obj.rep.file B) t = .ret r { t with sys := y } := by
      rw [call, Prog.zoom_apply, h.sys, hsock, hr, Outcome.mapState_ret]
    have h₁ := h.enter y
    simp only [Sockbuf.underflow, Filelikebuf.underflow, Prog.bind_apply, Prog.get_apply,
      Outcome.andThen_ret, hg, hf, Prog.ite_apply, hl.gptr, hl.egptr, Int.ofNat_lt, if_neg hlt,
      Sockbuf.read_blocking h.rtmo h.oob, h.gend, hrs, Filelikebuf.read_eq hcount hrt]
    cases r with
    | none =>
        simp only [Option.getD_none, Filelikebuf.onGet_stored_nil, Filelikebuf.readRval,
          Filelikebuf.checkRval, Sockbuf.checked, Prog.bind_apply, Prog.get_apply,
          Outcome.andThen_ret, if_true, Prog.throw_apply, Outcome.andThen_thrown]
        exact h₁
    | some bs =>
        have hint : bs.length < 2 ^ 31 := Nat.lt_of_le_of_lt (hlen bs rfl) hB'
        have hrval : Filelikebuf.readRval (some bs) = bs.length := asInt_of_nat hint
        rw [hrval, Filelikebuf.checkRval_natCast]
        simp only [Sockbuf.checked, Prog.pure_apply, Outcome.andThen_ret, Option.getD_some,
          Prog.ite_apply]
        cases bs with
        | nil =>
            rw [if_pos (by rw [List.length_nil]; rfl), Filelikebuf.onGet_stored_nil]
            exact ⟨rfl, h₁, fun hv => absurd rfl hv⟩
        | cons b l =>
            rw [if_neg (by rw [List.length_cons]; omega)]
            have hstore := f.mem.slice_store 0 (b :: l)
            rw [List.length_cons, Mem.slice_succ] at hstore
            simp only [Prog.bind_apply, Prog.modify_apply, Outcome.andThen_ret, Prog.get_apply,
              Prog.pure_apply, Filelikebuf.onGet_onGet]
            refine ⟨?_, h₁.onGet fun _ _ _ hl' => hl'.refill (hlen _ rfl), fun _ he => ?_⟩
            · simp only [Proc.onObj, Filelikebuf.onGet, Filelikebuf.current, hf, Option.map_some,
                FileGetArea.setg, FileGetArea.stored, (List.cons.inj hstore).1]
            · exact absurd ((Sockbuf.unread_refill hg (b :: l)).symm.trans he) (List.cons_ne_nil b l)

/-- **`uflow`**, under the same condition. -/
theorem uflow_beside (h : Alike B gaddr s t) (hB : 0 < B) (hB' : B < 2 ^ 31)
    (hs : s.obj.unread = [] → EndsLikeNull B gaddr) :
    (Sockbuf.uflow K s).Beside (fun v s' v' t' => v' = v ∧ Alike B gaddr s' t')
      (fun _ s' _ t' => Alike B gaddr s' t') (Filelikebuf.uflow K t) := by
  simp only [Sockbuf.uflow, Filelikebuf.uflow, Prog.bind_apply]
  refine (underflow_beside h hB hB' hs).andThen ?_ fun _ _ _ _ h => h
  rintro v s₁ v' t₁ ⟨rfl, h₁, hunread⟩
  by_cases hv : v' = eofValue
  · rw [Prog.ite_apply, Prog.ite_apply, if_pos hv, if_pos hv]
    exact ⟨rfl, h₁⟩
  · rw [Prog.ite_apply, Prog.ite_apply, if_neg hv, if_neg hv]
    refine ⟨rfl, h₁.onGet fun g f hg hl => hl.gbump ?_⟩
    have hpos := (Sockbuf.unread_nil_iff hg).not.mp (hunread hv)
    omega

/-- The two callers see the same number of unread bytes. -/
theorem Alike.showmanyc (h : Alike B gaddr s t) (hB : B < 2 ^ 31) :
    t.obj.showmanyc = s.obj.unread.length := by
  obtain ⟨g, f, hg, hf, hl⟩ := h.get
  have hwhole := hl.whole
  rw [Sockbuf.unread_eq hg, Mem.length_slice, Filelikebuf.showmanyc, hf]
  show (if (f.gptr : Int) < f.egptr then asInt (f.egptr - f.gptr) else 0) = _
  rw [hl.gptr, hl.egptr]
  by_cases hlt : g.gptr < g.egptr
  · rw [if_pos (Int.ofNat_lt.mpr hlt), ← Int.ofNat_sub hlt.le, asInt_of_nat (by omega)]
  · rw [if_neg (fun h => hlt (Int.ofNat_lt.mp h)), Nat.sub_eq_zero_of_le (Nat.le_of_not_lt hlt)]
    rfl

/-- `memcpy` to the callers, and `gbump`. -/
theorem AlikeTo.copyOut {t : Sockbuf.Getting κ} {u : Filelikebuf.Getting κ} (h : AlikeTo B gaddr t u)
    {n : Nat} (hn : n ≤ t.proc.obj.unread.length) :
    AlikeTo B gaddr (Sockbuf.copyOut n t) (Filelikebuf.copyOut n u) := by
  obtain ⟨g, f, hg, hf, hl⟩ := h.proc.get
  rw [Sockbuf.unread_eq hg, Mem.length_slice] at hn
  have hbytes := congrArg (List.take n) hl.bytes
  rw [Mem.take_slice _ _ hn, Mem.take_slice _ _ hn] at hbytes
  simp only [Sockbuf.copyOut, Filelikebuf.copyOut, hg, hf]
  refine ⟨h.proc.onGet fun g' f' hg' hl' => hl'.gbump ?_, ?_⟩
  · obtain rfl : g = g' := Option.some.inj (hg.symm.trans hg')
    exact hn
  · show u.dst ++ f.mem.slice f.gptr n = t.dst ++ g.mem.slice g.gptr n
    rw [h.dst, hl.gptr, hbytes]

/-- A method that does not store, seen from the callers. -/
theorem within_beside {α : Type} {t : Sockbuf.Getting κ} {u : Filelikebuf.Getting κ}
    (h : u.dst = t.dst) {p : SockM κ α} {q : FileM κ α}
    {Q : α → Proc Sockbuf κ → α → Proc Filelikebuf κ → Prop}
    (hpq : (p t.proc).Beside Q (fun _ s' _ t' => Alike B gaddr s' t') (q u.proc)) :
    (Sockbuf.within p t).Beside (fun v t' v' u' => Q v t'.proc v' u'.proc ∧ u'.dst = t'.dst)
      (fun _ t' _ u' => AlikeTo B gaddr t' u') (Filelikebuf.within q u) := by
  rw [Sockbuf.within, Filelikebuf.within, Prog.zoom_apply, Prog.zoom_apply, Outcome.beside_mapState]
  exact hpq.mono (fun _ _ _ _ hQ => ⟨hQ, h⟩) fun _ _ _ _ h' => ⟨h', h⟩

/-- The recursion of `xsgetn`, without a `::read` or where the two ask for the same count. -/
theorem xsgetnRec_beside (hB : 0 < B) (hB' : B < 2 ^ 31) :
    ∀ (depth n : Nat) (t : Sockbuf.Getting κ) (u : Filelikebuf.Getting κ), AlikeTo B gaddr t u →
      (t.proc.obj.unread.length < n → EndsLikeNull B gaddr) →
      (Sockbuf.xsgetnRec K depth n t).Beside (fun v t' v' u' => v' = v ∧ AlikeTo B gaddr t' u')
        (fun _ t' _ u' => AlikeTo B gaddr t' u') (Filelikebuf.xsgetnRec K depth n u) := by
  intro depth
  induction depth with
  | zero => intro n t u _ _; trivial
  | succ depth ih =>
      intro n t u h hn
      simp only [Sockbuf.xsgetnRec, Filelikebuf.xsgetnRec, Prog.bind_apply, Prog.get_apply,
        Outcome.andThen_ret, Prog.ite_apply, h.proc.showmanyc hB', Sockbuf.showmanyc_eq,
        Int.ofNat_le, Int.toNat_natCast, Prog.modify_apply]
      by_cases hle : n ≤ t.proc.obj.unread.length
      · rw [if_pos hle, if_pos hle]
        exact ⟨rfl, h.copyOut hle⟩
      · have hnull : EndsLikeNull B gaddr := hn (Nat.lt_of_not_le hle)
        have h₁ := h.copyOut (Nat.le_refl t.proc.obj.unread.length)
        rw [if_neg hle, if_neg hle, if_neg (by omega)]
        refine (within_beside h₁.dst (underflow_beside h₁.proc hB hB' fun _ => hnull)).andThen ?_
          fun _ _ _ _ h => h
        rintro v t₂ v' u₂ ⟨⟨rfl, h₂, -⟩, hdst⟩
        by_cases hv : v' ≠ eofValue
        · rw [Prog.ite_apply, Prog.ite_apply, if_pos hv, if_pos hv, Prog.bind_apply, Prog.bind_apply]
          refine (ih _ t₂ u₂ ⟨h₂, hdst⟩ fun _ => hnull).andThen ?_ fun _ _ _ _ h => h
          rintro w t₃ w' u₃ ⟨rfl, h₃⟩
          exact ⟨rfl, h₃⟩
        · rw [Prog.ite_apply, Prog.ite_apply, if_neg hv, if_neg hv]
          exact ⟨rfl, h₂, hdst⟩

end Input

/-! ### Runs -/

section Runs

variable {B gaddr : Nat} {t : Sockbuf.Getting κ} {u : Filelikebuf.Getting κ}

/-- Objects that are alike show the same. -/
theorem AlikeTo.shown (h : AlikeTo B gaddr t u) {r r' : Except Thrown Int}
    (hr : r.toOption = r'.toOption) : t.shown r = u.shown r' := by
  obtain ⟨p, q, hp, hq, hput⟩ := h.proc.put
  obtain ⟨g, f, hg, hf, hget⟩ := h.proc.get
  simp only [Sockbuf.Getting.shown, Filelikebuf.Getting.shown, Sockbuf.offsets, Filelikebuf.offsets,
    hp, hq, hg, hf, hr, h.proc.sys, h.dst, Option.map_some, hput.pptr, hput.epptr, hget.gptr,
    hget.egptr]

/-- The value of `sputn` and `sgetn`, as the caller gets it. -/
theorem AlikeTo.cast {o : Outcome Thrown (Sockbuf.Getting κ) Nat}
    {o' : Outcome Thrown (Filelikebuf.Getting κ) Nat}
    (h : o.Beside (fun v t' v' u' => v' = v ∧ AlikeTo B gaddr t' u')
      (fun _ t' _ u' => AlikeTo B gaddr t' u') o') :
    (o.andThen fun n => pure (n : Int)).Beside (fun v t' v' u' => v' = v ∧ AlikeTo B gaddr t' u')
      (fun _ t' _ u' => AlikeTo B gaddr t' u') (o'.andThen fun n => pure (n : Int)) := by
  refine h.andThen ?_ fun _ _ _ _ h => h
  rintro v t' v' u' ⟨rfl, h'⟩
  exact ⟨rfl, h'⟩

/-- **A step that does not drift** shows the same on both sides, and leaves the objects alike. -/
theorem StreamOp.exec_beside (hB : 0 < B) (hB' : B < 2 ^ 31) (op : StreamOp)
    (h : AlikeTo B gaddr t u) (hd : ¬ op.Drifts K B gaddr t.proc) :
    (op.onSockbuf K t).Beside (fun v t' v' u' => v' = v ∧ AlikeTo B gaddr t' u')
      (fun _ t' _ u' => AlikeTo B gaddr t' u') (op.onFilelikebuf K u) := by
  obtain ⟨hput, hget⟩ := not_or.mp hd
  -- a method over the object, from its comparison there
  have seen : ∀ {α : Type} {p : SockM κ α} {q : FileM κ α},
      (p t.proc).Beside (fun v s' v' t' => v' = v ∧ Alike B gaddr s' t')
        (fun _ s' _ t' => Alike B gaddr s' t') (q u.proc) →
      (Sockbuf.within p t).Beside (fun v t' v' u' => v' = v ∧ AlikeTo B gaddr t' u')
        (fun _ t' _ u' => AlikeTo B gaddr t' u') (Filelikebuf.within q u) := fun hpq =>
    (within_beside h.dst hpq).mono (fun _ _ _ _ h => ⟨h.1.1, h.1.2, h.2⟩) fun _ _ _ _ h => h
  cases op with
  | sputc c => exact seen (sputc_beside h.proc hB c hput)
  | sputn s =>
      rw [onSockbuf, onFilelikebuf, Prog.map_apply, Prog.map_apply]
      exact AlikeTo.cast (seen (xsputn_beside h.proc hB hB' s hput))
  | sync =>
      refine seen ((sync_beside h.proc hput).mono ?_ fun _ _ _ _ h => h)
      rintro v s' v' t' ⟨rfl, rfl, rfl, rfl, -⟩
      exact ⟨rfl, h.proc⟩
  | sgetc =>
      rw [onSockbuf, onFilelikebuf, Sockbuf.sgetc_eq, Filelikebuf.sgetc_eq]
      refine seen ((underflow_beside h.proc hB hB' ?_).mono ?_ fun _ _ _ _ h => h)
      · exact fun he => by_contra fun hn => hget ⟨he, hn⟩
      · exact fun _ _ _ _ h => ⟨h.1, h.2.1⟩
  | sbumpc =>
      rw [onSockbuf, onFilelikebuf, Sockbuf.sbumpc_eq, Filelikebuf.sbumpc_eq]
      exact seen (uflow_beside h.proc hB hB' fun he => by_contra fun hn => hget ⟨he, hn⟩)
  | sgetn n =>
      rw [onSockbuf, onFilelikebuf, Prog.map_apply, Prog.map_apply]
      exact AlikeTo.cast (xsgetnRec_beside hB hB' _ n t u h
        fun hlt => by_contra fun hn => hget ⟨hlt, hn⟩)

/-- Every operation of the sockbuf comes to an end. -/
theorem StreamOp.onSockbuf_ends (hw : t.proc.obj.Writable) (hr : t.proc.obj.Readable) (op : StreamOp) :
    ∃ r t', (op.onSockbuf K t).result = some (r, t') := by
  cases op with
  | sputc c => exact (Sockbuf.within_sat (Sockbuf.sputc_sat hw c)).ends
  | sputn s =>
      have h : ((StreamOp.sputn s).onSockbuf K t).Sat (fun _ _ => True) fun _ _ => True := by
        rw [onSockbuf, Prog.map_apply]
        exact (Sockbuf.within_sat (Sockbuf.xsputn_sat hw s)).andThen (fun _ _ _ => trivial)
          fun _ _ _ => trivial
      exact h.ends
  | sync => exact (Sockbuf.within_sat (Sockbuf.sync_sat hw)).ends
  | sgetc =>
      rw [onSockbuf, Sockbuf.sgetc_eq]
      exact (Sockbuf.within_sat (Sockbuf.underflow_sat hr)).ends
  | sbumpc =>
      rw [onSockbuf, Sockbuf.sbumpc_eq]
      exact (Sockbuf.within_sat (Sockbuf.uflow_sat hr)).ends
  | sgetn n =>
      have h : ((StreamOp.sgetn n).onSockbuf K t).Sat (fun _ _ => True) fun _ _ => True := by
        rw [onSockbuf, Prog.map_apply]
        exact (Sockbuf.xsgetn_sat hr n).andThen (fun _ _ _ => trivial) fun _ _ _ => trivial
      exact h.ends

/-- **A run that sticks agrees.** -/
theorem Sticks.agrees (hB : 0 < B) (hB' : B < 2 ^ 31) :
    ∀ (ops : List StreamOp) {t : Sockbuf.Getting κ} {u : Filelikebuf.Getting κ},
      AlikeTo B gaddr t u → Sticks K B gaddr ops t → Agrees K ops t u := by
  intro ops
  induction ops with
  | nil => intro t u _ _; trivial
  | cons op ops ih =>
      intro t u h hs
      obtain ⟨hd, hrest⟩ := hs
      obtain ⟨r, t', ho⟩ := op.onSockbuf_ends (K := K) (h.proc.writable hB) h.proc.readable
      obtain ⟨r', u', ho', hcases⟩ := (op.exec_beside hB hB' h hd).result ho
      have hrest' := hrest r t' ho
      rcases hcases with ⟨v, v', rfl, rfl, rfl, h'⟩ | ⟨e, e', rfl, rfl, h'⟩
      · exact ⟨_, t', _, u', ho, ho', h'.shown rfl, ih h' hrest'⟩
      · exact ⟨_, t', _, u', ho, ho', h'.shown rfl, ih h' hrest'⟩

end Runs

end Socketpp
