import Socketpp.Lib.Fifo
import Socketpp.Sockbuf.Model

/-!
# Sockbuf — input

The get side is a queue as well: `::read` puts bytes in, gets take them out, and
`[gptr, egptr)` is what is in it.  `Passed s s' xs` says that between two states the kernel has
given some bytes and the callers have been given `xs`, in order, with the difference unread.  It
composes, and each get function is shown to pass on what it returns, also where it throws.

`input_integrity` carries this over all sessions.
-/

namespace Socketpp
open Lib

namespace Sockbuf

variable {κ : Type} {K : Kernel κ}

/-- The bytes received from the kernel. -/
def received (s : Proc Sockbuf κ) : List Byte := receivedOn s.obj.rep.sock s.sys.trace

/-- The get side is open. -/
def Readable (b : Sockbuf) : Prop := ∃ a, b.getArea = some a

/-- A `::read` between the two states has returned 0. -/
def EofDuring (s s' : Proc Sockbuf κ) : Prop :=
  ∃ before after len, s.sys.trace <+: before ∧
    s'.sys.trace = before ++ .read s.obj.rep.sock len (some []) :: after

/-- Between `s` and `s'` the kernel has given bytes and the callers have been given `xs`; the
put side is as it was. -/
structure Passed (s s' : Proc Sockbuf κ) (xs : List Byte) : Prop where
  readable : s'.obj.Readable
  rep      : s'.obj.rep = s.obj.rep
  putArea  : s'.obj.putArea = s.obj.putArea
  calls    : s.sys.trace <+: s'.sys.trace
  bytes    : ∃ bs, received s' = received s ++ bs ∧ s.obj.unread ++ bs = xs ++ s'.obj.unread

namespace Passed

variable {s s₁ s' : Proc Sockbuf κ} {xs ys : List Byte}

theorem refl (h : s.obj.Readable) : Passed s s [] :=
  ⟨h, rfl, rfl, List.prefix_rfl, [], by simp, by simp⟩

theorem trans (h₁ : Passed s s₁ xs) (h₂ : Passed s₁ s' ys) : Passed s s' (xs ++ ys) := by
  obtain ⟨bs₁, hr₁, hu₁⟩ := h₁.bytes
  obtain ⟨bs₂, hr₂, hu₂⟩ := h₂.bytes
  refine ⟨h₂.readable, h₂.rep.trans h₁.rep, h₂.putArea.trans h₁.putArea,
    h₁.calls.trans h₂.calls, bs₁ ++ bs₂, by rw [hr₂, hr₁, List.append_assoc], ?_⟩
  rw [← List.append_assoc, hu₁, List.append_assoc, hu₂, List.append_assoc]

end Passed

theorem EofDuring.later {s s₁ s' : Proc Sockbuf κ} (h : EofDuring s₁ s') {xs : List Byte}
    (h₁ : Passed s s₁ xs) : EofDuring s s' := by
  obtain ⟨before, after, len, hp, ht⟩ := h
  exact ⟨before, after, len, h₁.calls.trans hp, by rw [ht, h₁.rep]⟩

/-! ### The queue of a get area -/

section Areas

variable {b : Sockbuf} {a : GetArea}

theorem showmanyc_eq (b : Sockbuf) : b.showmanyc = b.unread.length := by
  unfold showmanyc unread
  split
  · rfl
  · rw [Mem.length_slice]; split <;> omega

theorem unread_eq (h : b.getArea = some a) :
    b.unread = a.mem.slice a.gptr (a.egptr - a.gptr) := by
  simp only [unread, h]

@[simp] theorem ofDesc_unread (B : ℕ+) (sd : Int) (gbuf pbuf : Mem Byte) :
    (ofDesc B sd gbuf pbuf).unread = [] := by
  rw [unread_eq rfl, Nat.sub_self, Mem.slice_zero]

theorem unread_nil_iff (h : b.getArea = some a) : b.unread = [] ↔ ¬ a.gptr < a.egptr := by
  rw [← List.length_eq_zero_iff, unread_eq h, Mem.length_slice]
  omega

/-- The byte at `gptr ()` heads the unread ones. -/
theorem unread_cons (h : b.getArea = some a) (hlt : a.gptr < a.egptr) :
    b.unread = a.mem a.gptr :: a.mem.slice (a.gptr + 1) (a.egptr - (a.gptr + 1)) := by
  obtain ⟨d, hd⟩ : ∃ d, a.egptr - a.gptr = d + 1 := ⟨a.egptr - a.gptr - 1, by omega⟩
  rw [unread_eq h, hd, Mem.slice_succ, show a.egptr - (a.gptr + 1) = d by omega]

theorem unread_gbump (h : b.getArea = some a) {n : Nat} (hn : n ≤ b.unread.length) :
    (b.onGet fun a => a.gbump n).unread = b.unread.drop n := by
  rw [unread_eq h, Mem.length_slice] at hn
  have hd := a.mem.drop_slice a.gptr hn
  rw [Nat.sub_sub] at hd
  simp only [unread, onGet, h, Option.map_some, GetArea.gbump, hd]

theorem unread_refill (h : b.getArea = some a) (bs : List Byte) :
    (b.onGet fun a => a.refill bs).unread = bs := by
  simp only [unread, onGet, h, Option.map_some, GetArea.refill, Nat.sub_zero, Mem.slice_store]

theorem Readable.onGet (h : b.Readable) (f : GetArea → GetArea) : (b.onGet f).Readable := by
  obtain ⟨a, ha⟩ := h
  exact ⟨f a, by simp [Sockbuf.onGet, ha]⟩

end Areas

/-- Moving `gptr ()` over `n` unread bytes hands them out. -/
theorem passed_gbump {s : Proc Sockbuf κ} (hr : s.obj.Readable) {n : Nat}
    (hn : n ≤ s.obj.unread.length) :
    Passed s (s.onObj (onGet fun a => a.gbump n)) (s.obj.unread.take n) := by
  obtain ⟨a, ha⟩ := id hr
  have hu : (s.onObj (onGet fun a => a.gbump n)).obj.unread = s.obj.unread.drop n :=
    unread_gbump ha hn
  exact ⟨hr.onGet _, rfl, rfl, List.prefix_rfl, [], (List.append_nil _).symm,
    by rw [hu, List.take_append_drop, List.append_nil]⟩

/-! ### `read` -/

/-- `s'` is `s` after the kernel has given `bs`, the object unchanged. -/
structure Given (s s' : Proc Sockbuf κ) (bs : List Byte) : Prop where
  obj   : s'.obj = s.obj
  calls : s.sys.trace <+: s'.sys.trace
  bytes : received s' = received s ++ bs

theorem Given.refl (s : Proc Sockbuf κ) : Given s s [] :=
  ⟨rfl, List.prefix_rfl, (List.append_nil _).symm⟩

theorem Given.trans {s s₁ s' : Proc Sockbuf κ} {a b : List Byte} (h₁ : Given s s₁ a)
    (h₂ : Given s₁ s' b) : Given s s' (a ++ b) :=
  ⟨h₂.obj.trans h₁.obj, h₁.calls.trans h₂.calls, by rw [h₂.bytes, h₁.bytes, List.append_assoc]⟩

/-- A call entered in the trace gives what it received. -/
theorem given_of_call {s : Proc Sockbuf κ} {y : Sys κ} {c : Syscall} {bs : List Byte}
    (ht : y.trace = s.sys.trace ++ [c]) (hc : c.receivedOn s.obj.rep.sock = bs) :
    Given s { s with sys := y } bs := by
  refine ⟨rfl, by rw [ht]; exact List.prefix_append _ _, ?_⟩
  simp only [received, ht, receivedOn_append]
  simp only [receivedOn, List.flatMap_cons, List.flatMap_nil, hc, List.append_nil]

theorem Given.passed {s s' : Proc Sockbuf κ} (hr : s.obj.Readable) (h : Given s s' []) :
    Passed s s' [] :=
  ⟨h.obj ▸ hr, by rw [h.obj], by rw [h.obj], h.calls, [], h.bytes, by rw [h.obj]; simp⟩

/-- A call that answers with a value, and throws where it returned -1. -/
theorem answer_given {α : Type} {c : Option α → Syscall} {op : String} {s : Proc Sockbuf κ}
    (hc : ∀ r, (c r).receivedOn s.obj.rep.sock = []) (a : Except Int α × κ) :
    ((((s.sys.enterAnswer c a : Outcome Thrown (Sys κ) (Option α)).mapState
        fun y => ({ s with sys := y } : Proc Sockbuf κ)).andThen fun r => checked op r)).Sat
      (fun _ s' => Given s s' []) (fun _ s' => Given s s' []) := by
  obtain ⟨r, k⟩ := a
  cases r with
  | ok v => exact given_of_call rfl (hc _)
  | error n => exact given_of_call rfl (hc _)

theorem awaitReadready_sat (s : Proc Sockbuf κ) :
    (awaitReadready K s).Sat (fun _ s' => Given s s' []) (fun _ s' => Given s s' []) := by
  simp only [awaitReadready, Prog.bind_apply, Prog.get_apply, Outcome.andThen_ret, Prog.ite_apply]
  split
  · exact Given.refl s
  · refine Outcome.Sat.andThen (answer_given (fun _ => rfl) _) (fun n s₁ h₁ => ?_) fun _ _ h => h
    simp only [Prog.ite_apply]
    split
    · exact h₁
    · exact h₁

theorem checkOob_sat (s : Proc Sockbuf κ) :
    (checkOob K s).Sat (fun _ s' => Given s s' []) (fun _ s' => Given s s' []) := by
  simp only [checkOob, Prog.bind_apply, Prog.get_apply, Outcome.andThen_ret, Prog.ite_apply]
  split
  · refine Outcome.Sat.andThen (answer_given (fun _ => rfl) _) (fun m s₁ h₁ => ?_) fun _ _ h => h
    simp only [Prog.ite_apply]
    split
    · exact h₁
    · exact h₁
  · exact Given.refl s

/-- One `::read`, with the check of its result. -/
theorem read_call_sat (len : Nat) (s : Proc Sockbuf κ) :
    ((call (Sys.read K s.obj.rep.sock len) s).andThen fun r => checked "sockbuf::read" r).Sat
      (fun bs s' => Given s s' bs ∧ bs.length ≤ len ∧ (bs = [] → EofDuring s s'))
      (fun _ s' => Given s s' []) := by
  simp only [call, Prog.zoom_apply, Sys.read]
  cases hr : K.read s.sys.kern s.obj.rep.sock len with
  | mk r k =>
      cases r with
      | data bs pos le =>
          refine ⟨given_of_call rfl (by simp [Syscall.receivedOn]), le, fun h0 => ?_⟩
          rw [h0] at pos
          exact absurd pos (Nat.lt_irrefl 0)
      | eof =>
          exact ⟨given_of_call rfl (by simp [Syscall.receivedOn]), Nat.zero_le _,
            fun _ => ⟨s.sys.trace, [], len, List.prefix_rfl, rfl⟩⟩
      | failed e => exact given_of_call rfl rfl

/-- With no timeout set and no check for out-of-band data, `read` is its call. -/
theorem read_eq {s : Proc Sockbuf κ} (hr : s.obj.rep.rtmo = -1) (ho : s.obj.rep.oob = false)
    (len : Nat) : read K len s =
      (call (Sys.read K s.obj.rep.sock len) s).andThen fun r => checked "sockbuf::read" r := by
  simp only [read, awaitReadready, checkOob, Prog.bind_apply, Prog.get_apply, Outcome.andThen_ret, hr, ho,
    if_true, Prog.pure_apply, Bool.false_eq_true, if_false]

/-- **`read`** gives at most `len` bytes, and none only when `::read` has returned 0; when it
throws, nothing has been received. -/
theorem read_sat (len : Nat) (s : Proc Sockbuf κ) :
    (read K len s).Sat
      (fun bs s' => Given s s' bs ∧ bs.length ≤ len ∧ (bs = [] → EofDuring s s'))
      (fun _ s' => Given s s' []) := by
  simp only [read, Prog.bind_apply]
  refine (awaitReadready_sat s).andThen (fun _ s₁ h₁ => ?_) fun _ _ h => h
  refine (checkOob_sat s₁).andThen (fun _ s₂ h₂ => ?_) fun _ _ h => by simpa using h₁.trans h
  have h : Given s s₂ [] := by simpa using h₁.trans h₂
  simp only [Prog.bind_apply, Prog.get_apply, Outcome.andThen_ret]
  refine (read_call_sat len s₂).mono ?_ fun _ _ hg => by simpa using h.trans hg
  rintro bs s' ⟨hg, hle, heof⟩
  refine ⟨by simpa using h.trans hg, hle, fun h0 => ?_⟩
  obtain ⟨before, after, n, hp, ht⟩ := heof h0
  exact ⟨before, after, n, h.calls.trans hp, by rw [ht, h.obj]⟩

/-! ### The get functions -/

/-- What `underflow` and `sgetc` return: end of file, after a `::read` that returned 0, or the
first unread byte. -/
def Peeked (s : Proc Sockbuf κ) (v : Int) (s' : Proc Sockbuf κ) : Prop :=
  v = eofValue ∧ s'.obj.unread = [] ∧ EofDuring s s' ∨
    ∃ c l, s'.obj.unread = c :: l ∧ v = (c.toNat : Int)

/-- **`underflow`** refills an empty area; when it throws, nothing has changed. -/
theorem underflow_sat {s : Proc Sockbuf κ} (hr : s.obj.Readable) :
    (underflow K s).Sat (fun v s' => Passed s s' [] ∧ Peeked s v s')
      (fun _ s' => Passed s s' []) := by
  obtain ⟨a, ha⟩ := id hr
  simp only [underflow, Prog.bind_apply, Prog.get_apply, Outcome.andThen_ret, ha, Prog.ite_apply]
  split
  · rename_i hlt
    exact ⟨.refl hr, Or.inr ⟨_, _, unread_cons ha hlt, rfl⟩⟩
  · rename_i hge
    have he : s.obj.unread = [] := (unread_nil_iff ha).mpr hge
    refine (read_sat s.obj.rep.gend s).andThen (fun bs s₁ h₁ => ?_) fun _ _ h => h.passed hr
    obtain ⟨hg, -, heof⟩ := h₁
    have ha₁ : s₁.obj.getArea = some a := hg.obj ▸ ha
    cases bs with
    | nil => exact ⟨hg.passed hr, Or.inl ⟨rfl, by rw [hg.obj, he], heof rfl⟩⟩
    | cons c l =>
        have hu : (s₁.obj.onGet fun a => a.refill (c :: l)).unread = c :: l :=
          unread_refill ha₁ (c :: l)
        refine ⟨⟨Readable.onGet ⟨a, ha₁⟩ _, ?_, ?_, hg.calls, c :: l, hg.bytes, ?_⟩,
          Or.inr ⟨c, l, hu, rfl⟩⟩
        · simp only [Proc.onObj, onGet, hg.obj]
        · simp only [Proc.onObj, onGet, hg.obj]
        · show s.obj.unread ++ (c :: l) = [] ++ (s₁.obj.onGet fun a => a.refill (c :: l)).unread
          rw [hu, he]

theorem underflow_of_unread {s : Proc Sockbuf κ} {a : GetArea} (ha : s.obj.getArea = some a)
    (hlt : a.gptr < a.egptr) : underflow K s = .ret ((a.mem a.gptr).toNat : Int) s := by
  simp only [underflow, Prog.bind_apply, Prog.get_apply, Outcome.andThen_ret, ha, hlt, if_true]
  rfl

/-- With nothing unread and nothing read, `underflow` is at the end of file. -/
theorem underflow_of_end {s : Proc Sockbuf κ} {a : GetArea} (ha : s.obj.getArea = some a)
    (hge : ¬ a.gptr < a.egptr) {y : Sys κ} (hread : read K s.obj.rep.gend s = .ret [] ⟨s.obj, y⟩) :
    underflow K s = .ret eofValue ⟨s.obj, y⟩ := by
  simp only [underflow, Prog.bind_apply, Prog.get_apply, Outcome.andThen_ret, ha, Prog.ite_apply, hge,
    if_false, hread]
  rfl

/-- An empty area is refilled with what `read` gives. -/
theorem underflow_of_read {s : Proc Sockbuf κ} {a : GetArea} (ha : s.obj.getArea = some a)
    (hge : ¬ a.gptr < a.egptr) {c : Byte} {l : List Byte} {y : Sys κ}
    (hread : read K s.obj.rep.gend s = .ret (c :: l) ⟨s.obj, y⟩) :
    underflow K s = .ret (c.toNat : Int) ⟨s.obj.onGet fun a => a.refill (c :: l), y⟩ := by
  simp only [underflow, Prog.bind_apply, Prog.get_apply, Outcome.andThen_ret, ha, Prog.ite_apply, hge,
    if_false, hread]
  rfl

/-- `sgetc` is `underflow`, which returns the byte at `gptr ()` too. -/
theorem sgetc_eq : sgetc K = underflow K := by
  funext s
  simp only [sgetc, Prog.bind_apply, Prog.get_apply, Outcome.andThen_ret]
  cases ha : s.obj.getArea with
  | none => rfl
  | some a =>
      simp only [Prog.ite_apply]
      split
      · rename_i hlt; rw [underflow_of_unread ha hlt]
        rfl
      · rfl

/-- What `uflow` and `sbumpc` return, and hand out. -/
def Bumped (s : Proc Sockbuf κ) (v : Int) (s' : Proc Sockbuf κ) (xs : List Byte) : Prop :=
  v = eofValue ∧ xs = [] ∧ EofDuring s s' ∨ ∃ c : Byte, xs = [c] ∧ v = (c.toNat : Int)

/-- **`uflow`** hands out the first unread byte. -/
theorem uflow_sat {s : Proc Sockbuf κ} (hr : s.obj.Readable) :
    (uflow K s).Sat (fun v s' => ∃ xs, Passed s s' xs ∧ Bumped s v s' xs)
      (fun _ s' => Passed s s' []) := by
  simp only [uflow, Prog.bind_apply]
  refine (underflow_sat hr).andThen ?_ fun _ _ h => h
  rintro v s₁ ⟨hp, ⟨rfl, -, heof⟩ | ⟨c, l, hu, rfl⟩⟩
  · exact ⟨[], hp, Or.inl ⟨rfl, rfl, heof⟩⟩
  · simp only [byte_ne_eof, if_false, Prog.bind_apply, Prog.modify_apply, Outcome.andThen_ret]
    have hg := passed_gbump (n := 1) hp.readable (by rw [hu]; simp)
    rw [hu] at hg
    exact ⟨[c], hp.trans hg, Or.inr ⟨c, rfl, rfl⟩⟩

/-- `sbumpc` is `uflow`. -/
theorem sbumpc_eq : sbumpc K = uflow K := by
  funext s
  simp only [sbumpc, Prog.bind_apply, Prog.get_apply, Outcome.andThen_ret]
  cases ha : s.obj.getArea with
  | none => rfl
  | some a =>
      simp only [Prog.ite_apply]
      split
      · rename_i hlt
        simp only [uflow, Prog.bind_apply, underflow_of_unread ha hlt, Outcome.andThen_ret,
          byte_ne_eof, if_false, Prog.modify_apply]
      · rfl

/-- `sbumpc` moves over the byte that `underflow` shows. -/
theorem sbumpc_of_underflow {s s' : Proc Sockbuf κ} {c : Byte}
    (h : underflow K s = .ret (c.toNat : Int) s') :
    sbumpc K s = .ret (c.toNat : Int) (s'.onObj (onGet fun a => a.gbump 1)) := by
  rw [sbumpc_eq, uflow, Prog.bind_apply, h]
  simp only [Outcome.andThen_ret, byte_ne_eof, if_false]
  rfl

/-! ### Put-back -/

/-- **`sungetc`** moves `gptr ()` back over the byte before it, where there is one. -/
theorem sungetc_eq (s : Proc Sockbuf κ) :
    (sungetc s : Outcome Thrown (Proc Sockbuf κ) Int) = match s.obj.getArea with
      | none   => .ret eofValue s
      | some a =>
        if 0 < a.gptr then
          .ret ((a.mem (a.gptr - 1)).toNat : Int) (s.onObj (onGet fun a => a.gback))
        else .ret eofValue s := by
  simp only [sungetc, Prog.bind_apply, Prog.get_apply, Outcome.andThen_ret]
  cases ha : s.obj.getArea with
  | none => rfl
  | some a => simp only [Prog.ite_apply]; rfl

/-- **`sputbackc`** is `sungetc` where the byte is the one before `gptr ()`. -/
theorem sputbackc_eq (c : Byte) (s : Proc Sockbuf κ) :
    (sputbackc c s : Outcome Thrown (Proc Sockbuf κ) Int) =
      if ∃ a, s.obj.getArea = some a ∧ 0 < a.gptr ∧ a.mem (a.gptr - 1) = c then sungetc s
      else .ret eofValue s := by
  rw [sungetc_eq]
  simp only [sputbackc, Prog.bind_apply, Prog.get_apply, Outcome.andThen_ret]
  cases ha : s.obj.getArea with
  | none => simp only [reduceCtorEq, false_and, exists_false, if_false]; rfl
  | some a =>
      simp only [Option.some.injEq, exists_eq_left', Prog.ite_apply]
      by_cases hc : 0 < a.gptr ∧ a.mem (a.gptr - 1) = c
      · simp only [hc, and_self, if_true, Prog.bind_apply, Prog.modify_apply, Outcome.andThen_ret,
          Prog.pure_apply]
      · simp only [hc, if_false]
        rfl

/-- A put-back returns. -/
theorem sungetc_ret (s : Proc Sockbuf κ) :
    ∃ v s', (sungetc s : Outcome Thrown (Proc Sockbuf κ) Int) = .ret v s' := by
  rw [sungetc_eq]
  cases s.obj.getArea with
  | none => exact ⟨_, _, rfl⟩
  | some a =>
      by_cases h0 : 0 < a.gptr
      · simp only [h0, if_true]
        exact ⟨_, _, rfl⟩
      · simp only [h0, if_false]
        exact ⟨_, _, rfl⟩

theorem sputbackc_ret (c : Byte) (s : Proc Sockbuf κ) :
    ∃ v s', (sputbackc c s : Outcome Thrown (Proc Sockbuf κ) Int) = .ret v s' := by
  rw [sputbackc_eq]
  split
  · exact sungetc_ret s
  · exact ⟨_, _, rfl⟩

/-! ### `xsgetn` -/

/-- `xs` has been copied out to the caller. -/
def Copied (t t' : Getting κ) (xs : List Byte) : Prop :=
  Passed t.proc t'.proc xs ∧ t'.dst = t.dst ++ xs

theorem copied_copyOut {t : Getting κ} (hr : t.proc.obj.Readable) {n : Nat}
    (hn : n ≤ t.proc.obj.unread.length) :
    Copied t (copyOut n t) (t.proc.obj.unread.take n) := by
  obtain ⟨a, ha⟩ := id hr
  simp only [copyOut, ha, Copied]
  refine ⟨passed_gbump hr hn, ?_⟩
  rw [unread_eq ha, Mem.length_slice] at hn
  rw [unread_eq ha, Mem.take_slice _ _ hn]

theorem within_sat {α : Type} {p : SockM κ α} {t : Getting κ} {Q : α → Proc Sockbuf κ → Prop}
    {E : Thrown → Proc Sockbuf κ → Prop} (h : (p t.proc).Sat Q E) :
    (within p t).Sat (fun a t' => Q a t'.proc ∧ t'.dst = t.dst)
      (fun e t' => E e t'.proc ∧ t'.dst = t.dst) := by
  simp only [within, Prog.zoom_apply, Outcome.sat_mapState]
  exact h.mono (fun _ _ h => ⟨h, trivial⟩) (fun _ _ h => ⟨h, trivial⟩)

/-- The recursion of `xsgetn`.  Below a level that found the area empty, every level copies at
least one byte, for `underflow` has refilled it. -/
theorem xsgetnRec_sat : ∀ (depth n : Nat) (t : Getting κ), t.proc.obj.Readable →
    n + (if t.proc.obj.unread = [] then 1 else 0) < depth →
    (xsgetnRec K depth n t).Sat
      (fun r t' => ∃ xs, r = xs.length ∧ r ≤ n ∧ Copied t t' xs ∧
        (r < n → EofDuring t.proc t'.proc))
      (fun _ t' => ∃ xs, xs.length < n ∧ Copied t t' xs) := by
  intro depth
  induction depth with
  | zero => intro n t _ h; omega
  | succ depth ih =>
      intro n t hr hd
      simp only [xsgetnRec, Prog.bind_apply, Prog.get_apply, Outcome.andThen_ret, Prog.ite_apply,
        Prog.modify_apply, showmanyc_eq]
      split
      · rename_i hn
        -- enough is unread
        exact ⟨_, by rw [List.length_take]; omega, Nat.le_refl n, copied_copyOut hr hn,
          fun h => absurd h (Nat.lt_irrefl n)⟩
      · rename_i hn
        -- all that is unread is copied out, and the area refilled for the level below
        have h₁ := copied_copyOut hr (Nat.le_refl t.proc.obj.unread.length)
        rw [List.take_length] at h₁
        refine (within_sat (underflow_sat h₁.1.readable)).andThen ?_ ?_
        · rintro v t₂ ⟨⟨hp, hv⟩, hdst⟩
          have h₂ : Copied t t₂ t.proc.obj.unread :=
            ⟨by simpa using h₁.1.trans hp, hdst.trans h₁.2⟩
          rcases hv with ⟨rfl, -, heof⟩ | ⟨c, l, hu, rfl⟩
          · exact ⟨_, rfl, by omega, h₂, fun _ => heof.later h₁.1⟩
          · simp only [byte_ne_eof, ne_eq, not_false_eq_true, if_true, Prog.bind_apply]
            refine (ih (n - t.proc.obj.unread.length) t₂ hp.readable ?_).andThen ?_ ?_
            · rw [if_neg (by rw [hu]; simp)]
              split at hd
              · omega
              · rename_i hne
                have := List.length_pos_of_ne_nil hne
                omega
            · rintro r t' ⟨xs, rfl, hle, h₃, heof⟩
              refine ⟨t.proc.obj.unread ++ xs, by rw [List.length_append], by omega, ?_,
                fun hlt => (heof (by omega)).later h₂.1⟩
              exact ⟨h₂.1.trans h₃.1, by rw [h₃.2, h₂.2, List.append_assoc]⟩
            · rintro e t' ⟨xs, hlt, h₃⟩
              refine ⟨t.proc.obj.unread ++ xs, by rw [List.length_append]; omega, ?_⟩
              exact ⟨h₂.1.trans h₃.1, by rw [h₃.2, h₂.2, List.append_assoc]⟩
        · rintro e t' ⟨hp, hdst⟩
          exact ⟨t.proc.obj.unread, by omega, by simpa using h₁.1.trans hp, hdst.trans h₁.2⟩

/-- **`xsgetn`** copies out `n` bytes, or fewer after an end of file, or fewer before it
throws. -/
theorem xsgetn_sat {t : Getting κ} (hr : t.proc.obj.Readable) (n : Nat) :
    (xsgetn K n t).Sat
      (fun r t' => ∃ xs, r = xs.length ∧ r ≤ n ∧ Copied t t' xs ∧
        (r < n → EofDuring t.proc t'.proc))
      (fun _ t' => ∃ xs, xs.length < n ∧ Copied t t' xs) :=
  xsgetnRec_sat (n + 2) n t hr (by split <;> omega)

end Sockbuf

/-! ### Sessions of get operations -/

/-- The operations of the get side. -/
inductive GetOp where
  | sgetc
  | underflow
  | sbumpc
  | uflow
  | sgetn (n : Nat)
  | recvtimeout (wp : Int)
  | oob (b : Bool)

namespace GetOp
open Sockbuf

variable {κ : Type} {K : Kernel κ}

/-- The operations, over a caller that collects in `dst` what `sgetn` stores for it. -/
def exec (K : Kernel κ) : GetOp → Prog Thrown (Getting κ) Int
  | .sgetc          => within (Sockbuf.sgetc K)
  | .underflow      => within (Sockbuf.underflow K)
  | .sbumpc         => within (Sockbuf.sbumpc K)
  | .uflow          => within (Sockbuf.uflow K)
  | .sgetn n        => (fun n : Nat => (n : Int)) <$> Sockbuf.xsgetn K n
  | .recvtimeout wp => within (Sockbuf.recvtimeout wp)
  | .oob b          => (fun b : Bool => if b then 1 else 0) <$> within (Sockbuf.oob b)

/-- The bytes `xs` an operation may hand to its caller, by what it came to.  The two peeking
operations hand out none and report the first unread byte; `sgetn` has stored what it hands out,
also when it throws.  End of file, and a short count of `sgetn`, only come after a `::read` of
the operation has returned 0. -/
def Gives (op : GetOp) (t : Getting κ) (r : Except Thrown Int) (t' : Getting κ)
    (xs : List Byte) : Prop :=
  match op, r with
  | .sgetc, .ok v | .underflow, .ok v => xs = [] ∧ t'.dst = t.dst ∧ Peeked t.proc v t'.proc
  | .sbumpc, .ok v | .uflow, .ok v    => t'.dst = t.dst ∧ Bumped t.proc v t'.proc xs
  | .sgetn n, .ok v    => v = (xs.length : Int) ∧ xs.length ≤ n ∧ t'.dst = t.dst ++ xs ∧
      (xs.length < n → EofDuring t.proc t'.proc)
  | .sgetn n, .error _ => xs.length < n ∧ t'.dst = t.dst ++ xs
  | _, _               => xs = [] ∧ t'.dst = t.dst

/-- The state accounts for `D`: the bytes received are `D` followed by the unread ones. -/
def Balanced (t : Getting κ) (D : List Byte) : Prop :=
  t.proc.obj.Readable ∧ received t.proc = D ++ t.proc.obj.unread

theorem Balanced.passed {t t' : Getting κ} {D xs : List Byte} (h : Balanced t D)
    (hp : Passed t.proc t'.proc xs) : Balanced t' (D ++ xs) := by
  obtain ⟨bs, hr, hu⟩ := hp.bytes
  exact ⟨hp.readable, by rw [hr, h.2, List.append_assoc, hu, List.append_assoc]⟩

/-- A change of the settings leaves the account as it is. -/
theorem Balanced.settings {t : Getting κ} {D : List Byte} (h : Balanced t D)
    {f : Sockbuf → Sockbuf} (hg : ∀ b, (f b).getArea = b.getArea)
    (hs : ∀ b, (f b).rep.sock = b.rep.sock) :
    Balanced { t with proc := t.proc.onObj f } (D ++ []) := by
  obtain ⟨⟨a, ha⟩, hr⟩ := h
  refine ⟨⟨a, by rw [← ha]; exact hg _⟩, ?_⟩
  have hu : (f t.proc.obj).unread = t.proc.obj.unread := by simp only [unread, hg]
  simpa only [received, Proc.onObj, hs, hu, List.append_nil] using hr

/-- One get operation, on an account in balance. -/
theorem posts_exec (K : Kernel κ) : Posts Balanced Gives (GetOp.exec K) := by
  intro op t D hb
  have peek : (within (Sockbuf.underflow K) t).Sat
      (fun v t' => ∃ xs, (xs = [] ∧ t'.dst = t.dst ∧ Peeked t.proc v t'.proc) ∧
        Balanced t' (D ++ xs))
      (fun _ t' => ∃ xs, (xs = [] ∧ t'.dst = t.dst) ∧ Balanced t' (D ++ xs)) := by
    refine (within_sat (underflow_sat hb.1)).mono ?_ ?_
    · rintro v t' ⟨⟨hp, hv⟩, hd⟩
      exact ⟨[], ⟨rfl, hd, hv⟩, hb.passed hp⟩
    · rintro e t' ⟨hp, hd⟩
      exact ⟨[], ⟨rfl, hd⟩, hb.passed hp⟩
  have bump : (within (Sockbuf.uflow K) t).Sat
      (fun v t' => ∃ xs, (t'.dst = t.dst ∧ Bumped t.proc v t'.proc xs) ∧ Balanced t' (D ++ xs))
      (fun _ t' => ∃ xs, (xs = [] ∧ t'.dst = t.dst) ∧ Balanced t' (D ++ xs)) := by
    refine (within_sat (uflow_sat hb.1)).mono ?_ ?_
    · rintro v t' ⟨⟨xs, hp, hv⟩, hd⟩
      exact ⟨xs, ⟨hd, hv⟩, hb.passed hp⟩
    · rintro e t' ⟨hp, hd⟩
      exact ⟨[], ⟨rfl, hd⟩, hb.passed hp⟩
  cases op with
  | sgetc => rw [exec, sgetc_eq]; exact peek
  | underflow => exact peek
  | sbumpc => rw [exec, sbumpc_eq]; exact bump
  | uflow => exact bump
  | sgetn n =>
      simp only [exec, Prog.map_apply]
      refine (xsgetn_sat hb.1 n).andThen ?_ ?_
      · rintro r t' ⟨xs, rfl, hle, hc, heof⟩
        exact ⟨xs, ⟨rfl, hle, hc.2, heof⟩, hb.passed hc.1⟩
      · rintro e t' ⟨xs, hlt, hc⟩
        exact ⟨xs, ⟨hlt, hc.2⟩, hb.passed hc.1⟩
  | recvtimeout wp =>
      exact ⟨[], ⟨rfl, rfl⟩, hb.settings (fun _ => rfl) (fun _ => rfl)⟩
  | oob b => exact ⟨[], ⟨rfl, rfl⟩, hb.settings (fun _ => rfl) (fun _ => rfl)⟩

/-- **Input stream integrity.**  In every session of get operations on a sockbuf as constructed
for the descriptor `sd`, with any kernel: each operation runs to its end, and after it, returned
or thrown, the bytes received are those received before the session followed by the bytes each
operation so far has handed out and by the unread ones. -/
theorem input_integrity (K : Kernel κ) (B : ℕ+) (sd : Int) (gbuf pbuf : Mem Byte) (y : Sys κ)
    (ops : List GetOp) :
    Booked Balanced Gives ⟨⟨ofDesc B sd gbuf pbuf, y⟩, []⟩ (receivedOn sd y.trace) ops
      (session (GetOp.exec K) ops ⟨⟨ofDesc B sd gbuf pbuf, y⟩, []⟩) := by
  refine booked_session (posts_exec K) ops _ _ ⟨⟨_, rfl⟩, ?_⟩
  simp [received, unread, ofDesc]

end GetOp

end Socketpp
