import Socketpp.Lib.Lines
import Socketpp.Sockbuf.Frame
import Socketpp.Sockbuf.Input
import Socketpp.Sockbuf.Output

/-!
# Protocol — derived classes

`ftpbuf` and `smtpbuf` derive from sockbuf, by way of `protocolbuf`.  A derived object has a
sockbuf part; an inherited method is the method of sockbuf run on that part, and leaves the rest
of the object as it was (`inherited_sat`).

The two reply readers share the loop that looks for the end of a line in the get area, `zap`.
-/

namespace Socketpp
open Lib

/-- The bytes of a string literal. -/
def ascii (s : String) : List Byte := s.toList.map fun c => UInt8.ofNat c.toNat

/-- CR LF. -/
def eol : Eol Byte := ⟨13, 10, by decide⟩

/-- CR LF and the dot of the message body. -/
def marks : Marks Byte := ⟨eol, 46, by decide, by decide⟩

/-- A class derived from sockbuf. -/
class Derived (β : Type) where
  base : β → Sockbuf
  rebase : β → Sockbuf → β
  base_rebase : ∀ x b, base (rebase x b) = b
  rebase_base : ∀ x, rebase x (base x) = x
  rebase_rebase : ∀ x b b', rebase (rebase x b) b' = rebase x b'

namespace Proc

variable {β κ : Type} [Derived β]

/-- The sockbuf part of an object, in its system. -/
def base (s : Proc β κ) : Proc Sockbuf κ := ⟨Derived.base s.obj, s.sys⟩

/-- The object with another sockbuf part, in another system. -/
def rebase (s : Proc β κ) (t : Proc Sockbuf κ) : Proc β κ := ⟨Derived.rebase s.obj t.obj, t.sys⟩

@[simp] theorem base_rebase (s : Proc β κ) (t : Proc Sockbuf κ) : (s.rebase t).base = t := by
  simp only [base, rebase, Derived.base_rebase]

@[simp] theorem rebase_base (s : Proc β κ) : s.rebase s.base = s := by
  simp only [base, rebase, Derived.rebase_base]

@[simp] theorem rebase_rebase (s : Proc β κ) (t t' : Proc Sockbuf κ) :
    (s.rebase t).rebase t' = s.rebase t' := by
  simp only [rebase, Derived.rebase_rebase]

@[simp] theorem sys_rebase (s : Proc β κ) (t : Proc Sockbuf κ) : (s.rebase t).sys = t.sys := rfl

@[simp] theorem sys_base (s : Proc β κ) : s.base.sys = s.sys := rfl

end Proc

section Inherited

variable {β κ α : Type} [Derived β]

/-- A method of sockbuf, called on a derived object. -/
def inherited (p : SockM κ α) : Prog Thrown (Proc β κ) α :=
  Prog.zoom Proc.base (fun t s => s.rebase t) p

/-- Between the two states only the sockbuf part of the object and the system have changed. -/
def SameRest (s s' : Proc β κ) : Prop := s' = s.rebase s'.base

theorem SameRest.refl (s : Proc β κ) : SameRest s s := s.rebase_base.symm

theorem SameRest.trans {s s₁ s' : Proc β κ} (h₁ : SameRest s s₁) (h₂ : SameRest s₁ s') :
    SameRest s s' := by
  unfold SameRest at h₁ h₂ ⊢
  rw [h₁, Proc.rebase_rebase] at h₂
  exact h₂

theorem sameRest_rebase (s : Proc β κ) (t : Proc Sockbuf κ) : SameRest s (s.rebase t) := by
  simp [SameRest]

/-- **Inherited methods** do what they do on the sockbuf part, and nothing else. -/
theorem inherited_sat {p : SockM κ α} {s : Proc β κ} {Q : α → Proc Sockbuf κ → Prop}
    {E : Thrown → Proc Sockbuf κ → Prop} (h : (p s.base).Sat Q E) :
    (inherited p s).Sat (fun a s' => Q a s'.base ∧ SameRest s s')
      (fun e s' => E e s'.base ∧ SameRest s s') := by
  simp only [inherited, Prog.zoom_apply, Outcome.sat_mapState, Proc.base_rebase]
  exact h.mono (fun a t h => ⟨h, sameRest_rebase s t⟩) fun e t h => ⟨h, sameRest_rebase s t⟩

theorem inherited_ret {p : SockM κ α} {s : Proc β κ} {a : α} {t : Proc Sockbuf κ}
    (h : p s.base = .ret a t) : inherited p s = .ret a (s.rebase t) := by
  simp only [inherited, Prog.zoom_apply, h, Outcome.mapState_ret]

/-- `R` between the sockbuf parts. -/
def OnBase (R : Proc Sockbuf κ → Proc Sockbuf κ → Prop) (s s' : Proc β κ) : Prop := R s.base s'.base

variable {R : Proc Sockbuf κ → Proc Sockbuf κ → Prop}

theorem Closed.onBase (h : Closed R) : Closed (OnBase (β := β) R) :=
  ⟨fun s => h.refl s.base, fun s s₁ s' => h.trans s.base s₁.base s'.base⟩

theorem keeps_inherited {p : SockM κ α} (h : Prog.Keeps R p) :
    Prog.Keeps (OnBase (β := β) R) (inherited p) :=
  Prog.Keeps.zoom h fun s t h => by
    rw [OnBase, Proc.base_rebase]
    exact h

end Inherited

/-! ### Puts -/

section Puts

variable {β κ α γ : Type} [Derived β] {K : Kernel κ}

/-- The put side of `s'` has taken `xs` since `s`; only the sockbuf part has changed. -/
structure Put (s s' : Proc β κ) (xs : List Byte) : Prop where
  moved : Sockbuf.Moved s.base s'.base xs
  rest  : SameRest s s'

theorem Put.refl {s : Proc β κ} (h : s.base.obj.Writable) : Put s s [] := ⟨.refl h, .refl s⟩

theorem Put.trans {s s₁ s' : Proc β κ} {xs ys : List Byte} (h₁ : Put s s₁ xs)
    (h₂ : Put s₁ s' ys) : Put s s' (xs ++ ys) :=
  ⟨h₁.moved.trans h₂.moved, h₁.rest.trans h₂.rest⟩

/-- On an open put side `p` puts `xs`, or throws because a write has failed. -/
def Puts (K : Kernel κ) (p : Prog Thrown (Proc β κ) α) (xs : List Byte) : Prop :=
  ∀ s : Proc β κ, s.base.obj.Writable →
    (p s).Sat (fun _ s' => Put s s' xs) (fun _ _ => ¬ K.WriteSucceeds)

theorem Puts.pure (a : α) : Puts K (pure a : Prog Thrown (Proc β κ) α) [] := fun _ hw => .refl hw

theorem Puts.bind {p : Prog Thrown (Proc β κ) α} {f : α → Prog Thrown (Proc β κ) γ}
    {xs ys : List Byte} (hp : Puts K p xs) (hf : ∀ a, Puts K (f a) ys) :
    Puts K (p >>= f) (xs ++ ys) := by
  intro s hw
  refine (hp s hw).andThen (fun a s₁ h₁ => ?_) fun _ _ h => h
  exact (hf a s₁ h₁.moved.writable).mono (fun _ _ h₂ => h₁.trans h₂) fun _ _ h => h

/-- A system call that hands nothing over puts nothing. -/
theorem put_of_call {s : Proc β κ} (hw : s.base.obj.Writable) {y : Sys κ} {c : Syscall}
    (ht : y.trace = s.sys.trace ++ [c]) (hc : c.sentOn s.base.obj.rep.sock = []) :
    Put s { s with sys := y } [] := by
  refine ⟨Sockbuf.moved_of_handed hw (Sockbuf.handed_nil ht hc), ?_⟩
  simp only [SameRest, Proc.rebase, Proc.base, Derived.rebase_base]

theorem puts_sputc (c : Byte) : Puts (β := β) K (inherited (Sockbuf.sputc K c)) [c] := fun _ hw =>
  (inherited_sat (Sockbuf.sputc_sat hw c)).mono (fun _ _ h => ⟨h.1.2.1, h.2⟩) fun _ _ h => h.1.2

theorem puts_xsputn (bs : List Byte) :
    Puts (β := β) K (inherited (Sockbuf.xsputn K bs)) bs := fun _ hw =>
  (inherited_sat (Sockbuf.xsputn_sat hw bs)).mono (fun _ _ h => ⟨h.1.2.1, h.2⟩) fun _ _ h => h.1.2

/-- Everything put up to now, `xs` since `s`, has been handed to the kernel. -/
structure Flushed (s s' : Proc Sockbuf κ) (xs : List Byte) : Prop where
  writable : s'.obj.Writable
  rep      : s'.obj.rep = s.obj.rep
  pending  : s'.obj.pending = []
  sent     : Sockbuf.sent s' = Sockbuf.sent s ++ s.obj.pending ++ xs

theorem Flushed.trans {s s₁ s' : Proc Sockbuf κ} {xs ys : List Byte} (h₁ : Flushed s s₁ xs)
    (h₂ : Flushed s₁ s' ys) : Flushed s s' (xs ++ ys) :=
  ⟨h₂.writable, h₂.rep.trans h₁.rep, h₂.pending, by
    rw [h₂.sent, h₁.sent, h₁.pending, List.append_nil, List.append_assoc _ xs ys]⟩

theorem writable_of_putSame {s s' : Proc Sockbuf κ} (h : Sockbuf.PutSame s s')
    (hw : s.obj.Writable) : s'.obj.Writable := by
  obtain ⟨p, hp, hle, he, hpos⟩ := hw
  exact ⟨p, by rw [h.putArea, hp], hle, by rw [h.rep, he], by rw [h.rep]; exact hpos⟩

theorem Flushed.same {s s₁ s' : Proc Sockbuf κ} {xs : List Byte} (h₁ : Flushed s s₁ xs)
    (h₂ : Sockbuf.PutSame s₁ s') : Flushed s s' xs := by
  obtain ⟨hw, hrep, hpend, hsent⟩ := h₁
  refine ⟨writable_of_putSame h₂ hw, h₂.rep.trans hrep, ?_, ?_⟩
  · simp only [Sockbuf.pending, h₂.putArea]
    exact hpend
  · rw [← hsent, Sockbuf.sent, Sockbuf.sent, h₂.rep, h₂.sent]

theorem Put.flushed {s s' : Proc β κ} {xs : List Byte} (h : Put s s' xs)
    (he : s'.base.obj.pending = []) : Flushed s.base s'.base xs := by
  refine ⟨h.moved.writable, h.moved.rep, he, ?_⟩
  have hq := h.moved.moves.pushed_eq
  simp only [Sockbuf.outQueue, he, List.append_nil] at hq
  exact hq

/-- **A flush** behind some puts. -/
theorem sync_flushes {s : Proc β κ} (hw : s.base.obj.Writable) :
    (inherited (Sockbuf.sync K) s).Sat
      (fun _ s' => Put s s' [] ∧ s'.base.obj.pending = []) (fun _ _ => ¬ K.WriteSucceeds) :=
  (inherited_sat (Sockbuf.sync_sat hw)).mono (fun _ _ h => ⟨⟨h.1.2.1, h.2⟩, h.1.2.2⟩)
    fun _ _ h => h.1.2

end Puts

/-! ### Reading replies -/

/-- One round of `while (underflow () != EOF)` with the given body; `inl` goes round again, with
what the loop carries. -/
def readRound {β κ τ : Type} [Derived β] (K : Kernel κ)
    (body : τ → Prog Thrown (Proc β κ) (τ ⊕ Unit)) (t : τ) : Prog Thrown (Proc β κ) (τ ⊕ Unit) := do
  if (← inherited (Sockbuf.underflow K)) = eofValue then return .inr ()
  else body t

/-- A reader keeps what the get functions and its body keep. -/
theorem keeps_readLoop {β κ τ : Type} [Derived β] {K : Kernel κ}
    {R : Proc Sockbuf κ → Proc Sockbuf κ → Prop} (h : Sockbuf.GetFrame K R)
    {body : τ → Prog Thrown (Proc β κ) (τ ⊕ Unit)} (hb : ∀ t, Prog.Keeps (OnBase R) (body t))
    (n : Nat) (t : τ) : Prog.Keeps (OnBase R) (Prog.loop (readRound K body) n t) := by
  have hc : Closed (OnBase (β := β) R) := h.toClosed.onBase
  refine Prog.Keeps.loop hc.refl hc.trans (fun t => ?_) n t
  exact hc.keeps_bind (keeps_inherited (Sockbuf.keeps_underflow h)) fun v =>
    Prog.Keeps.ite (hc.keeps_pure _) (hb t)

/-- `for (int i = 2; i <= n; i++, p++)` up to the first CR LF, for the rounds that are left; the
value of `i` when the loop ends. -/
def zapLoop (mem : Mem Byte) : Nat → Nat → Nat → Nat
  | 0,     _, i => i
  | k + 1, p, i => if mem p = 13 ∧ mem (p + 1) = 10 then i else zapLoop mem k (p + 1) (i + 1)

/-- The loop over the `n` bytes in the get area; `i` ends at `n + 1` where there is no CR LF. -/
def GetArea.zap (a : GetArea) (n : Nat) : Nat := zapLoop a.mem (n - 1) a.gptr 2

theorem zapLoop_eq (mem : Mem Byte) : ∀ (k p i : Nat),
    zapLoop mem k p i =
      match eol.lineEnd (mem.slice p (k + 1)) with
      | some e => i + (e - 2)
      | none   => i + k := by
  intro k
  induction k with
  | zero => intro p i; rfl
  | succ k ih =>
      intro p i
      rw [zapLoop, Mem.slice_succ, Mem.slice_succ, Eol.lineEnd_cons_cons]
      by_cases hc : mem p = 13 ∧ mem (p + 1) = 10
      · have hc' : mem p = eol.cr ∧ mem (p + 1) = eol.lf := hc
        rw [if_pos hc, if_pos hc']
        rfl
      · have hc' : ¬ (mem p = eol.cr ∧ mem (p + 1) = eol.lf) := hc
        rw [if_neg hc, if_neg hc', ih, ← Mem.slice_succ]
        cases he : eol.lineEnd (mem.slice (p + 1) (k + 1)) with
        | none => exact Nat.add_right_comm i 1 k
        | some e =>
            have := (Eol.lineEnd_bounds he).1
            show i + 1 + (e - 2) = i + (e + 1 - 2)
            omega

/-- **`zap`** finds the first line of the unread bytes, or runs one past them. -/
theorem zap_eq {b : Sockbuf} {a : GetArea} (ha : b.getArea = some a) (hu : b.unread ≠ []) :
    a.zap (a.egptr - a.gptr) = (eol.lineEnd b.unread).getD (b.unread.length + 1) := by
  have hlen : 0 < b.unread.length := List.length_pos_of_ne_nil hu
  rw [Sockbuf.unread_eq ha] at hlen ⊢
  rw [Mem.length_slice] at hlen ⊢
  rw [GetArea.zap, zapLoop_eq, Nat.sub_add_cancel hlen]
  cases he : eol.lineEnd (a.mem.slice a.gptr (a.egptr - a.gptr)) with
  | none => simp only [Option.getD_none]; omega
  | some e =>
      have := (Eol.lineEnd_bounds he).1
      simp only [Option.getD_some]
      omega

end Socketpp
