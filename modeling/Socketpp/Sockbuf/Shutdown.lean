import Socketpp.Sockbuf.Output

/-!
# Sockbuf — shutdown

`shutdown` releases the put area without looking at it, where the destructor flushes first.  With
a kernel that never fails, a run of puts and flushes followed by `shutdown` hands over everything
exactly when a flush comes behind every put (`shutdown_flushed_iff`).
-/

namespace Socketpp
open Lib

/-- `::shutdown` does not fail. -/
def Kernel.ShutdownSucceeds {κ : Type} (K : Kernel κ) : Prop :=
  ∀ k fd sh, ∃ k', K.shutdown k fd sh = (.ok (), k')

theorem Kernel.smooth_shutdownSucceeds (B : Nat) : (Kernel.smooth B).ShutdownSucceeds :=
  fun k _ _ => ⟨k, rfl⟩

namespace PutOp
open Sockbuf

variable {κ : Type} {K : Kernel κ}

/-- The bytes the return value `v` reports as accepted. -/
def reported : PutOp → Int → List Byte
  | .sputc c,    v => if v = eofValue then [] else [c]
  | .overflow c, v => if c = eofValue ∨ v = eofValue then [] else [UInt8.ofInt c]
  | .sputn s,    v => s.take v.toNat
  | .sync, _ | .sendtimeout _, _ => []

/-- Run the operations in turn, and collect the bytes they report as accepted; an exception ends
the run. -/
def run (K : Kernel κ) : List PutOp → SockM κ (List Byte)
  | []        => return []
  | op :: ops => do
    let v ← op.exec K
    return op.reported v ++ (← run K ops)

/-- An operation that returns reports all its data as accepted. -/
theorem Takes.reported_eq {op : PutOp} {s s' : Proc Sockbuf κ} {v : Int}
    (h : op.Takes s (.ok v) s' op.data) : op.reported v = op.data := by
  cases op with
  | sputc c =>
      obtain ⟨rfl, -⟩ := h
      simp [reported, data, byte_ne_eof c]
  | overflow c =>
      by_cases hc : c = eofValue
      · simp [reported, data, hc]
      · simp only [Takes, hc, if_false] at h
        simp [reported, data, hc, h.1]
  | sputn bs =>
      obtain ⟨rfl, -⟩ := h
      simp [reported, data]
  | sync => rfl
  | sendtimeout wp => rfl

/-- A flush comes behind every operation that has data. -/
def flushed : List PutOp → Bool
  | []        => true
  | op :: ops => (op.data.isEmpty || ops.any flushes) && flushed ops

/-- **A run of put operations**, the kernel never failing.  It takes all the data, reports it as
accepted, and leaves nothing pending exactly when a flush came behind every put, those before the
run included. -/
theorem run_sat (hK : K.WriteSucceeds) : ∀ (ops : List PutOp) {s : Proc Sockbuf κ},
    s.obj.Writable →
    (run K ops s).Sat
      (fun acc s' => acc = ops.flatMap data ∧ Taken s s' (ops.flatMap data) ∧
        (s'.obj.pending = [] ↔
          (s.obj.pending = [] ∨ ops.any flushes = true) ∧ flushed ops = true))
      (fun _ _ => False) := by
  intro ops
  induction ops with
  | nil => intro s hw; exact ⟨rfl, ⟨hw, rfl, .refl⟩, by simp [flushed]⟩
  | cons op ops ih =>
      intro s hw
      simp only [run, Prog.bind_apply]
      refine (exec_sat op hw).andThen ?_ fun _ _ h => absurd hK h.2
      rintro v s₁ ⟨hv, ht, he⟩
      refine (ih ht.writable).andThen ?_ fun _ _ h => h
      rintro _ s' ⟨rfl, ht', he'⟩
      refine ⟨by rw [hv.reported_eq, List.flatMap_cons],
        by simpa only [List.flatMap_cons] using ht.trans ht', ?_⟩
      -- the operation flushes, or has data, or neither
      have hd : op.flushes = true → op.data = [] := by
        cases op <;> simp [flushes, data]
      rw [he', he]
      simp only [List.any_cons, flushed, Bool.or_eq_true, Bool.and_eq_true, List.isEmpty_iff]
      generalize ops.any flushes = later
      by_cases hf : op.flushes = true
      · simp [hf, hd hf]
      · by_cases h0 : op.data = []
        · simp [hf, h0]
        · cases later <;> simp [hf, h0]

end PutOp

namespace Sockbuf
open PutOp

variable {κ : Type} {K : Kernel κ}

/-- `s'` is `s` after a `::shutdown` call, the object unchanged. -/
structure Called (K : Kernel κ) (sh : Shuthow) (s s' : Proc Sockbuf κ) : Prop where
  obj   : s'.obj = s.obj
  kern  : s'.sys.kern = (K.shutdown s.sys.kern s.obj.rep.sock sh).2
  trace : ∃ ok, s'.sys.trace = s.sys.trace ++ [.shutdown s.obj.rep.sock sh ok]

/-- The call hands nothing over. -/
theorem Called.handed {sh : Shuthow} {s s' : Proc Sockbuf κ} (h : Called K sh s s') : Handed s s' [] := by
  obtain ⟨ok, ht⟩ := h.trace
  refine ⟨h.obj, ?_⟩
  rw [sent, ht, h.obj, sentOn_append]
  rfl

/-- It sends nothing and receives nothing, on any descriptor. -/
theorem Called.sentOn {sh : Shuthow} {s s' : Proc Sockbuf κ} (h : Called K sh s s') (fd : Int) :
    Socketpp.sentOn fd s'.sys.trace = Socketpp.sentOn fd s.sys.trace := by
  obtain ⟨ok, ht⟩ := h.trace
  rw [ht, sentOn_append]
  exact List.append_nil _

theorem Called.receivedOn {sh : Shuthow} {s s' : Proc Sockbuf κ} (h : Called K sh s s') (fd : Int) :
    Socketpp.receivedOn fd s'.sys.trace = Socketpp.receivedOn fd s.sys.trace := by
  obtain ⟨ok, ht⟩ := h.trace
  rw [ht, receivedOn_append]
  exact List.append_nil _

/-- **The `::shutdown` call** leaves the object, and throws where the call fails. -/
theorem shutdownCall_spec (sh : Shuthow) (s : Proc Sockbuf κ) :
    (shutdownCall K sh s).Sat
      (fun _ s' => Called K sh s s' ∧ ¬ ∃ e, (K.shutdown s.sys.kern s.obj.rep.sock sh).1 = .error e)
      (fun _ s' => Called K sh s s' ∧ ∃ e, (K.shutdown s.sys.kern s.obj.rep.sock sh).1 = .error e) := by
  simp only [shutdownCall, Prog.bind_apply, Prog.get_apply, Outcome.andThen_ret, call, Prog.zoom_apply,
    Sys.shutdown]
  rcases ha : K.shutdown s.sys.kern s.obj.rep.sock sh with ⟨a, k⟩
  cases a with
  | ok v => exact ⟨⟨rfl, by rw [ha]; rfl, true, rfl⟩, by simp⟩
  | error e => exact ⟨⟨rfl, by rw [ha]; rfl, false, rfl⟩, e, rfl⟩

theorem shutdownCall_leaves (sh : Shuthow) (s : Proc Sockbuf κ) :
    (shutdownCall K sh s).Leaves (Called K sh s) :=
  ((shutdownCall_spec sh s).mono (fun _ _ h => h.1) fun _ _ h => h.1).leaves

theorem shutdownCall_sat (hS : K.ShutdownSucceeds) (sh : Shuthow) (s : Proc Sockbuf κ) :
    (shutdownCall K sh s).Sat (fun _ s' => Handed s s' []) (fun _ _ => False) := by
  refine (shutdownCall_spec sh s).mono (fun _ _ h => h.1.handed) ?_
  rintro e s' ⟨-, n, hn⟩
  obtain ⟨k, h⟩ := hS s.sys.kern s.obj.rep.sock sh
  rw [h] at hn
  cases hn

/-- A shutdown of the write side, alone or with the other, drops the put area as it is. -/
theorem shutdown_sat (hS : K.ShutdownSucceeds) {sh : Shuthow} (hsh : sh ≠ .shut_read)
    (s : Proc Sockbuf κ) :
    (shutdown K sh s).Sat (fun _ s' => s'.obj.putArea = none ∧ sent s' = sent s)
      (fun _ _ => False) := by
  cases sh with
  | shut_read => exact absurd rfl hsh
  | shut_write =>
      simp only [shutdown, Prog.bind_apply, Prog.modify_apply, Outcome.andThen_ret]
      refine (shutdownCall_sat hS .shut_write _).mono ?_ fun _ _ h => h
      rintro _ s' h
      exact ⟨by rw [h.1]; rfl, h.2.trans (List.append_nil _)⟩
  | shut_readwrite =>
      simp only [shutdown, Prog.bind_apply, Prog.modify_apply, Outcome.andThen_ret]
      refine (shutdownCall_sat hS .shut_read _).andThen ?_ fun _ _ h => h
      rintro _ s₁ h₁
      refine (shutdownCall_sat hS .shut_write (s₁.onObj dropPut)).andThen ?_ fun _ _ h => h
      rintro _ s₂ h₂
      refine (shutdownCall_sat hS .shut_readwrite s₂).mono ?_ fun _ _ h => h
      rintro _ s' h₃
      have hs := (h₂.trans h₃).2
      refine ⟨by rw [h₃.1, h₂.1]; rfl, hs.trans ?_⟩
      rw [List.append_nil, List.append_nil]
      exact h₁.2.trans (List.append_nil _)

/-- A run of put operations, then a shutdown; the value is what the puts report as accepted. -/
def putThenShutdown (K : Kernel κ) (ops : List PutOp) (sh : Shuthow) : SockM κ (List Byte) := do
  let accepted ← PutOp.run K ops
  shutdown K sh
  return accepted

/-- **Closing the write side, with every system call succeeding.**  After a run of put operations
on a fresh sockbuf and a shutdown of its write side, the put area is gone, and the bytes handed
to the kernel are those reported as accepted exactly when a flush came behind every put. -/
theorem shutdown_flushed_iff (hK : K.WriteSucceeds) (hS : K.ShutdownSucceeds) (B : ℕ+) (sd : Int)
    (gbuf pbuf : Mem Byte) (y : Sys κ) (ops : List PutOp) {sh : Shuthow}
    (hsh : sh ≠ .shut_read) :
    ∃ accepted s', putThenShutdown K ops sh ⟨ofDesc B sd gbuf pbuf, y⟩ = .ret accepted s' ∧
      s'.obj.putArea = none ∧
      (sent s' = sentOn sd y.trace ++ accepted ↔ PutOp.flushed ops = true) := by
  refine Outcome.Sat.returns ?_
  simp only [putThenShutdown, Prog.bind_apply]
  refine (run_sat hK ops (ofDesc_writable B sd gbuf pbuf)).andThen ?_ fun _ _ h => h
  rintro _ s₁ ⟨rfl, ht, he⟩
  refine (shutdown_sat hS hsh s₁).andThen ?_ fun _ _ h => h
  rintro _ s' ⟨hp, hs⟩
  refine ⟨hp, ?_⟩
  -- what was pending when the area went is what is missing
  have hq : sent s₁ ++ s₁.obj.pending = sentOn sd y.trace ++ ops.flatMap PutOp.data := by
    have h := ht.moves.pushed_eq
    simp only [outQueue, ofDesc_pending, List.append_nil] at h
    exact h
  simp only [ofDesc_pending, true_or, true_and] at he
  rw [hs, ← hq, List.self_eq_append_right]
  exact he

/-- A flush behind the last put saves it. -/
theorem shutdown_flushed_iff_sync :
    ∃ accepted s', putThenShutdown (Kernel.smooth 1024) [.sputc 97, .sync] .shut_write
        ⟨ofDesc 1024 3 (fun _ => 0) (fun _ => 0), ⟨⟨[], ()⟩, 0, []⟩⟩ = .ret accepted s' ∧
      s'.obj.putArea = none ∧
      (sent s' = [] ++ accepted ↔ PutOp.flushed [.sputc 97, .sync] = true) :=
  shutdown_flushed_iff (Kernel.smooth_writeSucceeds 1024) (Kernel.smooth_shutdownSucceeds 1024) 1024 3
    (fun _ => 0) (fun _ => 0) ⟨⟨[], ()⟩, 0, []⟩ [.sputc 97, .sync] (by decide)

/-- Without one, the byte `sputc` has accepted is lost. -/
theorem shutdown_loses_pending :
    ∃ s', putThenShutdown (Kernel.smooth 1024) [.sputc 97] .shut_write
        ⟨ofDesc 1024 3 (fun _ => 0) (fun _ => 0), ⟨⟨[], ()⟩, 0, []⟩⟩ = .ret [97] s' ∧
      s'.obj.putArea = none ∧ sent s' = [] :=
  ⟨_, rfl, rfl, rfl⟩

end Sockbuf

end Socketpp
