import Socketpp.Sockbuf.Alike
import Socketpp.Sockbuf.Reached

/-!
# Sockbuf — a direction that has been shut

After `shutdown (shut_write)` there is no put area, and every put function looks for it first: puts
report a failure, `sync` has nothing to do, and neither makes a call.  A run after the shutdown is
compared with the run without it, operation by operation, the kernel giving the get functions the same
answers in both: their results and the get areas are the same.  The same holds the other way round
(`shut_side_inert`).
-/

namespace Socketpp
open Lib

variable {κ : Type} {K : Kernel κ} {S : κ → κ → Prop}

/-! ### Operations on a side that is shut -/

namespace SockOp

/-- The stream operations of the put side. -/
def puts : SockOp → Bool
  | .put (.sendtimeout _) => false
  | .put _                => true
  | _                     => false

/-- The stream operations of the get side. -/
def gets : SockOp → Bool
  | .get (.recvtimeout _) | .get (.oob _) => false
  | .get _ | .sungetc | .sputbackc _      => true
  | _                                     => false

/-- What an operation returns on a side that is shut: end of file, or nothing done. -/
def refusal : SockOp → Int
  | .put op => op.refusal
  | .get op => op.refusal
  | .sungetc | .sputbackc _ => eofValue
  | .shutdown _ => 0

end SockOp

namespace Sockbuf

/-- On a side that is shut nothing happens. -/
theorem exec_puts_refused {op : SockOp} (hop : op.puts = true) {t : Getting κ}
    (h : t.proc.obj.putArea = none) : op.exec K t = .ret op.refusal t := by
  cases op with
  | put p =>
      have hp : ∀ wp, p ≠ .sendtimeout wp := by
        rintro wp rfl
        cases hop
      rw [SockOp.exec, within, Prog.zoom_apply, PutOp.exec_refused hp h]
      rfl
  | get _ | sungetc | sputbackc _ | shutdown _ => cases hop

theorem exec_gets_refused {op : SockOp} (hop : op.gets = true) {t : Getting κ}
    (h : t.proc.obj.getArea = none) : op.exec K t = .ret op.refusal t := by
  cases op with
  | put _ | shutdown _ => cases hop
  | sungetc =>
      rw [SockOp.exec, within, Prog.zoom_apply, sungetc_eq]
      simp only [h]
      rfl
  | sputbackc c =>
      rw [SockOp.exec, within, Prog.zoom_apply, sputbackc_eq]
      simp only [h, reduceCtorEq, false_and, exists_false, if_false]
      rfl
  | get g =>
      have hwait : ∀ wp, g ≠ .recvtimeout wp := by
        rintro wp rfl
        cases hop
      have hoob : ∀ b, g ≠ .oob b := by
        rintro b rfl
        cases hop
      exact GetOp.exec_refused hwait hoob h

theorem refused_result {op : SockOp} {t t₁ : Getting κ} {r : Except Thrown Int}
    (h : op.exec K t = .ret op.refusal t) (ht₁ : (op.exec K t).result = some (r, t₁)) :
    r = .ok op.refusal ∧ t₁ = t := by
  rw [h] at ht₁
  cases ht₁
  exact ⟨rfl, rfl⟩

/-- No operation is one of both sides. -/
theorem puts_ne_gets {op : SockOp} (hputs : op.puts = true) : op.gets ≠ true := by
  cases op with
  | put p => exact Bool.false_ne_true
  | get _ | sungetc | sputbackc _ | shutdown _ => cases hputs

/-! ### What the operations of a side leave -/

/-- The stream operations of the get side respect what they look at. -/
theorem exec_gets_alike (hK : K.ReadsAlike S) {op : SockOp} (hop : op.gets = true) :
    Prog.Respects (GettingAlike S) (op.exec K) := by
  cases op with
  | put _ | shutdown _ => cases hop
  | sungetc => exact gettingAlike_within getAlike_sungetc
  | sputbackc c => exact gettingAlike_within (getAlike_sputbackc c)
  | get g =>
      cases g with
      | sgetc =>
          rw [SockOp.exec, GetOp.exec, sgetc_eq]
          exact gettingAlike_within (getAlike_underflow hK)
      | underflow => exact gettingAlike_within (getAlike_underflow hK)
      | sbumpc =>
          rw [SockOp.exec, GetOp.exec, sbumpc_eq]
          exact gettingAlike_within (getAlike_uflow hK)
      | uflow => exact gettingAlike_within (getAlike_uflow hK)
      | sgetn n => exact .bind (gettingAlike_xsgetnRec hK (n + 2) n) fun _ => .pure _
      | recvtimeout wp => cases hop
      | oob b => cases hop

/-- The stream operations of the put side respect what they look at. -/
theorem exec_puts_alike (hK : K.WritesAlike S) {op : SockOp} (hop : op.puts = true) :
    Prog.Respects (fun t t' : Getting κ => PutAlike S t.proc t'.proc) (op.exec K) := by
  suffices hput : ∀ p : PutOp, (SockOp.put p).puts = true → Prog.Respects (PutAlike S) (p.exec K) by
    cases op with
    | put p => exact (hput p hop).zoom (fun _ _ h => h) fun _ _ _ _ _ h => h
    | get _ | sungetc | sputbackc _ | shutdown _ => cases hop
  intro p hp
  cases p with
  | sputc c => exact putAlike_sputc hK c
  | overflow c => exact putAlike_overflow hK c
  | sputn bs => exact .bind (putAlike_xsputnRec hK (bs.length + 2) bs) fun _ => .pure _
  | sync => exact putAlike_sync hK
  | sendtimeout wp => cases hp

/-- The stream operations of the put side keep what the put functions keep, and store nothing for
the caller. -/
theorem exec_puts_frame {R : Proc Sockbuf κ → Proc Sockbuf κ → Prop} (hR : PutFrame K R) {op : SockOp}
    (hop : op.puts = true) (t : Getting κ) :
    (op.exec K t).Leaves fun t' => R t.proc t'.proc ∧ t'.dst = t.dst := by
  suffices hput : ∀ p : PutOp, (SockOp.put p).puts = true → Prog.Keeps R (p.exec K) by
    cases op with
    | put p =>
        have hwithin : Prog.Keeps (fun t t' : Getting κ => R t.proc t'.proc ∧ t'.dst = t.dst)
            (within (p.exec K)) := (hput p hop).zoom fun _ _ h => ⟨h, rfl⟩
        exact hwithin t
    | get _ | sungetc | sputbackc _ | shutdown _ => cases hop
  intro p hp
  cases p with
  | sputc c => exact keeps_sputc hR c
  | overflow c => exact keeps_overflow hR c
  | sputn bs => exact hR.keeps_bind (keeps_xsputn hR bs) fun _ => hR.keeps_pure _
  | sync => exact keeps_sync hR
  | sendtimeout wp => cases hp

/-- The stream operations of the get side keep what the get functions keep. -/
theorem exec_gets_frame {R : Proc Sockbuf κ → Proc Sockbuf κ → Prop} (hR : GetFrame K R) {op : SockOp}
    (hop : op.gets = true) (t : Getting κ) : (op.exec K t).Leaves fun t' => R t.proc t'.proc := by
  cases op with
  | put _ | shutdown _ => cases hop
  | sungetc => exact keeps_within (keeps_sungetc hR) t
  | sputbackc c => exact keeps_within (keeps_sputbackc hR c) t
  | get g =>
      cases g with
      | sgetc =>
          rw [SockOp.exec, GetOp.exec, sgetc_eq]
          exact keeps_within (keeps_underflow hR) t
      | underflow => exact keeps_within (keeps_underflow hR) t
      | sbumpc =>
          rw [SockOp.exec, GetOp.exec, sbumpc_eq]
          exact keeps_within (keeps_uflow hR) t
      | uflow => exact keeps_within (keeps_uflow hR) t
      | sgetn n =>
          rw [SockOp.exec, GetOp.exec, Prog.map_apply]
          exact Prog.leaves_map _ (keeps_xsgetnRec hR _ n t)
      | recvtimeout wp => cases hop
      | oob b => cases hop

/-! ### The two runs -/

/-- One operation after a `shutdown (shut_write)`, beside the same operation without it.  In the run
with the shutdown no byte is sent, and a put is refused and changes nothing; a get comes to the same in
both, and the get side is the same after every operation. -/
structure WriteShut (op : SockOp) (t : Getting κ) (r : Except Thrown Int) (t₁ _t' : Getting κ)
    (r' : Except Thrown Int) (t₁' : Getting κ) : Prop where
  sent     : ∀ fd, sentOn fd t₁.proc.sys.trace = sentOn fd t.proc.sys.trace
  puts     : op.puts = true → r = .ok op.refusal ∧ t₁ = t
  gets     : op.gets = true → r' = r
  getArea  : t₁'.proc.obj.getArea = t₁.proc.obj.getArea
  stored   : t₁'.dst = t₁.dst
  received : ∀ fd, receivedOn fd t₁'.proc.sys.trace = receivedOn fd t₁.proc.sys.trace

/-- The same for `shutdown (shut_read)`, with the two sides exchanged. -/
structure ReadShut (op : SockOp) (t : Getting κ) (r : Except Thrown Int) (t₁ _t' : Getting κ)
    (r' : Except Thrown Int) (t₁' : Getting κ) : Prop where
  received : ∀ fd, receivedOn fd t₁.proc.sys.trace = receivedOn fd t.proc.sys.trace
  gets     : op.gets = true → r = .ok op.refusal ∧ t₁ = t
  puts     : op.puts = true → r' = r
  putArea  : t₁'.proc.obj.putArea = t₁.proc.obj.putArea
  sent     : ∀ fd, sentOn fd t₁'.proc.sys.trace = sentOn fd t₁.proc.sys.trace

/-- What a shutdown of one direction leaves, returned or thrown. -/
theorem shut_write_leaves (s : Proc Sockbuf κ) :
    (shutdown K .shut_write s).Leaves (Called K .shut_write (s.onObj dropPut)) :=
  shutdownCall_leaves .shut_write (s.onObj dropPut)

theorem shut_read_leaves (s : Proc Sockbuf κ) :
    (shutdown K .shut_read s).Leaves (Called K .shut_read (s.onObj dropGet)) :=
  shutdownCall_leaves .shut_read (s.onObj dropGet)

/-- The same shutdown made on both sides. -/
theorem GetAlike.called {s s' s₁ s₁' : Proc Sockbuf κ} (h : GetAlike S s s') (hK : K.ReadsAlike S)
    (hc : Called K .shut_write s s₁) (hc' : Called K .shut_write s' s₁') : GetAlike S s₁ s₁' := by
  obtain ⟨y, hy⟩ : ∃ y, s₁ = { s with sys := y } := ⟨s₁.sys, by rw [← hc.obj]⟩
  obtain ⟨y', hy'⟩ : ∃ y', s₁' = { s' with sys := y' } := ⟨s₁'.sys, by rw [← hc'.obj]⟩
  have hkern : S s₁.sys.kern s₁'.sys.kern := by
    rw [hc.kern, hc'.kern, h.sock]
    exact hK.shutdown h.kern _
  have hrecv : ∀ fd, receivedOn fd s₁'.sys.trace = receivedOn fd s₁.sys.trace := fun fd => by
    rw [hc.receivedOn, hc'.receivedOn, h.received fd]
  subst hy hy'
  exact { h with received := hrecv, kern := hkern }

theorem PutAlike.called {s s' s₁ s₁' : Proc Sockbuf κ} (h : PutAlike S s s') (hK : K.WritesAlike S)
    (hc : Called K .shut_read s s₁) (hc' : Called K .shut_read s' s₁') : PutAlike S s₁ s₁' := by
  obtain ⟨y, hy⟩ : ∃ y, s₁ = { s with sys := y } := ⟨s₁.sys, by rw [← hc.obj]⟩
  obtain ⟨y', hy'⟩ : ∃ y', s₁' = { s' with sys := y' } := ⟨s₁'.sys, by rw [← hc'.obj]⟩
  have hkern : S s₁.sys.kern s₁'.sys.kern := by
    rw [hc.kern, hc'.kern, h.sock]
    exact hK.shutdown h.kern _
  have hsent : ∀ fd, sentOn fd s₁'.sys.trace = sentOn fd s₁.sys.trace := fun fd => by
    rw [hc.sentOn, hc'.sentOn, h.sent fd]
  subst hy hy'
  exact { h with sent := hsent, kern := hkern }

/-- The states of the two runs between two operations, after a `shutdown (shut_write)`. -/
structure BesideWriteShut (K : Kernel κ) (S : κ → κ → Prop) (t t' : Getting κ) : Prop where
  reached  : Reached K t.proc.obj
  reached' : Reached K t'.proc.obj
  putArea  : t.proc.obj.putArea = none
  alike    : GettingAlike S t t'

theorem BesideWriteShut.step (hK : K.ReadsAlike S) {op : SockOp} {t t' : Getting κ}
    (h : BesideWriteShut K S t t')
    (hop : op.puts = true ∨ op.gets = true ∨ op = .shutdown .shut_write) :
    ∃ r t₁ r' t₁', (op.exec K t).result = some (r, t₁) ∧ (op.exec K t').result = some (r', t₁') ∧
      WriteShut op t r t₁ t' r' t₁' ∧ BesideWriteShut K S t₁ t₁' := by
  obtain ⟨r, t₁, ht₁⟩ := h.reached.exec_ends t.proc.sys t.dst op
  obtain ⟨r', t₁', ht₁'⟩ := h.reached'.exec_ends t'.proc.sys t'.dst op
  have hr₁ := Reached.step h.reached ht₁
  have hr₁' := Reached.step h.reached' ht₁'
  refine ⟨r, t₁, r', t₁', ht₁, ht₁', ?_⟩
  rcases hop with hputs | hgets | rfl
  · -- nothing happens in the run with the shutdown
    obtain ⟨rfl, rfl⟩ := refused_result (t := t) (exec_puts_refused hputs h.putArea) ht₁
    obtain ⟨hstill, hdst⟩ := (exec_puts_frame (putFrame_getAlike hK) hputs t').result ht₁'
    have halike : GettingAlike S t₁ t₁' := ⟨hstill _ h.alike.1, hdst.trans h.alike.2⟩
    exact ⟨⟨fun _ => rfl, fun _ => ⟨rfl, rfl⟩, fun hg => absurd hg (puts_ne_gets hputs),
      halike.1.getArea, halike.2, halike.1.received⟩, hr₁, hr₁', h.putArea, halike⟩
  · -- a get looks at the same in both runs
    obtain ⟨u, hu, halike⟩ := (exec_gets_alike hK hgets t t' h.alike).result ht₁
    obtain ⟨rfl, rfl⟩ : r' = r ∧ t₁' = u := by
      have hres := ht₁'.symm.trans hu
      cases hres
      exact ⟨rfl, rfl⟩
    have hput := (exec_gets_frame (getFrame_putSame K) hgets t).result ht₁
    exact ⟨⟨hput.sent, fun hp => absurd hgets (puts_ne_gets hp), fun _ => rfl, halike.1.getArea, halike.2,
      halike.1.received⟩, hr₁, hr₁', hput.putArea.trans h.putArea, halike⟩
  · obtain ⟨r₀, hcame, -⟩ := Prog.map_result ht₁
    obtain ⟨r₀', hcame', -⟩ := Prog.map_result ht₁'
    have hc := (shut_write_leaves t.proc).result (within_result hcame).1
    have hc' := (shut_write_leaves t'.proc).result (within_result hcame').1
    have hdst : t₁'.dst = t₁.dst := by
      rw [(within_result hcame).2, (within_result hcame').2, h.alike.2]
    have hdropped : GetAlike S (t.proc.onObj dropPut) (t'.proc.onObj dropPut) := { h.alike.1 with }
    have halike : GettingAlike S t₁ t₁' := ⟨hdropped.called hK hc hc', hdst⟩
    exact ⟨⟨hc.sentOn, fun hp => absurd hp Bool.false_ne_true, fun hg => absurd hg Bool.false_ne_true,
      halike.1.getArea, hdst, halike.1.received⟩, hr₁, hr₁', by rw [hc.obj]; rfl, halike⟩

/-- The states of the two runs between two operations, after a `shutdown (shut_read)`. -/
structure BesideReadShut (K : Kernel κ) (S : κ → κ → Prop) (t t' : Getting κ) : Prop where
  reached  : Reached K t.proc.obj
  reached' : Reached K t'.proc.obj
  getArea  : t.proc.obj.getArea = none
  alike    : PutAlike S t.proc t'.proc

/-- The get side has received nothing. -/
theorem putFrame_received (K : Kernel κ) : PutFrame K fun s s' : Proc Sockbuf κ =>
    s'.obj.getArea = s.obj.getArea ∧ ∀ fd, receivedOn fd s'.sys.trace = receivedOn fd s.sys.trace where
  refl _ := ⟨rfl, fun _ => rfl⟩
  trans _ _ _ h h' := ⟨h'.1.trans h.1, fun fd => (h'.2 fd).trans (h.2 fd)⟩
  write _ _ := keeps_writeCall fun _ y _ _ ht => ⟨rfl, fun fd => by
    show receivedOn fd y.trace = _
    rw [ht, receivedOn_append]
    simp [receivedOn, Syscall.receivedOn]⟩
  selectWrite _ _ := keeps_answer fun _ y _ _ ht => ⟨rfl, fun fd => by
    show receivedOn fd y.trace = _
    rw [ht, receivedOn_append]
    simp [receivedOn, Syscall.receivedOn]⟩
  put _ _ := ⟨rfl, fun _ => rfl⟩

theorem BesideReadShut.step (hK : K.WritesAlike S) {op : SockOp} {t t' : Getting κ}
    (h : BesideReadShut K S t t')
    (hop : op.puts = true ∨ op.gets = true ∨ op = .shutdown .shut_read) :
    ∃ r t₁ r' t₁', (op.exec K t).result = some (r, t₁) ∧ (op.exec K t').result = some (r', t₁') ∧
      ReadShut op t r t₁ t' r' t₁' ∧ BesideReadShut K S t₁ t₁' := by
  obtain ⟨r, t₁, ht₁⟩ := h.reached.exec_ends t.proc.sys t.dst op
  obtain ⟨r', t₁', ht₁'⟩ := h.reached'.exec_ends t'.proc.sys t'.dst op
  have hr₁ := Reached.step h.reached ht₁
  have hr₁' := Reached.step h.reached' ht₁'
  refine ⟨r, t₁, r', t₁', ht₁, ht₁', ?_⟩
  rcases hop with hputs | hgets | rfl
  · -- a put looks at the same in both runs
    obtain ⟨u, hu, halike⟩ := (exec_puts_alike hK hputs t t' h.alike).result ht₁
    obtain ⟨rfl, rfl⟩ : r' = r ∧ t₁' = u := by
      have hres := ht₁'.symm.trans hu
      cases hres
      exact ⟨rfl, rfl⟩
    obtain ⟨⟨hget, hrecv⟩, -⟩ := (exec_puts_frame (putFrame_received K) hputs t).result ht₁
    exact ⟨⟨hrecv, fun hg => absurd hg (puts_ne_gets hputs), fun _ => rfl, halike.putArea, halike.sent⟩,
      hr₁, hr₁', hget.trans h.getArea, halike⟩
  · -- nothing happens in the run with the shutdown
    obtain ⟨rfl, rfl⟩ := refused_result (t := t) (exec_gets_refused hgets h.getArea) ht₁
    have halike : PutAlike S t₁.proc t₁'.proc :=
      (exec_gets_frame (getFrame_putAlike hK) hgets t').result ht₁' _ h.alike
    exact ⟨⟨fun _ => rfl, fun _ => ⟨rfl, rfl⟩, fun hp => absurd hgets (puts_ne_gets hp), halike.putArea,
        halike.sent⟩,
      hr₁, hr₁', h.getArea, halike⟩
  · obtain ⟨r₀, hcame, -⟩ := Prog.map_result ht₁
    obtain ⟨r₀', hcame', -⟩ := Prog.map_result ht₁'
    have hc := (shut_read_leaves t.proc).result (within_result hcame).1
    have hc' := (shut_read_leaves t'.proc).result (within_result hcame').1
    have hdropped : PutAlike S (t.proc.onObj dropGet) (t'.proc.onObj dropGet) := { h.alike with }
    have halike : PutAlike S t₁.proc t₁'.proc := hdropped.called hK hc hc'
    exact ⟨⟨hc.receivedOn, fun hg => absurd hg Bool.false_ne_true, fun hp => absurd hp Bool.false_ne_true,
      halike.putArea, halike.sent⟩, hr₁, hr₁', by rw [hc.obj]; rfl, halike⟩

/-- The shutdown is itself an operation on an object reached. -/
theorem Reached.shutdown {s s₁ : Proc Sockbuf κ} (h : Reached K s.obj) {sh : Shuthow}
    (hs : Sockbuf.shutdown K sh s = .ret () s₁) : Reached K s₁.obj := by
  have came : ((SockOp.shutdown sh).exec K ⟨⟨s.obj, s.sys⟩, []⟩).result = some (.ok 0, ⟨s₁, []⟩) := by
    simp only [SockOp.exec, Prog.map_apply, within, Prog.zoom_apply]
    rw [show (⟨s.obj, s.sys⟩ : Proc Sockbuf κ) = s from rfl, hs]
    rfl
  exact .step h came

/-- **A direction that has been shut** stays inert, and does not disturb the other.  For every object
reached and every run of stream operations and further shutdowns of the same direction, beside the same
run without the first shutdown, the kernel giving the other direction's calls the same answers in both:
each operation is as `WriteShut`, or `ReadShut`, says. -/
theorem shut_side_inert {b : Sockbuf} (hb : Reached K b) (y : Sys κ) (dst : List Byte) :
    (∀ S s₁, K.ReadsAlike S → Sockbuf.shutdown K .shut_write ⟨b, y⟩ = .ret () s₁ →
      S s₁.sys.kern y.kern → ∀ ops : List SockOp,
        (∀ op ∈ ops, op.puts = true ∨ op.gets = true ∨ op = .shutdown .shut_write) →
        Abreast (SockOp.exec K) WriteShut ops ⟨s₁, dst⟩ ⟨⟨b, y⟩, dst⟩) ∧
      ∀ S s₁, K.WritesAlike S → Sockbuf.shutdown K .shut_read ⟨b, y⟩ = .ret () s₁ →
        S s₁.sys.kern y.kern → ∀ ops : List SockOp,
          (∀ op ∈ ops, op.puts = true ∨ op.gets = true ∨ op = .shutdown .shut_read) →
          Abreast (SockOp.exec K) ReadShut ops ⟨s₁, dst⟩ ⟨⟨b, y⟩, dst⟩ := by
  refine ⟨fun S s₁ hK hs hS ops hops => ?_, fun S s₁ hK hs hS ops hops => ?_⟩
  · have hc := (shut_write_leaves ⟨b, y⟩).result (congrArg Outcome.result hs)
    refine abreast_session (R := BesideWriteShut K S)
      (A := fun op => op.puts = true ∨ op.gets = true ∨ op = .shutdown .shut_write)
      (fun op t t' hop h => by exact h.step hK hop) ops _ _ hops ?_
    refine ⟨Reached.shutdown (s := ⟨b, y⟩) hb hs, hb, by rw [hc.obj]; rfl,
      ⟨?_, ?_, ?_, ?_, ?_, ?_, fun fd => (hc.receivedOn fd).symm, hS⟩, rfl⟩
    iterate 6 rw [hc.obj]; rfl
  · have hc := (shut_read_leaves ⟨b, y⟩).result (congrArg Outcome.result hs)
    refine abreast_session (R := BesideReadShut K S)
      (A := fun op => op.puts = true ∨ op.gets = true ∨ op = .shutdown .shut_read)
      (fun op t t' hop h => by exact h.step hK hop) ops _ _ hops ?_
    refine ⟨Reached.shutdown (s := ⟨b, y⟩) hb hs, hb, by rw [hc.obj]; rfl,
      ?_, ?_, ?_, ?_, ?_, fun fd => (hc.sentOn fd).symm, hS⟩
    iterate 5 rw [hc.obj]; rfl

theorem smooth_readsAlike (B : Nat) : (Kernel.smooth B).ReadsAlike Eq where
  read h _ _ := by rw [h]; exact ⟨rfl, rfl⟩
  selectRead h _ _ := by rw [h]; exact ⟨rfl, rfl⟩
  sockatmark h _ := by rw [h]; exact ⟨rfl, rfl⟩
  write h _ _ := h
  selectWrite h _ _ := h
  shutdown h _ := h

theorem smooth_writesAlike (B : Nat) : (Kernel.smooth B).WritesAlike fun _ _ => True where
  write _ _ _ := ⟨rfl, trivial⟩
  selectWrite _ _ _ := ⟨rfl, trivial⟩
  read _ _ _ := trivial
  selectRead _ _ _ := trivial
  sockatmark _ _ := trivial
  shutdown _ _ := trivial

/-- A put and a get after either shutdown of a fresh object. -/
theorem shut_side_inert_smooth :
    ∃ s₁ s₂,
      Sockbuf.shutdown (Kernel.smooth 1024) .shut_write ⟨ofDesc 1024 3 (fun _ => 0) (fun _ => 0),
        ⟨⟨[⟨[104, 105], by decide⟩], ()⟩, 0, []⟩⟩ = .ret () s₁ ∧
      Abreast (SockOp.exec (Kernel.smooth 1024)) WriteShut [.put (.sputc 97), .get .sbumpc] ⟨s₁, []⟩
        ⟨⟨ofDesc 1024 3 (fun _ => 0) (fun _ => 0), ⟨⟨[⟨[104, 105], by decide⟩], ()⟩, 0, []⟩⟩, []⟩ ∧
      Sockbuf.shutdown (Kernel.smooth 1024) .shut_read ⟨ofDesc 1024 3 (fun _ => 0) (fun _ => 0),
        ⟨⟨[⟨[104, 105], by decide⟩], ()⟩, 0, []⟩⟩ = .ret () s₂ ∧
      Abreast (SockOp.exec (Kernel.smooth 1024)) ReadShut [.put (.sputc 97), .get .sbumpc] ⟨s₂, []⟩
        ⟨⟨ofDesc 1024 3 (fun _ => 0) (fun _ => 0), ⟨⟨[⟨[104, 105], by decide⟩], ()⟩, 0, []⟩⟩, []⟩ := by
  have hinert := shut_side_inert (K := Kernel.smooth 1024) (.ofDesc 1024 3 (fun _ => 0) fun _ => 0)
    ⟨⟨[⟨[104, 105], by decide⟩], ()⟩, 0, []⟩ []
  refine ⟨_, _, rfl, hinert.1 Eq _ (smooth_readsAlike 1024) rfl rfl _ fun op hop => ?_, rfl,
    hinert.2 (fun _ _ => True) _ (smooth_writesAlike 1024) rfl trivial _ fun op hop => ?_⟩
  · rcases List.mem_pair.mp hop with rfl | rfl
    · exact .inl rfl
    · exact .inr (.inl rfl)
  · rcases List.mem_pair.mp hop with rfl | rfl
    · exact .inl rfl
    · exact .inr (.inl rfl)

end Sockbuf

end Socketpp
