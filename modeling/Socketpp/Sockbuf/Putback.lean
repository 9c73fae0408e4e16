import Socketpp.Sockbuf.Bulk
import Socketpp.Sockbuf.Inert

/-!
# Sockbuf — put-back

Once a refill has come, the cells from `eback ()` to `gptr ()` are bytes that the caller has been given
last, and a put-back takes one of them back.  Before the first refill the constructor has left `gptr ()`
at the end of the buffer, with a whole buffer of cells behind it that nothing has been stored in, and a
put-back makes those readable.  `held` is what the caller has been given and has not put back; a session
keeps it in order exactly when no put-back moves `gptr ()` before a byte has been received
(`putback_received_iff`).
-/

namespace Socketpp
open Lib

namespace SockOp
open Sockbuf

variable {κ : Type}

/-- The get side stays open. -/
def KeepsOpen (op : SockOp) : Prop := op ≠ .shutdown .shut_read ∧ op ≠ .shutdown .shut_readwrite

/-- The operation finds a byte behind `gptr ()` to put back. -/
def PutsBack : SockOp → Sockbuf → Prop
  | .sungetc, b     => ∃ a, b.getArea = some a ∧ 0 < a.gptr
  | .sputbackc c, b => ∃ a, b.getArea = some a ∧ 0 < a.gptr ∧ a.mem (a.gptr - 1) = c
  | _, _            => False

/-- What an operation may do to the bytes held.  A get adds those it has handed out.  A put-back fails
and changes nothing, or takes the last byte away and makes it the first unread one. -/
def Enters (op : SockOp) (t : Getting κ) (r : Except Thrown Int) (t' : Getting κ)
    (held held' : List Byte) : Prop :=
  match op with
  | .get g                   => ∃ xs, g.Gives t r t' xs ∧ held' = held ++ xs
  | .sungetc | .sputbackc _  => r = .ok eofValue ∧ t' = t ∧ held' = held ∨
      ∃ c : Byte, r = .ok (c.toNat : Int) ∧ held = held' ++ [c] ∧ t'.dst = t.dst ∧
        t'.proc.obj.unread = c :: t.proc.obj.unread
  | .put _ | .shutdown _     => held' = held

end SockOp

namespace Sockbuf

variable {κ : Type} {K : Kernel κ} {base held held' : List Byte} {s s' : Proc Sockbuf κ}

/-- The bytes received are those of before, the ones held, and the unread ones. -/
def Accounted (base : List Byte) (t : Getting κ) (held : List Byte) : Prop :=
  GetOp.Balanced t (base ++ held)

/-- No put-back before a byte has been received. -/
def FilledFirst (base : List Byte) (op : SockOp) (t : Getting κ) : Prop :=
  op.PutsBack t.proc.obj → received t.proc ≠ base

/-- **The invariant**: the bytes are accounted for and, once one has been received, the cells behind
`gptr ()` are the last of the bytes held. -/
structure Laid (base : List Byte) (s : Proc Sockbuf κ) (held : List Byte) : Prop where
  area : ∃ a, s.obj.getArea = some a ∧ a.gptr ≤ a.egptr ∧
    (received s ≠ base → a.mem.slice 0 a.gptr <:+ held)
  bytes : received s = base ++ held ++ s.obj.unread

theorem laid_ofDesc (B : ℕ+) (sd : Int) (gbuf pbuf : Mem Byte) (y : Sys κ) :
    Laid (receivedOn sd y.trace) ⟨ofDesc B sd gbuf pbuf, y⟩ [] :=
  ⟨⟨_, rfl, Nat.le_refl _, fun h => absurd rfl h⟩, by simp [received, unread, ofDesc]⟩

/-- The get side as it was. -/
theorem Laid.same (h : Laid base s held) (hget : s'.obj.getArea = s.obj.getArea)
    (hrecv : received s' = received s) : Laid base s' held := by
  obtain ⟨⟨a, ha, hle, hbehind⟩, hbytes⟩ := h
  refine ⟨⟨a, hget.trans ha, hle, fun hne => hbehind (hrecv ▸ hne)⟩, ?_⟩
  rw [hrecv, hbytes, unread, unread, hget]

theorem Laid.accounted {t : Getting κ} (h : Laid base t.proc held) : Accounted base t held := by
  obtain ⟨⟨a, ha, -, -⟩, hbytes⟩ := h
  exact ⟨⟨a, ha⟩, hbytes⟩

/-- The state says which bytes are held. -/
theorem Accounted.unique {t : Getting κ} (h : Accounted base t held) (h' : Accounted base t held') :
    held = held' := by
  have hb := h.2.symm.trans h'.2
  rw [List.append_assoc, List.append_assoc] at hb
  exact List.append_cancel_right (List.append_cancel_left hb)

/-! ### Gets -/

/-- A refill: nothing is behind `gptr ()`. -/
theorem Laid.refill (h : Laid base s held) (hempty : s.obj.unread = []) {s₁ : Proc Sockbuf κ}
    {c : Byte} {l : List Byte} (hg : Given s s₁ (c :: l)) :
    Laid base (s₁.onObj (onGet fun a => a.refill (c :: l))) held := by
  obtain ⟨⟨a, ha, -, -⟩, hbytes⟩ := h
  have ha₁ : s₁.obj.getArea = some a := by rw [hg.obj, ha]
  have hu : (s₁.onObj (onGet fun a => a.refill (c :: l))).obj.unread = c :: l := unread_refill ha₁ _
  refine ⟨⟨a.refill (c :: l), ?_, Nat.zero_le _, fun _ => List.nil_suffix⟩, ?_⟩
  · simp only [Proc.onObj, onGet, ha₁, Option.map_some]
  · rw [hu, show received (s₁.onObj (onGet fun a => a.refill (c :: l))) = received s₁ from rfl,
      hg.bytes, hbytes, hempty, List.append_nil]

/-- Bytes handed out move behind `gptr ()`. -/
theorem Laid.gbump (h : Laid base s held) {n : Nat} (hn : n ≤ s.obj.unread.length) :
    Laid base (s.onObj (onGet fun a => a.gbump n)) (held ++ s.obj.unread.take n) := by
  obtain ⟨⟨a, ha, hle, hbehind⟩, hbytes⟩ := h
  have hu : (s.onObj (onGet fun a => a.gbump n)).obj.unread = s.obj.unread.drop n := unread_gbump ha hn
  have hlen : n ≤ a.egptr - a.gptr := by rwa [unread_eq ha, Mem.length_slice] at hn
  have htake : s.obj.unread.take n = a.mem.slice a.gptr n := by rw [unread_eq ha, Mem.take_slice _ _ hlen]
  refine ⟨⟨a.gbump n, ?_, ?_, fun hne => ?_⟩, ?_⟩
  · simp only [Proc.onObj, onGet, ha, Option.map_some]
  · simp only [GetArea.gbump]
    omega
  · have hslice : a.mem.slice 0 (a.gptr + n) = a.mem.slice 0 a.gptr ++ a.mem.slice a.gptr n := by
      rw [Mem.slice_add, Nat.zero_add]
    rw [htake]
    show a.mem.slice 0 (a.gptr + n) <:+ _
    rw [hslice]
    obtain ⟨older, ho⟩ := hbehind hne
    exact ⟨older, by rw [← ho, List.append_assoc]⟩
  · rw [hu, List.append_assoc, List.append_assoc, List.take_append_drop, ← List.append_assoc]
    exact hbytes

theorem Laid.underflow (h : Laid base s held) :
    (underflow K s).Sat (fun v s' => Laid base s' held ∧ (v ≠ eofValue → s'.obj.unread ≠ []))
      (fun _ s' => Laid base s' held) := by
  obtain ⟨a, ha, -, -⟩ := h.area
  simp only [Sockbuf.underflow, Prog.bind_apply, Prog.get_apply, Outcome.andThen_ret, ha, Prog.ite_apply]
  split
  · rename_i hlt
    refine ⟨h, fun _ => ?_⟩
    rw [unread_cons ha hlt]
    exact List.cons_ne_nil _ _
  · rename_i hge
    have hempty : s.obj.unread = [] := (unread_nil_iff ha).mpr hge
    have quiet : ∀ {s'}, Given s s' [] → Laid base s' held := fun hg =>
      h.same (by rw [hg.obj]) (by rw [hg.bytes, List.append_nil])
    refine (read_sat s.obj.rep.gend s).andThen (fun bs s₁ h₁ => ?_) fun _ _ hg => quiet hg
    cases bs with
    | nil => exact ⟨quiet h₁.1, fun hv => absurd rfl hv⟩
    | cons c l =>
        refine ⟨h.refill hempty h₁.1, fun _ => ?_⟩
        have ha₁ : s₁.obj.getArea = some a := by rw [h₁.1.obj, ha]
        show (s₁.obj.onGet fun a => a.refill (c :: l)).unread ≠ []
        rw [unread_refill ha₁]
        exact List.cons_ne_nil c l

theorem Laid.uflow (h : Laid base s held) :
    (uflow K s).Sat (fun _ s' => ∃ held', Laid base s' held') (fun _ s' => ∃ held', Laid base s' held') := by
  refine h.underflow.andThen ?_ fun _ _ h' => ⟨held, h'⟩
  rintro v s₁ ⟨h₁, hne⟩
  rw [Prog.ite_apply]
  split
  · exact ⟨held, h₁⟩
  · rename_i hv
    exact ⟨_, h₁.gbump (n := 1) (List.length_pos_of_ne_nil (hne hv))⟩

theorem sbumpcs_laid (n : Nat) (t : Getting κ) (h : ∃ held, Laid base t.proc held) :
    (sbumpcs K n t).Sat (fun _ t' => ∃ held, Laid base t'.proc held)
      (fun _ t' => ∃ held, Laid base t'.proc held) := by
  induction n generalizing t with
  | zero => exact h
  | succ n ih =>
      obtain ⟨held, h⟩ := h
      rw [sbumpcs, Prog.bind_apply, sbumpc_eq]
      refine (within_sat h.uflow).andThen ?_ fun _ _ h' => h'.1
      rintro v t₁ ⟨h₁, -⟩
      rw [Prog.ite_apply]
      split
      · exact h₁
      · rw [Prog.bind_apply, Prog.modify_apply, Outcome.andThen_ret, Prog.bind_apply]
        refine (ih { t₁ with dst := t₁.dst ++ [UInt8.ofInt v] } h₁).andThen ?_ ?_
        · exact fun _ _ h' => h'
        · exact fun _ _ h' => h'

/-- **Gets** keep the invariant. -/
theorem Laid.gets {t : Getting κ} (h : Laid base t.proc held) (op : GetOp) :
    (op.exec K t).Sat (fun _ t' => ∃ held', Laid base t'.proc held')
      (fun _ t' => ∃ held', Laid base t'.proc held') := by
  have peek := (within_sat (t := t) (h.underflow (K := K))).mono
    (fun _ _ h' => Exists.intro held h'.1.1) fun _ _ h' => Exists.intro held h'.1
  have bump := (within_sat (t := t) (h.uflow (K := K))).mono (fun _ _ h' => h'.1) fun _ _ h' => h'.1
  cases op with
  | sgetc => rw [GetOp.exec, sgetc_eq]; exact peek
  | underflow => exact peek
  | sbumpc => rw [GetOp.exec, sbumpc_eq]; exact bump
  | uflow => exact bump
  | sgetn n =>
      rw [GetOp.exec, Prog.map_apply, (xsgetn_bytewise K n t).1]
      exact (sbumpcs_laid n t ⟨held, h⟩).andThen (fun _ _ h' => h') fun _ _ h' => h'
  | recvtimeout wp => exact ⟨held, h.same rfl rfl⟩
  | oob b => exact ⟨held, h.same rfl rfl⟩

/-! ### Put-backs -/

theorem unread_gback {b : Sockbuf} {a : GetArea} (ha : b.getArea = some a) (h0 : 0 < a.gptr)
    (hle : a.gptr ≤ a.egptr) :
    (b.onGet fun a => a.gback).unread = a.mem (a.gptr - 1) :: b.unread := by
  rw [unread_eq ha]
  simp only [unread, onGet, ha, Option.map_some, GetArea.gback]
  obtain ⟨d, hd⟩ : ∃ d, a.egptr - (a.gptr - 1) = d + 1 := ⟨a.egptr - a.gptr, by omega⟩
  rw [hd, Mem.slice_succ, show a.gptr - 1 + 1 = a.gptr by omega, show a.egptr - a.gptr = d by omega]

/-- The last byte held is the one behind `gptr ()`. -/
theorem Laid.gback (h : Laid base s held) {a : GetArea} (ha : s.obj.getArea = some a) (h0 : 0 < a.gptr)
    (hne : received s ≠ base) : ∃ held', held = held' ++ [a.mem (a.gptr - 1)] ∧
      Laid base (s.onObj (onGet fun a => a.gback)) held' := by
  obtain ⟨⟨a', ha', hle, hbehind⟩, hbytes⟩ := h
  obtain rfl : a = a' := by
    rw [ha] at ha'
    exact Option.some.inj ha'
  obtain ⟨older, ho⟩ := hbehind hne
  have hlast : a.mem.slice 0 a.gptr = a.mem.slice 0 (a.gptr - 1) ++ [a.mem (a.gptr - 1)] := by
    conv_lhs => rw [show a.gptr = a.gptr - 1 + 1 by omega, Mem.slice_add, Nat.zero_add]
    rfl
  rw [hlast, ← List.append_assoc] at ho
  refine ⟨_, ho.symm, ⟨⟨a.gback, ?_, Nat.le_trans (Nat.sub_le _ _) hle, fun _ => ⟨older, rfl⟩⟩, ?_⟩⟩
  · simp only [Proc.onObj, onGet, ha, Option.map_some]
  · show received s = _ ++ (s.obj.onGet fun a => a.gback).unread
    rw [unread_gback ha h0 hle, hbytes, ← ho]
    simp only [List.append_assoc, List.singleton_append]

/-- With nothing received nothing is held. -/
theorem Laid.held_nil (h : Laid base s held) (heq : received s = base) : held = [] := by
  have hb := h.bytes
  rw [heq, List.append_assoc, List.self_eq_append_right, List.append_eq_nil_iff] at hb
  exact hb.1

/-- **`sungetc`** keeps the invariant where a byte has been received, and only there, if it finds one to
put back. -/
theorem Laid.sungetc {t : Getting κ} (h : Laid base t.proc held) :
    ∃ r t', (SockOp.exec K .sungetc t).result = some (r, t') ∧
      (FilledFirst base .sungetc t → ∃ held', SockOp.sungetc.Enters t r t' held held' ∧
        Laid base t'.proc held') ∧
      ∀ held', SockOp.sungetc.Enters t r t' held held' → FilledFirst base .sungetc t := by
  obtain ⟨a, ha, hle, -⟩ := h.area
  by_cases h0 : 0 < a.gptr
  · have hputs : SockOp.sungetc.PutsBack t.proc.obj := ⟨a, ha, h0⟩
    refine ⟨.ok ((a.mem (a.gptr - 1)).toNat : Int),
      { t with proc := t.proc.onObj (onGet fun a => a.gback) }, ?_, fun hC => ?_, ?_⟩
    · simp only [SockOp.exec, within, Prog.zoom_apply, sungetc_eq, ha, h0, if_true]
      rfl
    · obtain ⟨held', heq, h'⟩ := h.gback ha h0 (hC hputs)
      exact ⟨held', .inr ⟨_, rfl, heq, rfl, unread_gback ha h0 hle⟩, h'⟩
    · rintro held' (⟨hr, -⟩ | ⟨c, -, heq, -⟩) - hbase
      · exact byte_ne_eof _ (Except.ok.inj hr)
      · rw [h.held_nil hbase] at heq
        exact List.cons_ne_nil c [] (List.append_eq_nil_iff.mp heq.symm).2
  · have hputs : ¬ SockOp.sungetc.PutsBack t.proc.obj := by
      rintro ⟨a', ha', h0'⟩
      rw [ha] at ha'
      exact h0 (Option.some.inj ha' ▸ h0')
    refine ⟨.ok eofValue, t, ?_, fun _ => ⟨held, .inl ⟨rfl, rfl, rfl⟩, h⟩, fun _ _ hp => absurd hp hputs⟩
    simp only [SockOp.exec, within, Prog.zoom_apply, sungetc_eq, ha, h0, if_false]
    rfl

theorem Laid.sputbackc {t : Getting κ} (h : Laid base t.proc held) (c : Byte) :
    ∃ r t', (SockOp.exec K (.sputbackc c) t).result = some (r, t') ∧
      (FilledFirst base (.sputbackc c) t → ∃ held', (SockOp.sputbackc c).Enters t r t' held held' ∧
        Laid base t'.proc held') ∧
      ∀ held', (SockOp.sputbackc c).Enters t r t' held held' → FilledFirst base (.sputbackc c) t := by
  by_cases hputs : (SockOp.sputbackc c).PutsBack t.proc.obj
  · have hunget : SockOp.sungetc.PutsBack t.proc.obj := by
      obtain ⟨a, ha, h0, -⟩ := hputs
      exact ⟨a, ha, h0⟩
    obtain ⟨r, t', hres, hsuff, hnec⟩ := h.sungetc (K := K)
    refine ⟨r, t', ?_, fun hC => hsuff fun _ => hC hputs, fun held' he _ => hnec held' he hunget⟩
    rw [← hres, SockOp.exec, SockOp.exec, within, within, Prog.zoom_apply, Prog.zoom_apply,
      sputbackc_eq, if_pos (by exact hputs)]
  · refine ⟨.ok eofValue, t, ?_, fun _ => ⟨held, .inl ⟨rfl, rfl, rfl⟩, h⟩, fun _ _ hp => absurd hp hputs⟩
    rw [SockOp.exec, within, Prog.zoom_apply, sputbackc_eq, if_neg (by exact hputs)]
    rfl

/-! ### Runs -/

/-- What leaves the get side, and receives nothing, keeps the invariant. -/
theorem Laid.put {t t' : Getting κ} (h : Laid base t.proc held) (op : PutOp) {r : Except Thrown Int}
    (hres : (SockOp.exec K (.put op) t).result = some (r, t')) : Laid base t'.proc held := by
  by_cases hop : (SockOp.put op).puts = true
  · obtain ⟨⟨hget, hrecv⟩, -⟩ := (exec_puts_frame (putFrame_received K) hop t).result hres
    have hsock := (op.exec_frame t.proc).result (within_result hres).1
    exact h.same hget (by rw [received, received, hsock.sock, hrecv])
  · cases op with
    | sendtimeout wp =>
        cases hres
        exact h.same rfl rfl
    | sputc _ | overflow _ | sputn _ | sync => exact absurd rfl hop

/-- `shutdown (shut_write)` leaves the get side. -/
theorem Laid.shut_write {t t' : Getting κ} (h : Laid base t.proc held) {r : Except Thrown Int}
    (hres : (SockOp.exec K (.shutdown .shut_write) t).result = some (r, t')) : Laid base t'.proc held := by
  obtain ⟨r₀, hcame, -⟩ := Prog.map_result hres
  have hc := (shut_write_leaves t.proc).result (within_result hcame).1
  refine h.same (by rw [hc.obj]; rfl) ?_
  rw [received, received, hc.receivedOn, hc.obj]
  rfl

/-- **One operation** of a session whose get side stays open. -/
theorem laid_step (op : SockOp) (t : Getting κ) (held : List Byte) (hop : op.KeepsOpen)
    (h : Reached K t.proc.obj ∧ Laid base t.proc held) :
    ∃ r t', (op.exec K t).result = some (r, t') ∧
      (FilledFirst base op t → ∃ held', op.Enters t r t' held held' ∧
        Reached K t'.proc.obj ∧ Laid base t'.proc held') ∧
      ∀ held', op.Enters t r t' held held' → FilledFirst base op t := by
  obtain ⟨hreached, h⟩ := h
  obtain ⟨r, t', hres⟩ := hreached.exec_ends t.proc.sys t.dst op
  have hreached' := Reached.step hreached hres
  refine ⟨r, t', hres, ?_⟩
  suffices hstep : (FilledFirst base op t → ∃ held', op.Enters t r t' held held' ∧ Laid base t'.proc held') ∧
      ∀ held', op.Enters t r t' held held' → FilledFirst base op t by
    refine ⟨fun hC => ?_, hstep.2⟩
    obtain ⟨held', he, h'⟩ := hstep.1 hC
    exact ⟨held', he, hreached', h'⟩
  cases op with
  | sungetc =>
      obtain ⟨r₁, t₁, hres₁, hstep⟩ := h.sungetc (K := K)
      cases hres.symm.trans hres₁
      exact hstep
  | sputbackc c =>
      obtain ⟨r₁, t₁, hres₁, hstep⟩ := h.sputbackc (K := K) c
      cases hres.symm.trans hres₁
      exact hstep
  | get g =>
      refine ⟨fun _ => ?_, fun _ _ hp => hp.elim⟩
      have hlaid : ∃ held', Laid base t'.proc held' := by
        rcases (h.gets g).result hres with ⟨v, -, h'⟩ | ⟨e, -, h'⟩
        · exact h'
        · exact h'
      have hgives : ∃ xs, g.Gives t r t' xs ∧ GetOp.Balanced t' (base ++ held ++ xs) := by
        rcases (GetOp.posts_exec K g t (base ++ held) h.accounted).result hres with
          ⟨v, rfl, hx⟩ | ⟨e, rfl, hx⟩
        · exact hx
        · exact hx
      obtain ⟨held', h'⟩ := hlaid
      obtain ⟨xs, hg, hb⟩ := hgives
      rw [List.append_assoc] at hb
      -- what is laid out behind `base` is told by the bytes received, so the get has given `xs`
      obtain rfl := Accounted.unique h'.accounted hb
      exact ⟨_, ⟨xs, hg, rfl⟩, h'⟩
  | put p => exact ⟨fun _ => ⟨held, rfl, h.put p hres⟩, fun _ _ hp => hp.elim⟩
  | shutdown sh =>
      cases sh with
      | shut_read => exact absurd rfl hop.1
      | shut_write => exact ⟨fun _ => ⟨held, rfl, h.shut_write hres⟩, fun _ _ hp => hp.elim⟩
      | shut_readwrite => exact absurd rfl hop.2

/-- **Put-back.**  A session on a sockbuf as constructed, whose get side stays open, with any kernel: the
bytes of every get have been received, and every byte put back is one the caller has been given and not
put back since, exactly when no put-back finds a byte behind `gptr ()` before one has been received. -/
theorem putback_received_iff (K : Kernel κ) (B : ℕ+) (sd : Int) (gbuf pbuf : Mem Byte) (y : Sys κ)
    (ops : List SockOp) (hops : ∀ op ∈ ops, op.KeepsOpen) :
    Audited (Accounted (receivedOn sd y.trace)) SockOp.Enters ⟨⟨ofDesc B sd gbuf pbuf, y⟩, []⟩ [] ops
        (session (SockOp.exec K) ops ⟨⟨ofDesc B sd gbuf pbuf, y⟩, []⟩) ↔
      Allowed (SockOp.exec K) (FilledFirst (receivedOn sd y.trace)) ops
        ⟨⟨ofDesc B sd gbuf pbuf, y⟩, []⟩ :=
  audited_iff (J := fun (t : Getting κ) held => Reached K t.proc.obj ∧ Laid (receivedOn sd y.trace) t.proc held)
    (fun _ _ h => h.2.accounted) (fun _ _ _ => Accounted.unique) laid_step ops _ [] hops
    ⟨.ofDesc B sd gbuf pbuf, laid_ofDesc B sd gbuf pbuf y⟩

/-- A byte put back after it has been read. -/
theorem putback_received_iff_read :
    Audited (Accounted (κ := Peer 1024 Unit) (receivedOn 3 [])) SockOp.Enters
        ⟨⟨ofDesc 1024 3 (fun _ => 7) (fun _ => 0), ⟨⟨[⟨[104, 105], by decide⟩], ()⟩, 0, []⟩⟩, []⟩ []
        [.get .sbumpc, .sungetc]
        (session (SockOp.exec (Kernel.smooth 1024)) [.get .sbumpc, .sungetc]
          ⟨⟨ofDesc 1024 3 (fun _ => 7) (fun _ => 0), ⟨⟨[⟨[104, 105], by decide⟩], ()⟩, 0, []⟩⟩, []⟩) ↔
      Allowed (SockOp.exec (Kernel.smooth 1024)) (FilledFirst (receivedOn 3 [])) [.get .sbumpc, .sungetc]
        ⟨⟨ofDesc 1024 3 (fun _ => 7) (fun _ => 0), ⟨⟨[⟨[104, 105], by decide⟩], ()⟩, 0, []⟩⟩, []⟩ :=
  putback_received_iff (Kernel.smooth 1024) 1024 3 (fun _ => 7) (fun _ => 0)
    ⟨⟨[⟨[104, 105], by decide⟩], ()⟩, 0, []⟩ [.get .sbumpc, .sungetc] fun op hop => by
      rcases List.mem_pair.mp hop with rfl | rfl
      · exact ⟨SockOp.noConfusion, SockOp.noConfusion⟩
      · exact ⟨SockOp.noConfusion, SockOp.noConfusion⟩

/-- A put-back on a fresh object: it does not fail, and the byte made readable is what the memory
happened to hold.  Nothing has been received. -/
theorem putback_uninitialised :
    ∃ t', (SockOp.exec (Kernel.smooth 1024) .sungetc
        ⟨⟨ofDesc 1024 3 (fun _ => 7) (fun _ => 0), ⟨⟨[], ()⟩, 0, []⟩⟩, []⟩) = .ret 7 t' ∧
      t'.proc.obj.unread = [7] ∧ received t'.proc = [] :=
  ⟨_, rfl, rfl, rfl⟩

end Sockbuf

end Socketpp
