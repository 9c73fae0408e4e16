import Socketpp.Filelikebuf.Agreement
import Socketpp.Sockbuf.Frame

/-!
# Filelikebuf — where it parts from a sockbuf

A step that drifts shows different things on the two sides, whatever the kernel answers later:

* once a `::write` has been accepted, `epptr ()` of the filelikebuf lies before its buffer
  (`Lost`), and no put moves it back;
* the first `::read` of the step asks for another count, and stays in the list of calls.

So the runs agree exactly as long as no step drifts (`behaves_iff`).
-/

namespace Socketpp
open Lib

variable {κ : Type} {K : Kernel κ}

theorem Kernel.not_accepts_nil (k : κ) (fd : Int) : ¬ K.Accepts k fd [] := by
  unfold Kernel.Accepts
  cases (K.write k fd []).1 with
  | accepted n pos le => exact absurd pos (Nat.not_lt_of_ge le)
  | failed e => exact id

namespace Filelikebuf

/-! ### Output -/

/-- `epptr ()` lies before the buffer. -/
def Lost (b : Filelikebuf) : Prop := ∃ q, b.putArea = some q ∧ q.epptr < 0

theorem Lost.onPut {b : Filelikebuf} (h : b.Lost) {f : FilePutArea → FilePutArea}
    (hf : ∀ q, (f q).epptr = q.epptr) : (b.onPut f).Lost := by
  obtain ⟨q, hq, hneg⟩ := h
  exact ⟨f q, by rw [Filelikebuf.onPut, hq, Option.map_some], by rwa [hf]⟩

/-- The end taken from the shared record, where that is null. -/
theorem lost_onPut {b : Filelikebuf} {q : FilePutArea} (hq : b.putArea = some q)
    (haddr : 0 < q.pbase) {f : FilePutArea → FilePutArea}
    (hf : (f q).epptr = (nullptr : Int) - q.pbase) : (b.onPut f).Lost := by
  refine ⟨f q, by rw [onPut, hq, Option.map_some], ?_⟩
  rw [hf, nullptr]
  omega

/-- What a loop of `write` leaves and throws, from `wlen` bytes on. -/
theorem writeLoop_sat : ∀ (depth : Nat) (rest : List Byte) (wlen : Nat) (t : Proc Filelikebuf κ),
    rest.length ≤ depth → (writeLoop K depth rest wlen t).Sat (fun _ t' => t'.obj = t.obj)
      (fun e t' => (∃ w, wlen ≤ w ∧ e = .int w) ∧ t'.obj = t.obj) := by
  intro depth
  induction depth with
  | zero =>
      intro rest wlen t h
      rw [List.length_eq_zero_iff.mp (Nat.le_zero.mp h), writeLoop]
      exact rfl
  | succ depth ih =>
      intro rest wlen t h
      cases rest with
      | nil => exact rfl
      | cons b l =>
          simp only [writeLoop, Prog.bind_apply, Prog.get_apply, Outcome.andThen_ret, call,
            Prog.zoom_apply, Sys.write]
          cases K.write t.sys.kern t.obj.rep.file (b :: l) with
          | mk r k =>
              cases r with
              | failed e => exact ⟨⟨wlen, Nat.le_refl _, rfl⟩, rfl⟩
              | accepted n pos le =>
                  refine (ih _ (wlen + n) _ ?_).mono (fun _ _ h => h) ?_
                  · rw [List.length_drop]
                    omega
                  · rintro e t' ⟨⟨w, hw, rfl⟩, hobj⟩
                    exact ⟨⟨w, by omega, rfl⟩, hobj⟩

/-- **`sync`** loses `epptr ()` when its first `::write` is accepted, whatever comes after it. -/
theorem sync_lost {t : Proc Filelikebuf κ} {q : FilePutArea} (hq : t.obj.putArea = some q)
    (hle : (q.pptr : Int) ≤ q.epptr) (hpend : t.obj.rep.pend = nullptr) (haddr : 0 < q.pbase)
    (hK : K.Accepts t.sys.kern t.obj.rep.file (q.mem.slice 0 q.pptr)) :
    (sync K t).Leaves fun t' => t'.obj.Lost := by
  have hpos : 0 < q.pptr := by
    refine Nat.pos_of_ne_zero fun h0 => ?_
    rw [h0, Mem.slice_zero] at hK
    exact Kernel.not_accepts_nil _ _ hK
  -- the first `::write` was accepted, so a `write` that throws has got somewhere
  have hwrite : (write K (q.mem.slice 0 q.pptr) t).Sat (fun _ t' => t'.obj = t.obj)
      (fun e t' => (∃ w, 0 < w ∧ e = .int w) ∧ t'.obj = t.obj) := by
    obtain ⟨n, hn⟩ := Nat.exists_eq_succ_of_ne_zero (Nat.pos_iff_ne_zero.mp hpos)
    rw [hn, Mem.slice_succ] at hK ⊢
    unfold Kernel.Accepts at hK
    rw [write, List.length_cons]
    simp only [writeLoop, Prog.bind_apply, Prog.get_apply, Outcome.andThen_ret, call,
      Prog.zoom_apply, Sys.write]
    cases hw : K.write t.sys.kern t.obj.rep.file (q.mem 0 :: q.mem.slice (0 + 1) n) with
    | mk r k =>
        cases r with
        | failed e => rw [hw] at hK; exact hK.elim
        | accepted m pos le =>
            refine (writeLoop_sat _ _ (0 + m) _ ?_).mono (fun _ _ h => h) ?_
            · rw [List.length_drop, List.length_cons]
              omega
            · rintro e t' ⟨⟨w, hmw, rfl⟩, hobj⟩
              exact ⟨⟨w, by omega, rfl⟩, hobj⟩
  simp only [sync, Prog.bind_apply, Prog.get_apply, Outcome.andThen_ret, hq, Prog.ite_apply,
    if_pos (And.intro hpos hle), Prog.tryCatch_apply]
  cases hr : write K (q.mem.slice 0 q.pptr) t with
  | ret n t' =>
      rw [hr] at hwrite
      obtain ⟨obj, y⟩ := t'
      obtain rfl : obj = t.obj := hwrite
      exact lost_onPut hq haddr (by rw [hpend]; rfl)
  | thrown e t' =>
      rw [hr] at hwrite
      obtain ⟨obj, y⟩ := t'
      obtain ⟨⟨w, hw, rfl⟩, rfl : obj = t.obj⟩ := hwrite
      show (if w = 0 then t.obj else t.obj.onPut fun p => p.keepUnwritten w t.obj.rep.pend).Lost
      rw [if_neg (Nat.pos_iff_ne_zero.mp hw)]
      exact lost_onPut hq haddr (by rw [hpend]; rfl)
  | spin => trivial

/-- With `epptr ()` lost, `sync` finds nothing to flush. -/
theorem sync_of_lost {t : Proc Filelikebuf κ} (h : t.obj.Lost) : sync K t = .ret 0 t := by
  obtain ⟨q, hq, hneg⟩ := h
  have hno : ¬ (0 < q.pptr ∧ (q.pptr : Int) ≤ q.epptr) := fun h => by omega
  simp only [sync, Prog.bind_apply, Prog.get_apply, Outcome.andThen_ret, hq, Prog.ite_apply,
    if_neg hno, Prog.pure_apply]

theorem overflow_eof {t : Proc Filelikebuf κ} {q : FilePutArea} (hq : t.obj.putArea = some q) :
    overflow K eofValue t = sync K t := by
  simp only [overflow, Prog.bind_apply, Prog.get_apply, Outcome.andThen_ret, hq, if_true]

/-- **`xsputn`** does not find `epptr ()` again. -/
theorem xsputnRec_lost : ∀ (depth : Nat) (s : List Byte) (t : Proc Filelikebuf κ), t.obj.Lost →
    (xsputnRec K depth s t).Leaves fun t' => t'.obj.Lost := by
  intro depth
  induction depth with
  | zero => intro s t _; trivial
  | succ depth ih =>
      intro s t h
      have hfill : ∀ xs : List Byte, (t.obj.onPut fun p => p.fill xs).Lost :=
        fun xs => h.onPut fun _ => rfl
      simp only [xsputnRec, Prog.bind_apply, Prog.get_apply, Outcome.andThen_ret, Prog.ite_apply,
        Prog.modify_apply]
      split
      · exact hfill s
      · split
        · trivial
        · have hl := hfill (s.take t.obj.room.toNat)
          obtain ⟨q, hq, -⟩ := id hl
          have hq' : (t.onObj (onPut fun p => p.fill (s.take t.obj.room.toNat))).obj.putArea = some q :=
            hq
          have hz : ¬ (0 : Int) = eofValue := by decide
          rw [overflow_eof hq', sync_of_lost hl, Outcome.andThen_ret, Prog.ite_apply, if_pos hz]
          exact Prog.leaves_map _ (ih _ _ hl)

section Alike

variable {B gaddr : Nat} {s : Proc Sockbuf κ}

theorem sync_lost_of_alike {t : Proc Filelikebuf κ} (h : Alike B gaddr s t)
    (hK : K.Accepts s.sys.kern s.obj.rep.sock s.obj.pending) :
    (sync K t).Leaves fun t' => t'.obj.Lost := by
  obtain ⟨p, q, hp, hq, hl⟩ := h.put
  have hfile : t.obj.rep.file = s.obj.rep.sock := by rw [h.rep]; rfl
  have hle : (q.pptr : Int) ≤ q.epptr := by
    rw [hl.pptr, hl.epptr]
    exact_mod_cast hl.inside
  refine sync_lost hq hle (by rw [h.rep]; rfl) hl.addr ?_
  rw [Sockbuf.pending_eq hp] at hK
  rw [hl.pptr, hl.bytes, h.sys, hfile]
  exact hK

/-- **A put whose first `::write` is accepted** loses `epptr ()`. -/
theorem put_lost {u : Getting κ} (h : Alike B gaddr s u.proc) (hB : B < 2 ^ 31) {op : StreamOp}
    (hK : K.Accepts s.sys.kern s.obj.rep.sock (op.offered s.obj)) :
    (op.onFilelikebuf K u).Leaves fun u' => u'.proc.obj.Lost := by
  obtain ⟨p, q, hp, hq, hl⟩ := h.put
  have hnil : ∀ {bs : List Byte}, K.Accepts s.sys.kern s.obj.rep.sock bs → bs ≠ [] := by
    rintro bs hbs rfl
    exact Kernel.not_accepts_nil _ _ hbs
  have seen : ∀ {α : Type} {m : FileM κ α}, ((m u.proc).Leaves fun t' => t'.obj.Lost) →
      (within m u).Leaves fun u' => u'.proc.obj.Lost := fun hm => by
    rw [within, Prog.zoom_apply, Outcome.leaves_mapState]
    exact hm
  cases op with
  | sputc c =>
      rw [StreamOp.offered] at hK
      by_cases hroom : s.obj.room = 0
      · rw [if_pos hroom] at hK
        have heq : (q.pptr : Int) = q.epptr := by
          have := hl.inside
          simp only [Sockbuf.room, hp] at hroom
          rw [hl.pptr, hl.epptr]
          omega
        refine seen ?_
        simp only [sputc, overflow, Prog.bind_apply, Prog.get_apply, Outcome.andThen_ret, hq,
          Prog.ite_apply, heq, lt_irrefl, if_false, if_neg (byte_ne_eof c), if_true]
        exact (sync_lost_of_alike h hK).andThen fun _ _ h => h.onPut fun _ => rfl
      · rw [if_neg hroom] at hK
        exact absurd rfl (hnil hK)
  | sputn bs =>
      rw [StreamOp.offered] at hK
      by_cases hfit : bs.length ≤ s.obj.room
      · rw [if_pos hfit] at hK
        exact absurd rfl (hnil hK)
      · rw [if_neg hfit, ← Sockbuf.pending_fill hp] at hK
        have htake : (bs.take s.obj.room).length ≤ s.obj.room := by
          rw [List.length_take]
          omega
        -- the area is filled up first, and its flush is the one that is accepted
        have h₁ := h.fill htake
        obtain ⟨-, q₁, -, hq₁, -⟩ := h₁.put
        rw [StreamOp.onFilelikebuf, Prog.map_apply]
        refine Prog.leaves_map _ (seen ?_)
        rw [xsputn, xsputnRec]
        simp only [Prog.bind_apply, Prog.get_apply, Outcome.andThen_ret, Prog.ite_apply, h.room hB,
          Int.ofNat_le, Int.toNat_natCast, Prog.modify_apply, if_neg hfit,
          if_neg (Int.not_lt.mpr (Int.natCast_nonneg s.obj.room)), overflow_eof hq₁]
        refine (sync_lost_of_alike h₁ hK).andThen fun v t' hlost => ?_
        rw [Prog.ite_apply]
        split
        · exact Prog.leaves_map _ (xsputnRec_lost _ _ t' hlost)
        · exact hlost
  | sync => exact seen (sync_lost_of_alike h hK)
  | sgetc => exact absurd rfl (hnil hK)
  | sbumpc => exact absurd rfl (hnil hK)
  | sgetn n => exact absurd rfl (hnil hK)

end Alike

end Filelikebuf

/-! ### Input -/

/-- No call is taken back. -/
def Onward {β : Type} (s s' : Proc β κ) : Prop := s.sys.trace <+: s'.sys.trace

/-- After `calls` came a `::read` of `n` bytes. -/
def AskedNext (calls : List Syscall) (n : Nat) (y : Sys κ) : Prop :=
  ∃ fd r, calls ++ [.read fd n r] <+: y.trace

theorem AskedNext.later {calls : List Syscall} {n : Nat} {y y' : Sys κ} (h : AskedNext calls n y)
    (ht : y.trace <+: y'.trace) : AskedNext calls n y' := by
  obtain ⟨fd, r, hp⟩ := h
  exact ⟨fd, r, hp.trans ht⟩

/-- The call after `calls` is the one there. -/
theorem AskedNext.unique {calls : List Syscall} {n n' : Nat} {y y' : Sys κ}
    (h : AskedNext calls n y) (h' : AskedNext calls n' y') (he : y.trace = y'.trace) : n = n' := by
  obtain ⟨fd, r, l, hl⟩ := h
  obtain ⟨fd', r', l', hl'⟩ := h'
  rw [← he, ← hl, List.append_assoc, List.append_assoc] at hl'
  have := List.append_cancel_left hl'
  simp only [List.singleton_append, List.cons.injEq, Syscall.read.injEq] at this
  exact this.1.2.1.symm

theorem onward_closed {β : Type} : Closed (Onward : Proc β κ → Proc β κ → Prop) where
  refl _ := List.prefix_rfl
  trans _ _ _ h h' := List.IsPrefix.trans h h'

/-- What has been asked stays asked. -/
theorem AskedNext.keeps {β α : Type} {calls : List Syscall} {n : Nat}
    {p : Prog Thrown (Proc β κ) α} (hp : Prog.Keeps Onward p) {s : Proc β κ}
    (h : AskedNext calls n s.sys) : (p s).Leaves fun s' => AskedNext calls n s'.sys :=
  (hp s).mono fun _ ht => h.later ht

theorem call_read {β : Type} (fd : Int) (n : Nat) (s : Proc β κ) :
    ∃ r y, (call (Sys.read K fd n) : Prog Thrown (Proc β κ) _) s = .ret r { s with sys := y } ∧
      y.trace = s.sys.trace ++ [.read fd n r] := by
  obtain ⟨r, y, hr, -, ht⟩ := Sys.read_spec K fd n s.sys
  exact ⟨r, y, by rw [call, Prog.zoom_apply, hr, Outcome.mapState_ret], ht⟩

theorem keeps_call_read {β : Type} (fd : Int) (n : Nat) :
    Prog.Keeps Onward (call (Sys.read K fd n) : Prog Thrown (Proc β κ) _) := by
  intro s
  obtain ⟨r, y, hr, ht⟩ := call_read (K := K) fd n s
  rw [hr]
  exact ⟨_, ht.symm⟩

namespace Sockbuf

theorem getFrame_onward (K : Kernel κ) : GetFrame K Onward where
  toClosed := onward_closed
  read s len := keeps_call_read _ len s
  selectRead _ _ := keeps_answer fun _ _ _ _ ht => ⟨_, ht.symm⟩
  sockatmark _ := keeps_answer fun _ _ _ _ ht => ⟨_, ht.symm⟩
  get _ _ := List.prefix_rfl

/-- **`underflow`** of an empty area asks for the whole of it. -/
theorem underflow_asks {B gaddr : Nat} {s : Proc Sockbuf κ} {t : Proc Filelikebuf κ}
    (h : Alike B gaddr s t) (he : s.obj.unread = []) :
    (underflow K s).Leaves fun s' => AskedNext s.sys.trace B s'.sys := by
  obtain ⟨g, hg⟩ := h.readable
  obtain ⟨r, y, hcall, ht⟩ := call_read (K := K) s.obj.rep.sock B s
  have hframe := getFrame_onward K
  have hasked : AskedNext s.sys.trace B y := ⟨_, r, [], by rw [List.append_nil, ht]⟩
  simp only [underflow, Prog.bind_apply, Prog.get_apply, Outcome.andThen_ret, hg, Prog.ite_apply,
    if_neg ((unread_nil_iff hg).mp he), read_blocking h.rtmo h.oob, h.gend, hcall]
  refine (hasked.keeps (keeps_checked hframe.toClosed _ r)).andThen fun bs s' h => ?_
  cases bs with
  | nil => exact h
  | cons b l => exact h.keeps (hframe.keeps_bind (keeps_onGet hframe _) fun _ => hframe.keeps_pure _)

theorem uflow_asks {B gaddr : Nat} {s : Proc Sockbuf κ} {t : Proc Filelikebuf κ}
    (h : Alike B gaddr s t) (he : s.obj.unread = []) :
    (uflow K s).Leaves fun s' => AskedNext s.sys.trace B s'.sys := by
  have hframe := getFrame_onward K
  refine (underflow_asks h he).andThen fun v s' h => h.keeps ?_
  refine Prog.Keeps.ite (hframe.keeps_pure _) ?_
  exact hframe.keeps_bind (keeps_onGet hframe _) fun _ => hframe.keeps_pure _

end Sockbuf

namespace Filelikebuf

theorem keeps_onGet (f : FileGetArea → FileGetArea) :
    Prog.Keeps Onward (modify (Proc.onObj (onGet f)) : FileM κ PUnit) :=
  Prog.Keeps.modify fun _ => List.prefix_rfl

theorem keeps_checkRval (rval : Int) : Prog.Keeps Onward (checkRval rval : FileM κ Int) := by
  refine onward_closed.keeps_bind onward_closed.keeps_get fun s => ?_
  exact Prog.Keeps.ite (onward_closed.keeps_throw _) (onward_closed.keeps_pure _)

theorem keeps_read (len : Int) : Prog.Keeps Onward (read K len) := by
  refine onward_closed.keeps_bind onward_closed.keeps_get fun s => ?_
  refine onward_closed.keeps_bind (keeps_call_read _ _) fun r => ?_
  exact onward_closed.keeps_bind (keeps_onGet _) fun _ => keeps_checkRval _

/-- What `underflow` does with the number of bytes read. -/
theorem keeps_refill (rlen : Int) : Prog.Keeps Onward (do
    if rlen = 0 then return eofValue
    else do
      modify (Proc.onObj (onGet fun a => a.setg rlen))
      return ((← get).obj.current).toNat : FileM κ Int) := by
  refine Prog.Keeps.ite (onward_closed.keeps_pure _) ?_
  refine onward_closed.keeps_bind (keeps_onGet _) fun _ => ?_
  exact onward_closed.keeps_bind onward_closed.keeps_get fun _ => onward_closed.keeps_pure _

theorem keeps_underflow : Prog.Keeps Onward (underflow K) := by
  refine onward_closed.keeps_bind onward_closed.keeps_get fun s => ?_
  cases s.obj.getArea with
  | none => exact onward_closed.keeps_pure _
  | some a =>
      refine Prog.Keeps.ite (onward_closed.keeps_pure _) ?_
      exact onward_closed.keeps_bind (keeps_read _) keeps_refill

/-- **`underflow`** of an empty area asks for what the null end makes of its address. -/
theorem underflow_asks {B gaddr : Nat} {s : Proc Sockbuf κ} {t : Proc Filelikebuf κ}
    (h : Alike B gaddr s t) (he : s.obj.unread = []) : (underflow K t).Leaves fun t' =>
      AskedNext s.sys.trace (asSize (asInt ((nullptr : Int) - gaddr))) t'.sys := by
  obtain ⟨g, f, hg, hf, hl⟩ := h.get
  have hempty : ¬ (f.gptr : Int) < f.egptr := by
    rw [hl.gptr, hl.egptr, Int.ofNat_lt]
    exact (Sockbuf.unread_nil_iff hg).mp he
  have hcount : asSize (asInt ((t.obj.rep.gend : Int) - f.eback)) =
      asSize (asInt ((nullptr : Int) - gaddr)) := by
    rw [h.rep, hl.addr]
    rfl
  generalize asSize (asInt ((nullptr : Int) - gaddr)) = n at hcount ⊢
  obtain ⟨r, y, hcall, ht⟩ := call_read (K := K) t.obj.rep.file n t
  have hasked : AskedNext s.sys.trace n y := ⟨_, r, [], by rw [List.append_nil, ht, h.sys]⟩
  simp only [underflow, Prog.bind_apply, Prog.get_apply, Outcome.andThen_ret, hf, Prog.ite_apply,
    if_neg hempty, read_eq hcount hcall]
  refine (AskedNext.keeps (keeps_checkRval _) ?_).andThen fun rlen t' h => h.keeps (keeps_refill rlen)
  exact hasked

theorem uflow_asks {B gaddr : Nat} {s : Proc Sockbuf κ} {t : Proc Filelikebuf κ}
    (h : Alike B gaddr s t) (he : s.obj.unread = []) : (uflow K t).Leaves fun t' =>
      AskedNext s.sys.trace (asSize (asInt ((nullptr : Int) - gaddr))) t'.sys := by
  refine (underflow_asks h he).andThen fun v t' h => h.keeps ?_
  refine Prog.Keeps.ite (onward_closed.keeps_pure _) ?_
  exact onward_closed.keeps_bind (keeps_onGet _) fun _ => onward_closed.keeps_pure _

theorem keeps_xsgetnRec : ∀ depth n : Nat,
    Prog.Keeps (fun u u' : Getting κ => Onward u.proc u'.proc) (xsgetnRec K depth n) := by
  have hclosed : Closed fun u u' : Getting κ => Onward u.proc u'.proc :=
    ⟨fun u => onward_closed.refl u.proc, fun u u₁ u' => onward_closed.trans u.proc u₁.proc u'.proc⟩
  intro depth
  induction depth with
  | zero => intro n; exact Prog.Keeps.spin
  | succ depth ih =>
      intro n
      have hcopy : ∀ k, Prog.Keeps (fun u u' : Getting κ => Onward u.proc u'.proc)
          (modify (copyOut k) : Prog Thrown (Getting κ) PUnit) := by
        refine fun k => Prog.Keeps.modify fun u => ?_
        rw [copyOut]
        split
        · exact onward_closed.refl _
        · exact List.prefix_rfl
      have hunder : Prog.Keeps (fun u u' : Getting κ => Onward u.proc u'.proc)
          (within (underflow K)) := keeps_underflow.zoom fun _ _ h => h
      refine hclosed.keeps_bind hclosed.keeps_get fun u => Prog.Keeps.ite ?_ (Prog.Keeps.ite ?_ ?_)
      · exact hclosed.keeps_bind (hcopy _) fun _ => hclosed.keeps_pure _
      · exact Prog.Keeps.spin
      · refine hclosed.keeps_bind (hcopy _) fun _ => hclosed.keeps_bind hunder fun v => ?_
        refine Prog.Keeps.ite ?_ (hclosed.keeps_pure _)
        exact hclosed.keeps_bind (ih _) fun _ => hclosed.keeps_pure _

end Filelikebuf

section Runs

variable {B gaddr : Nat} {t : Sockbuf.Getting κ} {u : Filelikebuf.Getting κ}

/-- What is unread is copied out first; then both areas are empty, and the calls are as before. -/
theorem AlikeTo.emptied (h : AlikeTo B gaddr t u) :
    AlikeTo B gaddr (Sockbuf.copyOut t.proc.obj.unread.length t)
        (Filelikebuf.copyOut t.proc.obj.unread.length u) ∧
      (Sockbuf.copyOut t.proc.obj.unread.length t).proc.obj.unread = [] ∧
      (Sockbuf.copyOut t.proc.obj.unread.length t).proc.sys = t.proc.sys := by
  obtain ⟨g, hg⟩ := h.proc.readable
  have hu := Sockbuf.unread_gbump hg (Nat.le_refl t.proc.obj.unread.length)
  rw [List.drop_length] at hu
  refine ⟨h.copyOut (Nat.le_refl _), ?_, ?_⟩
  · simp only [Sockbuf.copyOut, hg]
    exact hu
  · simp only [Sockbuf.copyOut, hg]
    rfl

/-- **A get that reads** asks for the whole area on the one side, and for what the null end makes
of its address on the other. -/
theorem StreamOp.refills_asks (h : AlikeTo B gaddr t u) (hB : B < 2 ^ 31) {op : StreamOp}
    (hr : op.Refills t.proc.obj) :
    ((op.onSockbuf K t).Leaves fun t' => AskedNext t.proc.sys.trace B t'.proc.sys) ∧
      (op.onFilelikebuf K u).Leaves fun u' =>
        AskedNext t.proc.sys.trace (asSize (asInt ((nullptr : Int) - gaddr))) u'.proc.sys := by
  cases op with
  | sputc c => exact hr.elim
  | sputn bs => exact hr.elim
  | sync => exact hr.elim
  | sgetc =>
      rw [onSockbuf, onFilelikebuf, Sockbuf.sgetc_eq, Filelikebuf.sgetc_eq, Sockbuf.within,
        Filelikebuf.within, Prog.zoom_apply, Prog.zoom_apply, Outcome.leaves_mapState,
        Outcome.leaves_mapState]
      exact ⟨Sockbuf.underflow_asks h.proc hr, Filelikebuf.underflow_asks h.proc hr⟩
  | sbumpc =>
      rw [onSockbuf, onFilelikebuf, Sockbuf.sbumpc_eq, Filelikebuf.sbumpc_eq, Sockbuf.within,
        Filelikebuf.within, Prog.zoom_apply, Prog.zoom_apply, Outcome.leaves_mapState,
        Outcome.leaves_mapState]
      exact ⟨Sockbuf.uflow_asks h.proc hr, Filelikebuf.uflow_asks h.proc hr⟩
  | sgetn n =>
      have hn : ¬ n ≤ t.proc.obj.unread.length := Nat.not_le.mpr hr
      -- what is unread is copied out first, and then `underflow` reads
      obtain ⟨h₁, he, hsys⟩ := h.emptied
      have hs := Sockbuf.underflow_asks (K := K) h₁.proc he
      have hf := Filelikebuf.underflow_asks (K := K) h₁.proc he
      rw [hsys] at hs hf
      rw [onSockbuf, onFilelikebuf, Prog.map_apply, Prog.map_apply]
      refine ⟨Prog.leaves_map _ ?_, Prog.leaves_map _ ?_⟩
      · rw [Sockbuf.xsgetn, Sockbuf.xsgetnRec]
        simp only [Prog.bind_apply, Prog.get_apply, Outcome.andThen_ret, Prog.ite_apply,
          Sockbuf.showmanyc_eq, if_neg hn, Prog.modify_apply, Sockbuf.within, Prog.zoom_apply]
        refine Outcome.Leaves.andThen ?_ fun v t' h' => ?_
        · exact Outcome.leaves_mapState.mpr hs
        rw [Prog.ite_apply]
        split
        · refine Prog.leaves_map _ ((Sockbuf.keeps_xsgetnRec (Sockbuf.getFrame_onward K) _ _ t').mono ?_)
          exact fun _ ht => h'.later ht
        · exact h'
      · rw [Filelikebuf.xsgetn, Filelikebuf.xsgetnRec]
        simp only [Prog.bind_apply, Prog.get_apply, Outcome.andThen_ret, Prog.ite_apply,
          h.proc.showmanyc hB, Int.ofNat_le, if_neg hn, Int.toNat_natCast, Prog.modify_apply,
          if_neg (Int.not_lt.mpr (Int.natCast_nonneg t.proc.obj.unread.length)),
          Filelikebuf.within, Prog.zoom_apply]
        refine Outcome.Leaves.andThen ?_ fun v u' h' => ?_
        · exact Outcome.leaves_mapState.mpr hf
        rw [Prog.ite_apply]
        split
        · refine Prog.leaves_map _ ((Filelikebuf.keeps_xsgetnRec _ _ u').mono ?_)
          exact fun _ ht => h'.later ht
        · exact h'

/-- **A step that drifts** does not show the same on both sides. -/
theorem StreamOp.drifts_shown (h : AlikeTo B gaddr t u) (hB : 0 < B) (hB' : B < 2 ^ 31)
    {op : StreamOp} (hd : op.Drifts K B gaddr t.proc) {r r' : Except Thrown Int}
    {t' : Sockbuf.Getting κ} {u' : Filelikebuf.Getting κ}
    (ho : (op.onSockbuf K t).result = some (r, t'))
    (ho' : (op.onFilelikebuf K u).result = some (r', u')) : t'.shown r ≠ u'.shown r' := by
  intro he
  rcases hd with hK | ⟨hr, hnull⟩
  · obtain ⟨q, hq, hneg⟩ := (Filelikebuf.put_lost h.proc hB' hK).result ho'
    have hput := congrArg (fun x => x.offsets.put) he
    simp only [Sockbuf.Getting.shown, Filelikebuf.Getting.shown, Sockbuf.offsets,
      Filelikebuf.offsets, hq, Option.map_some] at hput
    cases hp : t'.proc.obj.putArea with
    | none => rw [hp] at hput; cases hput
    | some p =>
        rw [hp, Option.map_some, Option.some.injEq, Prod.mk.injEq] at hput
        omega
  · obtain ⟨hs, hf⟩ := op.refills_asks (K := K) h hB' hr
    have hcalls : t'.proc.sys.trace = u'.proc.sys.trace := congrArg (fun x => x.calls) he
    have hcount := (hs.result ho).unique (hf.result ho') hcalls
    exact hnull ((asSize_null_eq_iff hB hB').mp hcount.symm)

/-- **The runs agree exactly if they stick.** -/
theorem agrees_iff (hB : 0 < B) (hB' : B < 2 ^ 31) :
    ∀ (ops : List StreamOp) {t : Sockbuf.Getting κ} {u : Filelikebuf.Getting κ},
      AlikeTo B gaddr t u → (Agrees K ops t u ↔ Sticks K B gaddr ops t) := by
  intro ops t u h
  refine ⟨fun ha => ?_, Sticks.agrees hB hB' ops h⟩
  induction ops generalizing t u with
  | nil => trivial
  | cons op ops ih =>
      obtain ⟨r, t', r', u', ho, ho', hshown, hrest⟩ := ha
      have hd : ¬ op.Drifts K B gaddr t.proc := fun hd => op.drifts_shown h hB hB' hd ho ho' hshown
      refine ⟨hd, fun r₁ t₁ ho₁ => ?_⟩
      obtain ⟨rfl, rfl⟩ := Prod.mk.inj (Option.some.inj (ho₁.symm.trans ho))
      obtain ⟨r₂, u₂, ho₂, hcases⟩ := (op.exec_beside hB hB' h hd).result ho
      obtain ⟨rfl, rfl⟩ := Prod.mk.inj (Option.some.inj (ho₂.symm.trans ho'))
      rcases hcases with ⟨-, -, -, -, -, h'⟩ | ⟨-, -, -, -, h'⟩
      · exact ih h' hrest
      · exact ih h' hrest

end Runs

namespace Filelikebuf

/-- The two objects as constructed, whatever the two allocations contain. -/
theorem ofDesc_alike (BUFSIZ gaddr paddr : ℕ+) (fd : Int) (y : Sys κ) (gbuf pbuf gbuf' pbuf' : Mem Byte) :
    AlikeTo BUFSIZ gaddr (Sockbuf.caller (Sockbuf.ofDesc BUFSIZ fd gbuf pbuf) y)
      (caller (ofDesc BUFSIZ fd gaddr paddr gbuf' pbuf') y) := by
  have hput : FilePutArea.Like BUFSIZ { pbase := paddr, mem := pbuf', pptr := 0, epptr := (BUFSIZ : Nat) }
      { mem := pbuf, pptr := 0, epptr := BUFSIZ } :=
    ⟨rfl, rfl, rfl, Nat.zero_le _, rfl, paddr.pos⟩
  have hget : FileGetArea.Like BUFSIZ gaddr
      { eback := gaddr, mem := gbuf', gptr := BUFSIZ, egptr := (BUFSIZ : Nat) }
      { mem := gbuf, gptr := BUFSIZ, egptr := BUFSIZ } := by
    refine ⟨rfl, rfl, ?_, Nat.le_refl _, rfl⟩
    rw [Nat.sub_self, Mem.slice_zero, Mem.slice_zero]
  exact ⟨⟨rfl, rfl, rfl, rfl, rfl, rfl, rfl, ⟨_, _, rfl, rfl, hput⟩, ⟨_, _, rfl, rfl, hget⟩⟩, rfl⟩

/-- **A filelikebuf behaves as a sockbuf** in the runs without a drifting step, and in no others.
The bound is that of the `int` which `BUFSIZ` is. -/
theorem behaves_iff (K : Kernel κ) (y : Sys κ) (fd : Int) (BUFSIZ gaddr paddr : ℕ+)
    (hint : (BUFSIZ : Nat) < 2 ^ 31) (gbuf pbuf gbuf' pbuf' : Mem Byte) (ops : List StreamOp) :
    Agrees K ops (Sockbuf.caller (Sockbuf.ofDesc BUFSIZ fd gbuf pbuf) y)
        (caller (ofDesc BUFSIZ fd gaddr paddr gbuf' pbuf') y) ↔
      Sticks K BUFSIZ gaddr ops (Sockbuf.caller (Sockbuf.ofDesc BUFSIZ fd gbuf pbuf) y) :=
  agrees_iff BUFSIZ.pos hint ops (ofDesc_alike BUFSIZ gaddr paddr fd y gbuf pbuf gbuf' pbuf')

/-- The kernel of a broken connection: `EPIPE` to every write. -/
def broken : Kernel (Peer 1024 Unit) := .feed 1024 fun _ _ => (.failed 32, ())

/-- No call made yet, and nothing to read. -/
def quiet : Sys (Peer 1024 Unit) := { kern := ⟨[], ()⟩, errno := 0, trace := [] }

/-- Both objects throw at the flush of a broken connection. -/
theorem behaves_iff_broken :
    Agrees broken [.sputc 97, .sync]
      (Sockbuf.caller (Sockbuf.ofDesc 8192 3 (fun _ => 0) fun _ => 0) quiet)
      (caller (ofDesc 8192 3 6291456 6299664 (fun _ => 0) fun _ => 0) quiet) := by
  refine (behaves_iff broken quiet 3 8192 6291456 6299664 (by decide) _ _ _ _ _).mpr ?_
  refine ⟨not_or.mpr ⟨id, fun h => h.1⟩, fun r t' h => ?_⟩
  cases h
  exact ⟨not_or.mpr ⟨id, fun h => h.1⟩, fun _ _ _ => trivial⟩

/-- **A flush that succeeds** leaves `epptr ()` of the filelikebuf at null. -/
theorem epptr_lost : ¬ Agrees (Kernel.smooth 1024) [.sputc 97, .sync]
    (Sockbuf.caller (Sockbuf.ofDesc 8192 3 (fun _ => 0) fun _ => 0) quiet)
    (caller (ofDesc 8192 3 6291456 6299664 (fun _ => 0) fun _ => 0) quiet) := by
  rintro ⟨r, t, r', u, ht, hu, -, r₁, t₁, r₁', u₁, ht₁, hu₁, hshown, -⟩
  cases ht
  cases hu
  cases ht₁
  cases hu₁
  have hput := congrArg (fun x => x.offsets.put) hshown
  cases hput

end Filelikebuf

end Socketpp
