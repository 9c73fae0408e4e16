import Socketpp.Lib.Beside
import Socketpp.Sockbuf.Frame

/-!
# Sockbuf — one side of two runs

The get functions look at the get area, the descriptor and the settings of their own direction, and
at what the kernel answers to their calls; the put functions likewise.  `GetAlike` and `PutAlike` say
that two states agree on that.  From such states the functions of the side end the same way, in such
states, where the kernel gives the same answers to both (`Kernel.ReadsAlike`, `Kernel.WritesAlike`); and
the functions of the other side change nothing of it.
-/

namespace Socketpp
open Lib

variable {κ : Type} {K : Kernel κ} {S : κ → κ → Prop}

/-! ### The same answers -/

/-- From `S`-related states the kernel gives the get functions the same answers, whatever else the
second run does on its put side. -/
structure Kernel.ReadsAlike (K : Kernel κ) (S : κ → κ → Prop) : Prop where
  read : ∀ {k k'}, S k k' → ∀ fd len,
    (K.read k' fd len).1 = (K.read k fd len).1 ∧ S (K.read k fd len).2 (K.read k' fd len).2
  selectRead : ∀ {k k'}, S k k' → ∀ fd sec, (K.selectRead k' fd sec).1 = (K.selectRead k fd sec).1 ∧
    S (K.selectRead k fd sec).2 (K.selectRead k' fd sec).2
  sockatmark : ∀ {k k'}, S k k' → ∀ fd,
    (K.sockatmark k' fd).1 = (K.sockatmark k fd).1 ∧ S (K.sockatmark k fd).2 (K.sockatmark k' fd).2
  write : ∀ {k k'}, S k k' → ∀ fd bs, S k (K.write k' fd bs).2
  selectWrite : ∀ {k k'}, S k k' → ∀ fd sec, S k (K.selectWrite k' fd sec).2
  shutdown : ∀ {k k'}, S k k' → ∀ fd,
    S (K.shutdown k fd .shut_write).2 (K.shutdown k' fd .shut_write).2

/-- From `S`-related states the kernel gives the put functions the same answers, whatever else the
second run does on its get side. -/
structure Kernel.WritesAlike (K : Kernel κ) (S : κ → κ → Prop) : Prop where
  write : ∀ {k k'}, S k k' → ∀ fd bs,
    (K.write k' fd bs).1 = (K.write k fd bs).1 ∧ S (K.write k fd bs).2 (K.write k' fd bs).2
  selectWrite : ∀ {k k'}, S k k' → ∀ fd sec,
    (K.selectWrite k' fd sec).1 = (K.selectWrite k fd sec).1 ∧
      S (K.selectWrite k fd sec).2 (K.selectWrite k' fd sec).2
  read : ∀ {k k'}, S k k' → ∀ fd len, S k (K.read k' fd len).2
  selectRead : ∀ {k k'}, S k k' → ∀ fd sec, S k (K.selectRead k' fd sec).2
  sockatmark : ∀ {k k'}, S k k' → ∀ fd, S k (K.sockatmark k' fd).2
  shutdown : ∀ {k k'}, S k k' → ∀ fd,
    S (K.shutdown k fd .shut_read).2 (K.shutdown k' fd .shut_read).2

namespace Sockbuf

/-! ### The get side of two runs -/

/-- The two states look the same to the get functions. -/
structure GetAlike (S : κ → κ → Prop) (s s' : Proc Sockbuf κ) : Prop where
  sock     : s'.obj.rep.sock = s.obj.rep.sock
  rtmo     : s'.obj.rep.rtmo = s.obj.rep.rtmo
  oob      : s'.obj.rep.oob = s.obj.rep.oob
  gend     : s'.obj.rep.gend = s.obj.rep.gend
  getArea  : s'.obj.getArea = s.obj.getArea
  sockname : s'.obj.sockname = s.obj.sockname
  received : ∀ fd, receivedOn fd s'.sys.trace = receivedOn fd s.sys.trace
  kern     : S s.sys.kern s'.sys.kern

/-- A call entered on both sides, which received the same. -/
theorem GetAlike.enter {s s' : Proc Sockbuf κ} {y y' : Sys κ} {c c' : Syscall} (h : GetAlike S s s')
    (ht : y.trace = s.sys.trace ++ [c]) (ht' : y'.trace = s'.sys.trace ++ [c'])
    (hc : ∀ fd, c'.receivedOn fd = c.receivedOn fd) (hk : S y.kern y'.kern) :
    GetAlike S { s with sys := y } { s' with sys := y' } := by
  refine { h with received := fun fd => ?_, kern := hk }
  show receivedOn fd y'.trace = receivedOn fd y.trace
  rw [ht, ht', receivedOn_append, receivedOn_append, h.received fd]
  simp only [receivedOn, List.flatMap_cons, List.flatMap_nil, hc]

theorem GetAlike.onGet {s s' : Proc Sockbuf κ} (h : GetAlike S s s') (f : GetArea → GetArea) :
    GetAlike S (s.onObj (onGet f)) (s'.onObj (onGet f)) :=
  { h with getArea := congrArg (Option.map f) h.getArea }

/-- A call that answers with a value, and the check of its result. -/
theorem getAlike_answer {α : Type} {a : κ → Except Int α × κ} {c : Option α → Syscall} {op : String}
    (ha : ∀ {k k'}, S k k' → (a k').1 = (a k).1 ∧ S (a k).2 (a k').2) :
    Prog.Respects (GetAlike S)
      (call (fun y => y.enterAnswer c (a y.kern)) >>= fun r => (checked op r : SockM κ α)) := by
  intro s s' h
  obtain ⟨hr, hk⟩ := ha h.kern
  show Outcome.Same (GetAlike S)
    (((s.sys.enterAnswer c (a s.sys.kern)).mapState fun y => { s with sys := y }).andThen
      fun r => checked op r)
    (((s'.sys.enterAnswer c (a s'.sys.kern)).mapState fun y => { s' with sys := y }).andThen
      fun r => checked op r)
  rcases h₁ : a s.sys.kern with ⟨r, k⟩
  rcases h₂ : a s'.sys.kern with ⟨r', k'⟩
  rw [h₁, h₂] at hr hk
  obtain rfl : r' = r := hr
  cases r' with
  | ok v => exact ⟨rfl, h.enter rfl rfl (fun fd => rfl) hk⟩
  | error n =>
      refine ⟨?_, h.enter rfl rfl (fun fd => rfl) hk⟩
      show Thrown.err n op s'.obj.sockname = .err n op s.obj.sockname
      rw [h.sockname]

theorem getAlike_awaitReadready (hK : K.ReadsAlike S) :
    Prog.Respects (GetAlike S) (awaitReadready K) := by
  refine .get_bind fun s s' h => ?_
  rw [h.rtmo, h.sockname]
  refine Prog.Respects.ite (.pure ()) (.bind ?_ fun n => .ite (.throw _) (.pure ())) s s' h
  refine .get_bind fun s s' h => ?_
  rw [h.sock]
  exact getAlike_answer (fun hS => hK.selectRead hS _ _) s s' h

theorem getAlike_checkOob (hK : K.ReadsAlike S) : Prog.Respects (GetAlike S) (checkOob K) := by
  refine .get_bind fun s s' h => ?_
  rw [h.oob]
  refine Prog.Respects.ite (.bind ?_ fun m => .ite (.throw _) (.pure ())) (.pure ()) s s' h
  refine .get_bind fun s s' h => ?_
  rw [h.sock]
  exact getAlike_answer (fun hS => hK.sockatmark hS _) s s' h

theorem getAlike_read (hK : K.ReadsAlike S) (len : Nat) :
    Prog.Respects (GetAlike S) (read K len) := by
  refine .bind (getAlike_awaitReadready hK) fun _ => .bind (getAlike_checkOob hK) fun _ => ?_
  refine .get_bind fun s s' h => ?_
  obtain ⟨hr, hk⟩ := hK.read h.kern s.obj.rep.sock len
  rw [h.sock]
  simp only [call, Prog.bind_apply, Prog.zoom_apply, Sys.read]
  rcases h₁ : K.read s.sys.kern s.obj.rep.sock len with ⟨r, k⟩
  rcases h₂ : K.read s'.sys.kern s.obj.rep.sock len with ⟨r', k'⟩
  rw [h₁, h₂] at hr hk
  obtain rfl : r' = r := hr
  cases r' with
  | data bs pos le => exact ⟨rfl, h.enter rfl rfl (fun fd => rfl) hk⟩
  | eof => exact ⟨rfl, h.enter rfl rfl (fun fd => rfl) hk⟩
  | failed n =>
      refine ⟨?_, h.enter rfl rfl (fun fd => rfl) hk⟩
      show Thrown.err n "sockbuf::read" s'.obj.sockname = .err n "sockbuf::read" s.obj.sockname
      rw [h.sockname]

theorem getAlike_onGet (f : GetArea → GetArea) :
    Prog.Respects (GetAlike S) (modify (Proc.onObj (onGet f)) : SockM κ PUnit) :=
  .modify fun _ _ h => h.onGet f

theorem getAlike_underflow (hK : K.ReadsAlike S) : Prog.Respects (GetAlike S) (underflow K) := by
  refine .get_bind fun s s' h => ?_
  rw [h.getArea, h.gend]
  cases s.obj.getArea with
  | none => exact Prog.Respects.pure _ s s' h
  | some a =>
      refine Prog.Respects.ite (.pure _) (.bind (getAlike_read hK _) fun bs => ?_) s s' h
      cases bs with
      | nil => exact .pure _
      | cons b bs => exact .bind (getAlike_onGet _) fun _ => .pure _

theorem getAlike_uflow (hK : K.ReadsAlike S) : Prog.Respects (GetAlike S) (uflow K) :=
  .bind (getAlike_underflow hK) fun _ => .ite (.pure _) (.bind (getAlike_onGet _) fun _ => .pure _)

theorem getAlike_sungetc : Prog.Respects (GetAlike S) (sungetc : SockM κ Int) := by
  refine .get_bind fun s s' h => ?_
  rw [h.getArea]
  cases s.obj.getArea with
  | none => exact Prog.Respects.pure _ s s' h
  | some a =>
      exact Prog.Respects.ite (.bind (getAlike_onGet _) fun _ => .pure _) (.pure _) s s' h

theorem getAlike_sputbackc (c : Byte) :
    Prog.Respects (GetAlike S) (sputbackc c : SockM κ Int) := by
  refine .get_bind fun s s' h => ?_
  rw [h.getArea]
  cases s.obj.getArea with
  | none => exact Prog.Respects.pure _ s s' h
  | some a =>
      exact Prog.Respects.ite (.bind (getAlike_onGet _) fun _ => .pure _) (.pure _) s s' h

/-- The same for a caller that has been given the same bytes. -/
def GettingAlike (S : κ → κ → Prop) (t t' : Getting κ) : Prop :=
  GetAlike S t.proc t'.proc ∧ t'.dst = t.dst

theorem gettingAlike_within {α : Type} {p : SockM κ α} (h : Prog.Respects (GetAlike S) p) :
    Prog.Respects (GettingAlike S) (within p) :=
  h.zoom (fun _ _ h => h.1) fun _ _ _ _ h h₁ => ⟨h₁, h.2⟩

theorem gettingAlike_copyOut (n : Nat) :
    Prog.Respects (GettingAlike S) (modify (copyOut n) : Prog Thrown (Getting κ) PUnit) := by
  refine .modify fun t t' h => ?_
  obtain ⟨h, hdst⟩ := h
  simp only [copyOut, h.getArea]
  cases t.proc.obj.getArea with
  | none => exact ⟨h, hdst⟩
  | some a => exact ⟨h.onGet _, by rw [hdst]⟩

theorem gettingAlike_xsgetnRec (hK : K.ReadsAlike S) : ∀ depth n : Nat,
    Prog.Respects (GettingAlike S) (xsgetnRec K depth n) := by
  intro depth
  induction depth with
  | zero => exact fun n => .spin
  | succ depth ih =>
      intro n
      refine .get_bind fun t t' h => ?_
      have hmany : t'.proc.obj.showmanyc = t.proc.obj.showmanyc := by
        rw [showmanyc, showmanyc, h.1.getArea]
      rw [hmany]
      refine Prog.Respects.ite (.bind (gettingAlike_copyOut _) fun _ => .pure _) ?_ t t' h
      refine .bind (gettingAlike_copyOut _) fun _ => ?_
      refine .bind (gettingAlike_within (getAlike_underflow hK)) fun v => ?_
      exact .ite (.bind (ih _) fun _ => .pure _) (.pure _)

/-! ### The put side of two runs -/

/-- The two states look the same to the put functions. -/
structure PutAlike (S : κ → κ → Prop) (s s' : Proc Sockbuf κ) : Prop where
  sock     : s'.obj.rep.sock = s.obj.rep.sock
  stmo     : s'.obj.rep.stmo = s.obj.rep.stmo
  pend     : s'.obj.rep.pend = s.obj.rep.pend
  putArea  : s'.obj.putArea = s.obj.putArea
  sockname : s'.obj.sockname = s.obj.sockname
  sent     : ∀ fd, sentOn fd s'.sys.trace = sentOn fd s.sys.trace
  kern     : S s.sys.kern s'.sys.kern

/-- A call entered on both sides, which sent the same. -/
theorem PutAlike.enter {s s' : Proc Sockbuf κ} {y y' : Sys κ} {c c' : Syscall} (h : PutAlike S s s')
    (ht : y.trace = s.sys.trace ++ [c]) (ht' : y'.trace = s'.sys.trace ++ [c'])
    (hc : ∀ fd, c'.sentOn fd = c.sentOn fd) (hk : S y.kern y'.kern) :
    PutAlike S { s with sys := y } { s' with sys := y' } := by
  refine { h with sent := fun fd => ?_, kern := hk }
  show sentOn fd y'.trace = sentOn fd y.trace
  rw [ht, ht', sentOn_append, sentOn_append, h.sent fd]
  simp only [sentOn, List.flatMap_cons, List.flatMap_nil, hc]

theorem PutAlike.onPut {s s' : Proc Sockbuf κ} (h : PutAlike S s s') (f : PutArea → PutArea) :
    PutAlike S (s.onObj (onPut f)) (s'.onObj (onPut f)) :=
  { h with putArea := congrArg (Option.map f) h.putArea }

theorem putAlike_onPut (f : PutArea → PutArea) :
    Prog.Respects (PutAlike S) (modify (Proc.onObj (onPut f)) : SockM κ PUnit) :=
  .modify fun _ _ h => h.onPut f

/-- What `write` throws: where it is the count of the bytes written, `errno` is that of the last
call. -/
def WriteThrown (S : κ → κ → Prop) (e : Thrown) (s : Proc Sockbuf κ) (e' : Thrown)
    (s' : Proc Sockbuf κ) : Prop :=
  e' = e ∧ PutAlike S s s' ∧ ∀ wlen, e = .int wlen → s'.sys.errno = s.sys.errno

theorem putAlike_writeLoop (hK : K.WritesAlike S) : ∀ (depth : Nat) (rest : List Byte) (wlen : Nat)
    (s s' : Proc Sockbuf κ), PutAlike S s s' →
    (writeLoop K depth rest wlen s).Beside (fun n s₁ n' s₁' => n' = n ∧ PutAlike S s₁ s₁')
      (WriteThrown S) (writeLoop K depth rest wlen s') := by
  intro depth
  induction depth with
  | zero =>
      intro rest wlen s s' h
      cases rest with
      | nil => exact ⟨rfl, h⟩
      | cons b l => trivial
  | succ depth ih =>
      intro rest wlen s s' h
      cases rest with
      | nil => exact ⟨rfl, h⟩
      | cons b l =>
          obtain ⟨hr, hk⟩ := hK.write h.kern s.obj.rep.sock (b :: l)
          simp only [writeLoop, Prog.bind_apply, Prog.get_apply, Outcome.andThen_ret, h.sock, call,
            Prog.zoom_apply, Sys.write]
          rcases h₁ : K.write s.sys.kern s.obj.rep.sock (b :: l) with ⟨r, k⟩
          rcases h₂ : K.write s'.sys.kern s.obj.rep.sock (b :: l) with ⟨r', k'⟩
          rw [h₁, h₂] at hr hk
          obtain rfl : r' = r := hr
          cases r' with
          | accepted n pos le => exact ih _ _ _ _ (h.enter rfl rfl (fun fd => rfl) hk)
          | failed n => exact ⟨rfl, h.enter rfl rfl (fun fd => rfl) hk, fun _ _ => rfl⟩

theorem putAlike_awaitWriteready (hK : K.WritesAlike S) (s s' : Proc Sockbuf κ)
    (h : PutAlike S s s') :
    (awaitWriteready K s).Beside (fun _ s₁ _ s₁' => PutAlike S s₁ s₁') (WriteThrown S)
      (awaitWriteready K s') := by
  simp only [awaitWriteready, Prog.bind_apply, Prog.get_apply, Outcome.andThen_ret, h.stmo,
    h.sockname, Prog.ite_apply]
  split
  · exact h
  · obtain ⟨hr, hk⟩ := hK.selectWrite h.kern s.obj.rep.sock s.obj.rep.stmo
    simp only [isWriteready, call, Sys.selectWrite, Prog.bind_apply, Prog.get_apply,
      Outcome.andThen_ret, Prog.zoom_apply, h.sock]
    rcases h₁ : K.selectWrite s.sys.kern s.obj.rep.sock s.obj.rep.stmo with ⟨r, k⟩
    rcases h₂ : K.selectWrite s'.sys.kern s.obj.rep.sock s.obj.rep.stmo with ⟨r', k'⟩
    rw [h₁, h₂] at hr hk
    obtain rfl : r' = r := hr
    cases r' with
    | ok n =>
        simp only [Sys.enterAnswer, Outcome.mapState_ret, Outcome.andThen_ret, checked,
          Prog.pure_apply, Prog.ite_apply]
        split
        · exact ⟨rfl, h.enter rfl rfl (fun fd => rfl) hk, fun _ hw => by cases hw⟩
        · exact h.enter rfl rfl (fun fd => rfl) hk
    | error n =>
        refine ⟨?_, h.enter rfl rfl (fun fd => rfl) hk, fun _ _ => rfl⟩
        show Thrown.err n "sockbuf::is_writeready" s'.obj.sockname = .err n _ s.obj.sockname
        rw [h.sockname]

theorem putAlike_syncCatch {e e' : Thrown} {s s' : Proc Sockbuf κ} (h : WriteThrown S e s e' s') :
    (syncCatch e s).Same (PutAlike S) (syncCatch e' s') := by
  obtain ⟨rfl, h, herrno⟩ := h
  cases e' with
  | err n op spec => exact ⟨rfl, h⟩
  | sockoob => exact ⟨rfl, h⟩
  | int wlen =>
      have hmoved : PutAlike S
          (s.onObj fun b => if wlen = 0 then b else b.onPut fun p => p.keepUnwritten wlen b.rep.pend)
          (s'.onObj fun b =>
            if wlen = 0 then b else b.onPut fun p => p.keepUnwritten wlen b.rep.pend) := by
        simp only [Proc.onObj, h.pend]
        by_cases h0 : wlen = 0
        · simp only [h0, if_true]
          exact h
        · simp only [h0, if_false]
          exact h.onPut _
      refine ⟨?_, hmoved⟩
      have hname := hmoved.sockname
      show Thrown.err s'.sys.errno "sockbuf::sync" (syncMessage _ wlen) =
        .err s.sys.errno "sockbuf::sync" (syncMessage _ wlen)
      rw [herrno wlen rfl, hname]

theorem putAlike_sync (hK : K.WritesAlike S) : Prog.Respects (PutAlike S) (sync K) := by
  refine .get_bind fun s s' h => ?_
  rw [h.putArea]
  cases s.obj.putArea with
  | none => exact Prog.Respects.pure _ s s' h
  | some p =>
      refine Prog.Respects.ite (Prog.Respects.bind ?_ fun _ => Prog.Respects.bind ?_ fun _ => .pure _)
        (.pure _) s s' h
      · intro s s' h
        have hwrite : (write K (p.mem.slice 0 p.pptr) s).Beside
            (fun n s₁ n' s₁' => n' = n ∧ PutAlike S s₁ s₁') (WriteThrown S)
            (write K (p.mem.slice 0 p.pptr) s') :=
          (putAlike_awaitWriteready hK s s' h).andThen
            (fun _ s₁ _ s₁' h₁ => putAlike_writeLoop hK _ _ _ s₁ s₁' h₁) fun _ _ _ _ h => h
        rw [Prog.tryCatch_apply, Prog.tryCatch_apply]
        exact hwrite.handle (fun _ _ _ _ h => h) fun _ _ _ _ h => putAlike_syncCatch h
      · refine .modify fun s s' h => ?_
        simp only [Proc.onObj, h.pend]
        exact h.onPut _

theorem putAlike_overflow (hK : K.WritesAlike S) (c : Int) :
    Prog.Respects (PutAlike S) (overflow K c) := by
  refine .get_bind fun s s' h => ?_
  rw [h.putArea]
  cases s.obj.putArea with
  | none => exact Prog.Respects.pure _ s s' h
  | some p =>
      have store : Prog.Respects (PutAlike S) (do
          modify (Proc.onObj (onPut fun p => p.putc (UInt8.ofInt c)))
          return c : SockM κ Int) := .bind (putAlike_onPut _) fun _ => .pure _
      refine Prog.Respects.ite (putAlike_sync hK) (Prog.Respects.ite ?_ ?_) s s' h
      · exact .bind (putAlike_sync hK) fun _ => store
      · exact .bind (.pure _) fun _ => store

theorem putAlike_sputc (hK : K.WritesAlike S) (c : Byte) :
    Prog.Respects (PutAlike S) (sputc K c) := by
  refine .get_bind fun s s' h => ?_
  rw [h.putArea]
  cases s.obj.putArea with
  | none => exact putAlike_overflow hK _ s s' h
  | some p =>
      exact Prog.Respects.ite (.bind (putAlike_onPut _) fun _ => .pure _) (putAlike_overflow hK _) s s' h

theorem putAlike_xsputnRec (hK : K.WritesAlike S) : ∀ (depth : Nat) (bs : List Byte),
    Prog.Respects (PutAlike S) (xsputnRec K depth bs) := by
  intro depth
  induction depth with
  | zero => exact fun bs => .spin
  | succ depth ih =>
      intro bs
      refine .get_bind fun s s' h => ?_
      have hroom : s'.obj.room = s.obj.room := by rw [room, room, h.putArea]
      rw [hroom]
      refine Prog.Respects.ite (.bind (putAlike_onPut _) fun _ => .pure _) ?_ s s' h
      refine .bind (putAlike_onPut _) fun _ => .bind (putAlike_overflow hK _) fun v => ?_
      exact .ite (.bind (ih _) fun _ => .pure _) (.pure _)

/-! ### The other side of the second run -/

/-- **The put functions** of the second run change nothing that the get functions look at. -/
theorem putFrame_getAlike (hK : K.ReadsAlike S) :
    PutFrame K fun s s' : Proc Sockbuf κ => ∀ s₀, GetAlike S s₀ s → GetAlike S s₀ s' where
  refl _ _ h := h
  trans _ _ _ h h' s₀ h₀ := h' s₀ (h s₀ h₀)
  write fd bs := keeps_writeCall fun s y r hk ht s₀ h => by
    refine { h with received := fun fd => ?_, kern := ?_ }
    · show receivedOn fd y.trace = _
      rw [ht, receivedOn_append, h.received fd]
      simp [receivedOn, Syscall.receivedOn]
    · show S _ y.kern
      rw [hk]
      exact hK.write h.kern fd bs
  selectWrite fd sec := keeps_answer fun s y r hk ht s₀ h => by
    refine { h with received := fun fd => ?_, kern := ?_ }
    · show receivedOn fd y.trace = _
      rw [ht, receivedOn_append, h.received fd]
      simp [receivedOn, Syscall.receivedOn]
    · show S _ y.kern
      rw [hk]
      exact hK.selectWrite h.kern fd sec
  put _ _ _ h := { h with }

/-- **The get functions** of the second run change nothing that the put functions look at. -/
theorem getFrame_putAlike (hK : K.WritesAlike S) :
    GetFrame K fun s s' : Proc Sockbuf κ => ∀ s₀, PutAlike S s₀ s → PutAlike S s₀ s' where
  refl _ _ h := h
  trans _ _ _ h h' s₀ h₀ := h' s₀ (h s₀ h₀)
  read s len := leaves_readCall
      (R := fun s s' => ∀ s₀, PutAlike S s₀ s → PutAlike S s₀ s') fun y r hk ht s₀ h => by
    refine { h with sent := fun fd => ?_, kern := ?_ }
    · show sentOn fd y.trace = _
      rw [ht, sentOn_append, h.sent fd]
      simp [sentOn, Syscall.sentOn]
    · show S _ y.kern
      rw [hk]
      exact hK.read h.kern _ len
  selectRead fd sec := keeps_answer fun s y r hk ht s₀ h => by
    refine { h with sent := fun fd => ?_, kern := ?_ }
    · show sentOn fd y.trace = _
      rw [ht, sentOn_append, h.sent fd]
      simp [sentOn, Syscall.sentOn]
    · show S _ y.kern
      rw [hk]
      exact hK.selectRead h.kern fd sec
  sockatmark fd := keeps_answer fun s y r hk ht s₀ h => by
    refine { h with sent := fun fd => ?_, kern := ?_ }
    · show sentOn fd y.trace = _
      rw [ht, sentOn_append, h.sent fd]
      simp [sentOn, Syscall.sentOn]
    · show S _ y.kern
      rw [hk]
      exact hK.sockatmark h.kern fd
  get _ _ _ h := { h with }

end Sockbuf

end Socketpp
