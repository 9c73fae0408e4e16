import Socketpp.Sockbuf.Model

/-!
# Sockbuf — frames

The put functions reach the kernel through `::write` and the wait for it and change the put area;
the get functions reach it through `::read`, the wait for it and the out-of-band mark, and change
the get area.  So a relation between the states before and after is kept by a put or get function
as soon as those calls and those changes keep it: `PutFrame` and `GetFrame` say that they do.
-/

namespace Socketpp
open Lib

/-- A relation that holds over any number of steps. -/
structure Closed {σ : Type} (R : σ → σ → Prop) : Prop where
  refl : ∀ s, R s s
  trans : ∀ s s₁ s', R s s₁ → R s₁ s' → R s s'

namespace Closed

variable {σ α γ : Type} {R : σ → σ → Prop}

theorem keeps_pure (h : Closed R) (a : α) : Prog.Keeps R (pure a : Prog Thrown σ α) :=
  Prog.Keeps.pure h.refl a

theorem keeps_get (h : Closed R) : Prog.Keeps R (get : Prog Thrown σ σ) := Prog.Keeps.get h.refl

theorem keeps_throw (h : Closed R) (e : Thrown) : Prog.Keeps R (throw e : Prog Thrown σ α) :=
  Prog.Keeps.throw h.refl e

theorem keeps_bind (h : Closed R) {x : Prog Thrown σ α} {f : α → Prog Thrown σ γ}
    (hx : Prog.Keeps R x) (hf : ∀ a, Prog.Keeps R (f a)) : Prog.Keeps R (x >>= f) :=
  Prog.Keeps.bind h.trans hx hf

end Closed

namespace Sockbuf

variable {κ : Type} {K : Kernel κ} {R : Proc Sockbuf κ → Proc Sockbuf κ → Prop}

/-- What the put functions do by themselves keeps `R`. -/
structure PutFrame (K : Kernel κ) (R : Proc Sockbuf κ → Proc Sockbuf κ → Prop) : Prop
    extends Closed R where
  write : ∀ fd bs, Prog.Keeps R (call (Sys.write K fd bs))
  selectWrite : ∀ fd sec, Prog.Keeps R (call (Sys.selectWrite K fd sec))
  put : ∀ (s : Proc Sockbuf κ) (p : Option PutArea), R s (s.onObj fun b => { b with putArea := p })

/-- The same for what the put functions write, which is written on the descriptor of the object. -/
structure OwnFrame (K : Kernel κ) (R : Proc Sockbuf κ → Proc Sockbuf κ → Prop) : Prop
    extends Closed R where
  write : ∀ (s : Proc Sockbuf κ) bs, (call (Sys.write K s.obj.rep.sock bs) s).Leaves (R s)
  selectWrite : ∀ fd sec, Prog.Keeps R (call (Sys.selectWrite K fd sec))
  put : ∀ (s : Proc Sockbuf κ) (p : Option PutArea), R s (s.onObj fun b => { b with putArea := p })

theorem PutFrame.own (h : PutFrame K R) : OwnFrame K R :=
  ⟨h.toClosed, fun s bs => h.write _ bs s, h.selectWrite, h.put⟩

/-- What the get functions do by themselves keeps `R`. -/
structure GetFrame (K : Kernel κ) (R : Proc Sockbuf κ → Proc Sockbuf κ → Prop) : Prop
    extends Closed R where
  read : ∀ (s : Proc Sockbuf κ) len, (call (Sys.read K s.obj.rep.sock len) s).Leaves (R s)
  selectRead : ∀ fd sec, Prog.Keeps R (call (Sys.selectRead K fd sec))
  sockatmark : ∀ fd, Prog.Keeps R (call (Sys.sockatmark K fd))
  get : ∀ (s : Proc Sockbuf κ) (g : Option GetArea), R s (s.onObj fun b => { b with getArea := g })

theorem keeps_checked (h : Closed R) {α : Type} (op : String) (a : Option α) :
    Prog.Keeps R (checked op a) := by
  cases a with
  | some a => exact h.keeps_pure a
  | none => exact h.keeps_bind h.keeps_get fun _ => h.keeps_throw _

/-! ### The put side -/

namespace OwnFrame

variable (h : OwnFrame K R)
include h

theorem onPut (f : Sockbuf → PutArea → PutArea) :
    Prog.Keeps R (modify (Proc.onObj fun b => b.onPut (f b)) : SockM κ PUnit) :=
  Prog.Keeps.modify fun s => h.put s _

theorem writeLoop : ∀ (depth : Nat) (rest : List Byte) (wlen : Nat),
    Prog.Keeps R (writeLoop K depth rest wlen) := by
  intro depth
  induction depth with
  | zero =>
      intro rest wlen
      cases rest with
      | nil => exact h.keeps_pure _
      | cons b l => exact Prog.Keeps.spin
  | succ depth ih =>
      intro rest wlen
      cases rest with
      | nil => exact h.keeps_pure _
      | cons b l =>
          refine Prog.Keeps.get_bind fun s => Prog.Keeps.bind_at h.trans (h.write s _) fun n => ?_
          cases n with
          | none => exact h.keeps_throw _
          | some n => exact ih _ _

theorem awaitWriteready : Prog.Keeps R (awaitWriteready K) := by
  refine h.keeps_bind h.keeps_get fun s => ?_
  refine Prog.Keeps.ite (h.keeps_pure _) (h.keeps_bind ?_ fun n => ?_)
  · refine h.keeps_bind h.keeps_get fun s => ?_
    exact h.keeps_bind (h.selectWrite _ _) fun n => keeps_checked h.toClosed _ n
  · exact Prog.Keeps.ite (h.keeps_throw _) (h.keeps_pure _)

theorem syncCatch (e : Thrown) : Prog.Keeps R (syncCatch e) := by
  cases e with
  | int wlen =>
      refine h.keeps_bind (Prog.Keeps.modify fun s => ?_) fun _ =>
        h.keeps_bind h.keeps_get fun s => h.keeps_throw _
      by_cases h0 : wlen = 0
      · simp only [h0, if_true]
        exact h.refl s
      · simp only [h0, if_false]
        exact h.put s _
  | err e op spec => exact h.keeps_throw _
  | sockoob => exact h.keeps_throw _

theorem sync : Prog.Keeps R (sync K) := by
  refine h.keeps_bind h.keeps_get fun s => ?_
  cases s.obj.putArea with
  | none => exact h.keeps_pure _
  | some p =>
      refine Prog.Keeps.ite (h.keeps_bind ?_ fun _ => ?_) (h.keeps_pure _)
      · refine Prog.Keeps.tryCatch h.trans ?_ fun e => h.syncCatch e
        exact h.keeps_bind h.awaitWriteready fun _ => h.writeLoop _ _ _
      · exact h.keeps_bind (h.onPut fun b p => p.setp b.rep.pend) fun _ => h.keeps_pure _

theorem overflow (c : Int) : Prog.Keeps R (overflow K c) := by
  refine h.keeps_bind h.keeps_get fun s => ?_
  cases s.obj.putArea with
  | none => exact h.keeps_pure _
  | some p =>
      have store : Prog.Keeps R (do
          modify (Proc.onObj (Sockbuf.onPut fun p => p.putc (UInt8.ofInt c)))
          return c : SockM κ Int) :=
        h.keeps_bind (h.onPut fun _ p => p.putc (UInt8.ofInt c)) fun _ => h.keeps_pure _
      refine Prog.Keeps.ite h.sync (Prog.Keeps.ite ?_ ?_)
      · exact h.keeps_bind h.sync fun _ => store
      · exact h.keeps_bind (h.keeps_pure _) fun _ => store

theorem sputc (c : Byte) : Prog.Keeps R (sputc K c) := by
  refine h.keeps_bind h.keeps_get fun s => ?_
  cases s.obj.putArea with
  | none => exact h.overflow _
  | some p =>
      refine Prog.Keeps.ite ?_ (h.overflow _)
      exact h.keeps_bind (h.onPut fun _ p => p.putc c) fun _ => h.keeps_pure _

theorem xsputn (bs : List Byte) : Prog.Keeps R (xsputn K bs) := by
  have levels : ∀ (depth : Nat) (bs : List Byte), Prog.Keeps R (xsputnRec K depth bs) := by
    intro depth
    induction depth with
    | zero => intro bs; exact Prog.Keeps.spin
    | succ depth ih =>
        intro bs
        have store : ∀ xs : List Byte,
            Prog.Keeps R (modify (Proc.onObj (Sockbuf.onPut fun p => p.fill xs)) : SockM κ PUnit) :=
          fun xs => h.onPut fun _ p => p.fill xs
        refine h.keeps_bind h.keeps_get fun s => Prog.Keeps.ite ?_ ?_
        · exact h.keeps_bind (store _) fun _ => h.keeps_pure _
        · refine h.keeps_bind (store _) fun _ => h.keeps_bind (h.overflow _) fun v => ?_
          exact Prog.Keeps.ite (h.keeps_bind (ih _) fun _ => h.keeps_pure _) (h.keeps_pure _)
  exact levels _ bs

end OwnFrame

theorem keeps_sync (h : PutFrame K R) : Prog.Keeps R (sync K) := h.own.sync

theorem keeps_overflow (h : PutFrame K R) (c : Int) : Prog.Keeps R (overflow K c) := h.own.overflow c

theorem keeps_sputc (h : PutFrame K R) (c : Byte) : Prog.Keeps R (sputc K c) := h.own.sputc c

theorem keeps_xsputn (h : PutFrame K R) (bs : List Byte) : Prog.Keeps R (xsputn K bs) := h.own.xsputn bs

/-! ### The get side -/

theorem keeps_onGet (h : GetFrame K R) (f : GetArea → GetArea) :
    Prog.Keeps R (modify (Proc.onObj (onGet f)) : SockM κ PUnit) :=
  Prog.Keeps.modify fun s => h.get s _

theorem keeps_read (h : GetFrame K R) (len : Nat) : Prog.Keeps R (read K len) := by
  refine h.keeps_bind ?_ fun _ => h.keeps_bind ?_ fun _ => ?_
  · refine h.keeps_bind h.keeps_get fun s => ?_
    refine Prog.Keeps.ite (h.keeps_pure _) (h.keeps_bind ?_ fun n => ?_)
    · refine h.keeps_bind h.keeps_get fun s => ?_
      exact h.keeps_bind (h.selectRead _ _) fun n => keeps_checked h.toClosed _ n
    · exact Prog.Keeps.ite (h.keeps_throw _) (h.keeps_pure _)
  · refine h.keeps_bind h.keeps_get fun s => ?_
    refine Prog.Keeps.ite (h.keeps_bind ?_ fun n => ?_) (h.keeps_pure _)
    · refine h.keeps_bind h.keeps_get fun s => ?_
      exact h.keeps_bind (h.sockatmark _) fun n => keeps_checked h.toClosed _ n
    · exact Prog.Keeps.ite (h.keeps_throw _) (h.keeps_pure _)
  · exact Prog.Keeps.get_bind fun s =>
      Prog.Keeps.bind_at h.trans (h.read s len) fun n => keeps_checked h.toClosed _ n

theorem keeps_underflow (h : GetFrame K R) : Prog.Keeps R (underflow K) := by
  refine h.keeps_bind h.keeps_get fun s => ?_
  cases s.obj.getArea with
  | none => exact h.keeps_pure _
  | some a =>
      refine Prog.Keeps.ite (h.keeps_pure _) (h.keeps_bind (keeps_read h _) fun bs => ?_)
      cases bs with
      | nil => exact h.keeps_pure _
      | cons b bs => exact h.keeps_bind (keeps_onGet h _) fun _ => h.keeps_pure _

theorem keeps_uflow (h : GetFrame K R) : Prog.Keeps R (uflow K) := by
  refine h.keeps_bind (keeps_underflow h) fun v => Prog.Keeps.ite (h.keeps_pure _) ?_
  exact h.keeps_bind (keeps_onGet h _) fun _ => h.keeps_pure _

theorem keeps_sungetc (h : GetFrame K R) : Prog.Keeps R (sungetc : SockM κ Int) := by
  refine h.keeps_bind h.keeps_get fun s => ?_
  cases s.obj.getArea with
  | none => exact h.keeps_pure _
  | some a =>
      refine Prog.Keeps.ite ?_ (h.keeps_pure _)
      exact h.keeps_bind (keeps_onGet h _) fun _ => h.keeps_pure _

theorem keeps_sputbackc (h : GetFrame K R) (c : Byte) : Prog.Keeps R (sputbackc c : SockM κ Int) := by
  refine h.keeps_bind h.keeps_get fun s => ?_
  cases s.obj.getArea with
  | none => exact h.keeps_pure _
  | some a =>
      refine Prog.Keeps.ite ?_ (h.keeps_pure _)
      exact h.keeps_bind (keeps_onGet h _) fun _ => h.keeps_pure _

/-- A method that does not store through the caller's pointer. -/
theorem keeps_within {α : Type} {p : SockM κ α} (h : Prog.Keeps R p) :
    Prog.Keeps (fun t t' : Getting κ => R t.proc t'.proc) (within p) := h.zoom fun _ _ h => h

theorem copyOut_frame (h : GetFrame K R) (n : Nat) (t : Getting κ) :
    R t.proc (copyOut n t).proc := by
  rw [copyOut]
  split
  · exact h.refl _
  · exact h.get _ _

theorem keeps_xsgetnRec (h : GetFrame K R) : ∀ depth n : Nat,
    Prog.Keeps (fun t t' : Getting κ => R t.proc t'.proc) (xsgetnRec K depth n) := by
  have hrefl : ∀ t : Getting κ, R t.proc t.proc := fun t => h.refl t.proc
  have htrans : ∀ t t₁ t' : Getting κ, R t.proc t₁.proc → R t₁.proc t'.proc → R t.proc t'.proc :=
    fun t t₁ t' => h.trans t.proc t₁.proc t'.proc
  intro depth
  induction depth with
  | zero => intro n; exact Prog.Keeps.spin
  | succ depth ih =>
      intro n
      have hcopy : ∀ k, Prog.Keeps (fun t t' : Getting κ => R t.proc t'.proc)
          (modify (copyOut k) : Prog Thrown (Getting κ) PUnit) :=
        fun k => Prog.Keeps.modify (copyOut_frame h k)
      refine Prog.Keeps.bind htrans (Prog.Keeps.get hrefl) fun t => Prog.Keeps.ite ?_ ?_
      · exact Prog.Keeps.bind htrans (hcopy _) fun _ => Prog.Keeps.pure hrefl _
      · refine Prog.Keeps.bind htrans (hcopy _) fun _ => ?_
        refine Prog.Keeps.bind htrans (keeps_within (keeps_underflow h)) fun v => ?_
        refine Prog.Keeps.ite ?_ (Prog.Keeps.pure hrefl _)
        exact Prog.Keeps.bind htrans (ih _) fun _ => Prog.Keeps.pure hrefl _

/-! ### Frames -/

/-- A call with an answer keeps `R` where its entry in the trace does. -/
theorem keeps_answer {α : Type} {c : Option α → Syscall} {a : Sys κ → Except Int α × κ}
    (h : ∀ (s : Proc Sockbuf κ) y r, y.kern = (a s.sys).2 → y.trace = s.sys.trace ++ [c r] →
      R s { s with sys := y }) :
    Prog.Keeps R (call (fun y => y.enterAnswer c (a y))) := by
  intro s
  show ((s.sys.enterAnswer c (a s.sys)).mapState fun y => { s with sys := y }).Leaves (R s)
  have hs := h s
  rcases ha : a s.sys with ⟨r, k⟩
  rw [ha] at hs
  cases r with
  | ok v => exact hs _ (some v) rfl rfl
  | error n => exact hs _ none rfl rfl

theorem leaves_writeCall {s : Proc Sockbuf κ} {fd : Int} {bs : List Byte}
    (h : ∀ y r, y.kern = (K.write s.sys.kern fd bs).2 →
      y.trace = s.sys.trace ++ [.write fd bs r] → R s { s with sys := y }) :
    (call (Sys.write K fd bs) s).Leaves (R s) := by
  simp only [call, Prog.zoom_apply, Sys.write]
  rcases hw : K.write s.sys.kern fd bs with ⟨r, k⟩
  rw [hw] at h
  cases r with
  | accepted n pos le => exact h _ (some n) rfl rfl
  | failed e => exact h _ none rfl rfl

theorem keeps_writeCall {fd : Int} {bs : List Byte}
    (h : ∀ (s : Proc Sockbuf κ) y r, y.kern = (K.write s.sys.kern fd bs).2 →
      y.trace = s.sys.trace ++ [.write fd bs r] → R s { s with sys := y }) :
    Prog.Keeps R (call (Sys.write K fd bs)) := fun s => leaves_writeCall (h s)

theorem leaves_readCall {s : Proc Sockbuf κ} {fd : Int} {len : Nat}
    (h : ∀ y r, y.kern = (K.read s.sys.kern fd len).2 →
      y.trace = s.sys.trace ++ [.read fd len r] → R s { s with sys := y }) :
    (call (Sys.read K fd len) s).Leaves (R s) := by
  simp only [call, Prog.zoom_apply, Sys.read]
  rcases hr : K.read s.sys.kern fd len with ⟨r, k⟩
  rw [hr] at h
  cases r with
  | data bs pos le => exact h _ (some bs) rfl rfl
  | eof => exact h _ (some []) rfl rfl
  | failed e => exact h _ none rfl rfl

/-- The put side and what has been sent are as they were. -/
structure PutSame (s s' : Proc Sockbuf κ) : Prop where
  rep      : s'.obj.rep = s.obj.rep
  putArea  : s'.obj.putArea = s.obj.putArea
  sockname : s'.obj.sockname = s.obj.sockname
  sent     : ∀ fd, sentOn fd s'.sys.trace = sentOn fd s.sys.trace

/-- Entering a call that hands nothing over. -/
theorem putSame_enter {s : Proc Sockbuf κ} {y : Sys κ} {c : Syscall}
    (ht : y.trace = s.sys.trace ++ [c]) (hc : ∀ fd, c.sentOn fd = []) :
    PutSame s { s with sys := y } := by
  refine ⟨rfl, rfl, rfl, fun fd => ?_⟩
  show sentOn fd y.trace = _
  rw [ht, sentOn_append]
  simp [sentOn, hc fd]

/-- **The get functions** leave the put side alone, and send nothing. -/
theorem getFrame_putSame (K : Kernel κ) : GetFrame K PutSame where
  refl _ := ⟨rfl, rfl, rfl, fun _ => rfl⟩
  trans _ _ _ h h' := ⟨h'.rep.trans h.rep, h'.putArea.trans h.putArea,
    h'.sockname.trans h.sockname, fun fd => (h'.sent fd).trans (h.sent fd)⟩
  read _ _ := leaves_readCall fun _ _ _ ht => putSame_enter ht fun _ => rfl
  selectRead _ _ := keeps_answer fun _ _ _ _ ht => putSame_enter ht fun _ => rfl
  sockatmark _ := keeps_answer fun _ _ _ _ ht => putSame_enter ht fun _ => rfl
  get _ _ := ⟨rfl, rfl, rfl, fun _ => rfl⟩

/-- Nothing has been sent on `fd`, unless it is the descriptor of the object. -/
def Elsewhere (fd : Int) (s s' : Proc Sockbuf κ) : Prop :=
  s'.obj.rep.sock = s.obj.rep.sock ∧
    (s.obj.rep.sock ≠ fd → sentOn fd s'.sys.trace = sentOn fd s.sys.trace)

/-- **The put functions** send on the descriptor of the object. -/
theorem ownFrame_elsewhere (K : Kernel κ) (fd : Int) : OwnFrame K (Elsewhere fd) where
  refl _ := ⟨rfl, fun _ => rfl⟩
  trans _ _ _ h h' := ⟨h'.1.trans h.1, fun hne => (h'.2 (h.1 ▸ hne)).trans (h.2 hne)⟩
  write s bs := leaves_writeCall fun y r _ ht => ⟨rfl, fun hne => by
    show sentOn fd y.trace = _
    rw [ht, sentOn_append]
    cases r <;> simp [sentOn, Syscall.sentOn, hne]⟩
  selectWrite _ _ := keeps_answer fun s y r _ ht => ⟨rfl, fun _ => by
    show sentOn fd y.trace = _
    rw [ht, sentOn_append]
    simp [sentOn, Syscall.sentOn]⟩
  put _ _ := ⟨rfl, fun _ => rfl⟩

/-- The get side, and what a function of the kernel's state shows, are as they were. -/
structure GetSame {γ : Type} (f : κ → γ) (s s' : Proc Sockbuf κ) : Prop where
  rep     : s'.obj.rep = s.obj.rep
  getArea : s'.obj.getArea = s.obj.getArea
  kern    : f s'.sys.kern = f s.sys.kern

/-- **The put functions** leave the get side alone, and what writes do not change. -/
theorem putFrame_getSame {γ : Type} {f : κ → γ} (hw : ∀ k fd bs, f (K.write k fd bs).2 = f k)
    (hs : ∀ k fd sec, f (K.selectWrite k fd sec).2 = f k) : PutFrame K (GetSame f) where
  refl _ := ⟨rfl, rfl, rfl⟩
  trans _ _ _ h h' := ⟨h'.rep.trans h.rep, h'.getArea.trans h.getArea, h'.kern.trans h.kern⟩
  write _ _ := keeps_writeCall fun _ y _ hk _ => ⟨rfl, rfl, by
    show f y.kern = _
    rw [hk, hw]⟩
  selectWrite _ _ := keeps_answer fun _ y _ hk _ => ⟨rfl, rfl, by
    show f y.kern = _
    rw [hk, hs]⟩
  put _ _ := ⟨rfl, rfl, rfl⟩

end Sockbuf

end Socketpp
