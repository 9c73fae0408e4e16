import Socketpp.Ftp.Requests

/-!
# Ftp — the data connection

A transfer writes on descriptors of its own.  So while it runs, nothing is sent on the control connection:
what `ftpdata` does from the reply to its last command on is `Silent`.
-/

namespace Socketpp
open Lib

/-- No new socket is on `fd`, which is open. -/
def NetKernel.Avoids {κ : Type} (N : NetKernel κ) (fd : Int) : Prop :=
  (∀ k domain st proto k', N.socket k domain st proto ≠ (.ok fd, k')) ∧
    ∀ k sock k', N.accept k sock ≠ (.ok fd, k')

/-- A block keeps what its body and its destructor keep. -/
theorem keeps_inBlock {σ α : Type} {R : σ → σ → Prop} (htrans : ∀ a b c, R a b → R b c → R a c)
    {destructor : Prog Thrown σ Unit} {p : Prog Raised σ α} (hrefl : ∀ a, R a a)
    (hp : Prog.Keeps R p) (hd : Prog.Keeps R destructor) : Prog.Keeps R (inBlock destructor p) := by
  have hquit : Prog.Keeps R (noexcept destructor : Prog Raised σ Unit) := fun s => by
    have hs := hd s
    rw [noexcept, Prog.mapThrown_apply]
    cases hrun : destructor s <;> rw [hrun] at hs <;> exact hs
  refine Prog.Keeps.bind htrans (Prog.Keeps.tryCatch htrans hp fun e => ?_) fun a => ?_
  · cases e with
    | exception e => exact Prog.Keeps.bind htrans hquit fun _ => Prog.Keeps.throw hrefl _
    | terminate => exact Prog.Keeps.throw hrefl _
  · exact Prog.Keeps.bind htrans hquit fun _ => Prog.Keeps.pure hrefl _

theorem keeps_raising {σ α : Type} {R : σ → σ → Prop} {p : Prog Thrown σ α} (hp : Prog.Keeps R p) :
    Prog.Keeps R (raising p) := fun s => by
  have hs := hp s
  rw [raising, Prog.mapThrown_apply]
  cases hrun : p s <;> rw [hrun] at hs <;> exact hs

namespace Transfer

variable {κ : Type} {N : NetKernel κ} {B : ℕ+} {m m' : Alloc} {n : Nat} {fd : Int}

/-- Nothing has been sent on `fd`, unless it is the descriptor of `sb`. -/
structure Silent (fd : Int) (s s' : Proc Transfer κ) : Prop where
  ftp  : s'.obj.ftp.rep.sock = s.obj.ftp.rep.sock
  sb   : s'.obj.sb.rep.sock = s.obj.sb.rep.sock
  sent : s.obj.sb.rep.sock ≠ fd → sentOn fd s'.sys.trace = sentOn fd s.sys.trace

/-- Nothing has been sent on `fd`, unless it is the descriptor of `sb` or of `c`. -/
structure Apart (fd : Int) (s s' : Proc Transfer κ) : Prop where
  ftp  : s'.obj.ftp.rep.sock = s.obj.ftp.rep.sock
  sb   : s'.obj.sb.rep.sock = s.obj.sb.rep.sock
  c    : s'.obj.c.rep.sock = s.obj.c.rep.sock
  sent : s.obj.sb.rep.sock ≠ fd → s.obj.c.rep.sock ≠ fd →
    sentOn fd s'.sys.trace = sentOn fd s.sys.trace

theorem closed_silent (fd : Int) : Closed (Silent fd : Proc Transfer κ → Proc Transfer κ → Prop) :=
  ⟨fun _ => ⟨rfl, rfl, fun _ => rfl⟩, fun _ _ _ h h' =>
    ⟨h'.ftp.trans h.ftp, h'.sb.trans h.sb, fun hsb => (h'.sent (h.sb ▸ hsb)).trans (h.sent hsb)⟩⟩

theorem closed_apart (fd : Int) : Closed (Apart fd : Proc Transfer κ → Proc Transfer κ → Prop) :=
  ⟨fun _ => ⟨rfl, rfl, rfl, fun _ _ => rfl⟩, fun _ _ _ h h' =>
    ⟨h'.ftp.trans h.ftp, h'.sb.trans h.sb, h'.c.trans h.c,
      fun hsb hc => (h'.sent (h.sb ▸ hsb) (h.c ▸ hc)).trans (h.sent hsb hc)⟩⟩

/-- A step that makes no call, or a call on sockets, and changes no sockbuf. -/
theorem silent_of_same {s s' : Proc Transfer κ} (hftp : s'.obj.ftp.rep.sock = s.obj.ftp.rep.sock)
    (hsb : s'.obj.sb = s.obj.sb) (ht : s'.sys.trace = s.sys.trace) : Silent fd s s' :=
  ⟨hftp, by rw [hsb], fun _ => by rw [ht]⟩

theorem apart_of_same {s s' : Proc Transfer κ} (hftp : s'.obj.ftp.rep.sock = s.obj.ftp.rep.sock)
    (hsb : s'.obj.sb = s.obj.sb) (hc : s'.obj.c = s.obj.c) (ht : s'.sys.trace = s.sys.trace) :
    Apart fd s s' := ⟨hftp, by rw [hsb], by rw [hc], fun _ _ => by rw [ht]⟩

/-- **`close`** sends nothing. -/
theorem keeps_close {R : Proc Transfer κ → Proc Transfer κ → Prop} (h : Closed R)
    (hR : ∀ s s' : Proc Transfer κ, s'.obj = { s.obj with closed := s'.obj.closed } →
      s'.sys.trace = s.sys.trace → R s s') (b : Sockbuf) : Prog.Keeps R (close N b) := by
  refine h.keeps_bind h.keeps_get fun s => ?_
  refine h.keeps_bind (Prog.Keeps.modify fun s => hR _ _ rfl rfl) fun _ => ?_
  have hcall : Prog.Keeps R (netCall fun k => N.close k b.rep.sock : TransferM κ (Option Unit)) :=
    fun s => (keeps_netCall _ s).mono fun s' hs => hR s s' (by rw [hs.1]) hs.2
  refine h.keeps_bind hcall fun a => ?_
  cases a with
  | some a => exact h.keeps_pure _
  | none => exact h.keeps_bind h.keeps_get fun s => h.keeps_throw _

theorem silent_onFtp {α : Type} {p : FtpM κ α} (h : Prog.Keeps (OnBase Sockbuf.PutSame) p) :
    Prog.Keeps (Silent fd) (onFtp p) :=
  Prog.Keeps.zoom h fun _ _ hs => ⟨congrArg Sockcnt.sock hs.rep, rfl, fun _ => hs.sent fd⟩

theorem silent_destroySb (N : NetKernel κ) : Prog.Keeps (Silent fd) (destroySb N) := by
  have hc := closed_silent (κ := κ) fd
  refine hc.keeps_bind ?_ fun _ => hc.keeps_bind hc.keeps_get fun s => keeps_close hc ?_ _
  · exact Prog.Keeps.zoom ((Sockbuf.ownFrame_elsewhere N.toKernel fd).overflow eofValue)
      fun _ _ hs => ⟨rfl, hs.1, hs.2⟩
  · exact fun s s' ho ht => silent_of_same (by rw [ho]) (by rw [ho]) ht

theorem apart_onC {α : Type} {p : SockM κ α} (h : Prog.Keeps (Sockbuf.Elsewhere fd) p) :
    Prog.Keeps (Apart fd) (onC p) :=
  Prog.Keeps.zoom h fun _ _ hs => ⟨rfl, rfl, hs.1, fun _ hc => hs.2 hc⟩

theorem apart_destroyC (N : NetKernel κ) : Prog.Keeps (Apart fd) (destroyC N) := by
  have hc := closed_apart (κ := κ) fd
  refine hc.keeps_bind ?_ fun _ => hc.keeps_bind hc.keeps_get fun s => keeps_close hc ?_ _
  · exact apart_onC ((Sockbuf.ownFrame_elsewhere N.toKernel fd).overflow eofValue)
  · exact fun s s' ho ht => apart_of_same (by rw [ho]) (by rw [ho]) (by rw [ho]) ht

theorem apart_sendRound (K : Kernel κ) : Prog.Keeps (Apart fd) (sendRound K) := by
  have hc := closed_apart (κ := κ) fd
  have quiet : ∀ f : Transfer → Transfer, (∀ x, (f x).ftp = x.ftp ∧ (f x).sb = x.sb ∧ (f x).c = x.c) →
      Prog.Keeps (Apart fd) (modify (Proc.onObj f) : TransferM κ PUnit) := fun f hf =>
    Prog.Keeps.modify fun s => apart_of_same (by rw [Proc.onObj, (hf s.obj).1]) (hf s.obj).2.1
      (hf s.obj).2.2 rfl
  refine hc.keeps_bind hc.keeps_get fun s => ?_
  refine hc.keeps_bind (quiet _ fun x => ⟨rfl, rfl, rfl⟩) fun _ => Prog.Keeps.ite ?_ (hc.keeps_pure _)
  refine hc.keeps_bind (apart_onC ((Sockbuf.ownFrame_elsewhere K fd).xsputn _)) fun wrsz => ?_
  refine Prog.Keeps.ite (hc.keeps_bind (quiet _ fun x => ⟨rfl, rfl, rfl⟩) fun _ => ?_) (hc.keeps_pure _)
  exact hc.keeps_pure _

/-- `sgetn`, with what it has stored. -/
theorem keeps_sgetn {K : Kernel κ} {R : Proc Sockbuf κ → Proc Sockbuf κ → Prop} (h : Sockbuf.GetFrame K R)
    (n : Nat) : Prog.Keeps (fun t t' : Sockbuf.Getting κ => R t.proc t'.proc) (do
      let rdsz ← Sockbuf.xsgetn K n
      let t ← get
      return (rdsz, t.dst) : Prog Thrown (Sockbuf.Getting κ) (Nat × List Byte)) := by
  have hrefl : ∀ t : Sockbuf.Getting κ, R t.proc t.proc := fun t => h.refl t.proc
  have htrans : ∀ t t₁ t' : Sockbuf.Getting κ, R t.proc t₁.proc → R t₁.proc t'.proc → R t.proc t'.proc :=
    fun t t₁ t' => h.trans t.proc t₁.proc t'.proc
  exact Prog.Keeps.bind htrans (Sockbuf.keeps_xsgetnRec h _ _) fun rdsz =>
    Prog.Keeps.bind htrans (Prog.Keeps.get hrefl) fun t => Prog.Keeps.pure hrefl _

theorem apart_receiveRound (K : Kernel κ) (o : OStream) : Prog.Keeps (Apart fd) (receiveRound K o) := by
  have hc := closed_apart (κ := κ) fd
  refine hc.keeps_bind ?_ fun a => Prog.Keeps.ite ?_ (hc.keeps_pure _)
  · exact Prog.Keeps.zoom (keeps_sgetn (Sockbuf.getFrame_putSame K) 1024) fun s t hs =>
      ⟨rfl, rfl, by rw [hs.rep], fun _ _ => hs.sent fd⟩
  · refine hc.keeps_bind (Prog.Keeps.modify fun s => ?_) fun _ => hc.keeps_pure _
    cases o with
    | own => exact apart_of_same rfl rfl rfl rfl
    | file => exact apart_of_same rfl rfl rfl rfl

/-- `sb` is new, and not on `fd`. -/
theorem openSb_sat (hN : N.Avoids fd) (ty proto : Int) (s : Proc Transfer κ) :
    (openSb N B m ty proto s).Sat
      (fun _ s' => s'.obj = { s.obj with sb := s'.obj.sb } ∧ s'.sys.trace = s.sys.trace ∧
        s'.obj.sb.rep.sock ≠ fd) fun _ _ => True := by
  rw [openSb, Prog.bind_apply]
  rcases hs : N.socket s.sys.kern af_inet ty proto with ⟨r, k⟩
  cases r with
  | ok soc =>
      rw [netCall_ok hs]
      refine ⟨rfl, rfl, ?_⟩
      rintro rfl
      exact hN.1 _ _ _ _ _ hs
  | error e =>
      rw [netCall_error hs]
      trivial

/-- **`accept`** changes nothing, and answers with what the kernel has answered. -/
theorem accept_sat (N : NetKernel κ) (t : Proc Sockbuf κ) :
    (Sockbuf.accept N t).Sat
      (fun socfd t' => Still t t' ∧ ∃ k', N.accept t.sys.kern t.obj.rep.sock = (.ok socfd, k'))
      (fun _ t' => Still t t') := by
  simp only [Sockbuf.accept, Prog.bind_apply, Prog.get_apply, Outcome.andThen_ret]
  rcases ha : N.accept t.sys.kern t.obj.rep.sock with ⟨r, k⟩
  cases r with
  | ok socfd =>
      rw [netCall_ok ha]
      exact ⟨⟨rfl, rfl⟩, k, rfl⟩
  | error e =>
      rw [netCall_error ha]
      simp only [Outcome.andThen_ret, Prog.bind_apply, Prog.get_apply, Prog.ite_apply, Prog.throw_apply]
      split <;> exact ⟨rfl, rfl⟩

/-- The connection accepted is not on `fd`. -/
theorem openC_sat (hN : N.Avoids fd) (s : Proc Transfer κ) :
    (openC N B m s).Sat (fun _ s' => Silent fd s s' ∧ s'.obj.c.rep.sock ≠ fd)
      (fun _ s' => Silent fd s s') := by
  have haccept : (onSb (Sockbuf.accept N) s).Sat (fun socfd s' => Silent fd s s' ∧ socfd ≠ fd)
      (fun _ s' => Silent fd s s') := by
    rw [onSb, Prog.zoom_apply, Outcome.sat_mapState]
    refine (accept_sat N _).mono ?_ fun e t h => silent_of_same rfl h.1 h.2
    rintro socfd t ⟨⟨hobj, ht⟩, k', ha⟩
    refine ⟨silent_of_same rfl hobj ht, ?_⟩
    rintro rfl
    exact hN.2 _ _ _ ha
  rw [openC, Prog.bind_apply]
  refine haccept.andThen (fun socfd s₁ h => ?_) fun _ _ h => h
  exact ⟨⟨h.1.ftp, h.1.sb, h.1.sent⟩, h.2⟩

/-- Behind the connection accepted. -/
theorem silent_behind {p : Prog Raised (Proc Transfer κ) Unit} (hN : N.Avoids fd)
    (hp : Prog.Keeps (Apart fd) p) :
    Prog.Keeps (Silent fd) (raising (openC N B m) >>= fun _ => p) := by
  intro s
  have hopen := openC_sat (B := B) (m := m) hN s
  rw [raising, Prog.bind_apply, Prog.mapThrown_apply]
  cases hrun : openC N B m s with
  | ret u s₁ =>
      rw [hrun] at hopen
      obtain ⟨hs, hc⟩ := hopen
      refine (hp s₁).mono fun s' h => ?_
      exact (closed_silent fd).trans _ _ _ hs ⟨h.ftp, h.sb, fun hsb => h.sent hsb hc⟩
  | thrown e s₁ =>
      rw [hrun] at hopen
      exact hopen
  | spin => trivial

theorem silent_receive (hN : N.Avoids fd) (o : OStream) : Prog.Keeps (Silent fd) (receive N B m n o) := by
  have hc := closed_apart (κ := κ) fd
  refine silent_behind hN (keeps_inBlock hc.trans hc.refl (keeps_raising ?_) (apart_destroyC N))
  exact Prog.Keeps.loop hc.refl hc.trans (fun _ => apart_receiveRound N.toKernel o) n ()

theorem silent_send (hN : N.Avoids fd) : Prog.Keeps (Silent fd) (send N B m) := by
  have hc := closed_apart (κ := κ) fd
  refine silent_behind hN (Prog.Keeps.get_bind fun s => ?_)
  refine keeps_inBlock hc.trans hc.refl (keeps_raising ?_) (apart_destroyC N) s
  exact Prog.Keeps.loop hc.refl hc.trans (fun _ => apart_sendRound N.toKernel) _ ()

theorem silent_getResponse (n : Nat) :
    Prog.Keeps (Silent fd) (raising (onFtp (Ftpbuf.getResponse N.toKernel n))) :=
  keeps_raising (silent_onFtp (Ftpbuf.keeps_getResponse (Sockbuf.getFrame_putSame N.toKernel) n))

theorem silent_transfer (hN : N.Avoids fd) (i : Bool) (o : Option OStream) :
    Prog.Keeps (Silent fd) (transfer N B m n i o) := by
  have hc := closed_silent (κ := κ) fd
  have hend : ∀ _ : Unit, Prog.Keeps (Silent fd) (raising (onFtp (Ftpbuf.getResponse N.toKernel n))) :=
    fun _ => silent_getResponse n
  cases o with
  | some o => cases i <;> exact Prog.Keeps.bind hc.trans (silent_receive hN o) hend
  | none =>
      cases i with
      | true => exact Prog.Keeps.bind hc.trans (silent_send hN) hend
      | false => exact silent_getResponse n

/-- **From the reply on**, `ftpdata` sends nothing on the control connection. -/
theorem silent_finish (hN : N.Avoids fd) (i : Bool) (o : Option OStream) :
    Prog.Keeps (Silent fd) (finish N B m' n i o) := by
  have hc := closed_silent (κ := κ) fd
  refine keeps_inBlock hc.trans hc.refl ?_ (silent_destroySb N)
  refine Prog.Keeps.bind hc.trans (silent_getResponse n) fun reply => ?_
  exact Prog.Keeps.ite (Prog.Keeps.pure hc.refl _) (silent_transfer hN i o)

end Transfer

end Socketpp
