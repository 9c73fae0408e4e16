import Socketpp.Ftp.Blocks
import Socketpp.Ftp.Rendezvous
import Socketpp.Ftp.Session
import Socketpp.Lib.Handles

/-!
# Ftp — the sockets of a session

A transfer opens two sockets of its own, and both are closed by destructors, also where an exception leaves
the block.  `NetKernel.logged` is a kernel that logs what is done with each descriptor; `select` and
`sockatmark` only ask.

`Visits` is any session of an ftpbuf: any calls of its methods, one after another, those that throw included.
Its log is settled.  A download that the server has accepted does not return; in every iteration of its loop
the log is careful, and the two sockets of the transfer are what is open (`sockets_settled`).
-/

namespace Socketpp
open Lib

/-! ### The log -/

/-- What has been done with the descriptors. -/
abbrev SocketLog := List (Dealing Int)

/-- The kernel `N` with a log. -/
def NetKernel.logged {κ : Type} (N : NetKernel κ) : NetKernel (κ × SocketLog) where
  write k fd bs        := ((N.write k.1 fd bs).1, (N.write k.1 fd bs).2, k.2 ++ [.use fd])
  read k fd len        := ((N.read k.1 fd len).1, (N.read k.1 fd len).2, k.2 ++ [.use fd])
  selectRead k fd sec  := ((N.selectRead k.1 fd sec).1, (N.selectRead k.1 fd sec).2, k.2)
  selectWrite k fd sec := ((N.selectWrite k.1 fd sec).1, (N.selectWrite k.1 fd sec).2, k.2)
  sockatmark k fd      := ((N.sockatmark k.1 fd).1, (N.sockatmark k.1 fd).2, k.2)
  shutdown k fd how    := ((N.shutdown k.1 fd how).1, (N.shutdown k.1 fd how).2, k.2 ++ [.use fd])
  open_ k path         := ((N.open_ k.1 path).1, (N.open_ k.1 path).2, k.2)
  socket k d st proto  :=
    match N.socket k.1 d st proto with
    | (.ok fd, k')   => (.ok fd, k', k.2 ++ [.acquire fd])
    | (.error e, k') => (.error e, k', k.2)
  bind k fd sa         := ((N.bind k.1 fd sa).1, (N.bind k.1 fd sa).2, k.2 ++ [.use fd])
  listen k fd num      := ((N.listen k.1 fd num).1, (N.listen k.1 fd num).2, k.2 ++ [.use fd])
  accept k fd          :=
    match N.accept k.1 fd with
    | (.ok fd', k')  => (.ok fd', k', k.2 ++ [.use fd, .acquire fd'])
    | (.error e, k') => (.error e, k', k.2 ++ [.use fd])
  getsockname k fd     := ((N.getsockname k.1 fd).1, (N.getsockname k.1 fd).2, k.2 ++ [.use fd])
  close k fd           := ((N.close k.1 fd).1, (N.close k.1 fd).2, k.2 ++ [.release fd])
  gethostname k        := ((N.gethostname k.1).1, (N.gethostname k.1).2, k.2)
  gethostbyname k name := ((N.gethostbyname k.1 name).1, (N.gethostbyname k.1 name).2, k.2)

/-- The log of a state. -/
def Proc.log {β κ : Type} (s : Proc β (κ × SocketLog)) : SocketLog := s.sys.kern.2

/-! ### What a sockbuf does -/

section Own

variable {κ : Type} {N : NetKernel κ}

/-- The object has its descriptor, and only that has been used. -/
structure UsesOwn (s s' : Proc Sockbuf (κ × SocketLog)) : Prop where
  sock : s'.obj.rep.sock = s.obj.rep.sock
  log  : ∃ made, s'.log = s.log ++ made ∧ ∀ d ∈ made, d = .use s.obj.rep.sock

theorem closed_usesOwn : Closed (UsesOwn : Proc Sockbuf (κ × SocketLog) → _ → Prop) := by
  refine ⟨fun s => ⟨rfl, Grew.same rfl⟩, fun s s₁ s' h h' => ⟨h'.sock.trans h.sock, ?_⟩⟩
  have hlog := h'.log
  rw [h.sock] at hlog
  exact Grew.trans h.log hlog

/-- A step that logs nothing. -/
theorem usesOwn_of_same {s s' : Proc Sockbuf (κ × SocketLog)} (hsock : s'.obj.rep.sock = s.obj.rep.sock)
    {k : κ × SocketLog} (hk : s'.sys.kern = k) (hlog : k.2 = s.log) : UsesOwn s s' :=
  ⟨hsock, Grew.same (by rw [Proc.log, hk, hlog])⟩

/-- A step that logs a use of the descriptor. -/
theorem usesOwn_of_use {s s' : Proc Sockbuf (κ × SocketLog)} (hsock : s'.obj.rep.sock = s.obj.rep.sock)
    {k : κ × SocketLog} (hk : s'.sys.kern = k) (hlog : k.2 = s.log ++ [.use s.obj.rep.sock]) : UsesOwn s s' :=
  ⟨hsock, Grew.one (by rw [Proc.log, hk, hlog]) rfl⟩

theorem ownFrame_usesOwn (N : NetKernel κ) : Sockbuf.OwnFrame N.logged.toKernel UsesOwn where
  toClosed := closed_usesOwn
  write _ _ := Sockbuf.leaves_writeCall fun _ _ hk _ => usesOwn_of_use rfl hk rfl
  selectWrite _ _ := Sockbuf.keeps_answer fun _ _ _ hk _ => usesOwn_of_same rfl hk rfl
  put _ _ := usesOwn_of_same rfl rfl rfl

theorem getFrame_usesOwn (N : NetKernel κ) : Sockbuf.GetFrame N.logged.toKernel UsesOwn where
  toClosed := closed_usesOwn
  read _ _ := Sockbuf.leaves_readCall fun _ _ hk _ => usesOwn_of_use rfl hk rfl
  selectRead _ _ := Sockbuf.keeps_answer fun _ _ _ hk _ => usesOwn_of_same rfl hk rfl
  sockatmark _ := Sockbuf.keeps_answer fun _ _ _ hk _ => usesOwn_of_same rfl hk rfl
  get _ _ := usesOwn_of_same rfl rfl rfl

/-- A call on sockets leaves the state of the kernel that it answers with. -/
theorem netCall_leaves {β α : Type} {c : κ → Except Int α × κ} {s : Proc β κ} {P : Proc β κ → Prop}
    (h : ∀ s', s'.obj = s.obj → s'.sys.kern = (c s.sys.kern).2 → P s') :
    (netCall c s : Outcome Thrown (Proc β κ) (Option α)).Leaves P := by
  rcases hc : c s.sys.kern with ⟨r, k⟩
  rw [hc] at h
  cases r with
  | ok a =>
      rw [netCall_ok hc]
      exact h _ rfl rfl
  | error e =>
      rw [netCall_error hc]
      exact h _ rfl rfl

/-- A checked call on the descriptor of the object. -/
theorem usesOwn_checkedCall {α : Type} {operation : String}
    {c : Int → κ × SocketLog → Except Int α × (κ × SocketLog)} (hc : ∀ fd k, (c fd k).2.2 = k.2 ++ [.use fd]) :
    Prog.Keeps UsesOwn (do
      let s ← get
      Sockbuf.checked operation (← netCall (c s.obj.rep.sock)) : SockM (κ × SocketLog) α) := by
  refine Prog.Keeps.get_bind fun s => Prog.Keeps.bind_at closed_usesOwn.trans ?_
    fun r => Sockbuf.keeps_checked closed_usesOwn operation r
  exact netCall_leaves fun s' hobj hk => usesOwn_of_use (by rw [hobj]) hk (hc _ _)

theorem usesOwn_bind_until_success (n : Nat) (portno : Int) :
    Prog.Keeps UsesOwn (Sockinetbuf.bind_until_success N.logged n portno) := by
  have hc := closed_usesOwn (κ := κ)
  refine Prog.Keeps.loop hc.refl hc.trans (fun portno => ?_) n portno
  refine Prog.Keeps.tryCatch hc.trans ?_ fun e => ?_
  · have hbind : Prog.Keeps UsesOwn (Sockinetbuf.bindPort N.logged portno) :=
      usesOwn_checkedCall (c := fun fd k => N.logged.bind k fd _) fun _ _ => rfl
    exact hc.keeps_bind hbind fun _ => hc.keeps_pure _
  · cases e with
    | err e op spec => exact Prog.Keeps.ite (hc.keeps_throw _) (hc.keeps_pure _)
    | _ => exact hc.keeps_throw _

theorem usesOwn_localaddr : Prog.Keeps UsesOwn (Sockinetbuf.localaddr N.logged) := by
  have hc := closed_usesOwn (κ := κ)
  refine Prog.Keeps.get_bind fun s => Prog.Keeps.bind_at hc.trans ?_ fun a => ?_
  · exact netCall_leaves fun s' hobj hk => usesOwn_of_use (by rw [hobj]) hk rfl
  · cases a with
    | some sin => exact hc.keeps_pure _
    | none => exact hc.keeps_bind hc.keeps_get fun _ => hc.keeps_throw _

theorem usesOwn_listen (num : Int) : Prog.Keeps UsesOwn (Sockbuf.listen N.logged num) :=
  usesOwn_checkedCall (c := fun fd k => N.logged.listen k fd num) fun _ _ => rfl

/-- A call that asks for no descriptor. -/
theorem usesOwn_netCall {β α : Type} [Derived β] {c : κ × SocketLog → Except Int α × (κ × SocketLog)}
    (hc : ∀ k, (c k).2.2 = k.2) :
    Prog.Keeps (OnBase UsesOwn) (netCall c : Prog Thrown (Proc β (κ × SocketLog)) (Option α)) := fun s =>
  netCall_leaves fun s' hobj hk => usesOwn_of_same (by rw [Proc.base, hobj]; rfl) hk (hc _)

theorem usesOwn_useraddr (n : Nat) (sa : Sockinetaddr) :
    Prog.Keeps (OnBase UsesOwn) (Ftpbuf.useraddr N.logged n sa) := by
  have hc : Closed (OnBase (β := Ftpbuf) (UsesOwn (κ := κ))) := closed_usesOwn.onBase
  have hlocal : Prog.Keeps (OnBase UsesOwn) (Ftpbuf.localhost N.logged) := by
    refine hc.keeps_bind (usesOwn_netCall fun _ => rfl) fun r => ?_
    cases r with
    | none => exact hc.keeps_throw _
    | some hostname =>
        refine hc.keeps_bind (fun s => usesOwn_of_same rfl rfl rfl) fun h => ?_
        cases h with
        | none => exact hc.keeps_throw _
        | some h => exact hc.keeps_pure _
  have hsend : ∀ ina, Prog.Keeps (OnBase UsesOwn) (Ftpbuf.sendCmd N.logged.toKernel n (ascii "PORT")
      (some (Ftpbuf.portArg ina (ntohs sa.sin_port)))) := fun ina =>
    Ftpbuf.keeps_sendCmd (ownFrame_usesOwn N) (getFrame_usesOwn N) n _ _
  rw [Ftpbuf.useraddr]
  split
  · exact hc.keeps_bind hlocal hsend
  · exact hsend sa.sin_addr

end Own

/-! ### What a transfer does -/

namespace Transfer

variable {κ α : Type} {N : NetKernel κ} {B : ℕ+} {m m' : Alloc} {n : Nat} {ctl : Int} {base : SocketLog}
  {s s' : Proc Transfer (κ × SocketLog)}

/-- The sockets that a transfer has open. -/
inductive Opened where
  | nothing
  | sb
  | both

def Opened.held : Opened → Transfer → List Int
  | nothing, _ => []
  | sb, x      => [x.sb.rep.sock]
  | both, x    => [x.c.rep.sock, x.sb.rep.sock]

/-- The control connection is on `ctl`, and the log since `base` leads to the sockets that are open. -/
structure Holding (ctl : Int) (base : SocketLog) (o : Opened) (s : Proc Transfer (κ × SocketLog)) : Prop where
  ftp  : s.obj.ftp.rep.sock = ctl
  left : Left Dealing.Leads Proc.log base [ctl] (o.held s.obj ++ [ctl]) s

/-- A transfer that has been ended. -/
def Halted (ctl : Int) (base : SocketLog) (s : Proc Transfer (κ × SocketLog)) : Prop :=
  ∃ o, Holding ctl base o s

variable {o : Opened}

/-- Sockets that are held have been used. -/
theorem Holding.uses (h : Holding ctl base o s) (hftp : s'.obj.ftp.rep.sock = s.obj.ftp.rep.sock)
    (hheld : o.held s'.obj = o.held s.obj) {fd : Int} (hfd : fd ∈ o.held s.obj ++ [ctl])
    (hlog : ∃ made, s'.log = s.log ++ made ∧ ∀ d ∈ made, d = .use fd) : Holding ctl base o s' := by
  obtain ⟨made, hlog, hmade⟩ := hlog
  refine ⟨hftp.trans h.ftp, ?_⟩
  rw [hheld]
  exact h.left.more hlog (Dealing.trail_uses fun d hd => ⟨fd, hfd, hmade d hd⟩)

/-- Nothing has been done. -/
theorem Holding.same (h : Holding ctl base o s) (hftp : s'.obj.ftp.rep.sock = s.obj.ftp.rep.sock)
    (hheld : o.held s'.obj = o.held s.obj) (hlog : s'.log = s.log) : Holding ctl base o s' :=
  h.uses hftp hheld (List.mem_append_right _ (List.mem_singleton_self ctl))
    ⟨[], by rw [hlog, List.append_nil], List.forall_mem_nil _⟩

/-- A program run in a part of the transfer. -/
theorem zoom_holding {σ : Type} {get : Proc Transfer (κ × SocketLog) → σ}
    {put : σ → Proc Transfer (κ × SocketLog) → Proc Transfer (κ × SocketLog)} {p : Prog Thrown σ α}
    {R : σ → σ → Prop} (hp : Prog.Keeps R p)
    (h : ∀ s t, R (get s) t → Holding ctl base o s → Holding ctl base o (put t s)) :
    Prog.Triple (Holding ctl base o) (Prog.zoom get put p) (Holding ctl base o) (Holding ctl base o) := by
  have hkeeps : Prog.Keeps (fun s s' => Holding ctl base o s → Holding ctl base o s') (Prog.zoom get put p) :=
    Prog.Keeps.zoom hp h
  exact triple_of_keeps hkeeps fun _ _ h => h

/-- **A method of the ftpbuf.** -/
theorem onFtp_holding {p : FtpM (κ × SocketLog) α} (hp : Prog.Keeps (OnBase UsesOwn) p) :
    Prog.Triple (Holding ctl base o) (onFtp p) (Holding ctl base o) (Holding ctl base o) := by
  refine zoom_holding hp fun s t hu h => h.uses hu.sock ?_ ?_ hu.log
  · cases o <;> rfl
  · exact List.mem_append_right _ (List.mem_singleton.mpr h.ftp)

/-- **A method of `sb`.** -/
theorem onSb_holding {p : SockM (κ × SocketLog) α} (hp : Prog.Keeps UsesOwn p) :
    Prog.Triple (Holding ctl base .sb) (onSb p) (Holding ctl base .sb) (Holding ctl base .sb) :=
  zoom_holding hp fun _ _ hu h => h.uses rfl (congrArg (fun fd => [fd]) hu.sock)
    (List.mem_append_left _ (List.mem_singleton_self _)) hu.log

/-- `c` has its descriptor, and only that has been used. -/
theorem Holding.usesC {t : Proc Sockbuf (κ × SocketLog)} (h : Holding ctl base .both s)
    (hu : UsesOwn ⟨s.obj.c, s.sys⟩ t) : Holding ctl base .both ⟨{ s.obj with c := t.obj }, t.sys⟩ :=
  h.uses rfl (congrArg (fun fd => [fd, s.obj.sb.rep.sock]) hu.sock) (List.mem_append_left _ List.mem_cons_self)
    hu.log

/-- **A method of `c`.** -/
theorem onC_holding {p : SockM (κ × SocketLog) α} (hp : Prog.Keeps UsesOwn p) :
    Prog.Triple (Holding ctl base .both) (onC p) (Holding ctl base .both) (Holding ctl base .both) :=
  zoom_holding hp fun _ _ hu h => h.usesC hu

/-- A step that changes no sockbuf. -/
theorem modify_holding {f : Transfer → Transfer}
    (hf : ∀ x, (f x).ftp.rep.sock = x.ftp.rep.sock ∧ (f x).sb = x.sb ∧ (f x).c = x.c) :
    Prog.Triple (Holding ctl base o) (modify (Proc.onObj f) : TransferM (κ × SocketLog) PUnit)
      (Holding ctl base o) (Holding ctl base o) := by
  refine .modify fun s h => h.same (hf s.obj).1 ?_ rfl
  cases o with
  | nothing => rfl
  | sb => exact congrArg (fun b => [b.rep.sock]) (hf s.obj).2.1
  | both =>
      show [(f s.obj).c.rep.sock, (f s.obj).sb.rep.sock] = _
      rw [(hf s.obj).2.1, (hf s.obj).2.2]
      rfl

/-- **`sb` is opened**, or nothing is. -/
theorem openSb_holding (ty proto : Int) : Prog.Triple (Holding ctl base .nothing) (openSb N.logged B m ty proto)
    (Holding ctl base .sb) (Holding ctl base .nothing) := by
  intro s h
  rw [openSb, Prog.bind_apply]
  rcases hs : N.socket s.sys.kern.1 af_inet ty proto with ⟨r, k⟩
  cases r with
  | ok fd =>
      have hcall : N.logged.socket s.sys.kern af_inet ty proto = (.ok fd, k, s.log ++ [.acquire fd]) := by
        simp only [NetKernel.logged, hs, Proc.log]
      rw [netCall_ok hcall]
      exact ⟨h.ftp, h.left.enter rfl (.acquire fd _)⟩
  | error e =>
      have hcall : N.logged.socket s.sys.kern af_inet ty proto = (.error e, k, s.log) := by
        simp only [NetKernel.logged, hs, Proc.log]
      rw [netCall_error hcall]
      exact h.same rfl rfl rfl

/-- **`c` is accepted**, or nothing is opened. -/
theorem openC_holding : Prog.Triple (Holding ctl base .sb) (openC N.logged B m)
    (Holding ctl base .both) (Holding ctl base .sb) := by
  intro s h
  have hmem : s.obj.sb.rep.sock ∈ Opened.sb.held s.obj ++ [ctl] := List.mem_cons_self
  rw [openC, Prog.bind_apply, onSb, Prog.zoom_apply, Sockbuf.accept, Prog.bind_apply, Prog.get_apply,
    Outcome.andThen_ret, Prog.bind_apply]
  rcases ha : N.accept s.sys.kern.1 s.obj.sb.rep.sock with ⟨r, k⟩
  cases r with
  | ok fd =>
      have hcall : N.logged.accept s.sys.kern s.obj.sb.rep.sock =
          (.ok fd, k, s.log ++ [.use s.obj.sb.rep.sock, .acquire fd]) := by
        simp only [NetKernel.logged, ha, Proc.log]
      rw [netCall_ok hcall]
      exact ⟨h.ftp, h.left.more rfl (.cons (.use hmem) (.one (.acquire fd _)))⟩
  | error e =>
      have hcall : N.logged.accept s.sys.kern s.obj.sb.rep.sock =
          (.error e, k, s.log ++ [.use s.obj.sb.rep.sock]) := by
        simp only [NetKernel.logged, ha, Proc.log]
      rw [netCall_error hcall]
      simp only [Outcome.andThen_ret, Prog.bind_apply, Prog.get_apply, Prog.ite_apply, Prog.throw_apply]
      split <;> exact ⟨h.ftp, h.left.enter rfl (.use hmem)⟩

theorem held_closed (o : Opened) (x : Transfer) (l : List (Int × List Syscall)) :
    o.held { x with closed := l } = o.held x := by
  cases o <;> rfl

/-- **The socket opened last is closed**, whatever `::close` answers. -/
theorem close_holding (o o' : Opened) {b : Sockbuf} :
    Prog.Triple (fun s => Holding ctl base o s ∧ o.held s.obj = b.rep.sock :: o'.held s.obj)
      (close N.logged b) (Holding ctl base o') (Holding ctl base o') := by
  refine .bind .get fun s₀ => .bind (.modify (Q := fun s => Holding ctl base o s ∧
    o.held s.obj = b.rep.sock :: o'.held s.obj) fun s hs => ⟨hs.1.same rfl (held_closed o _ _) rfl, ?_⟩) fun _ => ?_
  · exact (held_closed o _ _).trans (hs.2.trans (congrArg _ (held_closed o' _ _).symm))
  refine .bind (R := Holding ctl base o') (fun s hs => ?_) fun r => ?_
  · obtain ⟨h, hheld⟩ := hs
    refine (netCall_leaves fun s' hobj hk => ?_).within
    have hlog : s'.log = s.log ++ [.release b.rep.sock] := by
      rw [Proc.log, hk]
      rfl
    have hleft := h.left
    rw [hheld] at hleft
    refine ⟨hobj ▸ h.ftp, ?_⟩
    rw [hobj]
    exact hleft.enter hlog (.release _ _)
  · cases r with
    | some u => exact .pure _
    | none => exact .bind .get fun _ => .throw _

/-- **The destructor of `sb`.** -/
theorem destroySb_holding : Prog.Triple (Holding ctl base .sb) (destroySb N.logged)
    (Holding ctl base .nothing) (Halted ctl base) := by
  have hflush : Prog.Triple (Holding ctl base .sb) (onSb (Sockbuf.overflow N.logged.toKernel eofValue))
      (Holding ctl base .sb) (Halted ctl base) := fun s hs =>
    (onSb_holding ((ownFrame_usesOwn N).overflow eofValue) s hs).mono (fun _ h => h) fun _ h => ⟨.sb, h⟩
  refine .bind hflush fun _ => .get_bind fun s hs => ?_
  exact (close_holding .sb .nothing s ⟨hs, rfl⟩).mono (fun _ h => h) fun _ h => ⟨.nothing, h⟩

/-- **The destructor of `c`.** -/
theorem destroyC_holding : Prog.Triple (Holding ctl base .both) (destroyC N.logged)
    (Holding ctl base .sb) (Halted ctl base) := by
  have hflush : Prog.Triple (Holding ctl base .both) (onC (Sockbuf.overflow N.logged.toKernel eofValue))
      (Holding ctl base .both) (Halted ctl base) := fun s hs =>
    (onC_holding ((ownFrame_usesOwn N).overflow eofValue) s hs).mono (fun _ h => h) fun _ h => ⟨.both, h⟩
  refine .bind hflush fun _ => .get_bind fun s hs => ?_
  exact (close_holding .both .sb s ⟨hs, rfl⟩).mono (fun _ h => h) fun _ h => ⟨.sb, h⟩

/-! #### The course -/

theorem receiveRound_holding (o : OStream) :
    Prog.Triple (Holding ctl base .both) (receiveRound N.logged.toKernel o)
      (Holding ctl base .both) (Holding ctl base .both) := by
  have hget := getFrame_usesOwn N
  have hrefl : ∀ t : Sockbuf.Getting (κ × SocketLog), UsesOwn t.proc t.proc := fun t => hget.refl t.proc
  have htrans : ∀ t t₁ t' : Sockbuf.Getting (κ × SocketLog), UsesOwn t.proc t₁.proc →
      UsesOwn t₁.proc t'.proc → UsesOwn t.proc t'.proc :=
    fun t t₁ t' => hget.trans t.proc t₁.proc t'.proc
  have hcount : Prog.Triple (Holding ctl base .both) (sgetnC N.logged.toKernel 1024)
      (Holding ctl base .both) (Holding ctl base .both) := by
    refine zoom_holding (R := fun t t' => UsesOwn t.proc t'.proc) ?_ fun _ _ hu h => h.usesC hu
    exact Prog.Keeps.bind htrans (Sockbuf.keeps_xsgetnRec hget _ _) fun rdsz =>
      Prog.Keeps.bind htrans (Prog.Keeps.get hrefl) fun t => Prog.Keeps.pure hrefl _
  refine .bind hcount fun a => .ite (.bind (modify_holding fun x => ?_) fun _ => .pure _) (.pure _)
  cases o <;> exact ⟨rfl, rfl, rfl⟩

theorem sendRound_holding : Prog.Triple (Holding ctl base .both) (sendRound N.logged.toKernel)
    (Holding ctl base .both) (Holding ctl base .both) := by
  refine .bind .get fun s => .bind (modify_holding fun x => ⟨rfl, rfl, rfl⟩) fun _ => .ite ?_ (.pure _)
  refine .bind (onC_holding ((ownFrame_usesOwn N).xsputn _)) fun wrsz => ?_
  exact .ite (.bind (modify_holding fun x => ⟨rfl, rfl, rfl⟩) fun _ => .pure _) (.pure _)

theorem connect_holding (portno : Int) (cmd : List Byte) (arg : Option (List Byte)) :
    Prog.Triple (Holding ctl base .sb) (connect N.logged n portno cmd arg)
      (Holding ctl base .sb) (Holding ctl base .sb) := by
  refine .bind (onSb_holding (usesOwn_bind_until_success n portno)) fun _ => ?_
  refine .bind (onSb_holding usesOwn_localaddr) fun sa => ?_
  refine .bind (onFtp_holding (usesOwn_useraddr n sa)) fun _ => ?_
  refine .bind (onSb_holding (usesOwn_listen 1)) fun _ => ?_
  exact onFtp_holding (Ftpbuf.keeps_sendCmd (ownFrame_usesOwn N) (getFrame_usesOwn N) n cmd arg)

/-- **A connection**, from `accept` to the destructor of `c`. -/
theorem connection_holding {p : Prog Raised (Proc Transfer (κ × SocketLog)) Unit}
    (hp : Blocks (Holding ctl base .both) p (Holding ctl base .both) (Holding ctl base .both) (Halted ctl base)) :
    Blocks (Holding ctl base .sb) (raising (openC N.logged B m) >>= fun _ => inBlock (destroyC N.logged) p)
      (Holding ctl base .sb) (Holding ctl base .sb) (Halted ctl base) :=
  .bind (.raising openC_holding) fun _ => .inBlock hp destroyC_holding destroyC_holding

theorem transfer_holding (i : Bool) (o : Option OStream) :
    Blocks (Holding ctl base .sb) (transfer N.logged B m n i o)
      (Holding ctl base .sb) (Holding ctl base .sb) (Halted ctl base) := by
  have hend : ∀ _ : Unit, Blocks (Holding ctl base .sb) (raising (onFtp (Ftpbuf.getResponse N.logged.toKernel n)))
      (Holding ctl base .sb) (Holding ctl base .sb) (Halted ctl base) := fun _ =>
    .raising (onFtp_holding (Ftpbuf.keeps_getResponse (getFrame_usesOwn N) n))
  have hreceive : ∀ o, Blocks (Holding ctl base .sb) (receive N.logged B m n o)
      (Holding ctl base .sb) (Holding ctl base .sb) (Halted ctl base) := fun o =>
    connection_holding (.raising (.loop (fun _ => receiveRound_holding o) n ()))
  have hsend : Blocks (Holding ctl base .sb) (send N.logged B m)
      (Holding ctl base .sb) (Holding ctl base .sb) (Halted ctl base) := by
    refine .bind (.raising openC_holding) fun _ => .get_bind fun s => ?_
    exact .inBlock (.raising (.loop (fun _ => sendRound_holding) _ ())) destroyC_holding destroyC_holding
  cases o with
  | some o => exact .bind (hreceive o) hend
  | none =>
      cases i with
      | true => exact .bind hsend hend
      | false => exact hend ()

/-- `t` is at the head of the loop that receives, in a download that `ftpdata` has begun in `s` and the server
has accepted. -/
inductive Receiving (N : NetKernel κ) (B : ℕ+) (o : OStream) (cmd : List Byte) (arg : Option (List Byte))
    (s t : Proc Transfer κ) : Prop where
  | intro {m m' : Alloc} {n k : Nat} {reply : Byte} {s₀ s₁ s₂ : Proc Transfer κ}
      (hopen : openSb N B m sock_stream 0 s = .ret () s₀)
      (hconn : connect N n 10000 cmd arg s₀ = .ret reply s₁) (hreply : ¬ IsError reply)
      (hacc : openC N B m' s₁ = .ret () s₂)
      (hrounds : Prog.Rounds (fun _ => receiveRound N.toKernel o) k () s₂ () t)

/-- In every iteration both sockets are open. -/
theorem receiving_holding {o : OStream} {cmd : List Byte} {arg : Option (List Byte)}
    {t : Proc Transfer (κ × SocketLog)} (h : Receiving N.logged B o cmd arg s t)
    (hs : Holding ctl base .nothing s) : Holding ctl base .both t := by
  obtain ⟨hopen, hconn, -, hacc, hrounds⟩ := h
  have h₀ := (openSb_holding sock_stream 0).ret hopen hs
  have h₁ := (connect_holding 10000 cmd arg).ret hconn h₀
  have h₂ := openC_holding.ret hacc h₁
  exact Prog.Triple.rounds (fun _ => receiveRound_holding o) hrounds h₂

/-- **`ftpdata`** closes what it has opened, also where it throws. -/
theorem ftpdata_holding (portno : Int) (i : Bool) (o : Option OStream) (cmd : List Byte)
    (arg : Option (List Byte)) :
    Blocks (Holding ctl base .nothing) (ftpdata N.logged B m m' n portno i o cmd arg)
      (Holding ctl base .nothing) (Holding ctl base .nothing) (Halted ctl base) := by
  refine .bind (.raising (openSb_holding _ _)) fun _ => .inBlock ?_ destroySb_holding destroySb_holding
  exact .bind (.raising (connect_holding portno cmd arg)) fun reply => .ite (.pure _) (transfer_holding i o)

end Transfer

/-! ### Sessions -/

/-- The methods of an ftpbuf. -/
inductive Visit where
  | control (c : Ftpbuf.Call)
  | get_response
  | useraddr (sa : Sockinetaddr)
  | list (rpath : Option (List Byte)) (justnames : Bool)
  | getfile (rpath lpath : Option (List Byte))
  | putfile (lpath rpath : Option (List Byte))
  | putunique (lpath : Option (List Byte))
  | append (lpath rpath : Option (List Byte))

namespace Visit
open Client Transfer

section Exec

variable {κ : Type} (N : NetKernel κ) (B : ℕ+) (m m' l l' : Alloc) (n : Nat)

def exec : Visit → ClientM κ Byte
  | control c           => onControl (c.exec N.toKernel n)
  | get_response        => onControl (Ftpbuf.getResponse N.toKernel n)
  | useraddr sa         => onControl (Ftpbuf.useraddr N n sa)
  | list rpath just     => Client.list N B m m' n rpath just
  | getfile rpath lpath => Client.getfile N B m m' l l' n rpath lpath
  | putfile lpath rpath => Client.putfile N B m m' n lpath rpath
  | putunique lpath     => Client.putunique N B m m' n lpath
  | append lpath rpath  => Client.append N B m m' n lpath rpath

end Exec

variable {κ α : Type} {N : NetKernel κ} {B : ℕ+} {m m' l l' : Alloc} {n : Nat} {ctl : Int} {base : SocketLog}

/-- Between two calls. -/
def Between (ctl : Int) (base : SocketLog) (s : Proc Client (κ × SocketLog)) : Prop :=
  Holding ctl base .nothing s.transfer

/-- After `std::terminate`. -/
def Terminated (ctl : Int) (base : SocketLog) (s : Proc Client (κ × SocketLog)) : Prop :=
  Halted ctl base s.transfer

/-- A program that leaves no socket open behind it. -/
abbrev Closes (p : ClientM (κ × SocketLog) α) : Prop :=
  ∀ ctl base, Blocks (Between ctl base) p (Between ctl base) (Between ctl base) (Terminated ctl base)

theorem onTransfer_closes {p : Prog Raised (Proc Transfer (κ × SocketLog)) α}
    (hp : ∀ ctl base, Blocks (Holding ctl base .nothing) p
      (Holding ctl base .nothing) (Holding ctl base .nothing) (Halted ctl base)) :
    Closes (onTransfer p) := fun ctl base =>
  (hp ctl base).zoom (fun _ h => h) (fun _ _ h => h) (fun _ _ h => h) fun _ _ h => h

theorem onControl_closes {p : FtpM (κ × SocketLog) α} (hp : Prog.Keeps (OnBase UsesOwn) p) :
    Closes (onControl p) :=
  onTransfer_closes fun _ _ => .raising (onFtp_holding hp)

theorem ftpdata_closes (portno : Int) (i : Bool) (o : Option OStream) (cmd : List Byte)
    (arg : Option (List Byte)) :
    Closes (onTransfer (ftpdata N.logged B m m' n portno i o cmd arg)) :=
  onTransfer_closes fun _ _ => ftpdata_holding portno i o cmd arg

/-- A program that leaves the ftpbuf alone: the streams and the files have no sockets. -/
theorem Between.aside {s : Proc Client (κ × SocketLog)} (h : Between ctl base s) {f : Client → Client}
    (hf : ∀ x, (f x).transfer.ftp = x.transfer.ftp) : Between ctl base (s.onObj f) :=
  h.same (congrArg (fun b => b.rep.sock) (hf s.obj)) rfl rfl

theorem aside_closes {f : Client → Client} (hf : ∀ x, (f x).transfer.ftp = x.transfer.ftp) :
    Closes (modify (Proc.onObj f) : ClientM (κ × SocketLog) PUnit) :=
  fun _ _ => .modify fun _ h => h.aside hf

theorem openOut_ftp (lpath : Option (List Byte)) (x : Client) :
    (openOut lpath x).transfer.ftp = x.transfer.ftp := by
  rw [openOut]
  split <;> rfl

theorem closeOut_ftp (x : Client) : (closeOut x).transfer.ftp = x.transfer.ftp := by
  rw [closeOut]
  split <;> rfl

theorem list_closes (rpath : Option (List Byte)) (just : Bool) :
    Closes (Client.list N.logged B m m' n rpath just) := by
  intro ctl base
  refine .get_bind fun _ => ?_
  cases just with
  | true => exact ftpdata_closes _ _ _ _ _ ctl base
  | false => exact ftpdata_closes _ _ _ _ _ ctl base

theorem openFile_closes (rpath lpath : Option (List Byte)) :
    Closes (openFile N.logged B l l' n rpath lpath) := by
  intro ctl base
  have hfile := aside_closes (κ := κ) (openOut_ftp (lpath.or rpath)) ctl base
  cases rpath with
  | none => exact .bind (list_closes none false ctl base) fun _ => hfile
  | some rpath => exact hfile

theorem getfile_closes (rpath lpath : Option (List Byte)) :
    Closes (Client.getfile N.logged B m m' l l' n rpath lpath) := by
  intro ctl base
  have hclose : Prog.Triple (Between ctl base)
      (modify (Proc.onObj closeOut) : Prog Thrown (Proc Client (κ × SocketLog)) PUnit)
      (Between ctl base) (Terminated ctl base) :=
    .modify fun _ h => h.aside closeOut_ftp
  exact .bind (openFile_closes rpath lpath ctl base) fun _ =>
    .inBlock (ftpdata_closes _ _ _ _ _ ctl base) hclose hclose

/-- A file that is read and sent. -/
theorem openIn_closes (lpath : List Byte) (cmd : List Byte) (arg : Option (List Byte)) :
    Closes (do
      modify (Proc.onObj (openIn lpath))
      onTransfer (ftpdata N.logged B m m' n 10000 true none cmd arg) : ClientM (κ × SocketLog) Byte) :=
  fun ctl base => .bind (aside_closes (f := openIn lpath) (fun _ => rfl) ctl base) fun _ =>
    ftpdata_closes _ _ _ _ _ ctl base

/-- `t` is at the head of the loop that receives, in a call begun in `s`.  `getfile` without a remote path calls
`list` first. -/
inductive Receives (N : NetKernel κ) (B : ℕ+) (s : Proc Client κ) (t : Proc Transfer κ) : Visit → Prop where
  | list {rpath : Option (List Byte)} {just : Bool} (ho : s.obj.transfer.ftp.o ≠ none)
      (h : Receiving N B .own (if just then ascii "NLST" else ascii "LIST") rpath s.transfer t) :
      Receives N B s t (.list rpath just)
  | listing {lpath : Option (List Byte)} (ho : s.obj.transfer.ftp.o ≠ none)
      (h : Receiving N B .own (ascii "LIST") none s.transfer t) : Receives N B s t (.getfile none lpath)
  | getfile {l l' : Alloc} {n : Nat} {rpath lpath : Option (List Byte)} {s₁ : Proc Client κ}
      (hfile : openFile N B l l' n rpath lpath s = .ret () s₁)
      (h : Receiving N B .file (ascii "RETR") rpath s₁.transfer t) : Receives N B s t (.getfile rpath lpath)

/-- **The iterations of a download.** -/
theorem receives_holding {s : Proc Client (κ × SocketLog)} {t : Proc Transfer (κ × SocketLog)} {v : Visit}
    (h : v.Receives N.logged B s t) (hs : Between ctl base s) : Holding ctl base .both t := by
  cases h with
  | list _ h => exact receiving_holding h hs
  | listing _ h => exact receiving_holding h hs
  | getfile hfile h => exact receiving_holding h ((openFile_closes _ _ ctl base).ret hs hfile)

theorem usesOwn_exec (c : Ftpbuf.Call) : Prog.Keeps (OnBase UsesOwn) (c.exec N.logged.toKernel n) := by
  have hsend : ∀ verb arg, Prog.Keeps (OnBase UsesOwn) (Ftpbuf.sendCmd N.logged.toKernel n verb arg) :=
    fun verb arg => Ftpbuf.keeps_sendCmd (ownFrame_usesOwn N) (getFrame_usesOwn N) n verb arg
  have hc : Closed (OnBase (β := Ftpbuf) (UsesOwn (κ := κ))) := closed_usesOwn.onBase
  cases hs : c.sends with
  | some p => rw [Ftpbuf.Call.exec_of_sends _ _ hs]; exact hsend p.1 p.2
  | none =>
      cases c with
      | rename rpath newrpath =>
          cases rpath with
          | none => exact hc.keeps_pure _
          | some rpath =>
              cases newrpath with
              | none => exact hc.keeps_pure _
              | some newrpath =>
                  refine hc.keeps_bind (hsend _ _) fun v => ?_
                  split
                  · exact hc.keeps_pure _
                  · exact hsend _ _
      | _ => cases hs

/-- **A call** closes what it has opened, also where it throws. -/
theorem exec_closes (N : NetKernel κ) (B : ℕ+) (m m' l l' : Alloc) (n : Nat) (v : Visit) :
    Closes (v.exec N.logged B m m' l l' n) := by
  cases v with
  | control c => exact onControl_closes (usesOwn_exec c)
  | get_response => exact onControl_closes (Ftpbuf.keeps_getResponse (getFrame_usesOwn N) n)
  | useraddr sa => exact onControl_closes (usesOwn_useraddr n sa)
  | list rpath just => exact list_closes rpath just
  | getfile rpath lpath => exact getfile_closes rpath lpath
  | putfile lpath rpath =>
      cases lpath with
      | none => exact fun _ _ => .pure _
      | some lpath => exact openIn_closes lpath _ _
  | putunique lpath =>
      cases lpath with
      | none => exact fun _ _ => .pure _
      | some lpath => exact openIn_closes lpath _ _
  | append lpath rpath =>
      cases lpath with
      | none => exact fun _ _ => .pure _
      | some lpath => exact openIn_closes lpath _ _

end Visit

section Sessions
open Visit

variable {κ : Type} {N : NetKernel κ} {B : ℕ+} {s s' : Proc Client (κ × SocketLog)}

/-- A session: calls that return or throw, and what the program does with its streams and files between
them. -/
inductive Visits (N : NetKernel κ) (B : ℕ+) (s : Proc Client κ) : Proc Client κ → Prop where
  | start : Visits N B s s
  | aside {s₁ : Proc Client κ} {f : Client → Client} (h : Visits N B s s₁)
      (hf : ∀ x, (f x).transfer.ftp = x.transfer.ftp) : Visits N B s (s₁.onObj f)
  | returned {s₁ s₂ : Proc Client κ} {v : Visit} {m m' l l' : Alloc} {n : Nat} {c : Byte} (h : Visits N B s s₁)
      (hret : v.exec N B m m' l l' n s₁ = .ret c s₂) : Visits N B s s₂
  | thrown {s₁ s₂ : Proc Client κ} {v : Visit} {m m' l l' : Alloc} {n : Nat} {e : Thrown} (h : Visits N B s s₁)
      (hthrown : v.exec N B m m' l l' n s₁ = .thrown (.exception e) s₂) : Visits N B s s₂

theorem between_of_visits (h : Visits N.logged B s s') : Between s.obj.transfer.ftp.rep.sock s.log s' := by
  induction h with
  | start => exact ⟨rfl, .start _ _⟩
  | aside h hf ih => exact ih.aside hf
  | returned h hret ih => exact Blocks.ret (exec_closes _ _ _ _ _ _ _ _ _ _) ih hret
  | thrown h hthrown ih => exact Blocks.exception (exec_closes _ _ _ _ _ _ _ _ _ _) ih hthrown

/-- **The sockets of a session.**  Whatever the kernel answers, between two calls each socket that has been
opened has been closed, once, and none has been used or closed but while it was open; the control connection
stays open.  In a download that the server has accepted, in every iteration, the log is careful too, and of
the sockets opened the two of the transfer are open.  A call in which a destructor throws ends the program:
there may be sockets that are still open, but none has been closed that was not open. -/
theorem sockets_settled (h : Visits N.logged B s s') :
    (∃ made, s'.log = s.log ++ made ∧ Dealing.Settled [s.obj.transfer.ftp.rep.sock] made) ∧
    (∀ (v : Visit) (t : Proc Transfer (κ × SocketLog)), v.Receives N.logged B s' t →
      ∃ made, t.log = s.log ++ made ∧ Dealing.Careful [s.obj.transfer.ftp.rep.sock] made ∧
        (Dealing.acquired made).Perm ([t.obj.c.rep.sock, t.obj.sb.rep.sock] ++ Dealing.released made)) ∧
    ∀ (v : Visit) (m m' l l' : Alloc) (n : Nat) (s₂ : Proc Client (κ × SocketLog)),
      v.exec N.logged B m m' l l' n s' = .thrown .terminate s₂ →
        ∃ made, s₂.log = s.log ++ made ∧ Dealing.Careful [s.obj.transfer.ftp.rep.sock] made ∧
          (Dealing.released made).Subperm (Dealing.acquired made) := by
  have hbetween := between_of_visits h
  refine ⟨?_, fun v t hreceives => ?_, fun v m m' l l' n s₂ hend => ?_⟩
  · obtain ⟨made, hlog, htrail⟩ := hbetween.left
    exact ⟨made, hlog, Dealing.settled_of_trail htrail⟩
  · obtain ⟨made, hlog, htrail⟩ := (receives_holding hreceives hbetween).left
    exact ⟨made, hlog, Dealing.careful_of_trail htrail, Dealing.acquired_of_trail htrail⟩
  · obtain ⟨o, hheld⟩ := Blocks.terminated (exec_closes N B m m' l l' n v _ _) hbetween hend
    obtain ⟨made, hlog, htrail⟩ := hheld.left
    exact ⟨made, hlog, Dealing.careful_of_trail htrail, Dealing.released_of_trail htrail⟩

/-! ### An upload -/

/-- A client that has done nothing yet. -/
def untouched : Proc Client ((Peer 1024 Unit × Peer 1024 Unit) × SocketLog) where
  obj := { (Client.downloading true).obj with transfer := Transfer.client.obj }
  sys := ⟨(Transfer.client.sys.kern, []), 0, []⟩

/-- A download of the file `f`, to the head of the second iteration. -/
def begun : TransferM ((Peer 1024 Unit × Peer 1024 Unit) × SocketLog) (Byte × (Unit ⊕ Unit)) := do
  Transfer.openSb (Transfer.server 5).logged bufsiz Transfer.scratch sock_stream 0
  let reply ← Transfer.connect (Transfer.server 5).logged 2 10000 (ascii "RETR") (some (ascii "f"))
  Transfer.openC (Transfer.server 5).logged bufsiz Transfer.scratch
  let r ← Transfer.receiveRound (Transfer.server 5).logged.toKernel .file
  return (reply, r)

theorem untouched_receives : ∃ t, (getfile (some (ascii "f")) none).Receives (Transfer.server 5).logged bufsiz
    untouched t := by
  let s₁ := untouched.onObj (Client.openOut (some (ascii "f")))
  have hseen : (begun s₁.transfer).result.map (fun r => r.1.toOption) = some (some (49, .inl ())) := by
    decide +kernel
  cases hrun : begun s₁.transfer with
  | ret a t =>
      rw [hrun] at hseen
      obtain ⟨⟨⟩, t₀, hopen, hrest⟩ := Prog.bind_eq_ret hrun
      obtain ⟨reply, t₁, hconn, hrest⟩ := Prog.bind_eq_ret hrest
      obtain ⟨⟨⟩, t₂, hacc, hrest⟩ := Prog.bind_eq_ret hrest
      obtain ⟨r, t₃, hround, hret⟩ := Prog.bind_eq_ret hrest
      cases hret
      simp only [Outcome.result, Option.map_some, Except.toOption, Option.some.injEq, Prod.mk.injEq] at hseen
      obtain ⟨rfl, rfl⟩ := hseen
      have hfile : Client.openFile (Transfer.server 5).logged bufsiz Transfer.scratch Transfer.scratch 0
          (some (ascii "f")) none untouched = .ret () s₁ := rfl
      exact ⟨t, .getfile hfile ⟨hopen, hconn, by decide, hacc, .step hround (.refl () t)⟩⟩
  | thrown e t =>
      rw [hrun] at hseen
      cases hseen
  | spin =>
      rw [hrun] at hseen
      cases hseen

/-- The two sockets of an upload; and those of a download that goes on. -/
theorem sockets_settled_putfile : (∃ s', Visits (Transfer.server 5).logged bufsiz untouched s' ∧
    Dealing.acquired s'.log = [4, 5] ∧
    ∃ made, s'.log = untouched.log ++ made ∧ Dealing.Settled [3] made) ∧
    ∃ t : Proc Transfer _, (getfile (some (ascii "f")) none).Receives (Transfer.server 5).logged bufsiz untouched t ∧
      ∃ made, t.log = untouched.log ++ made ∧ Dealing.Careful [3] made ∧
        (Dealing.acquired made).Perm ([t.obj.c.rep.sock, t.obj.sb.rep.sock] ++ Dealing.released made) := by
  obtain ⟨t, ht⟩ := untouched_receives
  refine ⟨?_, t, ht, (sockets_settled .start).2.1 _ t ht⟩
  have hseen : (((putfile (some (ascii "f")) none).exec (Transfer.server 5).logged bufsiz Transfer.scratch
      Transfer.scratch Transfer.scratch Transfer.scratch 2 untouched).result.map fun r =>
        (r.1.toOption, Dealing.acquired r.2.log)) = some (some 50, [4, 5]) := by decide +kernel
  cases hrun : (putfile (some (ascii "f")) none).exec (Transfer.server 5).logged bufsiz Transfer.scratch
      Transfer.scratch Transfer.scratch Transfer.scratch 2 untouched with
  | ret c s' =>
      rw [hrun] at hseen
      have hvisits : Visits (Transfer.server 5).logged bufsiz untouched s' := .returned .start hrun
      exact ⟨s', hvisits, (Prod.mk.inj (Option.some.inj hseen)).2, (sockets_settled hvisits).1⟩
  | thrown e s' =>
      rw [hrun] at hseen
      cases hseen
  | spin =>
      rw [hrun] at hseen
      cases hseen

end Sessions

end Socketpp
