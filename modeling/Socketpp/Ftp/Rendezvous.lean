import Socketpp.Ftp.Wire

/-!
# Ftp — the rendezvous

The server connects to the address that PORT names, so the client has to listen there by the time that the
server reads the transfer command.  `Socket` is what a kernel knows of a socket, and `Tells` says what a
kernel does to it.  `bind_until_success` may return the number of another port than the one it has bound;
`ftpdata` asks the kernel for the port, and PORT names the one that is bound (`rendezvous`).
-/

namespace Socketpp
open Lib

/-- What the kernel knows of a socket. -/
structure Socket where
  address   : Option Sockinetaddr
  listening : Bool
deriving DecidableEq

/-- `view` is what the kernel knows of its sockets.  A socket that is bound has the host that is asked for,
and keeps its address; only `::bind`, `::listen`, `::socket`, `::accept` and `::close` change anything. -/
structure NetKernel.Tells {κ : Type} (N : NetKernel κ) (view : κ → Int → Socket) : Prop where
  write         : ∀ k fd bs, view (N.write k fd bs).2 = view k
  read          : ∀ k fd len, view (N.read k fd len).2 = view k
  selectRead    : ∀ k fd sec, view (N.selectRead k fd sec).2 = view k
  selectWrite   : ∀ k fd sec, view (N.selectWrite k fd sec).2 = view k
  sockatmark    : ∀ k fd, view (N.sockatmark k fd).2 = view k
  gethostname   : ∀ k, view (N.gethostname k).2 = view k
  gethostbyname : ∀ k name, view (N.gethostbyname k name).2 = view k
  bind          : ∀ {k fd sa k'}, N.bind k fd sa = (.ok (), k') →
    ∃ port, view k' fd = ⟨some { sa with sin_port := port }, false⟩
  getsockname   : ∀ {k fd a sa k'}, (view k fd).address = some a → N.getsockname k fd = (.ok sa, k') →
    sa = a ∧ view k' = view k
  listen        : ∀ {k fd num a k'}, (view k fd).address = some a → N.listen k fd num = (.ok (), k') →
    view k' fd = ⟨some a, true⟩

/-- Any host, and this port. -/
def anyHost (port : NetPort) : Sockinetaddr := ⟨af_inet, ⟨0, 0, 0, 0⟩, port⟩

/-- The kernel has answered with `host` for the name of the local host. -/
def NetKernel.IsLocalhost {κ : Type} (N : NetKernel κ) (host : InAddr) : Prop :=
  ∃ k k₁ k₂ name, N.gethostname k = (.ok name, k₁) ∧ N.gethostbyname k₁ name = (some host, k₂)

/-! ### What the calls do to the sockets -/

section Calls

variable {β κ α : Type} {N : NetKernel κ} {view : κ → Int → Socket}

/-- The sockets are as they were. -/
def SocketsSame (view : κ → Int → Socket) (s s' : Proc β κ) : Prop := view s'.sys.kern = view s.sys.kern

theorem closed_socketsSame : Closed (SocketsSame view : Proc β κ → Proc β κ → Prop) :=
  ⟨fun _ => rfl, fun _ _ _ h h' => h'.trans h⟩

theorem putFrame_socketsSame (h : N.Tells view) : Sockbuf.PutFrame N.toKernel (SocketsSame view) where
  toClosed := closed_socketsSame
  write _ _ := Sockbuf.keeps_writeCall fun _ _ _ hk _ => (congrArg view hk).trans (h.write _ _ _)
  selectWrite _ _ := Sockbuf.keeps_answer fun _ _ _ hk _ => (congrArg view hk).trans (h.selectWrite _ _ _)
  put _ _ := rfl

theorem getFrame_socketsSame (h : N.Tells view) : Sockbuf.GetFrame N.toKernel (SocketsSame view) where
  toClosed := closed_socketsSame
  read _ _ := Sockbuf.leaves_readCall fun _ _ hk _ => (congrArg view hk).trans (h.read _ _ _)
  selectRead _ _ := Sockbuf.keeps_answer fun _ _ _ hk _ => (congrArg view hk).trans (h.selectRead _ _ _)
  sockatmark _ := Sockbuf.keeps_answer fun _ _ _ hk _ => (congrArg view hk).trans (h.sockatmark _ _)
  get _ _ := rfl

/-- A call on sockets that has not failed. -/
theorem netCall_some {c : κ → Except Int α × κ} {s s' : Proc β κ} {a : α}
    (h : (netCall c : Prog Thrown (Proc β κ) (Option α)) s = .ret (some a) s') :
    c s.sys.kern = (.ok a, s'.sys.kern) := by
  rcases hc : c s.sys.kern with ⟨r, k⟩
  cases r with
  | ok a' =>
      rw [netCall_ok hc] at h
      cases h
      rfl
  | error e =>
      rw [netCall_error hc] at h
      cases h

theorem checked_ret {operation : String} {r : Option α} {a : α} {t t' : Proc Sockbuf κ}
    (h : Sockbuf.checked operation r t = .ret a t') : r = some a ∧ t' = t := by
  cases r with
  | some a' =>
      cases h
      exact ⟨rfl, rfl⟩
  | none =>
      obtain ⟨_, _, -, h⟩ := Prog.bind_eq_ret h
      cases h

/-- A checked call on sockets that returns. -/
theorem checkedCall_ret {operation : String} {c : Int → κ → Except Int α × κ} {t t' : Proc Sockbuf κ}
    {a : α} (h : (do
      let s ← get
      Sockbuf.checked operation (← netCall (c s.obj.rep.sock)) : SockM κ α) t = .ret a t') :
    c t.obj.rep.sock t.sys.kern = (.ok a, t'.sys.kern) := by
  obtain ⟨_, _, hget, h⟩ := Prog.bind_eq_ret h
  cases hget
  obtain ⟨r, t₁, hcall, h⟩ := Prog.bind_eq_ret h
  obtain ⟨rfl, rfl⟩ := checked_ret h
  exact netCall_some hcall

theorem bind_ret {sa : Sockinetaddr} {t t' : Proc Sockbuf κ} (h : Sockbuf.bind N sa t = .ret () t') :
    N.bind t.sys.kern t.obj.rep.sock sa = (.ok (), t'.sys.kern) :=
  checkedCall_ret (c := fun fd k => N.bind k fd sa) h

theorem listen_ret {num : Int} {t t' : Proc Sockbuf κ} (h : Sockbuf.listen N num t = .ret () t') :
    N.listen t.sys.kern t.obj.rep.sock num = (.ok (), t'.sys.kern) :=
  checkedCall_ret (c := fun fd k => N.listen k fd num) h

/-- The descriptor of the object is bound to `sa`. -/
def BoundTo (view : κ → Int → Socket) (sa : Sockinetaddr) (t : Proc Sockbuf κ) : Prop :=
  (view t.sys.kern t.obj.rep.sock).address = some sa

/-- **`bind_until_success`** returns with the socket bound, to any host and some port. -/
theorem bind_until_success_bound (h : N.Tells view) {n : Nat} {portno m : Int} {t t' : Proc Sockbuf κ}
    (hret : Sockinetbuf.bind_until_success N n portno t = .ret m t') :
    ∃ port, BoundTo view (anyHost port) t' := by
  obtain ⟨_, p, t₁, -, hlast⟩ := Prog.loop_eq_ret hret
  rw [Sockinetbuf.bindRound, Prog.tryCatch_apply] at hlast
  cases htry : (do
      Sockinetbuf.bindPort N p
      return .inr p : SockM κ (Int ⊕ Int)) t₁ with
  | ret r t₂ =>
      rw [htry] at hlast
      obtain ⟨_, _, hbind, hpure⟩ := Prog.bind_eq_ret htry
      cases hpure
      cases hlast
      have hsock : t'.obj = t₁.obj := ((keeps_bind N _).ret hbind).1
      obtain ⟨port, hport⟩ := h.bind (bind_ret hbind)
      refine ⟨port, ?_⟩
      rw [BoundTo, hsock, hport]
      rfl
  | thrown e t₂ =>
      -- a round that catches an error goes round again, or throws
      rw [htry] at hlast
      cases e with
      | err e operation specification =>
          rw [Outcome.handle_thrown, Sockinetbuf.bindCatch, Prog.ite_apply] at hlast
          split at hlast <;> cases hlast
      | _ => cases hlast
  | spin =>
      rw [htry] at hlast
      cases hlast

/-- **`localaddr`** returns the address that the socket is bound to. -/
theorem localaddr_bound (h : N.Tells view) {a sa : Sockinetaddr} {t t' : Proc Sockbuf κ}
    (hb : BoundTo view a t) (hret : Sockinetbuf.localaddr N t = .ret sa t') :
    sa = a ∧ SocketsSame view t t' := by
  obtain ⟨_, _, hget, hret⟩ := Prog.bind_eq_ret hret
  cases hget
  obtain ⟨r, t₁, hcall, hret⟩ := Prog.bind_eq_ret hret
  cases r with
  | some sin =>
      cases hret
      exact h.getsockname hb (netCall_some hcall)
  | none =>
      obtain ⟨_, _, -, hret⟩ := Prog.bind_eq_ret hret
      cases hret

/-- **`listen`** returns with the socket listening where it is bound. -/
theorem listen_listening (h : N.Tells view) {a : Sockinetaddr} {num : Int} {t t' : Proc Sockbuf κ}
    (hb : BoundTo view a t) (hret : Sockbuf.listen N num t = .ret () t') :
    view t'.sys.kern t'.obj.rep.sock = ⟨some a, true⟩ := by
  have hsock : t'.obj = t.obj := ((keeps_listen N num).ret hret).1
  rw [hsock]
  exact h.listen hb (listen_ret hret)

end Calls

/-! ### What the ftpbuf does to the sockets -/

namespace Ftpbuf

variable {κ : Type} {N : NetKernel κ} {view : κ → Int → Socket} {n : Nat}

theorem socketsSame_putCmd (h : N.Tells view) (cmd : List Byte) (arg : Option (List Byte)) :
    Prog.Keeps (SocketsSame view) (putCmd N.toKernel cmd arg) :=
  keeps_putCmd (putFrame_socketsSame h).own cmd arg

theorem socketsSame_getResponse (h : N.Tells view) (n : Nat) :
    Prog.Keeps (SocketsSame view) (getResponse N.toKernel n) :=
  keeps_getResponse (getFrame_socketsSame h) n

theorem socketsSame_sendCmd (h : N.Tells view) (n : Nat) (cmd : List Byte) (arg : Option (List Byte)) :
    Prog.Keeps (SocketsSame view) (sendCmd N.toKernel n cmd arg) :=
  keeps_sendCmd (putFrame_socketsSame h).own (getFrame_socketsSame h) n cmd arg

/-- The address of the local host is one that the kernel has answered with. -/
theorem localhost_ret (h : N.Tells view) {t t' : Proc Ftpbuf κ} {host : InAddr}
    (hret : localhost N t = .ret host t') :
    N.IsLocalhost host ∧ t'.obj = t.obj ∧ t'.sys.trace = t.sys.trace ∧ SocketsSame view t t' := by
  obtain ⟨r, t₁, hname, hret⟩ := Prog.bind_eq_ret hret
  cases r with
  | none => cases hret
  | some name =>
      obtain ⟨a, t₂, hhost, hret⟩ := Prog.bind_eq_ret hret
      have hstill := (keeps_netCall _).ret hname
      have hk := netCall_some hname
      have hview : view t₁.sys.kern = view t.sys.kern := by
        rw [← h.gethostname t.sys.kern, hk]
      obtain ⟨rfl, rfl⟩ : a = (N.gethostbyname t₁.sys.kern name).1 ∧ t₂ = { t₁ with
          sys := { t₁.sys with kern := (N.gethostbyname t₁.sys.kern name).2 } } := by
        cases hhost
        exact ⟨rfl, rfl⟩
      cases ha : (N.gethostbyname t₁.sys.kern name).1 with
      | none =>
          rw [ha] at hret
          cases hret
      | some host' =>
          rw [ha] at hret
          cases hret
          refine ⟨⟨_, _, _, name, hk, Prod.ext ha rfl⟩, hstill.1, hstill.2, ?_⟩
          exact (h.gethostbyname t₁.sys.kern name).trans hview

/-- **`useraddr`** for a socket bound to any host: PORT names the local host. -/
theorem useraddr_ret (h : N.Tells view) {t t' : Proc Ftpbuf κ} {port : NetPort} {c : Byte}
    (hw : t.base.obj.Writable) (hret : useraddr N n (anyHost port) t = .ret c t') :
    ∃ host, N.IsLocalhost host ∧ SocketsSame view t t' ∧
      Flushed t.base t'.base (commandLine (ascii "PORT") (portArg host (ntohs port)) ++ [13, 10]) := by
  have hany : (anyHost port).sin_addr = ⟨0, 0, 0, 0⟩ := rfl
  rw [useraddr, if_pos hany] at hret
  obtain ⟨host, t₁, hlocal, hsend⟩ := Prog.bind_eq_ret hret
  obtain ⟨hhost, hobj, htrace, hview⟩ := localhost_ret h hlocal
  have hsame : Sockbuf.PutSame t.base t₁.base :=
    Request.putSame_of_still (by rw [Proc.base, hobj]; rfl) htrace
  refine ⟨host, hhost, ?_, ?_⟩
  · exact ((socketsSame_sendCmd h n _ _).ret hsend).trans hview
  · exact Request.flushed_behind hsame (Request.flushed_sendCmd (writable_of_putSame hsame hw) hsend)

end Ftpbuf

namespace Request
open Client Transfer Ftpbuf

variable {κ : Type} {N : NetKernel κ} {view : κ → Int → Socket} {B : ℕ+} {m : Alloc} {n : Nat}
  {s s₀ s₁ : Proc Client κ} {r : Request} {host : InAddr} {port : NetPort}

/-- The data socket listens on `port`. -/
def Listens (view : κ → Int → Socket) (port : NetPort) (s : Proc Client κ) : Prop :=
  view s.sys.kern s.obj.transfer.sb.rep.sock = ⟨some (anyHost port), true⟩

theorem onSb_ret {α : Type} {p : SockM κ α} {a : α} {t t' : Proc Transfer κ}
    (h : onSb p t = .ret a t') : p ⟨t.obj.sb, t.sys⟩ = .ret a ⟨t'.obj.sb, t'.sys⟩ := by
  obtain ⟨u, hp, rfl⟩ := Prog.zoom_eq_ret h
  exact hp

/-- **`prepare`** returns with PORT sent, and the data socket listening on the port that it names. -/
theorem prepare_ret (h : N.Tells view) (hw : s.control.obj.Writable)
    (hret : onTransfer (raising (prepare N n 10000)) s = .ret () s₁) :
    ∃ host port, N.IsLocalhost host ∧ Listens view port s₁ ∧ Flushed s.control s₁.control
      (commandLine (ascii "PORT") (portArg host (ntohs port)) ++ [13, 10]) := by
  obtain ⟨hret, -⟩ := onTransfer_ret hret
  rw [raising_ret] at hret
  obtain ⟨_, t₁, hbind, hret⟩ := Prog.bind_eq_ret hret
  obtain ⟨sa, t₂, hlocal, hret⟩ := Prog.bind_eq_ret hret
  obtain ⟨c, t₃, haddr, hlisten⟩ := Prog.bind_eq_ret hret
  have h₁ := (still_onSb (keeps_bind_until_success N n 10000)).ret hbind
  have h₂ := (still_onSb (keeps_localaddr N)).ret hlocal
  have h₃ := (still_onSb (keeps_listen N 1)).ret hlisten
  obtain ⟨port, hbound⟩ := bind_until_success_bound h (onSb_ret hbind)
  obtain ⟨rfl, hview⟩ := localaddr_bound h hbound (onSb_ret hlocal)
  obtain ⟨haddr, hobj⟩ := onFtp_ret haddr
  have hbefore : Sockbuf.PutSame s.control ⟨t₂.obj.ftp.toSockbuf, t₂.sys⟩ :=
    putSame_of_still (by rw [h₂.1, h₁.1]; rfl) (h₂.2.trans h₁.2)
  have hbehind : Sockbuf.PutSame ⟨t₃.obj.ftp.toSockbuf, t₃.sys⟩ s₁.control :=
    putSame_of_still (congrArg (fun x => x.ftp.toSockbuf) h₃.1) h₃.2
  obtain ⟨host, hhost, hview', hport⟩ := useraddr_ret h (writable_of_putSame hbefore hw) haddr
  refine ⟨host, port, hhost, ?_, flushed_behind hbefore (hport.same hbehind)⟩
  refine listen_listening h ?_ (onSb_ret hlisten)
  have hsb : t₃.obj.sb = t₁.obj.sb := by rw [hobj, h₂.1]
  show (view t₃.sys.kern t₃.obj.sb.rep.sock).address = _
  rw [show view t₃.sys.kern = view t₁.sys.kern from hview'.trans hview, hsb]
  exact hbound

/-- What only the ftpbuf does leaves the data socket alone. -/
theorem listens_onControl {α : Type} {p : FtpM κ α} {a : α} (hp : Prog.Keeps (SocketsSame view) p)
    (hl : Listens view port s) (hret : onControl p s = .ret a s₁) : Listens view port s₁ := by
  obtain ⟨hret, hsb⟩ := onControl_ret hret
  have hview : view s₁.sys.kern = view s.sys.kern := hp.ret hret
  rw [Listens, hview, hsb]
  exact hl

/-- Between `s` and `s₀` PORT has been sent with `host` and `port`, and between `s₀` and `s₁` the transfer
command.  All the time the data socket listens where a server reads that it does, and so it does when the
reply has come. -/
structure Meets (N : NetKernel κ) (view : κ → Int → Socket) (r : Request) (s s₀ s₁ : Proc Client κ)
    (host : InAddr) (port : NetPort) : Prop where
  ours     : N.IsLocalhost host
  told     : Flushed s.control s₀.control (commandLine (ascii "PORT") (portArg host (ntohs port)) ++ [13, 10])
  reads    : readPort (portArg host (ntohs port)) = some (host, (ntohs port : Int))
  before   : Listens view port s₀
  asked    : Flushed s₀.control s₁.control (r.verb ++ argBytes r.arg ++ [13, 10])
  behind   : Listens view port s₁
  answered : ∀ n reply s₂, onControl (getResponse N.toKernel n) s₁ = .ret reply s₂ → Listens view port s₂

/-- **The rendezvous.**  Whatever ports are occupied and whatever the server answers to PORT: when a call
with a data connection has handed over its transfer command, its data socket listens on the port that the
PORT command before it has named, with an address of the local host, and has done so since before the first
byte of the transfer command.  It goes on from there; and a call that returns has come there. -/
theorem rendezvous (m' l l' : Alloc) (h : N.Tells view) (hN : N.Avoids s.control.obj.rep.sock)
    (hw : s.control.obj.Writable) {opening : Client → Client} (hf : r.first = .port opening) :
    (∀ s₁, r.ask N B m n s = .ret () s₁ →
      (∃ s₀ host port, Meets N view r s s₀ s₁ host port) ∧
        r.call N B m m' l l' n s = r.after N B m' n s₁) ∧
    ∀ v s', r.call N B m m' l l' n s = .ret v s' → ∃ s₁, r.ask N B m n s = .ret () s₁ := by
  have hpos : r.Positive N n s := fun rpath hfrom => by
    rw [hf] at hfrom
    cases hfrom
  refine ⟨fun s₁ hask => ⟨?_, call_eq_after hpos hask m' l l'⟩, fun v s' hret => ask_of_call hpos hret⟩
  obtain ⟨s₀, w, hfirst, hput⟩ := ask_ret.mp hask
  rw [hf] at hfirst
  obtain ⟨s₂, hopen, hprep⟩ := first_port_ret.mp hfirst
  have hopening : (s.onObj opening).control = s.control := by
    rw [Proc.control, Proc.ftpbuf, Proc.onObj, opening_ftp hf]
    rfl
  obtain ⟨hsame, -⟩ := openSb_control hN hopen
  rw [hopening] at hsame
  obtain ⟨host, port, hhost, hlistens, hport⟩ := prepare_ret h (writable_of_putSame hsame hw) hprep
  have hbehind := listens_onControl (socketsSame_putCmd h _ _) hlistens hput
  refine ⟨s₀, host, port, hhost, flushed_behind hsame hport, readPort_portArg (ntohs_lt port), hlistens,
    flushed_putCmd hport.writable (onControl_ret hput).1, hbehind, fun n reply s₂ hreply => ?_⟩
  exact listens_onControl (socketsSame_getResponse h n) hbehind hreply

/-! ### A port that is occupied -/

/-- A kernel with something more in its state, which its reads and writes leave alone. -/
def beside (K : Kernel κ) (γ : Type) : Kernel (κ × γ) where
  write k fd bs       := ((K.write k.1 fd bs).1, (K.write k.1 fd bs).2, k.2)
  read k fd len       := ((K.read k.1 fd len).1, (K.read k.1 fd len).2, k.2)
  selectRead k fd sec := ((K.selectRead k.1 fd sec).1, (K.selectRead k.1 fd sec).2, k.2)
  selectWrite k fd sec := ((K.selectWrite k.1 fd sec).1, (K.selectWrite k.1 fd sec).2, k.2)
  sockatmark k fd     := ((K.sockatmark k.1 fd).1, (K.sockatmark k.1 fd).2, k.2)
  shutdown k fd how   := ((K.shutdown k.1 fd how).1, (K.shutdown k.1 fd how).2, k.2)
  open_ k path        := ((K.open_ k.1 path).1, (K.open_ k.1 path).2, k.2)

/-- The kernel of a client whose port 10000 is occupied, with its data socket. -/
def busy : NetKernel ((Peer 1024 Unit × Peer 1024 Unit) × Socket) where
  toKernel          := beside (Transfer.server 5).toKernel Socket
  socket k _ _ _    := (.ok 4, k.1, ⟨none, false⟩)
  bind k _ sa       :=
    if sa.sin_port = htons 10000 then (.error EADDRINUSE, k) else (.ok (), k.1, ⟨some sa, false⟩)
  listen k _ _      := (.ok (), k.1, ⟨k.2.address, true⟩)
  accept k _        := (.ok 5, k)
  getsockname k _   := match k.2.address with
    | some sa => (.ok sa, k)
    | none    => (.error EINVAL, k)
  close k _         := (.ok (), k)
  gethostname k     := (.ok [], k)
  gethostbyname k _ := (some ⟨127, 0, 0, 1⟩, k)

theorem busy_tells : busy.Tells fun k _ => k.2 where
  write _ _ _        := rfl
  read _ _ _         := rfl
  selectRead _ _ _   := rfl
  selectWrite _ _ _  := rfl
  sockatmark _ _     := rfl
  gethostname _      := rfl
  gethostbyname _ _  := rfl
  bind {k fd sa k'} hbind := by
    simp only [busy] at hbind
    split at hbind
    · cases hbind
    · cases hbind
      exact ⟨sa.sin_port, rfl⟩
  getsockname {k fd a sa k'} ha hname := by
    simp only [busy, ha] at hname
    cases hname
    exact ⟨rfl, rfl⟩
  listen {k fd num a k'} ha hlisten := by
    cases hlisten
    rw [ha]

/-- A client of it that asks for a file. -/
def calling : Proc Client ((Peer 1024 Unit × Peer 1024 Unit) × Socket) :=
  { obj := (downloading true).obj, sys := ⟨((downloading true).sys.kern, ⟨none, false⟩), 0, []⟩ }

/-- It listens on the next port. -/
theorem rendezvous_getfile : ∃ s₁, (getfile (ascii "f") none).ask busy bufsiz Transfer.scratch 2 calling =
    .ret () s₁ ∧ (∃ s₀ host port,
      Meets busy (fun k _ => k.2) (getfile (ascii "f") none) calling s₀ s₁ host port) ∧
    s₁.sys.kern.2 = ⟨some (anyHost (htons 10001)), true⟩ := by
  have hN : busy.Avoids calling.control.obj.rep.sock :=
    ⟨fun _ _ _ _ _ h => absurd (Except.ok.inj (congrArg Prod.fst h)) (by decide),
      fun _ _ _ h => absurd (Except.ok.inj (congrArg Prod.fst h)) (by decide)⟩
  have hw : calling.control.obj.Writable := Sockbuf.ofDesc_writable bufsiz 3 _ _
  obtain ⟨hmeets, -⟩ := rendezvous (r := getfile (ascii "f") none) (B := bufsiz) (m := Transfer.scratch)
    (n := 2) Transfer.scratch Transfer.scratch Transfer.scratch busy_tells hN hw rfl
  have hseen : (((getfile (ascii "f") none).ask busy bufsiz Transfer.scratch 2 calling).result.map
      fun r => (r.1.toOption, r.2.sys.kern.2)) =
        some (some (), ⟨some (anyHost (htons 10001)), true⟩) := by decide +kernel
  cases hrun : (getfile (ascii "f") none).ask busy bufsiz Transfer.scratch 2 calling with
  | ret u s₁ =>
      rw [hrun] at hseen
      exact ⟨s₁, rfl, (hmeets s₁ hrun).1, (Prod.mk.inj (Option.some.inj hseen)).2⟩
  | thrown e s' =>
      rw [hrun] at hseen
      cases hseen
  | spin =>
      rw [hrun] at hseen
      cases hseen

end Request

end Socketpp
