import Socketpp.Lib.Ways
import Socketpp.Sockbuf.Methods
import Socketpp.Sockbuf.Only
import Socketpp.Ftp.Sockets
import Socketpp.Ftp.Upload

/-!
# Ftp — a dead control connection

What the methods return on a control connection that reaches end of file.  `NetKernel.feed` is a kernel with
such a connection; all else is as the kernel `A` has it, the writes on the connection included.

`Line` is what is to come on the connection, and the class that `replycode` holds from before, where it is
known.  A reply has the class of its first byte, and if there is none, the class kept (`Line.value`).
-/

namespace Socketpp
open Lib

/-! ### The kernel -/

section Kernels

variable {B : Nat} {ω α : Type}

/-- An answer to which the connection is nothing. -/
def Peer.aside (k : Peer B ω) (f : ω → α × ω) : α × Peer B ω :=
  ((f k.outbox).1, { k with outbox := (f k.outbox).2 })

/-- The kernel `A` with a connection on `ctl`, whose peer has sent what is in the inbox and then closes. -/
def NetKernel.feed (A : NetKernel ω) (B : Nat) (ctl : Int) : NetKernel (Peer B ω) where
  write k fd bs         := k.aside fun o => A.write o fd bs
  read k fd len         := if fd = ctl then k.take len else k.aside fun o => A.read o fd len
  selectRead k fd sec   := if fd = ctl then (.ok 1, k) else k.aside fun o => A.selectRead o fd sec
  selectWrite k fd sec  := if fd = ctl then (.ok 1, k) else k.aside fun o => A.selectWrite o fd sec
  sockatmark k fd       := if fd = ctl then (.ok false, k) else k.aside fun o => A.sockatmark o fd
  shutdown k fd how     := k.aside fun o => A.shutdown o fd how
  open_ k path          := k.aside fun o => A.open_ o path
  socket k domain st p  := k.aside fun o => A.socket o domain st p
  bind k fd sa          := k.aside fun o => A.bind o fd sa
  listen k fd num       := k.aside fun o => A.listen o fd num
  accept k fd           := k.aside fun o => A.accept o fd
  getsockname k fd      := k.aside fun o => A.getsockname o fd
  close k fd            := k.aside fun o => A.close o fd
  gethostname k         := k.aside A.gethostname
  gethostbyname k name  := k.aside fun o => A.gethostbyname o name

/-- No call fails, no wait times out, and there is no out-of-band mark. -/
structure NetKernel.Serves {κ : Type} (N : NetKernel κ) : Prop
    extends N.toKernel.WriteSucceeds, N.toKernel.ReadSucceeds where
  socket        : ∀ k domain st p e k', N.socket k domain st p ≠ (.error e, k')
  bind          : ∀ k fd sa e k', N.bind k fd sa ≠ (.error e, k')
  listen        : ∀ k fd num e k', N.listen k fd num ≠ (.error e, k')
  accept        : ∀ k fd e k', N.accept k fd ≠ (.error e, k')
  getsockname   : ∀ k fd e k', N.getsockname k fd ≠ (.error e, k')
  close         : ∀ k fd e k', N.close k fd ≠ (.error e, k')
  gethostname   : ∀ k e k', N.gethostname k ≠ (.error e, k')
  gethostbyname : ∀ k name k', N.gethostbyname k name ≠ (none, k')

theorem Peer.aside_eq {k k' : Peer B ω} {f : ω → α × ω} {a : α} (h : k.aside f = (a, k')) :
    f k.outbox = (a, k'.outbox) := by
  cases h
  rfl

theorem Peer.aside_of_eq {k : Peer B ω} {f : ω → α × ω} {a : α} {o : ω} (h : f k.outbox = (a, o)) :
    k.aside f = (a, { k with outbox := o }) := by
  rw [aside, h]

variable {ctl : Int} {A : NetKernel ω}

/-- What serves, does so with the connection too. -/
theorem NetKernel.Serves.feed (h : A.Serves) : (A.feed B ctl).Serves where
  write k fd b l := by
    obtain ⟨n, pos, le, o, hw⟩ := h.write k.outbox fd b l
    exact ⟨n, pos, le, _, Peer.aside_of_eq (f := fun o => A.write o fd (b :: l)) hw⟩
  selectWrite k fd sec := by
    by_cases hfd : fd = ctl
    · exact ⟨0, k, if_pos hfd⟩
    · obtain ⟨n, o, hs⟩ := h.selectWrite k.outbox fd sec
      exact ⟨n, _, (if_neg hfd).trans (Peer.aside_of_eq hs)⟩
  read k fd len e hr := by
    by_cases hfd : fd = ctl
    · replace hr : (k.take len).1 = .failed e := (congrArg Prod.fst (if_pos hfd)).symm.trans hr
      revert hr
      fun_cases Peer.take k len <;> (intro hr; cases hr)
    · replace hr : (k.aside fun o => A.read o fd len).1 = .failed e :=
        (congrArg Prod.fst (if_neg hfd)).symm.trans hr
      exact h.read k.outbox fd len e hr
  selectRead k fd sec := by
    by_cases hfd : fd = ctl
    · exact ⟨0, k, if_pos hfd⟩
    · obtain ⟨n, o, hs⟩ := h.selectRead k.outbox fd sec
      exact ⟨n, _, (if_neg hfd).trans (Peer.aside_of_eq hs)⟩
  sockatmark k fd := by
    by_cases hfd : fd = ctl
    · exact ⟨k, if_pos hfd⟩
    · obtain ⟨o, hs⟩ := h.sockatmark k.outbox fd
      exact ⟨_, (if_neg hfd).trans (Peer.aside_of_eq hs)⟩
  socket k domain st p e k' hc :=
    h.socket _ _ _ _ _ _ (Peer.aside_eq (f := fun o => A.socket o domain st p) hc)
  bind k fd sa e k' hc :=
    h.bind _ _ _ _ _ (Peer.aside_eq (f := fun o => A.bind o fd sa) hc)
  listen k fd num e k' hc :=
    h.listen _ _ _ _ _ (Peer.aside_eq (f := fun o => A.listen o fd num) hc)
  accept k fd e k' hc :=
    h.accept _ _ _ _ (Peer.aside_eq (f := fun o => A.accept o fd) hc)
  getsockname k fd e k' hc :=
    h.getsockname _ _ _ _ (Peer.aside_eq (f := fun o => A.getsockname o fd) hc)
  close k fd e k' hc :=
    h.close _ _ _ _ (Peer.aside_eq (f := fun o => A.close o fd) hc)
  gethostname k e k' hc :=
    h.gethostname _ _ _ (Peer.aside_eq (f := A.gethostname) hc)
  gethostbyname k name k' hc :=
    h.gethostbyname _ _ _ (Peer.aside_eq (f := fun o => A.gethostbyname o name) hc)

/-- For an object on `ctl` there is nothing but the connection. -/
theorem feed_sameOn : (A.feed B ctl).toKernel.SameOn (Kernel.feed B fun o bs => A.write o ctl bs) ctl where
  write _ _       := rfl
  read _ _        := if_pos rfl
  selectRead _ _  := if_pos rfl
  selectWrite _ _ := if_pos rfl
  sockatmark _    := if_pos rfl

theorem writeSucceeds_feed (h : A.toKernel.WriteSucceeds) :
    (Kernel.feed B fun o bs => A.write o ctl bs).WriteSucceeds where
  write k fd b l := by
    obtain ⟨n, pos, le, o, hw⟩ := h.write k.outbox ctl b l
    exact ⟨n, pos, le, _, Peer.aside_of_eq (f := fun o => A.write o ctl (b :: l)) hw⟩
  selectWrite k fd sec := ⟨0, k, rfl⟩

end Kernels

/-! ### What is to come -/

namespace Ftpbuf
open Sockbuf

/-- The looks to come at the connection, and the class that `replycode` holds, where that is known. -/
structure Line where
  looks : List Look
  kept  : Option Byte

namespace Line

variable {l : Line} {x : Byte}

/-- The class that is read off the next reply. -/
def value (l : Line) : Option Byte := (firstByte l.looks).or l.kept

/-- What is left behind it. -/
def next (l : Line) : Line := ⟨behindReply l.looks, l.value⟩

/-- `get_response` comes to an end: each of its looks shows at least five bytes. -/
def Ends (l : Line) : Prop := Ftpbuf.Ends l.looks

instance (l : Line) : Decidable l.Ends := inferInstanceAs (Decidable (Ftpbuf.Ends l.looks))

/-- The next reply ends, and is an error. -/
def Refused (l : Line) : Prop := l.Ends ∧ ∃ b, l.value = some b ∧ IsError b

/-- The next reply ends, and is none. -/
def Granted (l : Line) : Prop := l.Ends ∧ ∃ b, l.value = some b ∧ ¬ IsError b

/-- Where the class kept is not known, it is `x`. -/
def fill (x : Byte) (l : Line) : Line := { l with kept := some (l.kept.getD x) }

theorem value_fill : (l.fill x).value = some (l.value.getD x) := by
  rw [value, fill, value]
  cases firstByte l.looks <;> rfl

theorem next_fill : (l.fill x).next = l.next.fill x := by
  rw [next, value_fill]
  rfl

theorem Refused.fill (h : l.Refused) (x : Byte) : (l.fill x).Refused := by
  obtain ⟨hends, b, hb, herr⟩ := h
  exact ⟨hends, b, by rw [value_fill, hb]; rfl, herr⟩

theorem Granted.fill (h : l.Granted) (x : Byte) : (l.fill x).Granted := by
  obtain ⟨hends, b, hb, herr⟩ := h
  exact ⟨hends, b, by rw [value_fill, hb]; rfl, herr⟩

/-- A class that is not known may be 0, which is no error. -/
theorem refused_of_fill (h : (l.fill 0).Refused) : l.Refused := by
  obtain ⟨hends, b, hb, herr⟩ := h
  rw [value_fill] at hb
  obtain rfl := Option.some.inj hb
  cases hv : l.value with
  | none =>
      rw [hv] at herr
      exact absurd herr (by decide)
  | some b => exact ⟨hends, b, hv, by rwa [hv] at herr⟩

/-- Nothing is to come, and nothing is known. -/
def Blank (l : Line) : Prop := l.looks = [] ∧ l.kept = none

theorem Blank.next (h : l.Blank) : l.next.Blank := by
  obtain ⟨hl, hk⟩ := h
  rw [Line.next, value, hl, hk]
  exact ⟨rfl, rfl⟩

theorem Blank.not_refused (h : l.Blank) : ¬ l.Refused := by
  rintro ⟨-, b, hb, -⟩
  rw [value, h.1, h.2] at hb
  cases hb

theorem granted_of_fill (h : (l.fill 0).Granted) : l.Granted ∨ l.next.Blank := by
  obtain ⟨hends, b, hb, herr⟩ := h
  cases hv : l.value with
  | none =>
      obtain ⟨hfirst, hkept⟩ := Option.or_eq_none_iff.mp hv
      exact .inr (Blank.next ⟨nil_of_firstByte hends hfirst, hkept⟩)
  | some c =>
      rw [value_fill, hv] at hb
      obtain rfl : c = b := Option.some.inj hb
      exact .inl ⟨hends, c, hv, herr⟩

end Line

/-! ### The calls on the connection -/

section Control

variable {B : Nat} {ω κ : Type} {ctl fd : Int} {A : NetKernel ω} {K K' : Kernel κ} {l : Line}
  {s : Proc Ftpbuf (Peer B ω)} {n : Nat}

theorem meet_inherited {α : Type} {p q : SockM κ α} (h : Prog.Meet (OnFd fd) p q) :
    Prog.Meet (fun s : Proc Ftpbuf κ => OnFd fd s.base) (inherited p) (inherited q) :=
  h.zoom (fun _ hs => hs) fun s t _ ht => by rwa [Proc.base_rebase]

theorem meet_readRound (h : K.SameOn K' fd) (firstline : Bool) :
    Prog.Meet (fun s : Proc Ftpbuf κ => OnFd fd s.base) (readRound K readLine firstline)
      (readRound K' readLine firstline) := by
  refine .bind (meet_inherited (meet_underflow h)) fun _ => .ite (.pure _) fun s hs => ⟨rfl, ?_⟩
  refine (keeps_readLine (getFrame_putSame K) firstline s).mono fun s' h' => ?_
  exact (congrArg Sockcnt.sock h'.rep).trans hs

theorem meet_getResponse (h : K.SameOn K' fd) (n : Nat) :
    Prog.Meet (fun s : Proc Ftpbuf κ => OnFd fd s.base) (getResponse K n) (getResponse K' n) :=
  .bind (.loop (meet_readRound h) n true) fun _ => .bind .get fun _ => .pure _

theorem meet_sendCmd (h : K.SameOn K' fd) (n : Nat) (cmd : List Byte) (arg : Option (List Byte)) :
    Prog.Meet (fun s : Proc Ftpbuf κ => OnFd fd s.base) (sendCmd K n cmd arg) (sendCmd K' n cmd arg) := by
  have hput : ∀ bs, Prog.Meet (fun s : Proc Ftpbuf κ => OnFd fd s.base) (xsputn K bs) (xsputn K' bs) :=
    fun bs => meet_inherited (meet_xsputn h bs)
  refine .bind (hput cmd) fun _ => .bind ?_ fun _ => .bind (hput _) fun _ =>
    .bind (meet_inherited (meet_sync h)) fun _ => meet_getResponse h n
  cases arg with
  | none => exact .pure _
  | some arg => exact .bind (hput _) fun _ => hput _

/-- On the control connection `l` is to come. -/
structure Hears (ctl : Int) (l : Line) (s : Proc Ftpbuf (Peer B ω)) : Prop where
  sock     : OnFd ctl s.base
  fed      : Fed s.base
  writable : s.base.obj.Writable
  looks    : looks s.base = l.looks
  kept     : l.kept = some (s.obj.replycode 0)

/-- One reply has been read. -/
theorem Hears.replied (h : Hears ctl l s) {c : Byte} {s' : Proc Ftpbuf (Peer B ω)} (hr : Replied s c s')
    (hsock : OnFd ctl s'.base) : l.Ends ∧ l.value = some c ∧ Hears ctl l.next s' := by
  have hvalue : l.value = some c := by
    rw [Line.value, h.kept, ← h.looks, hr.value]
    cases firstByte (Sockbuf.looks s.base) <;> rfl
  refine ⟨?_, hvalue, hsock, hr.fed, hr.writable, ?_, ?_⟩
  · rw [Line.Ends, ← h.looks]
    exact hr.ends
  · rw [hr.looks, h.looks]
    rfl
  · rw [hr.kept]
    exact hvalue

/-- `get_response` is cut off, or the next reply ends and has been read. -/
theorem getResponse_ways (h : Hears ctl l s) :
    (getResponse (A.feed B ctl).toKernel n s).Ways
      (fun c s' => l.Ends ∧ l.value = some c ∧ Hears ctl l.next s') (fun _ _ => False)
      (n ≤ l.looks.length ∨ ¬ l.Ends) := by
  obtain ⟨hmeet, hleaves⟩ := meet_getResponse (feed_sameOn (A := A)) n s h.sock
  rw [hmeet] at hleaves ⊢
  rcases getResponse_replied h.fed h.writable n with hspin | ⟨c, s', hret, hr⟩
  · rw [hspin]
    by_contra hcut
    obtain ⟨hn, hends⟩ := not_or.mp hcut
    rw [Line.Ends, ← h.looks, not_not] at hends
    obtain ⟨c, s', hret, -⟩ := getResponse_ends (W := fun o bs => A.write o ctl bs) h.fed h.writable hends
      (by rw [h.looks]; exact Nat.lt_of_not_le hn)
    rw [hret] at hspin
    cases hspin
  · rw [hret] at hleaves ⊢
    exact h.replied hr hleaves

/-- So is a command, unless a write fails. -/
theorem sendCmd_ways (h : Hears ctl l s) (cmd : List Byte) (arg : Option (List Byte)) :
    (sendCmd (A.feed B ctl).toKernel n cmd arg s).Ways
      (fun c s' => l.Ends ∧ l.value = some c ∧ Hears ctl l.next s') (fun _ _ => ¬ A.toKernel.WriteSucceeds)
      (n ≤ l.looks.length ∨ ¬ l.Ends) := by
  obtain ⟨hmeet, hleaves⟩ := meet_sendCmd (feed_sameOn (A := A)) n cmd arg s h.sock
  rw [hmeet] at hleaves ⊢
  by_cases hcut : n ≤ l.looks.length ∨ ¬ l.Ends
  · rcases sendCmd_replied h.fed h.writable n cmd arg with hspin | hsat
    · rw [hspin]
      exact hcut
    · refine (hsat.and_leaves hleaves).ways.mono (fun c s' hr => h.replied hr.1 hr.2) ?_ id
      exact fun _ _ he hA => he.1 (writeSucceeds_feed hA)
  · obtain ⟨hn, hends⟩ := not_or.mp hcut
    rw [Line.Ends, ← h.looks, not_not] at hends
    have hsat := sendCmd_ends (W := fun o bs => A.write o ctl bs) h.fed h.writable hends
      (by rw [h.looks]; exact Nat.lt_of_not_le hn) cmd arg
    refine (hsat.and_leaves hleaves).ways.mono (fun c s' hr => h.replied hr.1 hr.2) ?_ id
    exact fun _ _ he hA => he.1 (writeSucceeds_feed hA)

/-- The connection is not touched by what leaves the ftpbuf and the inbox alone. -/
theorem Hears.of_inbox (h : Hears ctl l s) {s' : Proc Ftpbuf (Peer B ω)} (hobj : s'.obj = s.obj)
    (hbox : s'.sys.kern.inbox = s.sys.kern.inbox) : Hears ctl l s' := by
  obtain ⟨x, y⟩ := s'
  obtain rfl : x = s.obj := hobj
  replace hbox : y.kern.inbox = s.sys.kern.inbox := hbox
  refine ⟨h.sock, ⟨h.fed.readable, h.fed.gend⟩, h.writable, ?_, h.kept⟩
  rw [← h.looks]
  simp only [Sockbuf.looks, Proc.base]
  rw [hbox]

end Control

end Ftpbuf

/-! ### The sockets of a transfer -/

section Sockets

variable {B : Nat} {β ω α : Type} {ctl : Int} {A : NetKernel ω}

/-- The object and the inbox are as they were. -/
def Idle (s s' : Proc β (Peer B ω)) : Prop := s'.obj = s.obj ∧ s'.sys.kern.inbox = s.sys.kern.inbox

theorem Idle.refl (s : Proc β (Peer B ω)) : Idle s s := ⟨rfl, rfl⟩

theorem Idle.trans {s s₁ s' : Proc β (Peer B ω)} (h : Idle s s₁) (h' : Idle s₁ s') : Idle s s' :=
  ⟨h'.1.trans h.1, h'.2.trans h.2⟩

/-- A call on sockets. -/
theorem netCall_idle (f : ω → Except Int α × ω) (s : Proc β (Peer B ω)) :
    (netCall (fun k => k.aside f) s).Sat
      (fun r s' => Idle s s' ∧ (r = none → ∃ o e o', f o = (.error e, o'))) fun _ _ => False := by
  rcases hf : f s.sys.kern.outbox with ⟨r, o⟩
  have hc : s.sys.kern.aside f = (r, { s.sys.kern with outbox := o }) := Peer.aside_of_eq hf
  cases r with
  | ok a =>
      rw [netCall_ok hc]
      exact ⟨⟨rfl, rfl⟩, fun h => by cases h⟩
  | error e =>
      rw [netCall_error hc]
      exact ⟨⟨rfl, rfl⟩, fun _ => ⟨_, e, o, hf⟩⟩

/-- A call that is checked: it throws where it has failed. -/
theorem checkedCall_idle {operation : String} {f : Int → ω → Except Int α × ω} {t : Proc Sockbuf (Peer B ω)} :
    ((do
      let s ← get
      Sockbuf.checked operation (← netCall fun k => k.aside (f s.obj.rep.sock)) :
        SockM (Peer B ω) α) t).Sat (fun _ => Idle t)
      fun _ t' => Idle t t' ∧ ∃ fd o e o', f fd o = (.error e, o') := by
  rw [Prog.bind_apply, Prog.get_apply, Outcome.andThen_ret, Prog.bind_apply]
  refine (netCall_idle _ t).andThen (fun r t' hr => ?_) fun _ _ h => h.elim
  obtain ⟨hq, hr⟩ := hr
  cases r with
  | some a => exact hq
  | none => exact ⟨hq, _, hr rfl⟩

theorem bind_idle (sa : Sockinetaddr) (t : Proc Sockbuf (Peer B ω)) :
    (Sockbuf.bind (A.feed B ctl) sa t).Sat (fun _ => Idle t) fun _ t' => Idle t t' ∧ ¬ A.Serves :=
  (checkedCall_idle (f := fun fd o => A.bind o fd sa)).mono (fun _ _ h => h) fun _ _ ⟨hq, _, _, _, _, hf⟩ =>
    ⟨hq, fun hA => hA.bind _ _ _ _ _ hf⟩

theorem listen_idle (num : Int) (t : Proc Sockbuf (Peer B ω)) :
    (Sockbuf.listen (A.feed B ctl) num t).Sat (fun _ => Idle t) fun _ t' => Idle t t' ∧ ¬ A.Serves :=
  (checkedCall_idle (f := fun fd o => A.listen o fd num)).mono (fun _ _ h => h) fun _ _ ⟨hq, _, _, _, _, hf⟩ =>
    ⟨hq, fun hA => hA.listen _ _ _ _ _ hf⟩

theorem accept_idle (t : Proc Sockbuf (Peer B ω)) :
    (Sockbuf.accept (A.feed B ctl) t).Sat (fun _ => Idle t) fun _ t' => Idle t t' ∧ ¬ A.Serves := by
  rw [Sockbuf.accept, Prog.bind_apply, Prog.get_apply, Outcome.andThen_ret, Prog.bind_apply]
  refine (netCall_idle (fun o => A.accept o t.obj.rep.sock) t).andThen (fun r t' hr => ?_) fun _ _ h => h.elim
  obtain ⟨hq, hr⟩ := hr
  cases r with
  | some a => exact hq
  | none =>
      obtain ⟨o, e, o', hf⟩ := hr rfl
      have hA : ¬ A.Serves := fun hA => hA.accept _ _ _ _ hf
      simp only [Prog.bind_apply, Prog.get_apply, Outcome.andThen_ret, Prog.ite_apply]
      split <;> exact ⟨hq, hA⟩

theorem localaddr_idle (t : Proc Sockbuf (Peer B ω)) :
    (Sockinetbuf.localaddr (A.feed B ctl) t).Sat (fun _ => Idle t) fun _ t' => Idle t t' ∧ ¬ A.Serves := by
  rw [Sockinetbuf.localaddr, Prog.bind_apply, Prog.get_apply, Outcome.andThen_ret, Prog.bind_apply]
  refine (netCall_idle (fun o => A.getsockname o t.obj.rep.sock) t).andThen (fun r t' hr => ?_) fun _ _ h => h.elim
  obtain ⟨hq, hr⟩ := hr
  cases r with
  | some a => exact hq
  | none =>
      obtain ⟨o, e, o', hf⟩ := hr rfl
      exact ⟨hq, fun hA => hA.getsockname _ _ _ _ hf⟩

/-- Ports that are occupied are passed over. -/
theorem bind_until_success_idle (n : Nat) (portno : Int) (t : Proc Sockbuf (Peer B ω)) :
    (Sockinetbuf.bind_until_success (A.feed B ctl) n portno t).Ways (fun _ => Idle t)
      (fun _ t' => Idle t t' ∧ ¬ A.Serves) (Sockinetbuf.bind_until_success (A.feed B ctl) n portno t = .spin) := by
  have hround : ∀ p, Prog.Triple (Idle t) (Sockinetbuf.bindRound (A.feed B ctl) p) (Idle t)
      fun t' => Idle t t' ∧ ¬ A.Serves := by
    intro p
    refine .tryCatch (F := fun t' => Idle t t' ∧ ¬ A.Serves) (.bind (fun t₁ h₁ => ?_) fun _ => .pure _) fun e => ?_
    · exact ((bind_idle _ t₁).mono (fun _ _ h => h₁.trans h) fun _ _ h => ⟨h₁.trans h.1, h.2⟩).within
    · cases e with
      | err e op spec => exact .ite (.throw _) fun t' h => h.1
      | _ => exact .throw _
  exact (Prog.Triple.loop hround n portno t (.refl t)).ways

/-- The address of the local host is looked up. -/
theorem localhost_idle (s : Proc Ftpbuf (Peer B ω)) :
    (Ftpbuf.localhost (A.feed B ctl) s).Sat (fun _ => Idle s) fun _ _ => ¬ A.Serves := by
  rw [Ftpbuf.localhost, Prog.bind_apply]
  refine (netCall_idle A.gethostname s).andThen (fun r s' hr => ?_) fun _ _ h => h.elim
  obtain ⟨hq, hr⟩ := hr
  cases r with
  | none =>
      obtain ⟨o, e, o', hf⟩ := hr rfl
      exact fun hA => hA.gethostname _ _ _ hf
  | some hostname =>
      refine Outcome.Sat.andThen (Q := fun r s' => Idle s s' ∧ (r = none → ¬ A.Serves)) (E := fun _ _ => False)
        ⟨hq, fun h hA => hA.gethostbyname _ _ _ (Prod.ext h rfl)⟩ (fun r s' ⟨hq, hr⟩ => ?_) fun _ _ h => h.elim
      cases r with
      | some h => exact hq
      | none => exact hr rfl

end Sockets

/-! ### `ftpdata` -/

namespace Ftpbuf

variable {B : Nat} {ω : Type} {ctl : Int} {A : NetKernel ω} {l : Line} {n : Nat}

/-- PORT is a command like others. -/
theorem useraddr_ways {s : Proc Ftpbuf (Peer B ω)} (h : Hears ctl l s) (sa : Sockinetaddr) :
    (useraddr (A.feed B ctl) n sa s).Ways (fun c s' => l.Ends ∧ l.value = some c ∧ Hears ctl l.next s')
      (fun _ _ => ¬ A.Serves) (n ≤ l.looks.length ∨ ¬ l.Ends) := by
  have hlocal : ∀ s, Hears ctl l s → (localhost (A.feed B ctl) s).Ways (fun _ => Hears ctl l)
      (fun _ _ => ¬ A.Serves) (n ≤ l.looks.length ∨ ¬ l.Ends) := fun s hs =>
    ((localhost_idle s).mono (fun _ _ hq => hs.of_inbox hq.1 hq.2) fun _ _ h => h).ways
  have hina : ((if sa.sin_addr = ⟨0, 0, 0, 0⟩ then localhost (A.feed B ctl) else pure sa.sin_addr) s).Ways
      (fun _ => Hears ctl l) (fun _ _ => ¬ A.Serves) (n ≤ l.looks.length ∨ ¬ l.Ends) := by
    split
    · exact hlocal s h
    · exact h
  have hsend : ∀ s, Hears ctl l s → ∀ cmd arg, (sendCmd (A.feed B ctl).toKernel n cmd arg s).Ways
      (fun c s' => l.Ends ∧ l.value = some c ∧ Hears ctl l.next s') (fun _ _ => ¬ A.Serves)
      (n ≤ l.looks.length ∨ ¬ l.Ends) := fun s hs cmd arg =>
    (sendCmd_ways hs cmd arg).mono (fun _ _ h => h) (fun _ _ h hA => h hA.toWriteSucceeds) id
  unfold useraddr
  split at hina
  · rename_i h0
    rw [if_pos h0]
    exact hina.andThen fun _ _ h => hsend _ h _ _
  · rename_i h0
    rw [if_neg h0]
    exact hina.andThen fun _ _ h => hsend _ h _ _

end Ftpbuf

namespace Transfer
open Sockbuf Ftpbuf

variable {b : Nat} {B : ℕ+} {ω : Type} {ctl : Int} {A : NetKernel ω} {l : Line} {n : Nat} {m m' : Alloc}
  {s : Proc Transfer (Peer b ω)} {S : Prop}

/-- On the control connection `l` is to come, and the put side of `sb` is open. -/
structure Tuned (ctl : Int) (l : Line) (s : Proc Transfer (Peer b ω)) : Prop where
  hears : Hears ctl l ⟨s.obj.ftp, s.sys⟩
  sb    : s.obj.sb.Writable

/-- A call has failed. -/
structure Broken (A : NetKernel ω) (s : Proc Transfer (Peer b ω)) : Prop where
  fails : ¬ A.Serves
  sb    : s.obj.sb.Writable

/-- A method of `sb` that leaves it alone. -/
theorem onSb_ways {α : Type} {p : SockM (Peer b ω) α} (h : Tuned ctl l s)
    (hp : (p ⟨s.obj.sb, s.sys⟩).Ways (fun _ => Idle ⟨s.obj.sb, s.sys⟩)
      (fun _ t => Idle ⟨s.obj.sb, s.sys⟩ t ∧ ¬ A.Serves) S) :
    (onSb p s).Ways (fun _ => Tuned ctl l) (fun _ => Broken A) S := by
  rw [onSb, Prog.zoom_apply, Outcome.ways_mapState]
  refine hp.mono (fun _ t ht => ⟨h.hears.of_inbox rfl ht.2, ?_⟩) (fun _ t ht => ⟨ht.2, ?_⟩) id
  · exact ht.1.symm ▸ h.sb
  · exact ht.1.1.symm ▸ h.sb

/-- A method of the ftpbuf. -/
theorem onFtp_ways {α : Type} {p : FtpM (Peer b ω) α} {l' : Line} {P : α → Prop} (h : Tuned ctl l s)
    (hp : (p ⟨s.obj.ftp, s.sys⟩).Ways (fun a t => P a ∧ Hears ctl l' t) (fun _ _ => ¬ A.Serves) S) :
    (onFtp p s).Ways (fun a s' => P a ∧ Tuned ctl l' s') (fun _ => Broken A) S := by
  rw [onFtp, Prog.zoom_apply, Outcome.ways_mapState]
  exact hp.mono (fun _ t ht => ⟨ht.1, ht.2, h.sb⟩) (fun _ t ht => ⟨ht, h.sb⟩) id

/-- `bind_until_success` is cut off. -/
def Stuck (A : NetKernel ω) (b : Nat) (ctl : Int) (n : Nat) : Prop :=
  ∃ t, Sockinetbuf.bind_until_success (A.feed b ctl) n 10000 t = .spin

/-- **Two replies** have been read before the transfer, the first by PORT. -/
theorem connect_ways (h : Tuned ctl l s) (cmd : List Byte) (arg : Option (List Byte)) :
    (connect (A.feed b ctl) n 10000 cmd arg s).Ways
      (fun c s' => (l.Ends ∧ l.next.Ends ∧ l.next.value = some c) ∧ Tuned ctl l.next.next s')
      (fun _ => Broken A) (n ≤ l.looks.length ∨ Stuck A b ctl n ∨ ¬ (l.Ends ∧ l.next.Ends)) := by
  have hlen : l.next.looks.length ≤ l.looks.length := by
    rw [Line.next, behindReply, List.length_drop]
    omega
  rw [connect, Prog.bind_apply]
  refine Outcome.Ways.andThen (Q := fun _ => Tuned ctl l) ?_ fun _ s₁ h₁ => ?_
  · exact onSb_ways h ((bind_until_success_idle n 10000 _).mono (fun _ _ h => h) (fun _ _ h => h)
      fun hspin => .inr (.inl ⟨_, hspin⟩))
  refine Outcome.Ways.andThen (Q := fun _ => Tuned ctl l) (onSb_ways h₁ (localaddr_idle _).ways) fun sa s₂ h₂ => ?_
  refine Outcome.Ways.andThen (Q := fun _ s' => l.Ends ∧ Tuned ctl l.next s') ?_ fun _ s₃ h₃ => ?_
  · refine onFtp_ways h₂ ((useraddr_ways h₂.hears sa).mono (fun _ _ h => ⟨h.1, h.2.2⟩) (fun _ _ h => h) ?_)
    exact Or.imp_right fun hends => .inr fun h => hends h.1
  refine Outcome.Ways.andThen (Q := fun _ => Tuned ctl l.next) (onSb_ways h₃.2 (listen_idle 1 _).ways)
    fun _ s₄ h₄ => ?_
  refine (onFtp_ways h₄ (P := fun c => l.next.Ends ∧ l.next.value = some c) ?_).mono
    (fun c s' hc => ⟨⟨h₃.1, hc.1⟩, hc.2⟩) (fun _ _ h => h) id
  refine (sendCmd_ways h₄.hears cmd arg).mono (fun _ _ h => ⟨⟨h.1, h.2.1⟩, h.2.2⟩)
    (fun _ _ h hA => h hA.toWriteSucceeds) ?_
  exact Or.imp (fun h => Nat.le_trans h hlen) fun hends => .inr fun h => hends h.2

/-- The puts of a sockbuf leave the inbox alone. -/
theorem putFrame_inbox : PutFrame (A.feed b ctl).toKernel (GetSame Peer.inbox) :=
  putFrame_getSame (fun _ _ _ => rfl) fun k fd sec => by
    simp only [NetKernel.feed]
    split <;> rfl

theorem openSb_tuned (h : Hears ctl l ⟨s.obj.ftp, s.sys⟩) :
    (openSb (A.feed b ctl) B m sock_stream 0 s).Sat (fun _ => Tuned ctl l) fun _ _ => ¬ A.Serves := by
  rw [openSb, Prog.bind_apply]
  refine (netCall_idle (fun o => A.socket o af_inet sock_stream 0) s).andThen (fun r s' hr => ?_)
    fun _ _ h => h.elim
  obtain ⟨hq, hr⟩ := hr
  cases r with
  | some soc =>
      have hs : Hears ctl l ⟨s'.obj.ftp, s'.sys⟩ := h.of_inbox (congrArg Transfer.ftp hq.1) hq.2
      exact ⟨hs, ofDesc_writable B soc _ _⟩
  | none =>
      obtain ⟨o, e, o', hf⟩ := hr rfl
      exact fun hA => hA.socket _ _ _ _ _ _ hf

theorem openC_tuned (h : Tuned ctl l s) :
    (openC (A.feed b ctl) B m s).Sat (fun _ s' => Tuned ctl l s' ∧ s'.obj.c.Writable) fun _ => Broken A := by
  rw [openC, Prog.bind_apply]
  refine Outcome.Sat.andThen (Q := fun _ => Tuned ctl l) ?_ (fun socfd s₁ h₁ => ?_) fun _ _ h => h
  · exact (onSb_ways h (accept_idle _).ways).sat id
  · exact ⟨⟨h₁.hears, h₁.sb⟩, ofDesc_writable B socfd _ _⟩

/-- `close` leaves the sockbufs alone. -/
theorem close_tuned (c : Sockbuf) (h : Tuned ctl l s) :
    (close (A.feed b ctl) c s).Sat (fun _ => Tuned ctl l) fun _ => Broken A := by
  simp only [close, Prog.bind_apply, Prog.get_apply, Prog.modify_apply, Outcome.andThen_ret]
  refine (netCall_idle (fun o => A.close o c.rep.sock) _).andThen (fun r s' hr => ?_) fun _ _ h => h.elim
  obtain ⟨hq, hr⟩ := hr
  cases r with
  | some u =>
      have hftp : s'.obj.ftp = s.obj.ftp := by rw [hq.1, Proc.onObj]
      refine ⟨h.hears.of_inbox hftp hq.2, ?_⟩
      show s'.obj.sb.Writable
      rw [hq.1]
      exact h.sb
  | none =>
      obtain ⟨o, e, o', hf⟩ := hr rfl
      refine ⟨fun hA => hA.close _ _ _ _ hf, ?_⟩
      rw [hq.1]
      exact h.sb

/-- The flush of a destructor. -/
theorem flush_sat {t : Proc Sockbuf (Peer b ω)} (hw : t.obj.Writable) :
    (overflow (A.feed b ctl).toKernel eofValue t).Sat
      (fun _ t' => t'.obj.Writable ∧ t'.sys.kern.inbox = t.sys.kern.inbox)
      fun _ t' => t'.obj.Writable ∧ ¬ A.Serves := by
  have hframe : PutFrame (A.feed b ctl).toKernel (GetSame Peer.inbox) := putFrame_inbox
  have hkept := keeps_overflow hframe eofValue t
  rw [overflow_eof hw] at hkept ⊢
  refine ((sync_sat hw).and_leaves hkept).mono (fun _ _ h => ⟨h.1.2.1.writable, h.2.kern⟩) fun _ _ h => ?_
  exact ⟨h.1.1.writable, fun hA => h.1.2 hA.feed.toWriteSucceeds⟩

theorem destroySb_tuned (h : Tuned ctl l s) :
    (destroySb (A.feed b ctl) s).Sat (fun _ => Tuned ctl l) fun _ => Broken A := by
  rw [destroySb, Prog.bind_apply]
  refine Outcome.Sat.andThen (Q := fun _ => Tuned ctl l) ?_ (fun _ s₁ h₁ => close_tuned _ h₁) fun _ _ h => h
  rw [onSb, Prog.zoom_apply, Outcome.sat_mapState]
  exact (flush_sat (t := ⟨s.obj.sb, s.sys⟩) h.sb).mono (fun _ t ht => ⟨h.hears.of_inbox rfl ht.2, ht.1⟩) fun _ t ht =>
    ⟨ht.2, ht.1⟩

theorem destroyC_tuned (h : Tuned ctl l s) (hc : s.obj.c.Writable) :
    (destroyC (A.feed b ctl) s).Sat (fun _ => Tuned ctl l) fun _ => Broken A := by
  rw [destroyC, Prog.bind_apply]
  refine Outcome.Sat.andThen (Q := fun _ => Tuned ctl l) ?_ (fun _ s₁ h₁ => close_tuned _ h₁) fun _ _ h => h
  rw [onC, Prog.zoom_apply, Outcome.sat_mapState]
  exact (flush_sat (t := ⟨s.obj.c, s.sys⟩) hc).mono (fun _ t ht => ⟨h.hears.of_inbox rfl ht.2, h.sb⟩) fun _ t ht =>
    ⟨ht.2, h.sb⟩

/-- A failure is not taken back. -/
theorem destroySb_broken (h : Broken A s) :
    (destroySb (A.feed b ctl) s).Sat (fun _ _ => ¬ A.Serves) fun _ _ => ¬ A.Serves := by
  rw [destroySb, Prog.bind_apply]
  refine Outcome.Sat.andThen (Q := fun _ _ => True) ?_ (fun _ s₁ _ => ?_) fun _ _ h => h
  · rw [onSb, Prog.zoom_apply, Outcome.sat_mapState]
    exact (flush_sat (A := A) (t := ⟨s.obj.sb, s.sys⟩) h.sb).mono (fun _ _ _ => trivial) fun _ _ _ => h.fails
  · exact (close_sat _ s₁).mono (fun _ _ _ => h.fails) fun _ _ _ => h.fails

/-- **A block**: the destructor runs behind both ends of it. -/
theorem inBlock_ways {σ α : Type} {destructor : Prog Thrown σ Unit} {p : Prog Raised σ α} {t : σ}
    {P Q : α → σ → Prop} {F D : σ → Prop} (hp : (p t).Ways P (fun _ => F) S)
    (hret : ∀ a t', P a t' → (destructor t').Sat (fun _ => Q a) fun _ => D)
    (hthrown : ∀ t', F t' → (destructor t').Sat (fun _ => D) fun _ => D) (hF : ∀ t', F t' → D t') :
    (inBlock destructor p t).Ways Q (fun _ => D) S := by
  have hquit : ∀ {β : Type} {q : Prog Raised σ β} {t' : σ} {R : Unit → σ → Prop} {Q' : β → σ → Prop},
      (destructor t').Sat R (fun _ => D) → (∀ u t', R u t' → (q t').Ways Q' (fun _ => D) S) →
      ((noexcept destructor >>= fun _ => q) t').Ways Q' (fun _ => D) S := by
    intro β q t' R Q' hd hq
    rw [Prog.bind_apply, noexcept, Prog.mapThrown_apply]
    exact Outcome.Ways.andThen (Outcome.ways_mapThrown.mpr hd.ways) hq
  rw [inBlock, Prog.bind_apply, Prog.tryCatch_apply]
  refine Outcome.Ways.andThen (Q := P) ?_ fun a t' ha => hquit (hret a t' ha) fun _ _ h => h
  cases hx : p t with
  | ret a t' =>
      rw [hx] at hp
      exact hp
  | spin =>
      rw [hx] at hp
      exact hp
  | thrown e t' =>
      rw [hx] at hp
      cases e with
      | exception e => exact hquit (hthrown t' hp) fun _ _ h => h
      | terminate => exact hF t' hp

theorem raising_ways {σ α : Type} {p : Prog Thrown σ α} {t : σ} {Q : α → σ → Prop} {E : σ → Prop}
    (h : (p t).Ways Q (fun _ => E) S) : (raising p t).Ways Q (fun _ => E) S :=
  Outcome.ways_mapThrown.mpr h

/-- The transfer is on its way: `c` is open too. -/
def Joined (ctl : Int) (l : Line) (s : Proc Transfer (Peer b ω)) : Prop := Tuned ctl l s ∧ s.obj.c.Writable

theorem Joined.of_same (h : Joined ctl l s) {f : Transfer → Transfer}
    (hf : (f s.obj).ftp = s.obj.ftp ∧ (f s.obj).sb = s.obj.sb ∧ (f s.obj).c = s.obj.c) :
    Joined ctl l (s.onObj f) := by
  refine ⟨⟨h.1.hears.of_inbox hf.1 rfl, ?_⟩, ?_⟩
  · show (f s.obj).sb.Writable
    rw [hf.2.1]
    exact h.1.sb
  · show (f s.obj).c.Writable
    rw [hf.2.2]
    exact h.2

theorem sendRound_joined : Prog.Triple (Joined ctl l) (sendRound (A.feed b ctl).toKernel) (Joined ctl l)
    fun s : Proc Transfer (Peer b ω) => Broken A s ∧ s.obj.c.Writable := by
  have quiet : ∀ f : Transfer → Transfer, (∀ x, (f x).ftp = x.ftp ∧ (f x).sb = x.sb ∧ (f x).c = x.c) →
      Prog.Triple (Joined ctl l) (modify (Proc.onObj f) : TransferM (Peer b ω) PUnit) (Joined ctl l)
        fun s => Broken A s ∧ s.obj.c.Writable := fun f hf => .modify fun s hs => hs.of_same (hf s.obj)
  have hput : ∀ bs, Prog.Triple (Joined ctl l) (onC (xsputn (A.feed b ctl).toKernel bs)) (Joined ctl l)
      fun s => Broken A s ∧ s.obj.c.Writable := by
    intro bs s hs
    have hframe : PutFrame (A.feed b ctl).toKernel (GetSame Peer.inbox) := putFrame_inbox
    have hkept := keeps_xsputn hframe bs ⟨s.obj.c, s.sys⟩
    have hsat := (xsputn_sat (s := ⟨s.obj.c, s.sys⟩) hs.2 bs).and_leaves hkept
    rw [onC, Prog.zoom_apply]
    refine (Outcome.sat_mapState.mpr (hsat.mono (fun _ t ht => ?_) fun _ t ht => ?_)).within
    · exact ⟨⟨hs.1.hears.of_inbox rfl ht.2.kern, hs.1.sb⟩, ht.1.2.1.writable⟩
    · obtain ⟨⟨⟨k, -, hm⟩, hfail⟩, -⟩ := ht
      exact ⟨⟨fun hA => hfail hA.feed.toWriteSucceeds, hs.1.sb⟩, hm.writable⟩
  refine .bind .get fun s => .bind (quiet _ fun _ => ⟨rfl, rfl, rfl⟩) fun _ => ?_
  refine .ite (.bind (hput _) fun _ => ?_) (.pure _)
  exact .ite (.bind (quiet _ fun _ => ⟨rfl, rfl, rfl⟩) fun _ => .pure _) (.pure _)

theorem destroyC_broken (h : Broken A s ∧ s.obj.c.Writable) :
    (destroyC (A.feed b ctl) s).Sat (fun _ => Broken A) fun _ => Broken A := by
  rw [destroyC, Prog.bind_apply]
  refine Outcome.Sat.andThen (Q := fun _ => Broken A) ?_ (fun _ s₁ h₁ => ?_) fun _ _ h => h
  · rw [onC, Prog.zoom_apply, Outcome.sat_mapState]
    exact (flush_sat (A := A) (t := ⟨s.obj.c, s.sys⟩) h.2).mono (fun _ _ _ => ⟨h.1.fails, h.1.sb⟩) fun _ _ _ =>
      ⟨h.1.fails, h.1.sb⟩
  · have hsame : ∀ s' : Proc Transfer (Peer b ω), s'.obj = { s₁.obj with
        closed := s₁.obj.closed ++ [(s₁.obj.c.rep.sock, s₁.sys.trace)] } → Broken A s' :=
      fun s' hobj => ⟨h₁.fails, by rw [hobj]; exact h₁.sb⟩
    exact (close_sat _ s₁).mono (fun _ s' hs => hsame s' hs.1) fun _ s' hs => hsame s' hs.1

/-- **An upload** leaves the connection alone. -/
theorem send_tuned (h : Tuned ctl l s) :
    (send (A.feed b ctl) B m s).Sat (fun _ => Tuned ctl l) fun _ => Broken A := by
  have hways : (send (A.feed b ctl) B m s).Ways (fun _ => Tuned ctl l) (fun _ => Broken A) True := by
    rw [send, Prog.bind_apply]
    refine Outcome.Ways.andThen (raising_ways (openC_tuned h).ways) fun _ s₁ h₁ => ?_
    refine inBlock_ways (P := fun _ => Joined ctl l) (F := fun s => Broken A s ∧ s.obj.c.Writable) ?_
      (fun _ _ hs => destroyC_tuned hs.1 hs.2) (fun _ hs => destroyC_broken hs) fun _ hs => hs.1
    exact raising_ways ((Prog.Triple.loop (fun _ => sendRound_joined) _ () s₁ h₁).ways.mono (fun _ _ h => h)
      (fun _ _ h => h) fun _ => trivial)
  -- the rounds use up the file, so none is cut off
  cases hopen : openC (A.feed b ctl) B m s with
  | ret u s₂ => exact (hways.sat_of_sat (send_sat hopen)).mono (fun _ _ h => h.1) fun _ _ h => h.1
  | thrown e s₂ =>
      have hthrown : send (A.feed b ctl) B m s = .thrown (.exception e) s₂ := by
        rw [send, Prog.bind_apply, raising, Prog.mapThrown_apply, hopen]
        rfl
      rw [hthrown] at hways ⊢
      exact hways
  | spin =>
      have hsat := openC_tuned (A := A) (B := B) (m := m) h
      rw [hopen] at hsat
      exact hsat.elim

/-- **A download** that the server has accepted does not return. -/
theorem receive_never (h : Tuned ctl l s) (o : OStream) :
    (receive (A.feed b ctl) B m n o s).Ways (fun _ _ => False) (fun _ => Broken A) True := by
  rw [receive, Prog.bind_apply]
  refine Outcome.Ways.andThen (raising_ways (openC_tuned h).ways) fun _ s₁ h₁ => ?_
  refine inBlock_ways (P := fun _ _ => False) (F := fun s => Broken A s ∧ s.obj.c.Writable) ?_
    (fun _ _ h => h.elim) (fun _ hs => destroyC_broken hs) fun _ hs => hs.1
  refine raising_ways (Prog.loop_never (P := fun s => s.obj.sb.Writable ∧ s.obj.c.Writable) (fun _ s hs => ?_) n ()
    s₁ ⟨h₁.1.sb, h₁.2⟩)
  have hget : (sgetnC (A.feed b ctl).toKernel 1024 s).Ways (fun _ s' => s'.obj.sb.Writable ∧ s'.obj.c.Writable)
      (fun _ s' => Broken A s' ∧ s'.obj.c.Writable) True := by
    let sgetn : Prog Thrown (Getting (Peer b ω)) (Nat × List Byte) := do
      let rdsz ← xsgetn (A.feed b ctl).toKernel 1024
      let t ← get
      return (rdsz, t.dst)
    have hkept := keeps_sgetn (getFrame_putSame (A.feed b ctl).toKernel) 1024 ⟨⟨s.obj.c, s.sys⟩, []⟩
    have hquiet : A.Serves → Prog.Quiet sgetn := fun hA =>
      .bind (GetOp.xsgetnRec_quiet hA.feed.toReadSucceeds _ _) fun _ => .bind .get fun _ => .pure _
    rw [sgetnC, Prog.zoom_apply, Outcome.ways_mapState]
    change Outcome.Leaves _ (sgetn _) at hkept
    change Outcome.Ways _ _ _ (sgetn _)
    cases hx : sgetn ⟨⟨s.obj.c, s.sys⟩, []⟩ with
    | ret r t =>
        rw [hx] at hkept
        exact ⟨hs.1, writable_of_putSame hkept hs.2⟩
    | thrown e t =>
        rw [hx] at hkept
        refine ⟨⟨fun hA => ?_, hs.1⟩, writable_of_putSame hkept hs.2⟩
        have hq := hquiet hA ⟨⟨s.obj.c, s.sys⟩, []⟩
        rw [hx] at hq
        exact hq
    | spin => trivial
  rw [receiveRound, Prog.bind_apply]
  refine hget.andThen fun r s' hs' => ?_
  have hne : ((r.1 : Nat) : Int) ≠ eofValue := by
    have : (0 : Int) ≤ (r.1 : Nat) := Int.natCast_nonneg _
    unfold eofValue
    omega
  simp only [ne_eq, hne, not_false_eq_true, if_true, Prog.bind_apply, Prog.modify_apply, Outcome.andThen_ret]
  refine ⟨rfl, ?_⟩
  cases o with
  | own => exact hs'
  | file => exact hs'

/-- **What `ftpdata` comes to**: the reply to PORT is passed over, the reply to the command is an error, or it
is none, and the last reply ends the transfer.  `o` says whether the transfer is a download. -/
inductive Data (o : Bool) (l : Line) : Byte → Line → Prop where
  | refused (h : l.Ends) (hcmd : l.next.Refused) : Data o l rca_error l.next.next
  | granted {c : Byte} (ho : o = false) (h : l.Ends) (hcmd : l.next.Granted) (hlast : l.next.next.Ends)
      (hc : l.next.next.value = some c) : Data o l c l.next.next.next

theorem Data.ends {o : Bool} {c : Byte} {l' : Line} (h : Data o l c l') : l.Ends ∧ l.next.Ends := by
  cases h with
  | refused h hcmd => exact ⟨h, hcmd.1⟩
  | granted _ h hcmd => exact ⟨h, hcmd.1⟩

/-- Behind a command that is granted there is an upload, or nothing to transfer, and then the last reply. -/
theorem Data.of_granted {o : Bool} {c c' : Byte} {l' : Line} (h : Data o l c l') (hc : l.next.value = some c')
    (herr : ¬ IsError c') : o = false ∧ l.next.next.Ends := by
  cases h with
  | refused _ hcmd =>
      obtain ⟨-, b, hb, hb'⟩ := hcmd
      obtain rfl := Option.some.inj (hc.symm.trans hb)
      exact absurd hb' herr
  | granted ho _ _ hlast => exact ⟨ho, hlast⟩

/-- The transfer behind a command that is granted. -/
theorem transfer_ways (h : Tuned ctl l.next.next s) {c : Byte} (hends : l.Ends) (hnext : l.next.Ends)
    (hc : l.next.value = some c) (herr : ¬ IsError c) (i : Bool) (o : Option OStream) :
    (transfer (A.feed b ctl) B m n i o s).Ways (fun c s' => ∃ l', Data o.isSome l c l' ∧ Tuned ctl l' s')
      (fun _ => Broken A) (n ≤ l.looks.length ∨ ¬ ∃ c l', Data o.isSome l c l') := by
  have hlen : l.next.next.looks.length ≤ l.looks.length := by
    simp only [Line.next, behindReply, List.length_drop]
    omega
  cases o with
  | some o =>
      rw [transfer, Prog.bind_apply]
      refine Outcome.Ways.andThen (Q := fun _ _ => False) ((receive_never h o).mono (fun _ _ h => h) (fun _ _ h => h)
        fun _ => .inr ?_) fun _ _ h => h.elim
      rintro ⟨c', l', hdata⟩
      cases (hdata.of_granted hc herr).1
  | none =>
      have hlast : ∀ s, Tuned ctl l.next.next s →
          (raising (onFtp (Ftpbuf.getResponse (A.feed b ctl).toKernel n)) s).Ways
            (fun c s' => ∃ l', Data false l c l' ∧ Tuned ctl l' s') (fun _ => Broken A)
            (n ≤ l.looks.length ∨ ¬ ∃ c l', Data false l c l') := by
        intro s hs
        have hreply : (Ftpbuf.getResponse (A.feed b ctl).toKernel n ⟨s.obj.ftp, s.sys⟩).Ways
            (fun c t => (l.next.next.Ends ∧ l.next.next.value = some c) ∧ Hears ctl l.next.next.next t)
            (fun _ _ => ¬ A.Serves) (n ≤ l.looks.length ∨ ¬ ∃ c l', Data false l c l') := by
          refine (getResponse_ways hs.hears).mono (fun _ _ h => ⟨⟨h.1, h.2.1⟩, h.2.2⟩) (fun _ _ h => h.elim) ?_
          refine Or.imp (fun h => Nat.le_trans h hlen) fun hends' => ?_
          rintro ⟨c', l', hdata⟩
          exact hends' (hdata.of_granted hc herr).2
        refine raising_ways ((onFtp_ways hs hreply).mono (fun c s' hs' => ?_) (fun _ _ h => h) id)
        exact ⟨_, .granted rfl hends ⟨hnext, _, hc, herr⟩ hs'.1.1 hs'.1.2, hs'.2⟩
      cases i with
      | true => exact (send_tuned h).ways.andThen fun _ s₁ h₁ => hlast s₁ h₁
      | false => exact hlast s h

/-- **`ftpdata`** is cut off, or comes to what `Data` says. -/
theorem ftpdata_ways (h : Hears ctl l ⟨s.obj.ftp, s.sys⟩) (i : Bool) (o : Option OStream) (cmd : List Byte)
    (arg : Option (List Byte)) :
    (ftpdata (A.feed b ctl) B m m' n 10000 i o cmd arg s).Ways
      (fun c s' => ∃ l', Data o.isSome l c l' ∧ Hears ctl l' ⟨s'.obj.ftp, s'.sys⟩) (fun _ _ => ¬ A.Serves)
      (n ≤ l.looks.length ∨ Stuck A b ctl n ∨ ¬ ∃ c l', Data o.isSome l c l') := by
  rw [ftpdata, Prog.bind_apply]
  refine Outcome.Ways.andThen (raising_ways (openSb_tuned h).ways) fun _ s₀ h₀ => ?_
  refine inBlock_ways (P := fun c s' => ∃ l', Data o.isSome l c l' ∧ Tuned ctl l' s') (F := Broken A)
    (D := fun _ => ¬ A.Serves) ?_ ?_ ?_ fun _ h => h.fails
  · rw [Prog.bind_apply]
    refine Outcome.Ways.andThen (raising_ways ((connect_ways h₀ cmd arg).mono (fun _ _ h => h) (fun _ _ h => h) ?_))
      fun c s₁ h₁ => ?_
    · refine Or.imp_right (Or.imp_right fun hends => ?_)
      rintro ⟨c, l', hdata⟩
      exact hends hdata.ends
    obtain ⟨⟨hends, hnext, hc⟩, h₁⟩ := h₁
    rw [Prog.ite_apply]
    split
    · rename_i herr
      exact ⟨_, .refused hends ⟨hnext, c, hc, herr⟩, h₁⟩
    · rename_i herr
      exact (transfer_ways h₁ hends hnext hc herr i o).mono (fun _ _ h => h) (fun _ _ h => h) fun h => h.imp_right .inr
  · rintro c s' ⟨l', hdata, hs'⟩
    exact (destroySb_tuned hs').mono (fun _ _ h => ⟨l', hdata, h.hears⟩) fun _ _ h => h.fails
  · exact fun _ => destroySb_broken

end Transfer

end Socketpp
