import Socketpp.Lib.Triple
import Socketpp.Ftp.Data

/-!
# Ftp — the course of a transfer

`ftpdata` behind an accepted connection: the transfer, then the destructor of `sb` (`ftpdata_eq`).
What leads there depends on the bounds of its loops only in whether it is cut off (`connect_steady`).
-/

namespace Socketpp
open Lib

/-! ### Blocks -/

section Blocks

variable {σ α : Type} {destructor : Prog Thrown σ Unit}

/-- What a block comes to depends on what its body came to. -/
theorem inBlock_congr {p q : Prog Raised σ α} {s t : σ} (h : p s = q t) :
    inBlock destructor p s = inBlock destructor q t := by
  simp only [inBlock, Prog.bind_apply, Prog.tryCatch_apply, h]

theorem inBlock_spin {p : Prog Raised σ α} {s : σ} (h : p s = .spin) :
    inBlock destructor p s = .spin := by
  simp only [inBlock, Prog.bind_apply, Prog.tryCatch_apply, h, Outcome.handle_spin, Outcome.andThen_spin]

/-- The rule of blocks: the destructor finds what the body has left. -/
theorem inBlock_sat {p : Prog Raised σ α} {s : σ} {P : α → σ → Prop} {F : Thrown → σ → Prop}
    {Q : α → σ → Prop} {E : Raised → σ → Prop}
    (hp : (p s).Sat P fun e s' => ∃ x, e = .exception x ∧ F x s')
    (hd : ∀ a s', P a s' → (destructor s').Sat (fun _ => Q a) fun _ => E .terminate)
    (he : ∀ x s', F x s' → (destructor s').Sat (fun _ => E (.exception x)) fun _ => E .terminate) :
    (inBlock destructor p s).Sat Q E := by
  simp only [inBlock, Prog.bind_apply, Prog.tryCatch_apply]
  refine Outcome.Sat.andThen (Q := P) (E := E) ?_ (fun a s' ha => ?_) fun _ _ h => h
  · refine hp.handle (fun _ _ h => h) ?_
    rintro e s' ⟨x, rfl, hx⟩
    simp only [noexcept, Prog.bind_apply]
    exact (Outcome.sat_mapThrown.mpr (he x s' hx)).andThen (fun _ _ h => h) fun _ _ h => h
  · simp only [noexcept]
    exact (Outcome.sat_mapThrown.mpr (hd a s' ha)).andThen (fun _ _ h => h) fun _ _ h => h

end Blocks

namespace Transfer

variable {κ : Type} {N : NetKernel κ} {B : ℕ+} {m m' : Alloc} {n : Nat} {portno : Int} {i : Bool}
  {o : Option OStream} {cmd : List Byte} {arg : Option (List Byte)} {s s₀ s₁ s₂ : Proc Transfer κ}
  {reply : Byte}

/-- `c` and the system. -/
def atC (s : Proc Transfer κ) : Proc Sockbuf κ := ⟨s.obj.c, s.sys⟩

theorem onC_apply {α : Type} (p : SockM κ α) (s : Proc Transfer κ) :
    onC p s = (p (atC s)).mapState fun t => ⟨{ s.obj with c := t.obj }, t.sys⟩ := rfl

/-- The connection accepted is new. -/
theorem openC_ret (h : openC N B m s₁ = .ret () s₂) :
    ∃ socfd, s₂.obj.c = Sockbuf.ofDesc B socfd m.gbuf m.pbuf := by
  obtain ⟨socfd, s, -, hs⟩ := Prog.bind_eq_ret h
  cases hs
  exact ⟨socfd, rfl⟩

/-- **`ftpdata`** behind a reply that is no error. -/
theorem ftpdata_eq (hopen : openSb N B m sock_stream 0 s = .ret () s₀)
    (hconn : connect N n portno cmd arg s₀ = .ret reply s₁) (hreply : ¬ IsError reply) :
    ftpdata N B m m' n portno i o cmd arg s = inBlock (destroySb N) (transfer N B m' n i o) s₁ := by
  simp only [ftpdata, raising, Prog.bind_apply, Prog.mapThrown_apply, hopen, Outcome.mapThrown,
    Outcome.andThen_ret]
  refine inBlock_congr ?_
  simp only [Prog.bind_apply, Prog.mapThrown_apply, hconn, Outcome.mapThrown, Outcome.andThen_ret, hreply,
    if_false]

/-! ### Bounds -/

theorem getResponse_steady (K : Kernel κ) : Prog.Steady (Ftpbuf.getResponse K) :=
  .bind (.loop _ _) fun _ => .const _

theorem sendCmd_steady (K : Kernel κ) (cmd : List Byte) (arg : Option (List Byte)) :
    Prog.Steady fun n => Ftpbuf.sendCmd K n cmd arg := by
  refine .bind (.const _) fun _ => .bind (.const _) fun _ => .bind (.const _) fun _ => ?_
  exact .bind (.const _) fun _ => getResponse_steady K

theorem useraddr_steady (N : NetKernel κ) (sa : Sockinetaddr) :
    Prog.Steady fun n => Ftpbuf.useraddr N n sa := by
  unfold Ftpbuf.useraddr
  have send : ∀ ina, Prog.Steady fun n =>
      Ftpbuf.sendCmd N.toKernel n (ascii "PORT") (some (Ftpbuf.portArg ina (ntohs sa.sin_port))) :=
    fun ina => sendCmd_steady _ _ _
  exact .ite (.bind (.const _) send) (.bind (.const _) send)

theorem connect_steady (N : NetKernel κ) (portno : Int) (cmd : List Byte) (arg : Option (List Byte)) :
    Prog.Steady fun n => connect N n portno cmd arg := by
  refine .bind (.zoom (.loop _ _)) fun _ => .bind (.const _) fun sa => ?_
  refine .bind (.zoom (useraddr_steady N sa)) fun _ => .bind (.const _) fun _ => ?_
  exact .zoom (sendCmd_steady _ _ _)

/-! ### A client and its server -/

/-- The kernel of a client with one connection to a server; a connection it accepts is on `fd`. -/
def server (fd : Int) : NetKernel (Peer 1024 Unit × Peer 1024 Unit) where
  toKernel          := (Kernel.smooth 1024).withFile fd
  socket k _ _ _    := (.ok 4, k)
  bind k _ _        := (.ok (), k)
  listen k _ _      := (.ok (), k)
  accept k _        := (.ok fd, k)
  getsockname k _   := (.ok (sockinetaddr INADDR_ANY 10000), k)
  close k _         := (.ok (), k)
  gethostname k     := (.ok [], k)
  gethostbyname k _ := (some ⟨127, 0, 0, 1⟩, k)

/-- Memory as a client finds it. -/
def scratch : Alloc := ⟨fun _ => 0, fun _ => 0⟩

/-- The replies to `PORT`, to the command and to the transfer. -/
def replies : List (Chunk 1024) :=
  [⟨ascii "200 ok\r\n", by decide⟩, ⟨ascii "150 ok\r\n", by decide⟩, ⟨ascii "226 ok\r\n", by decide⟩]

/-- The file on the server. -/
def remote : List (Chunk 1024) := [⟨ascii "he", by decide⟩, ⟨ascii "llo", by decide⟩]

/-- A client with three bytes to send. -/
def client : Proc Transfer (Peer 1024 Unit × Peer 1024 Unit) :=
  let b := Sockbuf.ofDesc bufsiz 3 (fun _ => 0) fun _ => 0
  { obj := ⟨⟨b, fun _ => 0, none⟩, b, b, ascii "abc", [], [], []⟩
    sys := ⟨(⟨replies, ()⟩, ⟨remote, ()⟩), 0, []⟩ }

/-- `ftpdata` up to the accepted connection. -/
def opening (S : NetKernel (Peer 1024 Unit × Peer 1024 Unit)) (cmd : List Byte) :
    TransferM (Peer 1024 Unit × Peer 1024 Unit) Byte := do
  openSb S bufsiz scratch sock_stream 0
  let reply ← connect S 1 10000 cmd (some (ascii "f"))
  openC S bufsiz scratch
  return reply

/-- What can be seen of a client that has come to an accepted connection. -/
def seen (S : NetKernel (Peer 1024 Unit × Peer 1024 Unit)) (cmd : List Byte)
    (s : Proc Transfer (Peer 1024 Unit × Peer 1024 Unit)) :
    Option (Option Byte × List Byte × Int × List (Chunk 1024)) :=
  (opening S cmd s).result.map fun r =>
    (r.1.toOption, r.2.obj.i, r.2.obj.c.rep.sock, r.2.sys.kern.2.inbox)

theorem opening_connects {S : NetKernel (Peer 1024 Unit × Peer 1024 Unit)}
    {s : Proc Transfer (Peer 1024 Unit × Peer 1024 Unit)} {cmd i : List Byte} {reply : Byte} {fd : Int}
    {box : List (Chunk 1024)} (hseen : seen S cmd s = some (some reply, i, fd, box)) :
    ∃ s₀ s₁ s₂, openSb S bufsiz scratch sock_stream 0 s = .ret () s₀ ∧
      connect S 1 10000 cmd (some (ascii "f")) s₀ = .ret reply s₁ ∧
      openC S bufsiz scratch s₁ = .ret () s₂ ∧ s₂.obj.i = i ∧
      s₂.obj.c.rep.sock = fd ∧ s₂.sys.kern.2.inbox = box := by
  rw [seen] at hseen
  cases hrun : opening S cmd s with
  | ret reply s₂ =>
      rw [hrun] at hseen
      obtain ⟨⟨⟩, s₀, hopen, hrest⟩ := Prog.bind_eq_ret hrun
      obtain ⟨reply', s₁, hconn, hrest⟩ := Prog.bind_eq_ret hrest
      obtain ⟨⟨⟩, s₂', hacc, hret⟩ := Prog.bind_eq_ret hrest
      cases hret
      simp only [Outcome.result, Option.map_some, Except.toOption, Option.some.injEq,
        Prod.mk.injEq] at hseen
      obtain ⟨rfl, hi, hsock, hbox⟩ := hseen
      exact ⟨s₀, s₁, _, hopen, hconn, hacc, hi, hsock, hbox⟩
  | thrown e s' =>
      rw [hrun] at hseen
      simp only [Outcome.result, Option.map_some, Except.toOption, Option.some.injEq, Prod.mk.injEq,
        reduceCtorEq, false_and] at hseen
  | spin =>
      rw [hrun] at hseen
      cases hseen

/-- The client comes to an accepted connection. -/
theorem client_connects {cmd : List Byte} (hcmd : cmd = ascii "RETR" ∨ cmd = ascii "STOR") :
    ∃ s₀ s₁ s₂, openSb (server 5) bufsiz scratch sock_stream 0 client = .ret () s₀ ∧
      connect (server 5) 1 10000 cmd (some (ascii "f")) s₀ = .ret 49 s₁ ∧
      openC (server 5) bufsiz scratch s₁ = .ret () s₂ ∧ s₂.obj.i = ascii "abc" ∧
      s₂.obj.c.rep.sock = 5 ∧ s₂.sys.kern.2.inbox = remote := by
  refine opening_connects ?_
  rcases hcmd with rfl | rfl
  · decide +kernel
  · decide +kernel

end Transfer

end Socketpp
