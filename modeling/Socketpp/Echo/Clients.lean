import Socketpp.Echo.Server

/-!
# Echo — the clients of a server

The parent and all its children, in any order of their deeds: what the kernel answers, which process goes on
next and which one is killed is left open, and there may be any number of clients.  The parent reads no record
that `reaper_nohang` has deleted.  Each client has a child of its own, which sends back to it what it has
received from it, and nothing of what it has received from another (`clients_apart`).
-/

namespace Socketpp
open Lib

variable {φ : Type}

/-- What `serve_clients` can come to, with the files of `base` open when its loop starts: the listening socket
is one of them. -/
def Serving (base : Int → Option φ) (x : Site φ Syscall) : Prop :=
  x.Reachable EchoParent.Begins EchoChild.Begins base

/-- The bytes that the server has sent on the connection `n`. -/
def sentTo (x : Site φ Syscall) (n : Nat) : List Byte := (x.callsOn n).flatMap fun e => e.2.sentOn e.2.fd

/-- The bytes that it has received on it. -/
def receivedFrom (x : Site φ Syscall) (n : Nat) : List Byte :=
  (x.callsOn n).flatMap fun e => e.2.receivedOn e.2.fd

/-- **Each client has its own child**, the child `j` that of the connection `conn j`. -/
structure Separate (base : Int → Option φ) (conn : Nat → Nat) (x : Site φ Syscall) : Prop where
  distinct : ∀ i j, x.Child i → x.Child j → conn i = conn j → i = j
  /-- on a connection only its child makes calls, and a child only on its connection -/
  own      : ∀ j, x.Child j → x.callsOn (conn j) = (usesOf (x.made j)).map fun c => (j, c)
  nobody   : ∀ n, (∀ j, x.Child j → conn j ≠ n) → x.callsOn n = []
  /-- only its child holds a connection, and the parent until it has closed it -/
  holder   : ∀ p fd n, x.table p fd = some (.inr n) →
    (p = 0 ∧ n + 1 = x.connections) ∨ (x.Child p ∧ fd = x.serves p ∧ n = conn p)
  /-- at the head of its loop the parent holds none -/
  noLeak   : x.alive 0 = true → Trail InTurn .idle (x.made 0) .idle → x.table 0 = Site.given base
  /-- every process holds the listening socket -/
  keeps    : ∀ p fd f, x.alive p = true → base fd = some f → x.table p fd = some (.inl f)
  /-- nothing is sent on a connection but what has been received on it -/
  echoes   : ∀ n, sentTo x n <+: receivedFrom x n
  /-- and all of it has been sent where the child has exited -/
  complete : ∀ j, x.Child j → .exit ∈ x.made j → sentTo x (conn j) = receivedFrom x (conn j)

section Clients

variable {base : Int → Option φ} {x : Site φ Syscall} {conn : Nat → Nat} {j : Nat}

/-- What a child has sent and received, by the calls that reached its connection. -/
theorem bytes_of_own {f : Int → Syscall → List Byte} {fd : Int} {calls : List Syscall} {j : Nat}
    {log : List (Nat × Syscall)} (hfd : ∀ c ∈ calls, c.fd = fd) (hlog : log = calls.map fun c => (j, c)) :
    (log.flatMap fun e => f e.2.fd e.2) = calls.flatMap (f fd) := by
  rw [hlog, List.flatMap_map]
  exact List.flatMap_congr fun c hc => by rw [hfd c hc]

/-- **The echo of one child.** -/
theorem child_echoes (hmade : x.made j = [] ∨ EchoChild.Begins (x.serves j) (x.made j))
    (hown : x.callsOn (conn j) = (usesOf (x.made j)).map fun c => (j, c)) :
    sentTo x (conn j) <+: receivedFrom x (conn j) ∧
      (.exit ∈ x.made j → sentTo x (conn j) = receivedFrom x (conn j)) := by
  rcases hmade with hnone | hbegins
  · have hcalls : x.callsOn (conn j) = [] := by rw [hown, hnone]; rfl
    rw [sentTo, receivedFrom, hcalls, hnone]
    exact ⟨List.prefix_rfl, fun hexit => absurd hexit List.not_mem_nil⟩
  · have hsent : sentTo x (conn j) = sentOn (x.serves j) (usesOf (x.made j)) :=
      bytes_of_own (f := Syscall.sentOn) hbegins.calls_fd hown
    have hreceived : receivedFrom x (conn j) = receivedOn (x.serves j) (usesOf (x.made j)) :=
      bytes_of_own (f := Syscall.receivedOn) hbegins.calls_fd hown
    rw [hsent, hreceived]
    exact hbegins.sent_received

/-- **In every order of deeds**, with any number of clients, any failures and any children killed: each client
has a child of its own, which alone holds its connection behind the round of the parent, and which sends it
what it has received from it. -/
theorem clients_apart (h : Serving base x) : ∃ conn, Separate base conn x := by
  obtain ⟨conn, hapart⟩ := Site.apart_of_reachable forking h
  have hmade := Site.made_of_reachable forking h
  have hecho : ∀ j, x.Child j → _ := fun j hj =>
    child_echoes (hmade j (Nat.ne_of_gt hj.1)) (hapart.logged j hj)
  refine ⟨conn, hapart.distinct, hapart.logged, hapart.nobody, fun p fd n => hapart.holder, fun h0 hidle => ?_,
    fun p fd f hp hf => hapart.keeps_given hp hf, fun n => ?_, fun j hj => (hecho j hj).2⟩
  · obtain ⟨q, ht, hq⟩ := hapart.parent h0
    obtain rfl := ht.unique inTurn_unique hidle
    exact hq
  · by_cases hn : ∃ j, x.Child j ∧ conn j = n
    · obtain ⟨j, hj, rfl⟩ := hn
      exact (hecho j hj).1
    · have hnone : x.callsOn n = [] := hapart.nobody n fun j hj heq => hn ⟨j, hj, heq⟩
      rw [sentTo, receivedFrom, hnone]
      exact List.prefix_rfl

end Clients

/-! ### Two clients -/

namespace TwoClients

/-- The listening socket is on 3. -/
def base (fd : Int) : Option Unit := if fd = 3 then some () else none

/-- The parent at the head of its loop; every connection is accepted on 4. -/
def parent : Proc EchoParent (Peer 1024 Unit × Peer 1024 Unit) :=
  let b := Sockbuf.ofDesc bufsiz 3 (fun _ => 0) fun _ => 0
  ⟨⟨b, b, none, false, []⟩, ⟨(⟨[], ()⟩, ⟨[], ()⟩), 0, []⟩⟩

/-- Forks succeed, and no child dies. -/
def children : Children (Peer 1024 Unit × Peer 1024 Unit) :=
  ⟨fun k => (some 7, k), fun k => (false, k), fun _ => 0⟩

/-- Two rounds. -/
theorem parent_may {x : Site Unit Syscall} {d : Deed Syscall} (halive : x.alive 0 = true)
    (h : x.made 0 ++ [d] <+: [.accept 4, .fork true, .close 4, .accept 4, .fork true, .close 4]) :
    x.May EchoParent.Begins EchoChild.Begins 0 d :=
  ⟨halive, _, Transfer.server 4, children, bufsiz, Transfer.scratch, parent, _, rfl, rfl,
    ⟨1, _, _, .step rfl (.refl _ _), rfl⟩, rfl, h⟩

/-- A child whose client sends the chunk `c`. -/
def child (c : Chunk 1024) : Proc EchoChild (Peer 1024 Unit) :=
  EchoChild.served bufsiz 4 (fun _ => 0) (fun _ => 0) (fun _ => 0) ⟨[c], ()⟩ 0

theorem first_begins {l : List Syscall}
    (h : l <+: [.read 4 1024 (some [97, 98]), .write 4 [97, 98] (some 2)]) :
    EchoChild.Begins 4 (l.map EchoChild.deed) :=
  .serves (Nat.le_refl 2) (show EchoChild.InRun (Kernel.smooth 1024) 2 (child ⟨[97, 98], by decide⟩) _ from
    ⟨0, _, _, .refl _ _, rfl⟩) h

theorem second_begins {l : List Syscall} (h : l <+: [.read 4 1024 (some [99]), .write 4 [99] (some 1)]) :
    EchoChild.Begins 4 (l.map EchoChild.deed) :=
  .serves (Nat.le_refl 2) (show EchoChild.InRun (Kernel.smooth 1024) 2 (child ⟨[99], by decide⟩) _ from
    ⟨0, _, _, .refl _ _, rfl⟩) h

/-- The first child reads before the second client is accepted, and writes behind the first call of the
other. -/
theorem served : ∃ x : Site Unit Syscall, Serving base x ∧ x.processes = 3 ∧ sentTo x 0 = [97, 98] ∧
    receivedFrom x 1 = [99] := by
  have hstart : Serving base (.start base) := .start
  have haccept := hstart.step (.accept (parent_may (d := .accept 4) rfl ⟨_, rfl⟩) rfl)
  have hfork := haccept.step (.fork (parent_may rfl ⟨_, rfl⟩))
  have hread := hfork.step (.use (p := 1) (c := .read 4 1024 (some [97, 98]))
    ⟨rfl, first_begins (l := [_]) ⟨_, rfl⟩⟩ rfl)
  have hclose := hread.step (.close (parent_may (d := .close 4) rfl ⟨_, rfl⟩))
  have haccept' := hclose.step (.accept (parent_may (d := .accept 4) rfl ⟨_, rfl⟩) rfl)
  have hfork' := haccept'.step (.fork (parent_may rfl ⟨_, rfl⟩))
  have hread' := hfork'.step (.use (p := 2) (c := .read 4 1024 (some [99]))
    ⟨rfl, second_begins (l := [_]) ⟨_, rfl⟩⟩ rfl)
  have hwrite := hread'.step (.use (p := 1) (c := .write 4 [97, 98] (some 2))
    ⟨rfl, first_begins (l := [_, _]) ⟨_, rfl⟩⟩ rfl)
  exact ⟨_, hwrite, rfl, rfl, rfl⟩

theorem clients_apart_two : ∃ (x : Site Unit Syscall) (conn : Nat → Nat), Separate base conn x ∧
    x.processes = 3 ∧ sentTo x 0 = [97, 98] ∧ receivedFrom x 1 = [99] := by
  obtain ⟨x, hserved, hprocesses, hsent, hreceived⟩ := served
  obtain ⟨conn, h⟩ := clients_apart hserved
  exact ⟨x, conn, h, hprocesses, hsent, hreceived⟩

end TwoClients

end Socketpp
