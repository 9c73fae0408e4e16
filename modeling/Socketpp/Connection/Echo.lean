import Socketpp.Connection.Exact
import Socketpp.Echo.Causal

/-!
# Connection — a client of the echo server

A party at the near end of a connection, with any operations, and the child of `serve_clients` at the far
end.  What the party gets back is what it has sent: a prefix of it at every point of the run of the child
(`echo_prefix`); and all of it where the child has ended its loops and exited, and the party has come to
the end of file (`echo_complete`).
-/

namespace Socketpp
open Lib Sockbuf EchoChild

/-- The descriptors of the two ends. -/
def ends (near far : Int) : End → Int
  | .near => near
  | .far  => far

variable {P : Party} {κ : Type} {K : Kernel κ} {n : Nat} {B : ℕ+} {sd : Int} {gbuf pbuf buf : Mem Byte} {k : κ}
  {errno : Int} {q' : Proc EchoChild κ} {w w₁ w₂ : List Event} {ℓ : End → Channel Byte}

/-- **At every point of a run of the child**, with the party between two operations, what the party has
been given is a prefix of what it has put in. -/
theorem echo_prefix (hn : 2 ≤ n) (hrun : InRun K n (served B sd gbuf pbuf buf k errno) q')
    (hlink : Linked (ends P.sd sd) w ℓ) (hclient : callsAt .near w = P.calls)
    (hchild : callsAt .far w <+: q'.sys.trace) :
    ∃ a, P.Keeps a ∧ a.delivered <+: a.accepted := by
  obtain ⟨a, hkeeps, ha⟩ := P.keeps
  refine ⟨a, hkeeps, ?_⟩
  obtain ⟨rest, hbehind⟩ := inRun_causal hn (served_behind B sd gbuf pbuf buf k errno) hrun
  have there := hlink.conserved .near
  have back := hlink.conserved .far
  rw [show End.far.other = .near from rfl, hclient] at back
  rw [hclient] at there
  have given : a.delivered <+: receivedOn P.sd P.calls := by
    rw [Party.calls, ha.delivered, List.append_assoc]
    exact List.prefix_append _ _
  have taken : sentOn P.sd P.calls <+: a.accepted := by
    rw [Party.calls, ha.accepted, List.append_assoc]
    exact List.prefix_append _ _
  have returned : receivedOn P.sd P.calls <+: sentOn sd (callsAt .far w) := ⟨_, back.symm⟩
  have arrived : receivedOn sd (callsAt .far w) <+: sentOn P.sd P.calls := ⟨_, there.symm⟩
  exact given.trans (returned.trans ((hbehind.causal _ hchild).trans (arrived.trans taken)))

/-- The child shuts nothing. -/
theorem listening_of_unshut {calls : List Syscall} (h : ∀ c ∈ calls, c.shuts = false) : Listening calls :=
  fun _ _ _ hm => absurd (h _ hm) (by simp [Syscall.shuts])

/-- Behind the end of a channel nothing is sent. -/
theorem sent_once_over {fd : End → Int} {e : End} {c c' : Channel Byte} (hover : c.Over)
    (h : Channel.Run c (channelOf fd e w) c') : sentOn (fd e) (callsAt e w) = [] := by
  rw [← channelOf_puts]
  exact h.over_puts hover

/-- **At the end.**  The child has ended its loops and exited; the party has not, it has shut its get
side by no operation, and in a `::read` the kernel has returned 0.  Then it has been given all that it
has put in and sent, and what it has put in and not sent it still holds, or has thrown away. -/
theorem echo_complete (hn : 2 ≤ n) {v : Int}
    (hret : serveClient K n (served B sd gbuf pbuf buf k errno) = .ret v q')
    (hlink : Linked (ends P.sd sd) (w₁ ++ .exit .far :: w₂) ℓ) (hchild : callsAt .far w₁ = q'.sys.trace)
    (hunborn : .exit .far ∉ w₁) (hgone : callsAt .far w₂ = [])
    (hclient : callsAt .near (w₁ ++ .exit .far :: w₂) = P.calls) (hlisten : ∀ op ∈ P.ops, op.listens = true)
    (hexit : .exit .near ∉ w₁ ++ .exit .far :: w₂) (heof : EofDuring P.start.proc P.final.proc) :
    ∃ a, P.Keeps a ∧ a.accepted = a.delivered ++ P.final.proc.obj.unread ++ P.final.proc.obj.pending ++ a.lost := by
  obtain ⟨a, hkeeps, ha⟩ := P.keeps
  refine ⟨a, hkeeps, ?_⟩
  have hnear := hlink .near
  have hfar := hlink .far
  rw [channelOf, List.filterMap_append] at hnear
  obtain ⟨c₁, h₁, h₂⟩ := hnear.append_inv
  obtain ⟨-, hbehind, len, hlast⟩ :=
    serveClient_behind hn (served_behind B sd gbuf pbuf buf k errno) hret
  -- the child has been told of the end, so nothing that was sent is missing, and nothing follows
  have hover : c₁.Over := by
    refine h₁.ended rfl (not_deafen (e := .near) ?_ hunborn) (ended_mem (e := .near) len ?_)
    · exact listening_of_unshut (hchild ▸ hbehind.unshut)
    · rw [show callsAt End.near.other w₁ = _ from hchild]
      exact hlast
  have there : sentOn P.sd P.calls = receivedOn sd q'.sys.trace := by
    have hconserved : sentOn P.sd (callsAt .near w₁) = receivedOn sd (callsAt .far w₁) ++ c₁.queue := by
      have h := h₁.conserved
      rw [← channelOf, channelOf_puts, channelOf_takes] at h
      exact h
    have hnone : sentOn P.sd (callsAt .near (.exit .far :: w₂)) = [] := sent_once_over (e := .near) hover h₂
    rw [← hclient, callsAt, List.filterMap_append, sentOn_append, ← callsAt, ← callsAt, hnone, hconserved,
      hover.2, hchild, List.append_nil, List.append_nil]
  -- what it has sent back has all been given to the party
  obtain ⟨hlistening, hdropped⟩ := hkeeps.listening hlisten fun _ _ _ h => absurd h List.not_mem_nil
  have back : receivedOn P.sd P.calls = sentOn sd q'.sys.trace := by
    have hdone : (ℓ .far).Over := by
      refine hfar.ended rfl (not_deafen (e := .far) ?_ hexit) ?_
      · rw [show callsAt End.far.other _ = _ from hclient]
        exact hlistening
      · obtain ⟨before, after, len, -, htrace⟩ := heof
        refine ended_mem (e := .far) len ?_
        rw [show callsAt End.far.other _ = _ from hclient, Party.calls, htrace]
        exact List.mem_append_right _ List.mem_cons_self
    have hcalls : callsAt .far (w₁ ++ .exit .far :: w₂) = q'.sys.trace := by
      rw [callsAt, List.filterMap_append, ← callsAt, hchild]
      exact (congrArg _ hgone).trans (List.append_nil _)
    have h := hlink.conserved .far
    rw [hcalls, hdone.2, List.append_nil, show callsAt End.far.other _ = _ from hclient] at h
    exact h.symm
  have howed : receivedOn sd q'.sys.trace = sentOn sd q'.sys.trace := by
    have h := hbehind.owed
    rwa [List.append_nil] at h
  have hreceived := ha.delivered
  rw [hdropped, Account.empty, List.append_nil] at hreceived
  rw [ha.accepted, ← hreceived, ← Party.calls, back, ← howed, ← there]

/-! ### An exchange -/

namespace EchoExchange

/-- A client that sends two bytes, shuts its put side and asks for more than that. -/
def client : Party where
  κ       := Peer 1024 Unit
  K       := Kernel.smooth 1024
  B       := bufsiz
  sd      := 3
  gbuf    := fun _ => 0
  pbuf    := fun _ => 0
  kern    := ⟨[Exchange.ab], ()⟩
  errno   := 0
  ops     := [.put (.sputn [97, 98]), .put .sync, .shutdown .shut_write, .get (.sgetn 5)]
  forward := by decide

/-- The child, with two bytes to come. -/
def server : Proc EchoChild (Peer 1024 Unit) :=
  served bufsiz 7 (fun _ => 0) (fun _ => 0) (fun _ => 0) ⟨[Exchange.ab], ()⟩ 0

def before : List Event :=
  [.call .near (.write 3 [97, 98] (some 2)), .call .near (.shutdown 3 .shut_write true),
    .call .far (.read 7 1024 (some [97, 98])), .call .far (.write 7 [97, 98] (some 2)),
    .call .far (.read 7 1024 (some []))]

def behind : List Event :=
  [.call .near (.read 3 1024 (some [97, 98])), .call .near (.read 3 1024 (some []))]

def channels : End → Channel Byte
  | .near => ⟨[], true, true⟩
  | .far  => ⟨[], true, false⟩

/-- A client that sends two bytes and asks for two. -/
def asker : Party := { client with
  ops     := [.put (.sputn [97, 98]), .put .sync, .get (.sgetn 2)]
  forward := by decide }

def oneRound : List Event :=
  [.call .near (.write 3 [97, 98] (some 2)), .call .far (.read 7 1024 (some [97, 98])),
    .call .far (.write 7 [97, 98] (some 2)), .call .near (.read 3 1024 (some [97, 98]))]

theorem oneRound_linked : Linked (ends asker.sd 7) oneRound fun _ => .empty := by
  intro e
  cases e with
  | near => exact .cons rfl (.cons rfl (.nil _))
  | far => exact .cons rfl (.cons rfl (.nil _))

/-- Between the first round of the child and the second. -/
theorem echo_prefix_exchange : ∃ a, asker.Keeps a ∧ a.delivered <+: a.accepted :=
  echo_prefix (n := 2) (Nat.le_refl 2)
    (show InRun (Kernel.smooth 1024) 2 server _ from ⟨0, _, _, .refl _ _, rfl⟩) oneRound_linked rfl
    List.prefix_rfl

theorem linked : Linked (ends client.sd 7) (before ++ .exit .far :: behind) channels := by
  intro e
  cases e with
  | near => exact .cons rfl (.cons rfl (.cons rfl (.cons rfl (.cons rfl (.nil _)))))
  | far => exact .cons rfl (.cons rfl (.cons rfl (.cons rfl (.nil _))))

theorem echo_complete_exchange : ∃ a, client.Keeps a ∧ a.accepted =
    a.delivered ++ client.final.proc.obj.unread ++ client.final.proc.obj.pending ++ a.lost :=
  echo_complete (n := 3) (by decide) (show serveClient (Kernel.smooth 1024) 3 server = .ret 0 _ from rfl) linked
    rfl (by simp [before]) rfl rfl (by decide) (by simp [before, behind])
    ⟨[.write 3 [97, 98] (some 2), .shutdown 3 .shut_write true, .read 3 1024 (some [97, 98])], [], 1024,
      List.nil_prefix, rfl⟩

end EchoExchange

end Socketpp
