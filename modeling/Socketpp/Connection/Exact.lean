import Socketpp.Connection.Model

/-!
# Connection — what arrives

Two parties, each running its own operations on its own sockbuf, with any kernels, and the connection
between them.  Whatever order the connection lets them make their calls in:

* at every instant, what the gets of one have delivered is a prefix of what the puts of the other have
  accepted (`end_to_end_prefix`);
* between operations, each byte that was accepted is, in this order, delivered, unread, dropped, on the
  way, pending or lost (`end_to_end_conserved`);
* a party that listens and has been told of the end of file has all that was sent; what it has not got
  of what was accepted, the other still holds or has thrown away (`end_to_end_complete`).
-/

namespace Socketpp
open Lib

/-! ### A party that listens -/

/-- The operations that do not shut the get side. -/
def SockOp.listens : SockOp → Bool
  | .shutdown sh => sh = .shut_write
  | _            => true

/-- No call has shut the get side. -/
def Listening (calls : List Syscall) : Prop :=
  ∀ fd how ok, Syscall.shutdown fd how ok ∈ calls → how = .shut_write

/-- A call that shuts nothing, or the put side. -/
theorem Listening.call {calls : List Syscall} {c : Syscall} (h : Listening calls)
    (hc : ∀ fd how ok, c = .shutdown fd how ok → how = .shut_write) : Listening (calls ++ [c]) := by
  intro fd how ok hm
  rcases List.mem_append.mp hm with hm | hm
  · exact h fd how ok hm
  · exact hc fd how ok (List.mem_singleton.mp hm).symm

namespace Sockbuf

variable {κ : Type} {K : Kernel κ} {t t' : Getting κ} {r : Except Thrown Int}

/-- The get side has not been shut in between. -/
def StaysListening (s s' : Proc Sockbuf κ) : Prop := Listening s.sys.trace → Listening s'.sys.trace

theorem staysListening_enter {s : Proc Sockbuf κ} {y : Sys κ} {c : Syscall}
    (ht : y.trace = s.sys.trace ++ [c]) (hc : ∀ fd how ok, c ≠ .shutdown fd how ok) :
    StaysListening s { s with sys := y } := by
  intro h
  show Listening y.trace
  rw [ht]
  exact h.call fun fd how ok he => absurd he (hc fd how ok)

/-- The put functions shut nothing. -/
theorem putFrame_listening (K : Kernel κ) : PutFrame K StaysListening where
  refl _ h := h
  trans _ _ _ h h' hl := h' (h hl)
  write _ _ := keeps_writeCall fun _ _ _ _ ht => staysListening_enter ht (by simp)
  selectWrite _ _ := keeps_answer fun _ _ _ _ ht => staysListening_enter ht (by simp)
  put _ _ h := h

/-- The get functions shut nothing. -/
theorem getFrame_listening (K : Kernel κ) : GetFrame K StaysListening where
  refl _ h := h
  trans _ _ _ h h' hl := h' (h hl)
  read _ _ := leaves_readCall fun _ _ _ ht => staysListening_enter ht (by simp)
  selectRead _ _ := keeps_answer fun _ _ _ _ ht => staysListening_enter ht (by simp)
  sockatmark _ := keeps_answer fun _ _ _ _ ht => staysListening_enter ht (by simp)
  get _ _ h := h

/-- **An operation that listens** shuts no get side, and drops nothing. -/
theorem exec_listening {op : SockOp} (hop : op.listens = true) (came : (op.exec K t).result = some (r, t'))
    (h : Listening t.proc.sys.trace) : Listening t'.proc.sys.trace := by
  cases op with
  | put p =>
      by_cases hputs : (SockOp.put p).puts = true
      · exact ((exec_puts_frame (putFrame_listening K) hputs t).result came).1 h
      · cases p with
        | sendtimeout wp => cases came; exact h
        | sputc _ | overflow _ | sputn _ | sync => exact absurd rfl hputs
  | get g =>
      by_cases hgets : (SockOp.get g).gets = true
      · exact (exec_gets_frame (getFrame_listening K) hgets t).result came h
      · cases g with
        | recvtimeout wp => cases came; exact h
        | oob b => cases came; exact h
        | sgetc | underflow | sbumpc | uflow | sgetn _ => exact absurd rfl hgets
  | sungetc => exact (exec_gets_frame (getFrame_listening K) rfl t).result came h
  | sputbackc c => exact (exec_gets_frame (getFrame_listening K) rfl t).result came h
  | shutdown sh =>
      obtain rfl : sh = .shut_write := of_decide_eq_true hop
      obtain ⟨r₀, hcame, -⟩ := Prog.map_result came
      obtain ⟨ok, htrace⟩ := ((shut_write_leaves t.proc).result (within_result hcame).1).trace
      rw [htrace]
      refine Listening.call h fun fd how ok hc => ?_
      cases hc
      rfl

theorem books_listening {op : SockOp} {a a' : Account} (hop : op.listens = true)
    (came : (op.exec K t).result = some (r, t')) (hbooks : op.Books t r t' a a') :
    a'.dropped = a.dropped := by
  cases op with
  | put p => obtain ⟨xs, -, rfl⟩ := hbooks; rfl
  | get g => obtain ⟨xs, -, rfl⟩ := hbooks; rfl
  | sungetc | sputbackc c => rw [show a' = a from hbooks]
  | shutdown sh =>
      obtain rfl : sh = .shut_write := of_decide_eq_true hop
      obtain ⟨r₀, hcame, -⟩ := Prog.map_result came
      have hobj := ((shut_write_leaves t.proc).result (within_result hcame).1).obj
      have hget : t'.proc.obj.getArea = t.proc.obj.getArea := by rw [hobj]; rfl
      rw [show a' = _ from hbooks]
      show droppedIn t.proc.obj t'.proc.obj ++ a.dropped = a.dropped
      have heq := droppedIn_eq (.inr hget)
      rw [unread, unread, hget, List.append_right_eq_self] at heq
      rw [heq]
      rfl

/-- A run that listens. -/
theorem Kept.listening {a a' : Account} {ops : List SockOp} (h : Kept K t a ops a' t')
    (hops : ∀ op ∈ ops, op.listens = true) (hl : Listening t.proc.sys.trace) :
    Listening t'.proc.sys.trace ∧ a'.dropped = a.dropped := by
  induction h with
  | nil t a => exact ⟨hl, rfl⟩
  | @cons t t₁ t' a a₁ a' op ops r came books _ ih =>
      have hop := hops op List.mem_cons_self
      obtain ⟨hl', hdropped⟩ := ih (fun op hop => hops op (List.mem_cons_of_mem _ hop)) (exec_listening hop came hl)
      exact ⟨hl', hdropped.trans (books_listening hop came books)⟩

end Sockbuf

/-! ### Two parties -/

open Sockbuf

/-- A party: its kernel, the sockbuf it constructs for its descriptor, and the operations it runs. -/
structure Party where
  κ       : Type
  K       : Kernel κ
  B       : ℕ+
  sd      : Int
  gbuf    : Mem Byte
  pbuf    : Mem Byte
  kern    : κ
  errno   : Int
  ops     : List SockOp
  forward : ∀ op ∈ ops, op.forward = true

namespace Party

def start (p : Party) : Getting p.κ := ⟨⟨ofDesc p.B p.sd p.gbuf p.pbuf, ⟨p.kern, p.errno, []⟩⟩, []⟩

/-- The state after the operations. -/
def final (p : Party) : Getting p.κ := after p.K p.ops p.start

/-- The calls that the operations make. -/
def calls (p : Party) : List Syscall := p.final.proc.sys.trace

/-- `a` is an account of the operations. -/
def Keeps (p : Party) (a : Account) : Prop := Kept p.K p.start .empty p.ops a p.final

/-- There is one, and the state the operations end in accounts for it. -/
theorem keeps (p : Party) : ∃ a, p.Keeps a ∧ Accounts p.sd p.final a :=
  kept_after p.ops p.forward (.ofDesc p.B p.sd p.gbuf p.pbuf)
    (ofDesc_accounts p.B p.sd p.gbuf p.pbuf p.kern p.errno)

end Party

variable {P : End → Party} {w : List Event} {ℓ : End → Channel Byte} {e : End}

/-- **At every instant.**  The connection has let the parties make the calls in `w`.  The party at one
end has run its operations, and may be within one more; the calls of the party at the other end are
among those of its operations.  What the first has delivered is a prefix of what the second has
accepted. -/
theorem end_to_end_prefix (hlink : Linked (fun e => (P e).sd) w ℓ)
    (hreader : (P e.other).calls <+: callsAt e.other w) (hwriter : callsAt e w <+: (P e).calls) :
    ∃ a a', (P e).Keeps a ∧ (P e.other).Keeps a' ∧ a'.delivered <+: a.accepted := by
  obtain ⟨a, hkeeps, ha⟩ := (P e).keeps
  obtain ⟨a', hkeeps', ha'⟩ := (P e.other).keeps
  refine ⟨a, a', hkeeps, hkeeps', ?_⟩
  have received : a'.delivered <+: receivedOn (P e.other).sd (P e.other).calls := by
    rw [Party.calls, ha'.delivered, List.append_assoc]
    exact List.prefix_append _ _
  have arrived : receivedOn (P e.other).sd (callsAt e.other w) <+: sentOn (P e).sd (callsAt e w) :=
    ⟨(ℓ e).queue, (hlink.conserved e).symm⟩
  have sent : sentOn (P e).sd (P e).calls <+: a.accepted := by
    rw [Party.calls, ha.accepted, List.append_assoc]
    exact List.prefix_append _ _
  exact received.trans ((List.IsPrefix.flatMap hreader _).trans (arrived.trans ((List.IsPrefix.flatMap hwriter _).trans sent)))

/-- **Between operations.**  Each byte that one party has accepted is delivered to the other, unread or
dropped there, on the way, or still pending or lost here; in this order, and none twice. -/
theorem end_to_end_conserved (hlink : Linked (fun e => (P e).sd) w ℓ) (hcalls : ∀ e, callsAt e w = (P e).calls) :
    ∃ a : End → Account, (∀ e, (P e).Keeps (a e)) ∧ ∀ e, (a e).accepted =
      (a e.other).delivered ++ (P e.other).final.proc.obj.unread ++ (a e.other).dropped ++
        (ℓ e).queue ++ (P e).final.proc.obj.pending ++ (a e).lost := by
  choose a hkeeps ha using fun e => (P e).keeps
  refine ⟨a, hkeeps, fun e => ?_⟩
  have hlinked := hlink.conserved e
  rw [hcalls, hcalls] at hlinked
  rw [(ha e).accepted, ← (ha e.other).delivered]
  exact congrArg (fun l => l ++ _ ++ _) hlinked

/-- A party that listens does not make itself deaf. -/
theorem not_deafen {fd : End → Int} (hlisten : Listening (callsAt e.other w)) (hexit : .exit e.other ∉ w) :
    .deafen ∉ channelOf fd e w := by
  intro hm
  obtain ⟨v, hv, hon⟩ := List.mem_filterMap.mp hm
  cases v with
  | exit e' =>
      by_cases he : e' = e
      · simp [Event.on, he] at hon
      · exact hexit (End.eq_other he ▸ hv)
  | call e' c =>
      by_cases he : e' = e
      · simp only [Event.on, he, if_true] at hon
        exact Syscall.outgoing_ne_deafen hon
      · simp only [Event.on, he, if_false] at hon
        obtain ⟨how, rfl, hhow⟩ := Syscall.incoming_deafen hon
        have hcall : .shutdown (fd e.other) how true ∈ callsAt e.other w :=
          List.mem_filterMap.mpr ⟨_, hv, by simp [Event.callOf, End.eq_other he]⟩
        exact hhow (hlisten _ _ _ hcall)

/-- A `::read` that returns 0 is told of the end. -/
theorem ended_mem {fd : End → Int} (len : Nat) (h : .read (fd e.other) len (some []) ∈ callsAt e.other w) :
    .ended ∈ channelOf fd e w := by
  obtain ⟨v, hv, hcall⟩ := List.mem_filterMap.mp h
  cases v with
  | exit e' => simp [Event.callOf] at hcall
  | call e' c =>
      obtain ⟨rfl, hc⟩ := Option.ite_none_right_eq_some.mp hcall
      cases hc
      exact List.mem_filterMap.mpr ⟨_, hv, by simp [Event.on, Syscall.incoming]⟩

/-- **The end of file.**  A party that has shut its get side by no operation, and in a `::read` of which
the kernel has returned 0, has delivered or still holds all that the other has sent.  What the other has
accepted beyond that it still holds, or has thrown away; and nothing more will be sent. -/
theorem end_to_end_complete (hlink : Linked (fun e => (P e).sd) w ℓ) (hcalls : ∀ e, callsAt e w = (P e).calls)
    (hlisten : ∀ op ∈ (P e.other).ops, op.listens = true) (hexit : .exit e.other ∉ w)
    (heof : EofDuring (P e.other).start.proc (P e.other).final.proc) :
    ∃ a : End → Account, (∀ e, (P e).Keeps (a e)) ∧ (ℓ e).Over ∧ (a e).accepted =
      (a e.other).delivered ++ (P e.other).final.proc.obj.unread ++
        (P e).final.proc.obj.pending ++ (a e).lost := by
  choose a hkeeps ha using fun e => (P e).keeps
  obtain ⟨hlistening, hdropped⟩ := (hkeeps e.other).listening hlisten fun _ _ _ h => absurd h List.not_mem_nil
  have hdeaf : .deafen ∉ channelOf (fun e => (P e).sd) e w := by
    refine not_deafen ?_ hexit
    rw [hcalls]
    exact hlistening
  have hended : .ended ∈ channelOf (fun e => (P e).sd) e w := by
    obtain ⟨before, after, len, -, htrace⟩ := heof
    refine ended_mem len ?_
    rw [hcalls, Party.calls, htrace]
    exact List.mem_append_right _ List.mem_cons_self
  refine ⟨a, hkeeps, (hlink e).ended rfl hdeaf hended, ?_⟩
  have hlinked := (hlink e).complete hdeaf hended
  rw [channelOf_takes, channelOf_puts, hcalls, hcalls] at hlinked
  have hreceived := (ha e.other).delivered
  rw [hdropped, Account.empty, List.append_nil] at hreceived
  rw [(ha e).accepted, ← hreceived]
  exact congrArg (fun l => l ++ _ ++ _) hlinked.symm

/-! ### An exchange -/

namespace Exchange

/-- Two bytes. -/
def ab : Chunk 1024 := ⟨[97, 98], by decide⟩

/-- A party that sends two bytes and shuts its put side. -/
def writer : Party where
  κ       := Peer 1024 Unit
  K       := Kernel.smooth 1024
  B       := bufsiz
  sd      := 3
  gbuf    := fun _ => 0
  pbuf    := fun _ => 0
  kern    := ⟨[], ()⟩
  errno   := 0
  ops     := [.put (.sputn [97, 98]), .put .sync, .shutdown .shut_write]
  forward := by decide

/-- A party that asks for more than that. -/
def reader : Party where
  κ       := Peer 1024 Unit
  K       := Kernel.smooth 1024
  B       := bufsiz
  sd      := 4
  gbuf    := fun _ => 0
  pbuf    := fun _ => 0
  kern    := ⟨[ab], ()⟩
  errno   := 0
  ops     := [.get (.sgetn 5)]
  forward := by decide

def parties : End → Party
  | .near => writer
  | .far  => reader

/-- The order in which they make their calls. -/
def events : List Event :=
  [.call .near (.write 3 [97, 98] (some 2)), .call .near (.shutdown 3 .shut_write true),
    .call .far (.read 4 1024 (some [97, 98])), .call .far (.read 4 1024 (some []))]

def channels : End → Channel Byte
  | .near => ⟨[], true, false⟩
  | .far  => ⟨[], false, false⟩

theorem linked : Linked (fun e => (parties e).sd) events channels := by
  intro e
  cases e with
  | near => exact .cons rfl (.cons rfl (.cons rfl (.cons rfl (.nil _))))
  | far => exact .nil _

theorem calls_eq : ∀ e, callsAt e events = (parties e).calls := by
  intro e
  cases e with
  | near => rfl
  | far => rfl

/-- When both have run their operations. -/
theorem end_to_end_prefix_exchange :
    ∃ a a', (parties .near).Keeps a ∧ (parties .far).Keeps a' ∧ a'.delivered <+: a.accepted :=
  end_to_end_prefix (e := .near) linked (calls_eq .far ▸ List.prefix_rfl) (calls_eq .near ▸ List.prefix_rfl)

theorem end_to_end_conserved_exchange :
    ∃ a : End → Account, (∀ e, (parties e).Keeps (a e)) ∧ ∀ e, (a e).accepted =
      (a e.other).delivered ++ (parties e.other).final.proc.obj.unread ++ (a e.other).dropped ++
        (channels e).queue ++ (parties e).final.proc.obj.pending ++ (a e).lost :=
  end_to_end_conserved linked calls_eq

theorem end_to_end_complete_exchange :
    ∃ a : End → Account, (∀ e, (parties e).Keeps (a e)) ∧ (channels .near).Over ∧ (a .near).accepted =
      (a .far).delivered ++ reader.final.proc.obj.unread ++ writer.final.proc.obj.pending ++ (a .near).lost :=
  end_to_end_complete (e := .near) linked calls_eq (by decide) (by simp [events])
    ⟨[.read 4 1024 (some [97, 98])], [], 1024, List.nil_prefix, rfl⟩

end Exchange

end Socketpp
