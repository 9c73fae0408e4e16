import Socketpp.Sockbuf.Input
import Socketpp.Sockbuf.Output
import Socketpp.Echo.Model

/-!
# Echo — exactness

A client is a kernel that gives the chunks it sends, one for each read, and end of file behind the last
one, and that fails no write (`Client`).  The loop around `write` goes back to the first byte of the
buffer in each iteration, whatever has been written; it comes to that only where `write` returns less
than it was given, and `write` does not (`write_client`).  So a round hands over the chunk it has read
(`echoRound_client`), and the child what the client has sent (`echoes`).
-/

namespace Socketpp
open Lib

namespace EchoChild
open Sockbuf

variable {κ : Type}

/-! ### The client -/

/-- In the states `I` of a conversation, the client on `fd` still has some chunks to send.  No write
fails, and it may be short. -/
structure Conversation (K : Kernel κ) (fd : Int) (I : List (List Byte) → κ → Prop) : Prop where
  gives : ∀ c cs k, I (c :: cs) k → ∃ pos le k', K.read k fd 1024 = (.data c pos le, k') ∧ I cs k'
  ends  : ∀ k, I [] k → ∃ k', K.read k fd 1024 = (.eof, k')
  takes : ∀ cs k b l, I cs k →
    ∃ n pos le k', K.write k fd (b :: l) = (.accepted n pos le, k') ∧ I cs k'

/-- The client on `fd` sends the chunks `cs` and closes. -/
def Client (K : Kernel κ) (fd : Int) (cs : List (List Byte)) (k : κ) : Prop :=
  ∃ I, Conversation K fd I ∧ I cs k

/-- Any chunks, and any writes as long as they do not fail, are those of a client. -/
theorem feed_client {ω : Type} {W : ω → (bs : List Byte) → WriteResult bs.length × ω}
    (hW : ∀ w b l, ∃ n pos le w', W w (b :: l) = (.accepted n pos le, w')) (fd : Int)
    (cs : List (Chunk 1024)) (w : ω) :
    Client (Kernel.feed 1024 W) fd (cs.map fun c => c.1) ⟨cs, w⟩ := by
  refine ⟨fun cs k => k.inbox.map (fun c => c.1) = cs, ⟨?_, ?_, ?_⟩, rfl⟩
  · rintro c cs ⟨box, w⟩ h
    obtain ⟨c, box, rfl, rfl, rfl⟩ := List.map_eq_cons_iff.mp h
    refine ⟨List.length_pos_iff.mpr c.2.1, c.2.2, ⟨box, w⟩, ?_, rfl⟩
    simp [Kernel.feed, Peer.take, c.2.2]
  · rintro ⟨box, w⟩ h
    obtain rfl : box = [] := List.map_eq_nil_iff.mp h
    exact ⟨⟨[], w⟩, rfl⟩
  · rintro cs ⟨box, w⟩ b l h
    obtain ⟨n, pos, le, w', hw⟩ := hW w b l
    exact ⟨n, pos, le, ⟨box, w'⟩, by simp only [Kernel.feed, hw], h⟩

/-! ### The child -/

variable {K : Kernel κ} {I : List (List Byte) → κ → Prop} {cs : List (List Byte)}
  {s : Proc EchoChild κ} {sd : Int}

/-- The socket of the child. -/
def atS (q : Proc EchoChild κ) : Proc Sockbuf κ := ⟨q.obj.s, q.sys⟩

/-- The child at the head of its outer loop: it talks to a client that still sends `cs`, without
timeouts and out-of-band data. -/
structure Talking (I : List (List Byte) → κ → Prop) (cs : List (List Byte)) (s : Proc EchoChild κ) :
    Prop where
  stmo : s.obj.s.rep.stmo = -1
  rtmo : s.obj.s.rep.rtmo = -1
  oob  : s.obj.s.rep.oob = false
  at_  : I cs s.sys.kern

/-- From `s` to `s'` the child has read `bs` and handed over `ws`, on the same socket. -/
structure Passes (s s' : Proc EchoChild κ) (bs ws : List Byte) : Prop where
  obj   : s'.obj.s = s.obj.s
  read_ : received (atS s') = received (atS s) ++ bs
  sent_ : sent (atS s') = sent (atS s) ++ ws

theorem Passes.refl (s : Proc EchoChild κ) : Passes s s [] [] :=
  ⟨rfl, (List.append_nil _).symm, (List.append_nil _).symm⟩

theorem Passes.trans {s s₁ s' : Proc EchoChild κ} {bs bs' ws ws' : List Byte}
    (h₁ : Passes s s₁ bs ws) (h₂ : Passes s₁ s' bs' ws') : Passes s s' (bs ++ bs') (ws ++ ws') :=
  ⟨h₂.obj.trans h₁.obj, by rw [h₂.read_, h₁.read_, List.append_assoc],
    by rw [h₂.sent_, h₁.sent_, List.append_assoc]⟩

theorem Passes.talking {s s' : Proc EchoChild κ} {bs ws : List Byte} {cs' : List (List Byte)}
    (h : Passes s s' bs ws) (hs : Talking I cs s) (hI : I cs' s'.sys.kern) : Talking I cs' s' :=
  ⟨by rw [h.obj, hs.stmo], by rw [h.obj, hs.rtmo], by rw [h.obj, hs.oob], hI⟩

/-! ### Writing -/

/-- The loop of `write` returns when all is written, and reads nothing. -/
theorem writeLoop_client {fd : Int} (hI : Conversation K fd I) :
    ∀ (depth : Nat) (rest : List Byte) (wlen : Nat) (t : Proc Sockbuf κ), rest.length ≤ depth →
      t.obj.rep.sock = fd → I cs t.sys.kern →
      ∃ t', writeLoop K depth rest wlen t = .ret (wlen + rest.length) t' ∧ I cs t'.sys.kern ∧
        received t' = received t := by
  intro depth
  induction depth with
  | zero =>
      intro rest wlen t h _ hk
      obtain rfl := List.length_eq_zero_iff.mp (Nat.le_zero.mp h)
      exact ⟨t, rfl, hk, rfl⟩
  | succ depth ih =>
      intro rest wlen t h hfd hk
      cases rest with
      | nil => exact ⟨t, rfl, hk, rfl⟩
      | cons b l =>
          obtain ⟨n, pos, le, k', hw, hk'⟩ := hI.takes cs t.sys.kern b l hk
          have hlen : ((b :: l).drop n).length ≤ depth := by
            rw [List.length_drop]
            omega
          let t₁ : Proc Sockbuf κ := { t with sys := t.sys.enter k' (.write fd (b :: l) (some n)) }
          obtain ⟨t', ht', hk'', hrec⟩ := ih ((b :: l).drop n) (wlen + n) t₁ hlen hfd hk'
          refine ⟨t', ?_, hk'', ?_⟩
          · have hcall : call (Sys.write K t.obj.rep.sock (b :: l)) t = .ret (some n) t₁ := by
              simp only [call, Prog.zoom_apply, Sys.write, hfd, hw, Outcome.mapState_ret]
              rfl
            have hsum : wlen + n + ((b :: l).drop n).length = wlen + (b :: l).length := by
              rw [List.length_drop]
              omega
            rw [← hsum, ← ht']
            exact writeLoop_some hcall
          · rw [hrec]
            simp [t₁, received, receivedOn, Syscall.receivedOn]

/-- **`s.write (buf, rcnt)`** returns `rcnt`, and has handed over that many bytes. -/
theorem write_client {c : List Byte} (hI : Conversation K s.obj.s.rep.sock I) (hs : Talking I cs s)
    (hbuf : s.obj.buf.slice 0 c.length = c) :
    ∃ s', write K c.length s = .ret c.length s' ∧ Talking I cs s' ∧ Passes s s' [] c := by
  obtain ⟨t', ht', hk, hrec⟩ := writeLoop_client hI c.length c 0 (atS s) (Nat.le_refl _) rfl hs.at_
  rw [Nat.zero_add] at ht'
  obtain ⟨-, hobj, hsent⟩ := (writeLoop_sat c.length c 0 (atS s) (Nat.le_refl _)).ret ht'
  have hwrite : Sockbuf.write K c (atS s) = .ret c.length t' := by
    have hst : (atS s).obj.rep.stmo = -1 := hs.stmo
    simp only [Sockbuf.write, awaitWriteready, Prog.bind_apply, Prog.get_apply, Outcome.andThen_ret,
      Prog.ite_apply, hst, if_true, Prog.pure_apply, ht']
  have hpass : Passes s ⟨{ s.obj with s := t'.obj }, t'.sys⟩ [] c :=
    ⟨hobj, hrec.trans (List.append_nil _).symm, hsent⟩
  refine ⟨_, ?_, hpass.talking hs hk, hpass⟩
  rw [atS] at hwrite
  simp only [write, onS, Prog.bind_apply, Prog.get_apply, Outcome.andThen_ret, Prog.zoom_apply,
    Int.toNat_natCast, hbuf, hwrite, Outcome.mapState_ret, Prog.pure_apply]

/-- **The inner loop** hands over the bytes of the buffer in one iteration, and ends in the next. -/
theorem writeRounds_client {c : List Byte} (hI : Conversation K s.obj.s.rep.sock I)
    (hs : Talking I cs s) (hbuf : s.obj.buf.slice 0 c.length = c) {n : Nat} (hn : 2 ≤ n) :
    ∃ s', Prog.loop (writeRound K) n c.length s = .ret () s' ∧ Talking I cs s' ∧
      Passes s s' [] c := by
  obtain ⟨m, rfl⟩ : ∃ m, n = m + 2 := ⟨n - 2, by omega⟩
  obtain ⟨s', hw, hs', hp⟩ := write_client hI hs hbuf
  have hend : ∀ k s₁, Prog.loop (writeRound K) (k + 1) 0 s₁ = .ret () s₁ := fun k s₁ =>
    Prog.loop_inr k rfl
  by_cases h0 : (c.length : Int) = 0
  · obtain rfl : c = [] := List.length_eq_zero_iff.mp (by omega)
    exact ⟨s, hend _ _, hs, Passes.refl s⟩
  · refine ⟨s', ?_, hs', hp⟩
    have hne : (c.length : Int) ≠ -1 := by omega
    have hround : writeRound K c.length s = .ret (.inl 0) s' := by
      simp only [writeRound, Prog.ite_apply, h0, if_false, Prog.bind_apply, hw, Outcome.andThen_ret,
        hne, Prog.pure_apply, Int.sub_self]
    rw [Prog.loop_inl _ hround]
    exact hend m s'

/-! ### Reading -/

/-- The child behind a `::read` that has given `bs`. -/
def stored (s : Proc EchoChild κ) (bs : List Byte) (k' : κ) : Proc EchoChild κ :=
  ⟨{ s.obj with buf := s.obj.buf.store 0 bs },
    s.sys.enter k' (.read s.obj.s.rep.sock 1024 (some bs))⟩

/-- **`s.read (buf, 1024)`** is its call. -/
theorem read_stored (hs : Talking I cs s) (bs : List Byte) (k' : κ)
    (hcall : Sys.read K s.obj.s.rep.sock 1024 s.sys =
      (.ret (some bs) (stored s bs k').sys : Outcome Thrown (Sys κ) (Option (List Byte)))) :
    read K 1024 s = .ret bs.length (stored s bs k') ∧ Passes s (stored s bs k') bs [] := by
  refine ⟨?_, rfl, ?_, ?_⟩
  · have hread : Sockbuf.read K 1024 (atS s) = .ret bs (atS (stored s bs k')) := by
      rw [read_eq hs.rtmo hs.oob, call, Prog.zoom_apply]
      show ((Sys.read K s.obj.s.rep.sock 1024 s.sys).mapState _).andThen _ = _
      rw [hcall]
      rfl
    rw [atS] at hread
    simp only [read, onS, Prog.bind_apply, Prog.zoom_apply, hread, Outcome.mapState_ret,
      Outcome.andThen_ret]
    rfl
  · simp [stored, atS, received, receivedOn, Syscall.receivedOn]
  · simp [stored, atS, sent, sentOn, Syscall.sentOn]

/-- **A round** reads a chunk and hands it over. -/
theorem echoRound_client {c : List Byte} (hI : Conversation K s.obj.s.rep.sock I)
    (hs : Talking I (c :: cs) s) {n : Nat} (hn : 2 ≤ n) :
    ∃ s', echoRound K n () s = .ret (.inl ()) s' ∧ Talking I cs s' ∧ Passes s s' c c := by
  obtain ⟨pos, le, k', hread, hk'⟩ := hI.gives c cs s.sys.kern hs.at_
  obtain ⟨h₁, hp₁⟩ := read_stored (K := K) hs c k' (by rw [Sys.read, hread]; rfl)
  have hbuf : (stored s c k').obj.buf.slice 0 c.length = c := Mem.slice_store _ 0 c
  obtain ⟨s', hloop, hs', hp'⟩ :=
    writeRounds_client (s := stored s c k') hI (hp₁.talking hs hk') hbuf hn
  refine ⟨s', ?_, hs', by simpa using hp₁.trans hp'⟩
  have hpos : (0 : Int) < c.length := by omega
  simp only [echoRound, Prog.bind_apply, h₁, Outcome.andThen_ret, Prog.ite_apply, hpos, if_true, hloop,
    Prog.pure_apply]

/-- Behind the last chunk the outer loop ends. -/
theorem echoRound_closed (hI : Conversation K s.obj.s.rep.sock I) (hs : Talking I [] s) (n : Nat) :
    ∃ s', echoRound K n () s = .ret (.inr ()) s' ∧ Passes s s' [] [] := by
  obtain ⟨k', hread⟩ := hI.ends s.sys.kern hs.at_
  obtain ⟨h₁, hp₁⟩ := read_stored (K := K) hs [] k' (by rw [Sys.read, hread]; rfl)
  refine ⟨stored s [] k', ?_, hp₁⟩
  rw [echoRound, Prog.bind_apply, h₁]
  rfl

/-- All rounds, by induction on the chunks. -/
theorem echoRounds_client {m : Nat} (hm : 2 ≤ m) :
    ∀ (cs : List (List Byte)) (s : Proc EchoChild κ), Conversation K s.obj.s.rep.sock I →
      Talking I cs s → ∀ n, cs.length < n →
      ∃ s', Prog.loop (echoRound K m) n () s = .ret () s' ∧ Passes s s' cs.flatten cs.flatten := by
  intro cs
  induction cs with
  | nil =>
      intro s hI hs n hn
      obtain ⟨n, rfl⟩ : ∃ k, n = k + 1 := ⟨n - 1, by omega⟩
      obtain ⟨s', hround, hp⟩ := echoRound_closed hI hs m
      exact ⟨s', Prog.loop_inr n hround, hp⟩
  | cons c cs ih =>
      intro s hI hs n hn
      rw [List.length_cons] at hn
      obtain ⟨n, rfl⟩ : ∃ k, n = k + 1 := ⟨n - 1, by omega⟩
      obtain ⟨s₁, hround, hs₁, hp₁⟩ := echoRound_client hI hs hm
      obtain ⟨s', hloop, hp'⟩ := ih s₁ (hp₁.obj ▸ hI) hs₁ n (by omega)
      exact ⟨s', by rw [Prog.loop_inl n hround, hloop], hp₁.trans hp'⟩

/-- Accept one byte of all that is offered. -/
def oneByte (bs : List Byte) : WriteResult bs.length :=
  if h : 0 < bs.length then .accepted 1 Nat.one_pos h else .failed 0

/-- **The echo server echoes exactly.**  The client sends a stream, cut into any chunks `cs` of 1 to
1024 bytes, and closes; no write fails, and any may be short.  Then the loops of the child end, it has
read exactly the stream, and it has handed exactly the stream to the kernel. -/
theorem echoes {k : κ} (h : Client K sd cs k) (B : ℕ+) (gbuf pbuf buf : Mem Byte) (e : Int)
    (calls : List Syscall) {n : Nat} (hn : cs.length + 2 ≤ n) :
    ∃ s', serveClient K n ⟨accepted B sd gbuf pbuf buf, ⟨k, e, calls⟩⟩ = .ret 0 s' ∧
      receivedOn sd s'.sys.trace = receivedOn sd calls ++ cs.flatten ∧
      sentOn sd s'.sys.trace = sentOn sd calls ++ cs.flatten := by
  obtain ⟨I, hI, hk⟩ := h
  let s₀ : Proc EchoChild κ := ⟨accepted B sd gbuf pbuf buf, ⟨k, e, calls⟩⟩
  obtain ⟨s', hloop, hp⟩ := echoRounds_client (K := K) (m := n) (by omega) cs s₀ hI ⟨rfl, rfl, rfl, hk⟩ n
    (by omega)
  have hsock : s'.obj.s.rep.sock = sd := by rw [hp.obj]; rfl
  refine ⟨s', ?_, ?_, ?_⟩
  · rw [serveClient, Prog.bind_apply, hloop]
    rfl
  · have := hp.read_
    rwa [received, atS, hsock] at this
  · have := hp.sent_
    rwa [sent, atS, hsock] at this

/-- Five bytes in two chunks, and every write takes one byte. -/
theorem echoes_hello :
    ∃ s', serveClient (Kernel.feed 1024 fun (_ : Unit) bs => (oneByte bs, ())) 4
        ⟨accepted bufsiz 7 (fun _ => 0) (fun _ => 0) (fun _ => 0),
          ⟨⟨[⟨[104, 101], by decide⟩, ⟨[108, 108, 111], by decide⟩], ()⟩, 0, []⟩⟩ = .ret 0 s' ∧
      receivedOn 7 s'.sys.trace = receivedOn 7 [] ++ [[104, 101], [108, 108, 111]].flatten ∧
      sentOn 7 s'.sys.trace = sentOn 7 [] ++ [[104, 101], [108, 108, 111]].flatten :=
  echoes (feed_client (fun _ _ l => ⟨1, Nat.one_pos, Nat.succ_pos l.length, (), rfl⟩) 7 _ ()) bufsiz _ _ _
    0 [] (by decide)

end EchoChild

end Socketpp
