import Socketpp.Sockbuf.Bulk
import Socketpp.Ftp.Transfers

/-!
# Ftp — receiving a file

A peer sends a file and closes: `Feeds K fd len cs k` says that the kernel gives the chunks `cs` on `fd`,
and then end of file for ever.  As long as that holds, `sgetn` returns the number of bytes it has stored,
and at the end of the file 0 (`xsgetn_source`).  The loop of `ftpdata` ends at `EOF` only, so it copies
the file and then goes round for ever (`ftpdata_spins`).
-/

namespace Socketpp
open Lib

/-! ### The peer -/

section Peer

variable {κ : Type}

/-- From `k` on a `::read` on `fd` gives end of file. -/
def Ended (K : Kernel κ) (fd : Int) (len : Nat) (k : κ) : Prop :=
  ∃ I : κ → Prop, I k ∧ ∀ k, I k → ∃ k', K.read k fd len = (.eof, k') ∧ I k'

/-- The reads on `fd` give the chunks `cs`, and then end of file. -/
def Feeds (K : Kernel κ) (fd : Int) (len : Nat) : List (List Byte) → κ → Prop
  | [],      k => Ended K fd len k
  | c :: cs, k => ∃ pos le k', K.read k fd len = (.data c pos le, k') ∧ Feeds K fd len cs k'

theorem Ended.read {K : Kernel κ} {fd : Int} {len : Nat} {k : κ} (h : Ended K fd len k) :
    ∃ k', K.read k fd len = (.eof, k') ∧ Ended K fd len k' := by
  obtain ⟨I, hk, hI⟩ := h
  obtain ⟨k', hread, hk'⟩ := hI k hk
  exact ⟨k', hread, I, hk', hI⟩

/-- The file of a kernel with a file is fed in its chunks. -/
theorem withFile_feeds (K : Kernel κ) (fd : Int) : ∀ (cs : List (Chunk 1024)) (k : κ) (u : Unit),
    Feeds (K.withFile fd) fd 1024 (cs.map fun c => c.1) (k, ⟨cs, u⟩) := by
  intro cs
  induction cs with
  | nil =>
      intro k u
      refine ⟨fun k => k.2.inbox = [], rfl, ?_⟩
      rintro ⟨k, ⟨box, u⟩⟩ hbox
      obtain rfl : box = [] := hbox
      exact ⟨(k, ⟨[], u⟩), by simp [Kernel.withFile, Peer.take], rfl⟩
  | cons c cs ih =>
      intro k u
      refine ⟨List.length_pos_iff.mpr c.2.1, c.2.2, (k, ⟨cs, u⟩), ?_, ih k u⟩
      simp [Kernel.withFile, Peer.take, c.2.2]

end Peer

namespace Sockbuf

variable {κ : Type} {K : Kernel κ}

/-- What is still to come out of the sockbuf is `rest`. -/
structure Source (K : Kernel κ) (s : Proc Sockbuf κ) (rest : List Byte) : Prop where
  readable : s.obj.Readable
  rtmo     : s.obj.rep.rtmo = -1
  oob      : s.obj.rep.oob = false
  feed     : ∃ cs, Feeds K s.obj.rep.sock s.obj.rep.gend cs s.sys.kern ∧ rest = s.obj.unread ++ cs.flatten

/-- **`underflow`** gives the first byte still to come, or end of file where there is none. -/
theorem underflow_source {s : Proc Sockbuf κ} {rest : List Byte} (h : Source K s rest) :
    ∃ s', Source K s' rest ∧
      ((rest = [] ∧ underflow K s = .ret eofValue s') ∨
        ∃ c l, rest = c :: l ∧ s'.obj.unread ≠ [] ∧ underflow K s = .ret c.toNat s') := by
  obtain ⟨a, ha⟩ := h.readable
  obtain ⟨cs, hcs, rfl⟩ := h.feed
  by_cases hlt : a.gptr < a.egptr
  · have hu := unread_cons ha hlt
    refine ⟨s, h, .inr ⟨a.mem a.gptr, a.mem.slice (a.gptr + 1) (a.egptr - (a.gptr + 1)) ++ cs.flatten,
      ?_, ?_, underflow_of_unread ha hlt⟩⟩
    · rw [hu]
      rfl
    · rw [hu]
      exact List.cons_ne_nil _ _
  · have hu : s.obj.unread = [] := (unread_nil_iff ha).mpr hlt
    cases cs with
    -- nothing is left to read
    | nil =>
        obtain ⟨k', hread, hk'⟩ := Ended.read hcs
        let y := s.sys.enter k' (.read s.obj.rep.sock s.obj.rep.gend (some []))
        have hret : read K s.obj.rep.gend s = .ret [] ⟨s.obj, y⟩ := by
          rw [read_eq h.rtmo h.oob, call, Prog.zoom_apply, Sys.read, hread]
          rfl
        exact ⟨⟨s.obj, y⟩, ⟨h.readable, h.rtmo, h.oob, [], hk', rfl⟩,
          .inl ⟨by rw [hu]; rfl, underflow_of_end ha hlt hret⟩⟩
    | cons c cs =>
        obtain ⟨pos, le, k', hread, hcs'⟩ := hcs
        obtain ⟨b, bs, rfl⟩ := List.exists_cons_of_length_pos pos
        have hr := unread_refill ha (b :: bs)
        let y := s.sys.enter k' (.read s.obj.rep.sock s.obj.rep.gend (some (b :: bs)))
        have hret : read K s.obj.rep.gend s = .ret (b :: bs) ⟨s.obj, y⟩ := by
          rw [read_eq h.rtmo h.oob, call, Prog.zoom_apply, Sys.read, hread]
          rfl
        refine ⟨⟨s.obj.onGet fun a => a.refill (b :: bs), y⟩,
          ⟨h.readable.onGet _, h.rtmo, h.oob, cs, hcs', ?_⟩,
          .inr ⟨b, bs ++ cs.flatten, ?_, ?_, underflow_of_read ha hlt hret⟩⟩
        · rw [hu]
          show _ = (s.obj.onGet fun a => a.refill (b :: bs)).unread ++ _
          rw [hr]
          rfl
        · rw [hu]
          rfl
        · show (s.obj.onGet fun a => a.refill (b :: bs)).unread ≠ []
          rw [hr]
          exact List.cons_ne_nil _ _

/-- **`sbumpc`** takes it. -/
theorem sbumpc_source {s : Proc Sockbuf κ} {rest : List Byte} (h : Source K s rest) :
    ∃ s', Source K s' rest.tail ∧
      sbumpc K s = .ret (rest.head?.elim eofValue fun c => (c.toNat : Int)) s' := by
  obtain ⟨s₁, h₁, ⟨rfl, hret⟩ | ⟨c, l, rfl, hne, hret⟩⟩ := underflow_source h
  · refine ⟨s₁, h₁, ?_⟩
    rw [sbumpc_eq, uflow, Prog.bind_apply, hret]
    rfl
  · obtain ⟨a, ha⟩ := h₁.readable
    obtain ⟨cs, hcs, hrest⟩ := h₁.feed
    have hu := unread_gbump ha (n := 1) (List.length_pos_iff.mpr hne)
    refine ⟨s₁.onObj (onGet fun a => a.gbump 1), ⟨h₁.readable.onGet _, h₁.rtmo, h₁.oob, cs, hcs, ?_⟩,
      sbumpc_of_underflow hret⟩
    show l = (s₁.obj.onGet fun a => a.gbump 1).unread ++ cs.flatten
    rw [hu, ← List.drop_append_of_le_length (List.length_pos_iff.mpr hne), ← hrest]
    rfl

/-- `n` bytes, one by one. -/
theorem sbumpcs_source : ∀ (n : Nat) (t : Getting κ) (rest : List Byte), Source K t.proc rest →
    ∃ t', sbumpcs K n t = .ret (rest.take n).length t' ∧ t'.dst = t.dst ++ rest.take n ∧
      Source K t'.proc (rest.drop n) := by
  intro n
  induction n with
  | zero => intro t rest h; exact ⟨t, rfl, (List.append_nil _).symm, h⟩
  | succ n ih =>
      intro t rest h
      obtain ⟨s', h', hret⟩ := sbumpc_source h
      have hwithin : within (sbumpc K) t = .ret (rest.head?.elim eofValue fun c => (c.toNat : Int))
          { t with proc := s' } := by
        rw [within, Prog.zoom_apply, hret]
        rfl
      simp only [sbumpcs, Prog.bind_apply, hwithin, Outcome.andThen_ret, Prog.ite_apply]
      cases rest with
      | nil => exact ⟨{ t with proc := s' }, rfl, (List.append_nil _).symm, h'⟩
      | cons c l =>
          obtain ⟨t', ht', hdst, hsrc⟩ := ih ⟨s', t.dst ++ [c]⟩ l h'
          refine ⟨t', ?_, ?_, hsrc⟩
          · simp only [List.head?_cons, Option.elim_some, byte_ne_eof, if_false, Prog.bind_apply,
              Prog.modify_apply, Outcome.andThen_ret, ofInt_toNat, ht', Prog.pure_apply,
              List.take_succ_cons, List.length_cons, Nat.add_comm 1]
          · rw [hdst, List.append_assoc]
            rfl

/-- **`sgetn`** at a source: it returns how many bytes it has stored. -/
theorem xsgetn_source {t : Getting κ} {rest : List Byte} (h : Source K t.proc rest) (n : Nat) :
    ∃ t', xsgetn K n t = .ret (rest.take n).length t' ∧ t'.dst = t.dst ++ rest.take n ∧
      Source K t'.proc (rest.drop n) := by
  rw [(xsgetn_bytewise K n t).1]
  exact sbumpcs_source n t rest h

end Sockbuf

namespace Transfer
open Sockbuf

variable {κ : Type} {N : NetKernel κ} {B : ℕ+} {m m' : Alloc} {n : Nat} {portno : Int} {i : Bool}
  {o : OStream} {cmd : List Byte} {arg : Option (List Byte)} {s s₀ s₁ s₂ : Proc Transfer κ} {reply : Byte}
  {out rest : List Byte} {cs : List (List Byte)}

/-- What has been written to the stream `o`, where there is one. -/
def written (o : OStream) (x : Transfer) : Option (List Byte) :=
  match o with
  | .own  => x.ftp.o
  | .file => some x.o

theorem written_writeTo {x : Transfer} (h : written o x = some out) (bs : List Byte) :
    written o (writeTo o bs x) = some (out ++ bs) := by
  cases o with
  | own =>
      have h' : x.ftp.o = some out := h
      simp only [written, writeTo, Ftpbuf.writeO, h', Option.map_some]
  | file =>
      cases h
      rfl

/-- **A round** copies what there is, 1024 bytes at most, and goes round again, also where it has copied
nothing. -/
theorem receiveRound_source (h : Source N.toKernel (atC s) rest) (ho : written o s.obj = some out) :
    ∃ s', receiveRound N.toKernel o s = .ret (.inl ()) s' ∧ Source N.toKernel (atC s') (rest.drop 1024) ∧
      written o s'.obj = some (out ++ rest.take 1024) := by
  obtain ⟨t', ht', hdst, hsrc⟩ := xsgetn_source (t := ⟨atC s, []⟩) h 1024
  have hget : sgetnC N.toKernel 1024 s = .ret ((rest.take 1024).length, rest.take 1024)
      ⟨{ s.obj with c := t'.proc.obj }, t'.proc.sys⟩ := by
    rw [sgetnC, Prog.zoom_apply, Prog.bind_apply]
    simp only [atC] at ht'
    simp only [ht', hdst, Outcome.andThen_ret, Prog.bind_apply, Prog.get_apply, Prog.pure_apply,
      List.nil_append, Outcome.mapState_ret]
  have hne : (((rest.take 1024).length : Nat) : Int) ≠ eofValue := by
    have : (0 : Int) ≤ (rest.take 1024).length := Int.natCast_nonneg _
    unfold eofValue
    omega
  have hc : ∀ x : Transfer, (writeTo o (rest.take 1024) x).c = x.c := by
    intro x
    cases o with
    | own => rfl
    | file => rfl
  let s₁ : Proc Transfer κ := ⟨{ s.obj with c := t'.proc.obj }, t'.proc.sys⟩
  have ho₁ : written o s₁.obj = some out := by
    cases o with
    | own => exact ho
    | file => exact ho
  refine ⟨s₁.onObj (writeTo o (rest.take 1024)), ?_, ?_, written_writeTo ho₁ _⟩
  · simp only [receiveRound, Prog.bind_apply, hget, Outcome.andThen_ret, ne_eq, hne, not_false_eq_true,
      if_true, Prog.modify_apply, Prog.pure_apply, List.take_length]
    rfl
  · rw [atC, Proc.onObj, hc]
    exact hsrc

/-- What `k` rounds have copied. -/
theorem receiveRounds_source : ∀ (k : Nat) {s : Proc Transfer κ} {rest out : List Byte},
    Source N.toKernel (atC s) rest → written o s.obj = some out →
    ∃ s', Prog.Rounds (fun _ => receiveRound N.toKernel o) k () s () s' ∧
      written o s'.obj = some (out ++ rest.take (1024 * k)) := by
  intro k
  induction k with
  | zero =>
      intro s rest out _ ho
      exact ⟨s, .refl () s, by rw [ho, Nat.mul_zero, List.take_zero, List.append_nil]⟩
  | succ k ih =>
      intro s rest out h ho
      obtain ⟨s₁, hround, h₁, ho₁⟩ := receiveRound_source h ho
      obtain ⟨s', hrounds, ho'⟩ := ih h₁ ho₁
      refine ⟨s', .step hround hrounds, ?_⟩
      rw [ho', List.append_assoc, ← List.take_add, Nat.mul_succ, Nat.add_comm]

/-- The loop never ends. -/
theorem receive_spins (hacc : openC N B m s₁ = .ret () s₂) (h : Source N.toKernel (atC s₂) rest)
    (ho : written o s₂.obj = some out) (n : Nat) : receive N B m n o s₁ = .spin := by
  have hloop : Prog.loop (fun _ => receiveRound N.toKernel o) n () s₂ = .spin := by
    refine Prog.loop_spins (I := fun _ s => ∃ rest out, Source N.toKernel (atC s) rest ∧
      written o s.obj = some out) ?_ n () s₂ ⟨rest, out, h, ho⟩
    rintro _ s ⟨rest, out, hs, hos⟩
    obtain ⟨s', hround, hs', hos'⟩ := receiveRound_source hs hos
    exact ⟨(), s', hround, _, _, hs', hos'⟩
  simp only [receive, raising, Prog.bind_apply, Prog.mapThrown_apply, hacc, Outcome.mapThrown,
    Outcome.andThen_ret]
  refine inBlock_spin ?_
  rw [Prog.mapThrown_apply, hloop]
  rfl

/-- The connection accepted is a source of the file. -/
theorem openC_source (hacc : openC N B m s₁ = .ret () s₂)
    (hfeed : Feeds N.toKernel s₂.obj.c.rep.sock B cs s₂.sys.kern) :
    Source N.toKernel (atC s₂) cs.flatten := by
  obtain ⟨socfd, hc⟩ := openC_ret hacc
  have hunread : s₂.obj.c.unread = [] := by
    rw [hc]
    exact ofDesc_unread B socfd _ _
  refine ⟨?_, ?_, ?_, cs, ?_, by rw [atC, hunread]; rfl⟩
  · rw [atC, hc]
    exact ⟨_, rfl⟩
  · rw [atC, hc]
    rfl
  · rw [atC, hc]
    rfl
  · rw [hc] at hfeed
    rw [atC, hc]
    exact hfeed

/-- Whatever the bounds of its loops, `ftpdata` is cut off. -/
theorem ftpdata_cut {n₀ : Nat} (hopen : openSb N B m sock_stream 0 s = .ret () s₀)
    (hconn : connect N n₀ portno cmd arg s₀ = .ret reply s₁) (hreply : ¬ IsError reply)
    (hacc : openC N B m' s₁ = .ret () s₂) (h : Source N.toKernel (atC s₂) rest)
    (ho : written o s₂.obj = some out) (n : Nat) :
    ftpdata N B m m' n portno i (some o) cmd arg s = .spin := by
  by_cases hspin : connect N n portno cmd arg s₀ = .spin
  · simp only [ftpdata, raising, Prog.bind_apply, Prog.mapThrown_apply, hopen, Outcome.mapThrown,
      Outcome.andThen_ret]
    refine inBlock_spin ?_
    simp only [Prog.bind_apply, Prog.mapThrown_apply, hspin, Outcome.mapThrown, Outcome.andThen_spin]
  · have hne : connect N n₀ portno cmd arg s₀ ≠ .spin := by
      rw [hconn]
      intro h
      cases h
    have hconn' := ((connect_steady N portno cmd arg).agree hne hspin).trans hconn
    rw [ftpdata_eq hopen hconn' hreply]
    refine inBlock_spin ?_
    rw [transfer, Prog.bind_apply, receive_spins hacc h ho n, Outcome.andThen_spin]

/-- The server sends its file, and closes. -/
theorem remote_feeds {s : Proc Transfer (Peer 1024 Unit × Peer 1024 Unit)} (hsock : s.obj.c.rep.sock = 5)
    (hbox : s.sys.kern.2.inbox = remote) :
    Feeds (server 5).toKernel s.obj.c.rep.sock 1024 [ascii "he", ascii "llo"] s.sys.kern := by
  have hk : s.sys.kern = (s.sys.kern.1, ⟨remote, s.sys.kern.2.outbox⟩) := by rw [← hbox]
  rw [hsock, hk]
  exact withFile_feeds (Kernel.smooth 1024) 5 remote _ _

/-- The client asks for a file of five bytes, and `ftpdata` comes to nothing. -/
theorem ftpdata_hangs :
    ¬ ∃ n r s', (ftpdata (server 5) bufsiz scratch scratch n 10000 false (some .file) (ascii "RETR")
      (some (ascii "f")) client).result = some (r, s') := by
  obtain ⟨s₀, s₁, s₂, hopen, hconn, hacc, -, hsock, hbox⟩ := client_connects (.inl rfl)
  have hsrc := openC_source (B := bufsiz) hacc (remote_feeds hsock hbox)
  rintro ⟨n, r, s', hrun⟩
  rw [ftpdata_cut (o := .file) hopen hconn (by decide) hacc hsrc rfl] at hrun
  cases hrun

/-- **A download never ends.**  The server sends a file on the connection accepted, in chunks of any
sizes, and closes.  After `k` rounds the first `1024 * k` bytes of the file have been written to `o`, so
after enough of them exactly the file; but there is a round after every round, and `ftpdata` does not come
to an end, nor to the final reply. -/
theorem ftpdata_spins {n₀ : Nat} (hopen : openSb N B m sock_stream 0 s = .ret () s₀)
    (hconn : connect N n₀ portno cmd arg s₀ = .ret reply s₁) (hreply : ¬ IsError reply)
    (hacc : openC N B m' s₁ = .ret () s₂) (ho : written o s₂.obj = some out)
    (hfeed : Feeds N.toKernel s₂.obj.c.rep.sock B cs s₂.sys.kern) :
    (∀ k, ∃ s₃, Prog.Rounds (fun _ => receiveRound N.toKernel o) k () s₂ () s₃ ∧
      written o s₃.obj = some (out ++ cs.flatten.take (1024 * k))) ∧
    ∀ n, ftpdata N B m m' n portno i (some o) cmd arg s = .spin :=
  ⟨fun k => receiveRounds_source k (openC_source hacc hfeed) ho,
    ftpdata_cut hopen hconn hreply hacc (openC_source hacc hfeed) ho⟩

/-- Five bytes in two chunks. -/
theorem ftpdata_spins_hello :
    ∃ s₂, (∀ k, ∃ s₃, Prog.Rounds (fun _ => receiveRound (server 5).toKernel .file) k () s₂ () s₃ ∧
        written .file s₃.obj = some (s₂.obj.o ++ (ascii "hello").take (1024 * k))) ∧
      ∀ n, ftpdata (server 5) bufsiz scratch scratch n 10000 false (some .file) (ascii "RETR")
        (some (ascii "f")) client = .spin := by
  obtain ⟨s₀, s₁, s₂, hopen, hconn, hacc, -, hsock, hbox⟩ := client_connects (.inl rfl)
  obtain ⟨hrounds, hspin⟩ := ftpdata_spins (B := bufsiz) (o := .file) (i := false) hopen hconn
    (by decide) hacc rfl (remote_feeds hsock hbox)
  exact ⟨s₂, hrounds, hspin⟩

end Transfer

end Socketpp
