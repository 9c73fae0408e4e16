import Mathlib.Data.List.Infix
import Socketpp.Echo.Exact
import Socketpp.Lib.Trail
import Socketpp.Sockbuf.Frame

/-!
# Echo — nothing but what was read

The child of `serve_clients` on any connection, with any failures, timeouts or delays.  At every point of
its run what it has handed to the kernel is a prefix of what the kernel has given it (`Causal`): this is
kept by the wait and the read at the head of the outer loop, which send nothing, and by the write of the
bytes just read, which receives nothing.  When its loops end, the two are equal, and a `::read` has
returned 0 (`serveClient_echoes`).
-/

namespace Socketpp
open Lib

/-- At every point of the calls, what has been sent on `fd` is a prefix of what has been received. -/
def Causal (fd : Int) (calls : List Syscall) : Prop :=
  ∀ made, made <+: calls → sentOn fd made <+: receivedOn fd made

/-- A call of `::shutdown`. -/
def Syscall.shuts : Syscall → Bool
  | .shutdown _ _ _ => true
  | _               => false

/-- More calls. -/
theorem Causal.append {fd : Int} {calls more : List Syscall} (h : Causal fd calls)
    (hmore : ∀ made, made <+: more → sentOn fd (calls ++ made) <+: receivedOn fd (calls ++ made)) :
    Causal fd (calls ++ more) := by
  intro made hmade
  rcases List.prefix_or_prefix_of_prefix hmade (List.prefix_append calls more) with hle | ⟨made', rfl⟩
  · exact h made hle
  · exact hmore made' ((List.prefix_append_right_inj calls).mp hmade)

namespace Sockbuf

variable {κ : Type} {K : Kernel κ} {s s' : Proc Sockbuf κ} {sd : Int} {bs : List Byte}

/-- The calls made from `s` to `s'` send nothing, and shut nothing. -/
def OnlyReads (s s' : Proc Sockbuf κ) : Prop :=
  ∃ made, s'.sys.trace = s.sys.trace ++ made ∧ ∀ c ∈ made, c.shuts = false ∧ ∀ fd, c.sentOn fd = []

/-- The calls made from `s` to `s'` receive nothing, and shut nothing. -/
def OnlyWrites (s s' : Proc Sockbuf κ) : Prop :=
  ∃ made, s'.sys.trace = s.sys.trace ++ made ∧ ∀ c ∈ made, c.shuts = false ∧ ∀ fd, c.receivedOn fd = []

theorem getFrame_onlyReads (K : Kernel κ) : GetFrame K OnlyReads where
  refl _         := Grew.same rfl
  trans _ _ _    := Grew.trans
  read _ _       := leaves_readCall fun _ _ _ ht => Grew.one ht ⟨rfl, fun _ => rfl⟩
  selectRead _ _ := keeps_answer fun _ _ _ _ ht => Grew.one ht ⟨rfl, fun _ => rfl⟩
  sockatmark _   := keeps_answer fun _ _ _ _ ht => Grew.one ht ⟨rfl, fun _ => rfl⟩
  get _ _        := Grew.same rfl

theorem putFrame_onlyWrites (K : Kernel κ) : PutFrame K OnlyWrites where
  refl _          := Grew.same rfl
  trans _ _ _     := Grew.trans
  write _ _       := keeps_writeCall fun _ _ _ _ ht => Grew.one ht ⟨rfl, fun _ => rfl⟩
  selectWrite _ _ := keeps_answer fun _ _ _ _ ht => Grew.one ht ⟨rfl, fun _ => rfl⟩
  put _ _         := Grew.same rfl

/-- On the descriptor `sd` the bytes `bs` have been read, and are still to be sent back. -/
structure Behind (sd : Int) (bs : List Byte) (s : Proc Sockbuf κ) : Prop where
  sock   : s.obj.rep.sock = sd
  causal : Causal sd s.sys.trace
  owed   : receivedOn sd s.sys.trace = sentOn sd s.sys.trace ++ bs
  unshut : ∀ c ∈ s.sys.trace, c.shuts = false

theorem unshut_append (h : Behind sd bs s) {made : List Syscall} (ht : s'.sys.trace = s.sys.trace ++ made)
    (hmade : ∀ c ∈ made, c.shuts = false) : ∀ c ∈ s'.sys.trace, c.shuts = false := by
  intro c hc
  rw [ht] at hc
  exact (List.mem_append.mp hc).elim (h.unshut c) (hmade c)

/-- Calls that send nothing, where nothing is owed. -/
theorem Behind.reads (h : Behind sd [] s) (hr : OnlyReads s s') (hg : Given s s' bs) : Behind sd bs s' := by
  obtain ⟨made, ht, hmade⟩ := hr
  have hsent : ∀ more, more <+: made → sentOn sd (s.sys.trace ++ more) = sentOn sd s.sys.trace := by
    intro more hmore
    have hnone : sentOn sd more = [] := List.flatMap_eq_nil_iff.mpr fun c hc => (hmade c (hmore.subset hc)).2 sd
    rw [sentOn_append, hnone, List.append_nil]
  have howed := h.owed
  rw [List.append_nil] at howed
  have hsock : s'.obj.rep.sock = sd := by rw [hg.obj, h.sock]
  have hreceived := hg.bytes
  rw [received, received, hsock, h.sock] at hreceived
  refine ⟨hsock, ?_, ?_, unshut_append h ht fun c hc => (hmade c hc).1⟩
  · rw [ht]
    refine h.causal.append fun more hmore => ?_
    rw [hsent more hmore, receivedOn_append, howed]
    exact List.prefix_append _ _
  · rw [hreceived, howed, ht, hsent made List.prefix_rfl]

/-- Calls that receive nothing, and send some of what is owed. -/
theorem Behind.writes {rest : List Byte} (h : Behind sd (bs ++ rest) s) (hw : OnlyWrites s s')
    (hh : Handed s s' bs) : Behind sd rest s' := by
  obtain ⟨made, ht, hmade⟩ := hw
  obtain ⟨hobj, hsent⟩ := hh
  have hsock : s'.obj.rep.sock = sd := by rw [hobj, h.sock]
  rw [sent, sent, hsock, h.sock] at hsent
  have hreceived : ∀ more, more <+: made →
      receivedOn sd (s.sys.trace ++ more) = receivedOn sd s.sys.trace := by
    intro more hmore
    have hnone : receivedOn sd more = [] :=
      List.flatMap_eq_nil_iff.mpr fun c hc => (hmade c (hmore.subset hc)).2 sd
    rw [receivedOn_append, hnone, List.append_nil]
  refine ⟨hsock, ?_, ?_, unshut_append h ht fun c hc => (hmade c hc).1⟩
  · rw [ht]
    refine h.causal.append fun more hmore => ?_
    have hle : sentOn sd (s.sys.trace ++ more) <+: sentOn sd s'.sys.trace := by
      rw [ht]
      exact List.IsPrefix.flatMap ((List.prefix_append_right_inj _).mpr hmore) _
    rw [hreceived more hmore, h.owed, ← List.append_assoc, ← hsent]
    exact hle.trans (List.prefix_append _ _)
  · rw [hsent, List.append_assoc, ← h.owed, ht, hreceived made List.prefix_rfl]

/-- **`read`**, where nothing is owed. -/
theorem read_behind (h : Behind sd [] s) (len : Nat) :
    (read K len s).Sat (fun bs s' => Behind sd bs s' ∧ (bs = [] → EofDuring s s')) (fun _ s' => Behind sd [] s') := by
  refine ((read_sat len s).and_leaves (keeps_read (getFrame_onlyReads K) len s)).mono ?_ ?_
  · rintro bs s' ⟨⟨hg, -, heof⟩, hr⟩
    exact ⟨h.reads hr hg, heof⟩
  · rintro e s' ⟨hg, hr⟩
    exact h.reads hr hg

/-- **`write`** of what is owed. -/
theorem write_behind (h : Behind sd bs s) :
    (write K bs s).Sat (fun r s' => r = bs.length ∧ Behind sd [] s') (fun _ s' => ∃ rest, Behind sd rest s') := by
  have hframe : Prog.Keeps OnlyWrites (write K bs) :=
    (putFrame_onlyWrites K).keeps_bind (putFrame_onlyWrites K).own.awaitWriteready
      fun _ => (putFrame_onlyWrites K).own.writeLoop _ _ _
  refine ((write_sat bs s).and_leaves (hframe s)).mono ?_ ?_
  · rintro r s' ⟨⟨rfl, hh⟩, hw⟩
    exact ⟨rfl, Behind.writes (by rwa [List.append_nil]) hw hh⟩
  · rintro e s' ⟨⟨⟨k, -, -, hh⟩ | ⟨-, hh⟩, -⟩, hw⟩
    · exact ⟨bs.drop k, Behind.writes (by rwa [List.take_append_drop]) hw hh⟩
    · exact ⟨bs, Behind.writes (by exact h) hw hh⟩

end Sockbuf

namespace EchoChild
open Sockbuf

variable {κ : Type} {K : Kernel κ} {q q' : Proc EchoChild κ} {sd : Int} {bs : List Byte}

/-- A method of `s`. -/
theorem onS_sat {α : Type} {p : SockM κ α} {Q : α → Proc Sockbuf κ → Prop} {E : Thrown → Proc Sockbuf κ → Prop}
    (h : (p (atS q)).Sat Q E) :
    (onS p q).Sat (fun a q' => Q a (atS q') ∧ q'.obj.buf = q.obj.buf)
      (fun e q' => E e (atS q') ∧ q'.obj.buf = q.obj.buf) := by
  simp only [onS, Prog.zoom_apply, Outcome.sat_mapState]
  exact h.mono (fun _ _ h => ⟨h, trivial⟩) fun _ _ h => ⟨h, trivial⟩

/-- The child at a point where `bs` is still to be sent back, and in its buffer. -/
structure Owes (sd : Int) (bs : List Byte) (q : Proc EchoChild κ) : Prop where
  behind : Behind sd bs (atS q)
  buf    : q.obj.buf.slice 0 bs.length = bs

theorem read_owes (h : Behind sd [] (atS q)) :
    (read K 1024 q).Sat
      (fun rcnt q' => ∃ bs, rcnt = (bs.length : Int) ∧ Owes sd bs q' ∧ (bs = [] → EofDuring (atS q) (atS q')))
      (fun _ q' => Behind sd [] (atS q')) := by
  simp only [read, Prog.bind_apply]
  refine (onS_sat (read_behind (K := K) h 1024)).andThen (fun bs q₁ h₁ => ?_) fun _ _ h => h.1
  exact ⟨bs, rfl, ⟨h₁.1.1, Mem.slice_store _ 0 bs⟩, h₁.1.2⟩

theorem write_owes (h : Owes sd bs q) :
    (write K bs.length q).Sat (fun wcnt q' => wcnt = (bs.length : Int) ∧ Behind sd [] (atS q'))
      (fun _ q' => ∃ rest, Behind sd rest (atS q')) := by
  simp only [write, Prog.bind_apply, Prog.get_apply, Outcome.andThen_ret, Int.toNat_natCast, h.buf]
  refine (onS_sat (write_behind (K := K) h.behind)).andThen (fun n q₁ h₁ => ?_) fun _ _ h => h.1
  exact ⟨congrArg Nat.cast h₁.1.1, h₁.1.2⟩

/-- **The inner loop** sends back what is owed, or is left by an exception. -/
theorem writeRounds_owes (h : Owes sd bs q) {n : Nat} (hn : 2 ≤ n) :
    (Prog.loop (writeRound K) n bs.length q).Sat (fun _ q' => Behind sd [] (atS q'))
      (fun _ q' => ∃ rest, Behind sd rest (atS q')) := by
  obtain ⟨m, rfl⟩ : ∃ m, n = m + 2 := ⟨n - 2, by omega⟩
  have hend : ∀ k q₁, Prog.loop (writeRound K) (k + 1) 0 q₁ = .ret () q₁ := fun k q₁ => Prog.loop_inr k rfl
  by_cases h0 : (bs.length : Int) = 0
  · obtain rfl : bs = [] := List.length_eq_zero_iff.mp (by omega)
    rw [show (([] : List Byte).length : Int) = 0 from rfl, hend]
    exact h.behind
  · have hround : (writeRound K bs.length q).Sat (fun r q₁ => r = .inl 0 ∧ Behind sd [] (atS q₁))
        (fun _ q' => ∃ rest, Behind sd rest (atS q')) := by
      simp only [writeRound, Prog.ite_apply, h0, if_false, Prog.bind_apply]
      refine (write_owes h).andThen (fun wcnt q₁ h₁ => ?_) fun _ _ h => h
      obtain ⟨rfl, hb⟩ := h₁
      have hne : (bs.length : Int) ≠ -1 := by omega
      rw [if_neg hne]
      exact ⟨by rw [Int.sub_self], hb⟩
    rw [Prog.loop_succ]
    refine hround.andThen (fun r q₁ h₁ => ?_) fun _ _ h => h
    obtain ⟨rfl, hb⟩ := h₁
    show (Prog.loop (writeRound K) (m + 1) 0 q₁).Sat _ _
    rw [hend]
    exact hb

/-- **A round**, from where nothing is owed. -/
theorem echoRound_owes (h : Behind sd [] (atS q)) {n : Nat} (hn : 2 ≤ n) :
    (echoRound K n () q).Sat
      (fun r q' => Behind sd [] (atS q') ∧ (r = .inr () → EofDuring (atS q) (atS q')))
      (fun _ q' => ∃ rest, Behind sd rest (atS q')) := by
  simp only [echoRound, Prog.bind_apply]
  refine (read_owes h).andThen (fun rcnt q₁ h₁ => ?_) fun _ _ h => ⟨[], h⟩
  obtain ⟨bs, rfl, howes, heof⟩ := h₁
  rw [Prog.ite_apply]
  split
  · exact (writeRounds_owes howes hn).andThen (fun _ q₂ h₂ => ⟨h₂, fun h => by cases h⟩) fun _ _ h => h
  · obtain rfl : bs = [] := List.length_eq_zero_iff.mp (by omega)
    exact ⟨howes.behind, fun _ => heof rfl⟩

/-! ### Runs -/

/-- `q'` is a state of a run of the child from `q`: rounds that go round again, and then one more round,
returned or thrown. -/
def InRun (K : Kernel κ) (n : Nat) (q q' : Proc EchoChild κ) : Prop :=
  ∃ k q₁ r, Prog.Rounds (echoRound K n) k () q () q₁ ∧ (echoRound K n () q₁).result = some (r, q')

theorem rounds_behind {n k : Nat} (hn : 2 ≤ n) {u u' : Unit} (h : Prog.Rounds (echoRound K n) k u q u' q')
    (hb : Behind sd [] (atS q)) : Behind sd [] (atS q') := by
  induction h with
  | refl => exact hb
  | step hround _ ih => exact ih ((echoRound_owes hb hn).ret hround).1

/-- **At every point of every run** the child has sent back a prefix of what it has received. -/
theorem inRun_causal {n : Nat} (hn : 2 ≤ n) (hb : Behind sd [] (atS q)) (h : InRun K n q q') :
    ∃ rest, Behind sd rest (atS q') := by
  obtain ⟨k, q₁, r, hrounds, hresult⟩ := h
  rcases (echoRound_owes (rounds_behind hn hrounds hb) hn).result hresult with
    ⟨_, -, hb', -⟩ | ⟨_, -, hrest⟩
  · exact ⟨[], hb'⟩
  · exact hrest

/-- The child at the start. -/
def served (B : ℕ+) (sd : Int) (gbuf pbuf buf : Mem Byte) (k : κ) (errno : Int) : Proc EchoChild κ :=
  ⟨accepted B sd gbuf pbuf buf, ⟨k, errno, []⟩⟩

theorem served_behind (B : ℕ+) (sd : Int) (gbuf pbuf buf : Mem Byte) (k : κ) (errno : Int) :
    Behind sd [] (atS (served B sd gbuf pbuf buf k errno)) := by
  refine ⟨rfl, fun made hmade => ?_, rfl, fun c hc => absurd hc List.not_mem_nil⟩
  rw [List.prefix_nil.mp hmade]
  exact List.prefix_rfl

/-- **When the loops of the child end**, all that was received has been sent back, and a `::read` has
returned 0. -/
theorem serveClient_behind {n : Nat} (hn : 2 ≤ n) {v : Int} (hb : Behind sd [] (atS q))
    (h : serveClient K n q = .ret v q') :
    InRun K n q q' ∧ Behind sd [] (atS q') ∧ ∃ len, .read sd len (some []) ∈ q'.sys.trace := by
  obtain ⟨_, q₂, hloop, hret⟩ := Prog.bind_eq_ret h
  cases hret
  obtain ⟨k, t, q₁, hrounds, hlast⟩ := Prog.loop_eq_ret hloop
  have hb₁ := rounds_behind hn hrounds hb
  obtain ⟨hb', heof⟩ := (echoRound_owes hb₁ hn).ret hlast
  obtain ⟨before, after, len, -, htrace⟩ := heof rfl
  rw [hb₁.sock] at htrace
  refine ⟨⟨k, q₁, _, hrounds, congrArg Outcome.result hlast⟩, hb', len, ?_⟩
  show _ ∈ (atS q').sys.trace
  rw [htrace]
  exact List.mem_append_right before List.mem_cons_self

end EchoChild

end Socketpp
