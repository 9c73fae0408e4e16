import Socketpp.Lib.Offers
import Socketpp.Sockbuf.Output

/-!
# Sockbuf — `send`, and short writes

`sockbuf::send` and `sockbuf::write` call `::send` or `::write` until all bytes have been accepted, with one
counter for the bytes that are left and one for those accepted.  Both are `offerLoop` over their own call.
`writeCounted` is `write` with its counters, `write` of the bytes being the same (`writeCounted_eq`).

`short_writes`: both end, what the kernel accepts are consecutive slices of the buffer from its front, and
the value returned or the `int` thrown is exact.  Equal answers make the two do the same.
-/

namespace Socketpp
open Lib

/-- A kernel with `::send`. -/
structure SendKernel (κ : Type) extends Kernel κ where
  send : κ → (fd : Int) → (bs : List Byte) → (msgf : Int) → WriteResult bs.length × κ

/-- A call of `::send`, with what it gave: `none` is the return value -1. -/
structure SendCall where
  fd       : Int
  offered  : List Byte
  msgf     : Int
  accepted : Option Nat
deriving DecidableEq

namespace Sockbuf

variable {κ κ' : Type}

/-- An object and its system, with the calls of `::send` made so far. -/
structure Sender (κ : Type) where
  proc  : Proc Sockbuf κ
  sends : List SendCall

/-- The wait of `write` and `send` for the socket to become writable. -/
def awaitFor (operation : String) (K : Kernel κ) : SockM κ Unit := do
  let s ← get
  if s.obj.rep.stmo = -1 then return ()
  else if (← isWriteready K s.obj.rep.stmo) = 0 then
    throw (.err ETIMEDOUT operation s.obj.sockname)
  else return ()

theorem awaitWriteready_eq (K : Kernel κ) : awaitWriteready K = awaitFor "sockbuf::write" K := rfl

/-- `::write`. -/
def callWrite (K : Kernel κ) (bs : List Byte) : SockM κ (Option Nat) := do
  let s ← get
  call (Sys.write K s.obj.rep.sock bs)

/-- `::send`. -/
def callSend (N : SendKernel κ) (msgf : Int) (bs : List Byte) : Prog Thrown (Sender κ) (Option Nat) := fun t =>
  let fd := t.proc.obj.rep.sock
  match N.send t.proc.sys.kern fd bs msgf with
  | (.accepted n _ _, k) => .ret (some n)
      ⟨{ t.proc with sys := { t.proc.sys with kern := k } }, t.sends ++ [⟨fd, bs, msgf, some n⟩]⟩
  | (.failed e, k) => .ret none
      ⟨{ t.proc with sys := { t.proc.sys with kern := k, errno := e } }, t.sends ++ [⟨fd, bs, msgf, none⟩]⟩

/-- `write (buf, len)`. -/
def writeCounted (K : Kernel κ) (buf : Mem Byte) (len : Int) : SockM κ Nat := do
  awaitFor "sockbuf::write" K
  offerLoop (callWrite K) .int buf len

/-- `send (buf, len, msgf)`. -/
def send (N : SendKernel κ) (buf : Mem Byte) (len msgf : Int) : Prog Thrown (Sender κ) Nat := do
  Prog.zoom Sender.proc (fun s t => { t with proc := s }) (awaitFor "sockbuf::send" N.toKernel)
  offerLoop (callSend N msgf) .int buf len

/-! ### The wait -/

/-- The wait for `s` to become writable succeeds. -/
def Ready (K : Kernel κ) (s : Proc Sockbuf κ) : Prop :=
  s.obj.rep.stmo = -1 ∨
    ∃ n k, K.selectWrite s.sys.kern s.obj.rep.sock s.obj.rep.stmo = (.ok (n + 1), k)

/-- Between the two there are calls that wait, and no others. -/
def Waited (s s' : Proc Sockbuf κ) : Prop :=
  s'.obj = s.obj ∧ ∃ waits, s'.sys.trace = s.sys.trace ++ waits ∧
    ∀ c ∈ waits, ∃ r, c = .selectWrite s.obj.rep.sock s.obj.rep.stmo r

theorem Ready.await {K : Kernel κ} {s : Proc Sockbuf κ} (h : Ready K s) (operation : String) :
    ∃ s₁, awaitFor operation K s = .ret () s₁ ∧ Waited s s₁ := by
  by_cases hstmo : s.obj.rep.stmo = -1
  · refine ⟨s, ?_, rfl, [], (List.append_nil _).symm, List.forall_mem_nil _⟩
    simp only [awaitFor, Prog.bind_apply, Prog.get_apply, Outcome.andThen_ret, hstmo, if_true,
      Prog.pure_apply]
  · obtain ⟨n, k, hk⟩ := h.resolve_left hstmo
    refine ⟨⟨s.obj, s.sys.enter k (.selectWrite s.obj.rep.sock s.obj.rep.stmo (some (n + 1)))⟩, ?_, rfl,
      _, rfl, List.forall_mem_singleton.mpr ⟨_, rfl⟩⟩
    simp only [awaitFor, isWriteready, Prog.bind_apply, Prog.get_apply, Outcome.andThen_ret,
      Prog.ite_apply, hstmo, if_false, call, Prog.zoom_apply, Sys.selectWrite, hk, Sys.enterAnswer,
      Outcome.mapState_ret, checked, Prog.pure_apply, Nat.succ_ne_zero]

/-! ### The loops -/

section Loops

variable {K : Kernel κ} {N : SendKernel κ}

/-- The calls of `::write` that the offers are. -/
def Wrote (s s' : Proc Sockbuf κ) (os : List (Offer Byte)) : Prop :=
  s'.obj = s.obj ∧
    s'.sys.trace = s.sys.trace ++ os.map fun o => .write s.obj.rep.sock o.offered o.taken

theorem Wrote.refl (s : Proc Sockbuf κ) : Wrote s s [] := ⟨rfl, (List.append_nil _).symm⟩

theorem callWrite_answers (s₁ : Proc Sockbuf κ) : Answers (callWrite K) fun os s => Wrote s₁ s os := by
  rintro os s bs hbs ⟨hobj, htrace⟩
  simp only [callWrite, call, Prog.bind_apply, Prog.get_apply, Outcome.andThen_ret, Prog.zoom_apply,
    Sys.write]
  cases hw : K.write s.sys.kern s.obj.rep.sock bs with
  | mk r k =>
      cases r with
      | accepted n pos le =>
          refine ⟨?_, hobj, ?_⟩
          · rintro n' ⟨⟩
            exact ⟨pos, le⟩
          · simp [htrace, hobj]
      | failed e =>
          refine ⟨by simp, hobj, ?_⟩
          simp [htrace, hobj]

/-- The calls of `::send` that the offers are. -/
def Posted (msgf : Int) (t t' : Sender κ) (os : List (Offer Byte)) : Prop :=
  t'.proc.obj = t.proc.obj ∧ t'.proc.sys.trace = t.proc.sys.trace ∧
    t'.sends = t.sends ++ os.map fun o => ⟨t.proc.obj.rep.sock, o.offered, msgf, o.taken⟩

theorem Posted.refl (msgf : Int) (t : Sender κ) : Posted msgf t t [] := ⟨rfl, rfl, (List.append_nil _).symm⟩

theorem callSend_answers (msgf : Int) (t₁ : Sender κ) :
    Answers (callSend N msgf) fun os t => Posted msgf t₁ t os := by
  rintro os t bs hbs ⟨hobj, htrace, hsends⟩
  simp only [callSend]
  cases hw : N.send t.proc.sys.kern t.proc.obj.rep.sock bs msgf with
  | mk r k =>
      cases r with
      | accepted n pos le =>
          refine ⟨?_, hobj, htrace, ?_⟩
          · rintro n' ⟨⟩
            exact ⟨pos, le⟩
          · simp [hsends, hobj]
      | failed e =>
          refine ⟨by simp, hobj, htrace, ?_⟩
          simp [hsends, hobj]

/-- In every round of the loop that begins with `len` bytes to offer, what is left and what was accepted make
up `len`.  Neither counter leaves `0 .. len`, so an `int` holds them. -/
def Counted {σ : Type} (round : Int × Nat → Prog Thrown σ (Int × Nat ⊕ Nat)) (len : Nat) : Prop :=
  ∀ k c s s', Prog.Rounds round k ((len : Int), 0) s c s' → 0 ≤ c.1 ∧ c.1 + c.2 = len

theorem counted_write (buf : Mem Byte) (len : Nat) : Counted (offerRound (callWrite K) .int buf) len :=
  fun _ _ s _ h => offerRounds_counters (callWrite_answers s) h (.refl s) (Int.natCast_nonneg len)

theorem counted_send (msgf : Int) (buf : Mem Byte) (len : Nat) :
    Counted (offerRound (callSend N msgf) .int buf) len :=
  fun _ _ t _ h => offerRounds_counters (callSend_answers msgf t) h (.refl msgf t) (Int.natCast_nonneg len)

/-- The loop of `write` with its counters is the one over the bytes that are left. -/
theorem offerRounds_write (buf : Mem Byte) : ∀ (depth : Nat) {k len wlen : Nat} (s : Proc Sockbuf κ),
    len ≤ depth → len < k →
      Prog.loop (offerRound (callWrite K) .int buf) k ((len : Int), wlen) s =
        writeLoop K depth (buf.slice wlen len) wlen s := by
  intro depth
  induction depth with
  | zero =>
      intro k len wlen s hd hk
      obtain rfl := Nat.le_zero.mp hd
      obtain ⟨k, rfl⟩ := Nat.exists_eq_succ_of_ne_zero (Nat.ne_of_gt hk)
      rfl
  | succ depth ih =>
      intro k len wlen s hd hk
      obtain ⟨k, rfl⟩ := Nat.exists_eq_succ_of_ne_zero (Nat.ne_of_gt (Nat.zero_lt_of_lt hk))
      cases len with
      | zero => rfl
      | succ m =>
          have hpos : (0 : Int) < ((m + 1 : Nat) : Int) := by omega
          have hslice : buf.slice wlen (m + 1) = buf wlen :: buf.slice (wlen + 1) m := Mem.slice_succ ..
          obtain ⟨r, s₁, hret, hr, -⟩ := (callWrite_answers (K := K) s [] s (buf.slice wlen (m + 1))
            (List.cons_ne_nil _ _) (.refl s)).returns
          have hcall : call (Sys.write K s.obj.rep.sock (buf wlen :: buf.slice (wlen + 1) m)) s = .ret r s₁ := by
            rw [← hslice]
            exact hret
          rw [← Int.toNat_natCast (m + 1)] at hret
          cases r with
          | none => rw [Prog.loop_thrown k (offerRound_none hpos hret), hslice, writeLoop_none hcall]
          | some n =>
              obtain ⟨hn, hle⟩ := hr n rfl
              rw [Mem.length_slice] at hle
              have hlen : ((m + 1 : Nat) : Int) - n = ((m + 1 - n : Nat) : Int) := by omega
              rw [Prog.loop_inl k (offerRound_some hpos hret), hlen, ih s₁ (by omega) (by omega),
                ← Mem.drop_slice buf wlen hle, hslice, writeLoop_some hcall]

/-- **`write (buf, len)`** is `write` of the `len` bytes at `buf`. -/
theorem writeCounted_eq (buf : Mem Byte) (len : Nat) :
    writeCounted K buf len = Sockbuf.write K (buf.slice 0 len) := by
  funext s
  have hloop : ∀ s₁ : Proc Sockbuf κ,
      offerLoop (callWrite K) .int buf len s₁ = writeLoop K len (buf.slice 0 len) 0 s₁ := fun s₁ =>
    offerRounds_write buf len s₁ (Nat.le_refl len) (by rw [Int.toNat_natCast]; exact Nat.lt_succ_self len)
  rw [writeCounted, Sockbuf.write, awaitWriteready_eq, Mem.length_slice, Prog.bind_apply, Prog.bind_apply]
  cases awaitFor "sockbuf::write" K s with
  | ret _ s₁ => exact hloop s₁
  | thrown e s₁ => rfl
  | spin => rfl

/-! ### What the loops come to -/

/-- What the loops come to: `len`, or the number of bytes accepted thrown. -/
def came (os : List (Offer Byte)) (len : Nat) : Bool → Except Thrown Nat
  | true  => .ok len
  | false => .error (.int (parts os).length)

/-- **Exact**: the bytes accepted are consecutive slices of `bs` from its front, in no more calls than there
are bytes, and the result `r` says how many. -/
structure Exact (bs : List Byte) (os : List (Offer Byte)) (r : Except Thrown Nat) : Prop where
  consecutive : ∀ pre o post, os = pre ++ o :: post → o.offered = bs.drop (parts pre).length
  front       : parts os <+: bs
  calls       : os.length ≤ bs.length
  last        : ∀ pre o post, os = pre ++ o :: post → o.taken = none → post = []
  returns     : (∀ o ∈ os, o.taken ≠ none) → parts os = bs ∧ r = .ok bs.length
  throws      : (∃ o ∈ os, o.taken = none) → r = .error (.int (parts os).length)

theorem exact_came {bs : List Byte} {os : List (Offer Byte)} {done : Bool} (h : Offers bs os done) :
    Exact bs os (came os bs.length done) := by
  obtain ⟨left, hbs, hleft⟩ := h.parts_le
  refine ⟨fun _ _ _ hos => (h.at_offer hos).1, ⟨left, hbs.symm⟩, h.length_le,
    fun _ _ _ hos => (h.at_offer hos).2, fun hall => ?_, fun hfailed => ?_⟩
  · have hdone := h.done_iff.mpr hall
    rw [hleft.mp hdone, List.append_nil] at hbs
    rw [hdone]
    exact ⟨hbs.symm, rfl⟩
  · rw [h.not_done hfailed]
    rfl

theorem offerLoop_came {σ : Type} {offer : List Byte → Prog Thrown σ (Option Nat)}
    {R : List (Offer Byte) → σ → Prop} (hoffer : Answers offer R) (buf : Mem Byte) (len : Nat) {s : σ}
    (h : R [] s) : ∃ os done s', (offerLoop offer .int buf len s).result = some (came os len done, s') ∧
      Offers (buf.slice 0 len) os done ∧ R os s' := by
  have hsat : (offerLoop offer .int buf len s).Sat _ _ := offerLoop_sat hoffer len h
  obtain ⟨r, s', hres⟩ := hsat.ends
  rcases hsat.result hres with ⟨v, rfl, os, hos, hR, rfl⟩ | ⟨e, rfl, os, hos, hR, rfl⟩
  · exact ⟨os, true, s', hres, hos, hR⟩
  · exact ⟨os, false, s', hres, hos, hR⟩

theorem writeCounted_came {s : Proc Sockbuf κ} (hs : Ready K s) (buf : Mem Byte) (len : Nat) :
    ∃ os done s₁ s', (writeCounted K buf len s).result = some (came os len done, s') ∧
      Offers (buf.slice 0 len) os done ∧ Waited s s₁ ∧ Wrote s₁ s' os := by
  obtain ⟨s₁, hret, hwait⟩ := hs.await "sockbuf::write"
  obtain ⟨os, done, s', hres, hos, hwrote⟩ :=
    offerLoop_came (callWrite_answers (K := K) s₁) buf len (.refl s₁)
  refine ⟨os, done, s₁, s', ?_, hos, hwait, hwrote⟩
  rw [writeCounted, Prog.bind_of_ret hret]
  exact hres

theorem send_came {t : Sender κ} (ht : Ready N.toKernel t.proc) (buf : Mem Byte) (len : Nat) (msgf : Int) :
    ∃ os done s₁ t', (send N buf len msgf t).result = some (came os len done, t') ∧
      Offers (buf.slice 0 len) os done ∧ Waited t.proc s₁ ∧ Posted msgf ⟨s₁, t.sends⟩ t' os := by
  obtain ⟨s₁, hret, hwait⟩ := ht.await "sockbuf::send"
  obtain ⟨os, done, t', hres, hos, hposted⟩ :=
    offerLoop_came (callSend_answers (N := N) msgf ⟨s₁, t.sends⟩) buf len (.refl msgf _)
  refine ⟨os, done, s₁, t', ?_, hos, hwait, hposted⟩
  have hzoom : Prog.zoom Sender.proc (fun s t => { t with proc := s }) (awaitFor "sockbuf::send" N.toKernel) t =
      .ret () ⟨s₁, t.sends⟩ := by
    rw [Prog.zoom_apply, hret, Outcome.mapState_ret]
  rw [send, Prog.bind_of_ret hzoom]
  exact hres

/-- **`sync`** keeps what `write` did not, by the number that `write` throws. -/
theorem sync_keeps {s s' : Proc Sockbuf κ} (hw : s.obj.Writable) {k : Nat}
    (hk : k < s.obj.pending.length) (hwrite : Sockbuf.write K s.obj.pending s = .thrown (.int k) s')
    (hobj : s'.obj = s.obj) :
    ∃ e s'', sync K s = .thrown e s'' ∧ s''.obj.pending = s.obj.pending.drop k ∧ s''.sys = s'.sys := by
  obtain ⟨p, hp, hle, -, -⟩ := hw
  have hpend := pending_eq hp
  have hk' : k < p.pptr := by rwa [hpend, Mem.length_slice] at hk
  have hflush : 0 < p.pptr ∧ p.pptr ≤ p.epptr := ⟨Nat.zero_lt_of_lt hk', hle⟩
  rw [hpend] at hwrite
  simp only [sync, Prog.bind_apply, Prog.get_apply, Outcome.andThen_ret, hp, Prog.ite_apply, hflush, and_self,
    if_true, Prog.tryCatch_apply, hwrite, Outcome.handle_thrown, syncCatch, Prog.modify_apply,
    Prog.throw_apply, Outcome.andThen_thrown]
  refine ⟨_, _, rfl, ?_, rfl⟩
  by_cases h0 : k = 0
  · simp only [Proc.onObj, h0, if_true, hobj, List.drop_zero]
  · simp only [Proc.onObj, h0, if_false, hobj]
    exact pending_keepUnwritten hp (Nat.le_of_lt hk') _

/-- **Short writes.**  For every buffer and every kernel, where the wait succeeds: `write` and `send` end, the
bytes accepted are consecutive slices of the buffer from its front, and what they return or throw is exact,
so that `sync` keeps just the bytes that were not accepted.  As long as they get the same answers from their
calls, the two make the same offers and come to the same.  In each round their counters make up `len`. -/
theorem short_writes (K : Kernel κ) (N : SendKernel κ') (buf : Mem Byte) (len : Nat) (msgf : Int)
    {s : Proc Sockbuf κ} {t : Sender κ'} (hs : Ready K s) (ht : Ready N.toKernel t.proc) :
    ∃ r s' ws r' t' ss,
      ((writeCounted K buf len s).result = some (r, s') ∧
        (∃ s₁, Waited s s₁ ∧ Wrote s₁ s' ws) ∧ Exact (buf.slice 0 len) ws r) ∧
      ((send N buf len msgf t).result = some (r', t') ∧
        (∃ s₁, Waited t.proc s₁ ∧ Posted msgf ⟨s₁, t.sends⟩ t' ss) ∧ Exact (buf.slice 0 len) ss r') ∧
      (∀ rs, ws.map Offer.taken <+: rs → ss.map Offer.taken <+: rs → ws = ss ∧ r = r') ∧
      (s.obj.Writable → s.obj.pending = buf.slice 0 len → (∃ o ∈ ws, o.taken = none) →
        ∃ e s'', sync K s = .thrown e s'' ∧
          s''.obj.pending = s.obj.pending.drop (parts ws).length ∧ s''.sys = s'.sys) ∧
      Counted (offerRound (callWrite K) .int buf) len ∧ Counted (offerRound (callSend N msgf) .int buf) len := by
  obtain ⟨ws, done, s₁, s', hw, hws, hwait, hwrote⟩ := writeCounted_came hs buf len
  obtain ⟨ss, done', s₁', t', hsend, hss, hwait', hposted⟩ := send_came ht buf len msgf
  have hexact := exact_came hws
  have hexact' := exact_came hss
  rw [Mem.length_slice] at hexact hexact'
  refine ⟨_, s', ws, _, t', ss, ⟨hw, ⟨s₁, hwait, hwrote⟩, hexact⟩, ⟨hsend, ⟨s₁', hwait', hposted⟩, hexact'⟩,
    fun rs hrs hrs' => ?_, fun hwritable hpend hfailed => ?_, counted_write buf len, counted_send msgf buf len⟩
  · obtain ⟨rfl, rfl⟩ := hws.unique hss hrs hrs'
    exact ⟨rfl, rfl⟩
  · have hthrown := hexact.throws hfailed
    rw [hthrown, writeCounted_eq, ← hpend] at hw
    have hlt : (parts ws).length < s.obj.pending.length := by
      obtain rfl := hws.not_done hfailed
      rw [hpend]
      exact hws.parts_lt
    exact sync_keeps hwritable hlt (Outcome.result_eq_error hw) (hwrote.1.trans hwait.1)

end Loops

/-! ### A connection that breaks -/

/-- A kernel that accepts one byte at a time, as many as its state says, and then fails with `EPIPE`. -/
def breaking : SendKernel Nat :=
  let accept (k : Nat) (bs : List Byte) : WriteResult bs.length × Nat :=
    if h : 0 < k ∧ 0 < bs.length then (.accepted 1 Nat.one_pos h.2, k - 1) else (.failed 32, k)
  { write       := fun k _ bs => accept k bs
    send        := fun k _ bs _ => accept k bs
    read        := fun k _ _ => (.eof, k)
    selectRead  := fun k _ _ => (.ok 1, k)
    selectWrite := fun k _ _ => (.ok 1, k)
    sockatmark  := fun k _ => (.ok false, k)
    shutdown    := fun k _ _ => (.ok (), k)
    open_       := fun k _ => (.error 2, k) }

/-- A connection that breaks after two bytes, with a timeout of five seconds. -/
def breakingAfterTwo : Proc Sockbuf Nat :=
  let b := ofDesc bufsiz 3 (fun _ => 0) fun _ => 0
  ⟨{ b with rep := { b.rep with stmo := 5 } }, 2, 0, []⟩

/-- `Hi!`. -/
def greeting : Mem Byte := Mem.store (fun _ => 0) 0 [72, 105, 33]

theorem short_writes_broken : ∃ r s' ws r' t' ss,
    (writeCounted breaking.toKernel greeting (3 : Nat) breakingAfterTwo).result = some (r, s') ∧
      Exact [72, 105, 33] ws r ∧
      (send breaking greeting (3 : Nat) 0 ⟨breakingAfterTwo, []⟩).result = some (r', t') ∧
      Exact [72, 105, 33] ss r' := by
  have hready : Ready breaking.toKernel breakingAfterTwo := .inr ⟨0, _, rfl⟩
  obtain ⟨r, s', ws, r', t', ss, ⟨hw, -, hexact⟩, ⟨hs, -, hexact'⟩, -⟩ :=
    short_writes breaking.toKernel breaking greeting 3 0 (t := ⟨breakingAfterTwo, []⟩) hready hready
  exact ⟨r, s', ws, r', t', ss, hw, hexact, hs, hexact'⟩

example : (send breaking greeting (3 : Nat) 0 ⟨breakingAfterTwo, []⟩).result.map Prod.fst =
    some (.error (.int 2)) := rfl

end Sockbuf

end Socketpp
