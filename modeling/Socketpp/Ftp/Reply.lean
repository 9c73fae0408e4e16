import Socketpp.Ftp.Model
import Socketpp.Protocol.Looks

/-!
# Ftp — replies

`get_response` takes one look at the get area in each iteration.  `Reader.look` says what it makes
of a look; the body of the loop is this on the unread bytes (`readLine_look`), and over all
iterations `get_response` is the scan of the looks to come (`getResponse_ret`, `getResponse_at`).

The looks that one call takes are `replyLooks`: they end with the line that ends the reply, or
with the first look at fewer than five bytes, where the call spins.
-/

namespace Socketpp
open Lib

namespace Ftpbuf
open Sockbuf

variable {κ : Type} {K : Kernel κ}

/-- The bytes written to `o` for a look: the first line, or all that is there and the byte behind
it. -/
def written (v : Look) : List Byte :=
  match eol.lineEnd v.1 with
  | some e => v.1.take e
  | none   => v.1 ++ [v.2]

/-- What `get_response` carries from look to look, with the bytes taken out of the stream. -/
structure Reader where
  firstline : Bool
  replycode : Mem Byte
  o         : Option (List Byte)
  taken     : List Byte

namespace Reader

/-- The line goes to `o` and out of the stream. -/
def take (r : Reader) (v : Look) : Reader :=
  { r with o := r.o.map fun out => out ++ written v, taken := r.taken ++ v.1.take (bump v) }

/-- The code of a first line is kept. -/
def keepCode (r : Reader) (v : Look) : Reader :=
  { r with firstline := false, replycode := (strncpy r.replycode (v.1.take 3)).write 3 32 }

/-- One look. -/
def look (r : Reader) (v : Look) : Glance Reader :=
  if v.1.length < 5 then .stall
  else if r.firstline then
    if v.1[3]? = some 32 then .stop ((r.take v).keepCode v) else .go ((r.take v).keepCode v)
  else if strncmp (v.1.take 4) (r.replycode.slice 0 4) = 0 then .stop (r.take v) else .go (r.take v)

variable {r : Reader} {v : Look}

theorem look_stall_iff (r : Reader) (v : Look) : r.look v = .stall ↔ ¬ 5 ≤ v.1.length := by
  rw [Nat.not_le, look]
  split
  · exact iff_of_true rfl ‹_›
  · refine iff_of_false (fun h => ?_) ‹_›
    split at h <;> split at h <;> cases h

theorem look_first_stop (hr : r.firstline = true) (h5 : 5 ≤ v.1.length) (h3 : v.1[3]? = some 32) :
    r.look v = .stop ((r.take v).keepCode v) := by
  rw [look, if_neg (Nat.not_lt.mpr h5), if_pos hr, if_pos h3]

theorem look_first_go (hr : r.firstline = true) (h5 : 5 ≤ v.1.length) (h3 : v.1[3]? ≠ some 32) :
    r.look v = .go ((r.take v).keepCode v) := by
  rw [look, if_neg (Nat.not_lt.mpr h5), if_pos hr, if_neg h3]

theorem look_later_stop (hr : r.firstline = false) (h5 : 5 ≤ v.1.length)
    (hc : strncmp (v.1.take 4) (r.replycode.slice 0 4) = 0) : r.look v = .stop (r.take v) := by
  rw [look, if_neg (Nat.not_lt.mpr h5), hr, if_neg Bool.false_ne_true, if_pos hc]

theorem look_later_go (hr : r.firstline = false) (h5 : 5 ≤ v.1.length)
    (hc : strncmp (v.1.take 4) (r.replycode.slice 0 4) ≠ 0) : r.look v = .go (r.take v) := by
  rw [look, if_neg (Nat.not_lt.mpr h5), hr, if_neg Bool.false_ne_true, if_neg hc]

theorem look_ne_leave (r r' : Reader) (v : Look) : r.look v ≠ .leave r' := by
  intro h
  unfold look at h
  split at h
  · cases h
  · split at h <;> split at h <;> cases h

end Reader

/-- The reader of an object. -/
def reader (firstline : Bool) (s : Proc Ftpbuf κ) (taken : List Byte) : Reader :=
  ⟨firstline, s.obj.replycode, s.obj.o, taken⟩

/-- The object after a look that has led the reader to `r`. -/
def after (s : Proc Ftpbuf κ) (r : Reader) (i : Nat) : Proc Ftpbuf κ :=
  ⟨{ toSockbuf := s.obj.toSockbuf.onGet fun a => a.gbump i, replycode := r.replycode, o := r.o },
    s.sys⟩

theorem slice_bump {b : Sockbuf} {a : GetArea} (ha : b.getArea = some a) (hu : b.unread ≠ []) :
    a.mem.slice a.gptr (bump (b.unread, a.mem a.egptr)) = written (b.unread, a.mem a.egptr) := by
  have hlt : a.gptr < a.egptr := by
    by_contra h
    exact hu ((unread_nil_iff ha).mpr h)
  have hu' := unread_eq ha
  rw [bump, written]
  cases he : eol.lineEnd b.unread with
  | some e =>
      have hle := (Eol.lineEnd_bounds he).2
      rw [hu', Mem.length_slice] at hle
      simp only [Option.getD_some]
      rw [hu', Mem.take_slice _ _ hle]
  | none =>
      simp only [Option.getD_none]
      rw [Mem.slice_add, hu', Mem.length_slice, Nat.add_sub_cancel' (Nat.le_of_lt hlt)]
      rfl

/-- **The body of the loop** is one look at the unread bytes. -/
theorem readLine_look {s : Proc Ftpbuf κ} {a : GetArea} (ha : s.obj.getArea = some a)
    (hu : s.base.obj.unread ≠ []) {v : Look} (hv : v = (s.base.obj.unread, a.mem a.egptr))
    (firstline : Bool) (taken : List Byte) :
    readLine firstline s =
      match (reader firstline s taken).look v with
      | .stall   => .ret (.inl firstline) s
      | .leave _ => .ret (.inr ()) s
      | .stop r  => .ret (.inr ()) (after s r (bump v))
      | .go r    => .ret (.inl r.firstline) (after s r (bump v)) := by
  have hb : s.base.obj.getArea = some a := ha
  have hlen : v.1.length = a.egptr - a.gptr := by rw [hv, unread_eq hb, Mem.length_slice]
  simp only [readLine, Prog.bind_apply, Outcome.andThen_ret, Prog.get_apply, ha, Prog.ite_apply,
    Reader.look, hlen]
  by_cases hn : a.egptr - a.gptr < 5
  · simp only [if_pos hn]
    rfl
  · simp only [if_neg hn]
    -- the line goes to `o`, and `gptr ()` behind it
    have hz : a.zap (a.egptr - a.gptr) = bump v := by rw [hv]; exact zap_eq hb hu
    have hw : a.mem.slice a.gptr (bump v) = written v := by rw [hv]; exact slice_bump hb hu
    have h₁ : (modify (Proc.onObj (writeO (written v))) >>= fun _ => gbump (bump v)) s =
        .ret ⟨⟩ (after s ((reader firstline s taken).take v) (bump v)) := rfl
    -- the bytes at `q` are the unread ones
    have h3 : v.1.take 3 = a.mem.slice a.gptr 3 := by
      rw [hv, unread_eq hb, Mem.take_slice _ _ (by omega)]
    have h4 : v.1.take 4 = a.mem.slice a.gptr 4 := by
      rw [hv, unread_eq hb, Mem.take_slice _ _ (by omega)]
    have hq : v.1[3]? = some (a.mem (a.gptr + 3)) := by
      rw [hv, unread_eq hb, Mem.getElem?_slice _ _ (by omega)]
    rw [hz, hw, ← Prog.bind_apply, ← Prog.bind_assoc, Prog.bind_apply, h₁, Outcome.andThen_ret]
    cases firstline with
    | true =>
        simp only [checkLine, reader, Reader.take, Reader.keepCode, hq, h3, if_true,
          Prog.bind_apply, Prog.modify_apply, Outcome.andThen_ret, Prog.ite_apply,
          Option.some.injEq]
        split <;> rfl
    | false =>
        simp only [checkLine, reader, Reader.take, h4, Bool.false_eq_true, if_false,
          Prog.bind_apply, Prog.get_apply, Outcome.andThen_ret, Prog.ite_apply, after]
        split <;> rfl

/-- A look that is taken takes its line. -/
theorem Reader.look_taken {r r' : Reader} {v : Look} (h : r.look v = .stop r' ∨ r.look v = .go r') :
    r'.taken = r.taken ++ v.1.take (bump v) ∧ r'.o = r.o.map fun out => out ++ written v := by
  unfold Reader.look at h
  split at h
  · rcases h with h | h <;> cases h
  · split at h
    · split at h <;> rcases h with h | h <;> cases h <;> exact ⟨rfl, rfl⟩
    · split at h <;> rcases h with h | h <;> cases h <;> exact ⟨rfl, rfl⟩

/-- `get_response`, as a reader of lines. -/
def lineReader (κ : Type) : LineReader Ftpbuf κ Bool Reader where
  body := readLine
  look := Reader.look
  carried := Reader.firstline
  taken := Reader.taken
  own s r := s.obj.replycode = r.replycode ∧ s.obj.o = r.o
  own_rebase _ h := h
  reads := by
    rintro s r a ⟨hc, ho⟩ ha hu v hv
    have hr : reader r.firstline s r.taken = r := by simp only [reader, hc, ho]
    have h := readLine_look ha hu hv r.firstline r.taken
    rw [hr] at h
    cases hl : r.look v with
    | stall => rw [hl] at h; exact h
    | leave r' => exact absurd hl (r.look_ne_leave r' v)
    | stop r' =>
        rw [hl] at h
        exact ⟨_, h, ⟨rfl, rfl⟩, rfl, (Reader.look_taken (Or.inl hl)).1⟩
    | go r' =>
        rw [hl] at h
        exact ⟨_, h, ⟨rfl, rfl⟩, rfl, (Reader.look_taken (Or.inr hl)).1⟩

/-! ### The whole call -/

section Feed

variable {B : Nat} {ω : Type} {W : ω → (bs : List Byte) → WriteResult bs.length × ω}

/-- The scan that is a call of `get_response`. -/
def replyScan (s : Proc Ftpbuf (Peer B ω)) : Option (Reader × List Look) :=
  scan Reader.look (reader true s []) (looks s.base)

theorem reader_at {s : Proc Ftpbuf (Peer B ω)} (hf : Fed s.base) :
    (lineReader (Peer B ω)).At (ahead s.base) s (reader true s []) (looks s.base) :=
  ⟨hf, rfl, ⟨rfl, rfl⟩, rfl⟩

/-- **`get_response`** is the scan of the looks to come.  Where the scan comes to something it
returns, within one iteration for each look and one more. -/
theorem getResponse_ret {s : Proc Ftpbuf (Peer B ω)} (hf : Fed s.base) {r : Reader}
    {vs : List Look} (hs : replyScan s = some (r, vs)) :
    ∃ s', (lineReader (Peer B ω)).At (ahead s.base) s' r vs ∧ ∀ n, (looks s.base).length < n →
      getResponse (Kernel.feed B W) n s = .ret (r.replycode 0) s' := by
  obtain ⟨s', hat, hret⟩ := LineReader.loop_ret (W := W) (reader_at hf) hs
  refine ⟨s', hat, fun n hn => ?_⟩
  have h := hret n hn
  simp only [lineReader, reader] at h
  simp only [getResponse, Prog.bind_apply, h, Outcome.andThen_ret, Prog.get_apply, Prog.pure_apply,
    hat.own.1]

/-- However many iterations it is given, it is cut off or returns so. -/
theorem getResponse_at {s : Proc Ftpbuf (Peer B ω)} (hf : Fed s.base) (n : Nat) :
    getResponse (Kernel.feed B W) n s = .spin ∨
    ∃ r vs s', replyScan s = some (r, vs) ∧ (lineReader (Peer B ω)).At (ahead s.base) s' r vs ∧
      getResponse (Kernel.feed B W) n s = .ret (r.replycode 0) s' := by
  rcases LineReader.loop_at (W := W) (reader_at hf) n with h | ⟨r, vs, s', hs, hat, h⟩
  · simp only [lineReader, reader] at h
    refine Or.inl ?_
    simp only [getResponse, Prog.bind_apply, h, Outcome.andThen_spin]
  · simp only [lineReader, reader] at h
    refine Or.inr ⟨r, vs, s', hs, hat, ?_⟩
    simp only [getResponse, Prog.bind_apply, h, Outcome.andThen_ret, Prog.get_apply,
      Prog.pure_apply, hat.own.1]

/-- A call that has returned. -/
theorem returns_getResponse {s s' : Proc Ftpbuf (Peer B ω)} {c : Byte} (hf : Fed s.base)
    (h : Returns (getResponse (Kernel.feed B W)) s c s') :
    ∃ r vs, replyScan s = some (r, vs) ∧ c = r.replycode 0 ∧
      (lineReader (Peer B ω)).At (ahead s.base) s' r vs := by
  obtain ⟨n, hn⟩ := h
  rcases getResponse_at (W := W) hf n with hspin | ⟨r, vs, s₁, hs, hat, hret⟩
  · rw [hspin] at hn
    cases hn
  · rw [hret] at hn
    cases hn
    exact ⟨r, vs, hs, rfl, hat⟩

/-- What a call comes to, by the scan: the class, the bytes written to `o` so far, and the bytes
taken out of the stream. -/
def answer (s : Proc Ftpbuf (Peer B ω)) : Option (Byte × Option (List Byte) × List Byte) :=
  (replyScan s).map fun p => (p.1.replycode 0, p.1.o, p.1.taken)

theorem returns_answer {s : Proc Ftpbuf (Peer B ω)} {c : Byte} {o : Option (List Byte)}
    {t : List Byte} (hf : Fed s.base) (h : answer s = some (c, o, t)) :
    ∃ s', Returns (getResponse (Kernel.feed B W)) s c s' ∧ s'.obj.o = o ∧
      t ++ ahead s'.base = ahead s.base := by
  obtain ⟨p, hp, hpt⟩ := Option.map_eq_some_iff.mp h
  obtain ⟨s', hat, hret⟩ := getResponse_ret (W := W) hf hp
  cases hpt
  exact ⟨s', ⟨_, hret _ (Nat.lt_succ_self _)⟩, hat.own.2, hat.ahead⟩

end Feed

/-- An ftpbuf as constructed, whose peer has sent the chunks and closed. -/
def opened (out : Option (List Byte)) (cs : List (Chunk 1024)) : Proc Ftpbuf (Peer 1024 Unit) :=
  ⟨ofDesc bufsiz 3 (fun _ => 0) (fun _ => 0) (fun _ => 0) out, ⟨⟨cs, ()⟩, 0, []⟩⟩

theorem opened_fed (out : Option (List Byte)) (cs : List (Chunk 1024)) :
    Fed (opened out cs).base := ⟨⟨_, rfl⟩, rfl⟩

/-! ### The looks of one reply -/

/-- What the first four cells of `replycode` hold after a first line. -/
def codeOf (v : Look) : List Byte := strncpyCells (v.1.take 3) ++ [32]

/-- The looks up to the one at the line that ends a reply, or at too few bytes. -/
def replyLooks : List Look → List Look
  | []      => []
  | v :: vs => v ::
    if v.1.length < 5 ∨ v.1[3]? = some 32 then []
    else upTo (fun w => w.1.length < 5 ∨ strncmp (w.1.take 4) (codeOf v) = 0) vs

theorem length_strncpyCells (s : List Byte) : (strncpyCells s).length = s.length := by
  induction s with
  | nil => rfl
  | cons c s ih =>
      rw [strncpyCells]
      split
      · simp
      · simp [ih]

theorem slice_strncpy (m : Mem Byte) (s : List Byte) (h : s.length = 3) :
    ((strncpy m s).write 3 32).slice 0 4 = strncpyCells s ++ [32] := by
  have hl : (strncpyCells s).length = 3 := (length_strncpyCells s).trans h
  have hs := Mem.slice_store m 0 (strncpyCells s)
  rw [hl] at hs
  have hw := Mem.slice_write_append (strncpy m s) 0 3 32
  rw [strncpy, hs] at hw
  exact hw

namespace Reader

theorem slice_keepCode (r : Reader) {v : Look} (h5 : 5 ≤ v.1.length) :
    (r.keepCode v).replycode.slice 0 4 = codeOf v := by
  refine slice_strncpy _ _ ?_
  rw [List.length_take]
  omega

/-- **The looks of a call** are those of one reply. -/
theorem seen_look {r : Reader} (hr : r.firstline = true) (vs : List Look) :
    seen look r vs = replyLooks vs := by
  cases vs with
  | nil => rfl
  | cons v vs =>
      rw [replyLooks]
      by_cases h5 : v.1.length < 5
      · rw [if_pos (Or.inl h5), seen, (look_stall_iff r v).mpr (Nat.not_le.mpr h5)]
      have h5 := Nat.not_lt.mp h5
      by_cases h3 : v.1[3]? = some 32
      · rw [if_pos (Or.inr h3), seen, look_first_stop hr h5 h3]
      rw [if_neg (not_or.mpr ⟨Nat.not_lt.mpr h5, h3⟩), seen_go (look_first_go hr h5 h3)]
      congr 1
      refine seen_eq_upTo (I := fun r => r.firstline = false ∧ r.replycode.slice 0 4 = codeOf v)
        ?_ ?_ ⟨rfl, slice_keepCode _ h5⟩
      · rintro r w ⟨hf, hc⟩ hw r' hl
        by_cases h5 : 5 ≤ w.1.length
        · rw [look_later_stop hf h5 (hc ▸ hw.resolve_left (Nat.not_lt.mpr h5))] at hl
          cases hl
        · rw [(look_stall_iff r w).mpr h5] at hl
          cases hl
      · rintro r w ⟨hf, hc⟩ hw
        obtain ⟨h5, hcmp⟩ := not_or.mp hw
        exact ⟨r.take w, look_later_go hf (Nat.not_lt.mp h5) (hc ▸ hcmp), hf, hc⟩

end Reader

theorem isSome_replyScan_iff {B : Nat} {ω : Type} {s : Proc Ftpbuf (Peer B ω)} :
    (replyScan s).isSome ↔ ∀ v ∈ replyLooks (looks s.base), 5 ≤ v.1.length := by
  rw [← Reader.seen_look (r := reader true s []) rfl]
  exact isSome_scan_iff Reader.look_stall_iff

/-- **Where `get_response` returns**: where no look that it takes is at fewer than five bytes. -/
theorem getResponse_returns_iff {B : Nat} {ω : Type}
    {W : ω → (bs : List Byte) → WriteResult bs.length × ω} {s : Proc Ftpbuf (Peer B ω)}
    (hf : Fed s.base) :
    (∃ c s', Returns (getResponse (Kernel.feed B W)) s c s') ↔
      ∀ v ∈ replyLooks (looks s.base), 5 ≤ v.1.length := by
  rw [← isSome_replyScan_iff]
  constructor
  · rintro ⟨c, s', h⟩
    obtain ⟨r, vs, hs, -, -⟩ := returns_getResponse hf h
    exact Option.isSome_of_eq_some hs
  · intro hs
    obtain ⟨p, hp⟩ := Option.isSome_iff_exists.mp hs
    obtain ⟨s', -, hret⟩ := getResponse_ret (W := W) hf hp
    exact ⟨_, s', _, hret _ (Nat.lt_succ_self _)⟩

end Ftpbuf

end Socketpp
