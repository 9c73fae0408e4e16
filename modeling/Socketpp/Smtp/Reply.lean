import Socketpp.Protocol.Looks
import Socketpp.Smtp.Model

/-!
# Smtp — replies

`get_response` takes one look at the get area in each iteration.  `Reader.look` says what it makes
of a look (`readLine_look`), and over all iterations `get_response` is the scan of the looks to
come (`getResponse_ret`).

Unlike the reader of ftp this one takes whole lines only.  Where it finds no line end it takes
nothing, and the fourth byte decides: behind a dash it looks again, at the same bytes, and else it
returns.
-/

namespace Socketpp
open Lib

namespace Smtpbuf
open Sockbuf

variable {κ : Type} {K : Kernel κ}

/-- What `get_response` carries from look to look: the bytes written to `output`, and the bytes
taken out of the stream. -/
structure Reader where
  output : Option (List Byte)
  taken  : List Byte
  deriving DecidableEq

namespace Reader

/-- The first line goes to `output` and out of the stream. -/
def take (r : Reader) (v : Look) : Reader where
  output := r.output.map fun out => out ++ v.1.take (bump v)
  taken := r.taken ++ v.1.take (bump v)

/-- One look. -/
def look (r : Reader) (v : Look) : Glance Reader :=
  if v.1.length < 5 then .stall
  else if (eol.lineEnd v.1).isSome then
    if v.1[3]? = some 45 then .go (r.take v) else .stop (r.take v)
  else if v.1[3]? = some 45 then .stall else .leave r

variable {r r' : Reader} {v : Look}

theorem look_go (h5 : 5 ≤ v.1.length) (he : (eol.lineEnd v.1).isSome) (h3 : v.1[3]? = some 45) :
    r.look v = .go (r.take v) := by
  rw [look, if_neg (Nat.not_lt.mpr h5), if_pos he, if_pos h3]

theorem look_stop (h5 : 5 ≤ v.1.length) (he : (eol.lineEnd v.1).isSome) (h3 : v.1[3]? ≠ some 45) :
    r.look v = .stop (r.take v) := by
  rw [look, if_neg (Nat.not_lt.mpr h5), if_pos he, if_neg h3]

/-- Where no line end is in sight, only a line that says that more is to come is waited for. -/
theorem look_of_none (he : eol.lineEnd v.1 = none) :
    r.look v = if v.1.length < 5 ∨ v.1[3]? = some 45 then .stall else .leave r := by
  have he' : ¬ (eol.lineEnd v.1).isSome = true := by rw [he]; exact Bool.false_ne_true
  rw [look, if_neg he']
  by_cases h5 : v.1.length < 5
  · rw [if_pos h5, if_pos (Or.inl h5)]
  · simp only [h5, if_false, false_or]

theorem look_taken (h : r.look v = .stop r' ∨ r.look v = .go r') :
    r' = r.take v ∧ (eol.lineEnd v.1).isSome := by
  by_cases he : (eol.lineEnd v.1).isSome = true
  · rw [look, if_pos he] at h
    split at h
    · rcases h with h | h <;> cases h
    · split at h <;> rcases h with h | h <;> cases h <;> exact ⟨rfl, he⟩
  · rw [Option.not_isSome_iff_eq_none] at he
    rw [look_of_none he] at h
    split at h <;> rcases h with h | h <;> cases h

end Reader

/-- The reader of an object. -/
def reader (s : Proc Smtpbuf κ) (taken : List Byte) : Reader := ⟨s.obj.output, taken⟩

/-- The object after a look that has led the reader to `r`. -/
def after (s : Proc Smtpbuf κ) (r : Reader) (i : Nat) : Proc Smtpbuf κ :=
  ⟨{ toSockbuf := s.obj.toSockbuf.onGet fun a => a.gbump i, output := r.output }, s.sys⟩

/-- **The body of the loop** is one look at the unread bytes. -/
theorem readLine_look {s : Proc Smtpbuf κ} {a : GetArea} (ha : s.obj.getArea = some a)
    (hu : s.base.obj.unread ≠ []) {v : Look} (hv : v.1 = s.base.obj.unread) (taken : List Byte) :
    readLine () s =
      match (reader s taken).look v with
      | .stall   => .ret (.inl ()) s
      | .leave _ => .ret (.inr ()) s
      | .stop r  => .ret (.inr ()) (after s r (bump v))
      | .go r    => .ret (.inl ()) (after s r (bump v)) := by
  have hb : s.base.obj.getArea = some a := ha
  have hun := unread_eq hb
  have hlen : v.1.length = a.egptr - a.gptr := by rw [hv, hun, Mem.length_slice]
  simp only [readLine, Prog.bind_apply, Outcome.andThen_ret, Prog.get_apply, ha, Prog.ite_apply,
    Reader.look, hlen]
  by_cases hn : a.egptr - a.gptr < 5
  · simp only [if_pos hn]
    rfl
  · simp only [if_neg hn]
    have hq : v.1[3]? = some (a.mem (a.gptr + 3)) := by
      rw [hv, hun, Mem.getElem?_slice _ _ (by omega)]
    have hz : a.zap (a.egptr - a.gptr) = bump v := by rw [zap_eq hb hu, bump, hv]
    simp only [zapLine, hz, hq, Option.some.injEq]
    cases he : eol.lineEnd v.1 with
    | none =>
        have hle : ¬ bump v ≤ a.egptr - a.gptr := by
          rw [bump, he, Option.getD_none, hlen]
          exact Nat.not_succ_le_self _
        simp only [hle, if_false, Prog.pure_apply, Outcome.andThen_ret, Option.isSome_none,
          Bool.false_eq_true]
        split <;> rfl
    | some e =>
        have hbump : bump v = e := by rw [bump, he, Option.getD_some]
        have hle : e ≤ a.egptr - a.gptr := hlen ▸ (Eol.lineEnd_bounds he).2
        have hw : a.mem.slice a.gptr e = v.1.take e := by rw [hv, hun, Mem.take_slice _ _ hle]
        have h₁ : (modify (Proc.onObj (writeOutput (v.1.take e))) >>= fun _ => gbump e) s =
            .ret ⟨⟩ (after s ((reader s taken).take v) e) := by
          simp only [Reader.take, hbump]
          rfl
        simp only [hbump, hle, if_true, hw, h₁, Outcome.andThen_ret, Option.isSome_some]
        split <;> rfl

/-- `get_response`, as a reader of lines. -/
def lineReader (κ : Type) : LineReader Smtpbuf κ Unit Reader where
  body := readLine
  look := Reader.look
  carried _ := ()
  taken := Reader.taken
  own s r := s.obj.output = r.output
  own_rebase _ h := h
  reads := by
    intro s r a ho ha hu v hv
    have hr : reader s r.taken = r := by simp only [reader, ho]
    have h := readLine_look ha hu (v := v) (by rw [hv]) r.taken
    rw [hr] at h
    cases hl : r.look v with
    | stall => rw [hl] at h; exact h
    | leave r' =>
        rw [hl] at h
        obtain rfl : r = r' := by
          unfold Reader.look at hl
          split at hl
          · cases hl
          · split at hl <;> split at hl <;> cases hl
            rfl
        exact ⟨s, h, ho, rfl, rfl⟩
    | stop r' =>
        rw [hl] at h
        obtain ⟨rfl, -⟩ := Reader.look_taken (Or.inl hl)
        exact ⟨_, h, rfl, rfl, rfl⟩
    | go r' =>
        rw [hl] at h
        obtain ⟨rfl, -⟩ := Reader.look_taken (Or.inr hl)
        exact ⟨_, h, rfl, rfl, rfl⟩

/-! ### The whole call -/

section Feed

variable {B : Nat} {ω : Type} {W : ω → (bs : List Byte) → WriteResult bs.length × ω}

/-- The scan that is a call of `get_response`. -/
def replyScan (s : Proc Smtpbuf (Peer B ω)) : Option (Reader × List Look) :=
  scan Reader.look (reader s []) (looks s.base)

theorem reader_at {s : Proc Smtpbuf (Peer B ω)} (hf : Fed s.base) :
    (lineReader (Peer B ω)).At (ahead s.base) s (reader s []) (looks s.base) := ⟨hf, rfl, rfl, rfl⟩

/-- **`get_response`** is the scan of the looks to come.  Where the scan comes to something it
returns, within one iteration for each look and one more. -/
theorem getResponse_ret {s : Proc Smtpbuf (Peer B ω)} (hf : Fed s.base) {r : Reader}
    {vs : List Look} (hs : replyScan s = some (r, vs)) :
    ∃ s', (lineReader (Peer B ω)).At (ahead s.base) s' r vs ∧ ∀ n, (looks s.base).length < n →
      getResponse (Kernel.feed B W) n s = .ret () s' :=
  LineReader.loop_ret (reader_at hf) hs

/-- A call that has returned. -/
theorem returns_getResponse {s s' : Proc Smtpbuf (Peer B ω)} (hf : Fed s.base)
    (h : Returns (getResponse (Kernel.feed B W)) s () s') :
    ∃ r vs, replyScan s = some (r, vs) ∧ (lineReader (Peer B ω)).At (ahead s.base) s' r vs :=
  LineReader.returns_loop (reader_at hf) h

/-- An smtpbuf as constructed, whose peer has sent the chunks and closed. -/
def opened (out : Option (List Byte)) (cs : List (Chunk 1024)) : Proc Smtpbuf (Peer 1024 Unit) :=
  ⟨ofDesc bufsiz 3 (fun _ => 0) (fun _ => 0) out, ⟨⟨cs, ()⟩, 0, []⟩⟩

theorem opened_fed (out : Option (List Byte)) (cs : List (Chunk 1024)) :
    Fed (opened out cs).base := ⟨⟨_, rfl⟩, rfl⟩

/-! ### The looks of one reply -/

/-- The look shows five bytes, and a whole line if the line says that more is to come. -/
def Decides (v : Look) : Prop :=
  5 ≤ v.1.length ∧ (v.1[3]? = some 45 → (eol.lineEnd v.1).isSome)

instance (v : Look) : Decidable (Decides v) :=
  inferInstanceAs (Decidable (5 ≤ v.1.length ∧ (v.1[3]? = some 45 → (eol.lineEnd v.1).isSome)))

/-- The looks up to the first that is not at a line with more to come. -/
def replyLooks (vs : List Look) : List Look := upTo (fun v => ¬ (Decides v ∧ v.1[3]? = some 45)) vs

theorem Reader.look_stall_iff (r : Reader) (v : Look) : r.look v = .stall ↔ ¬ Decides v := by
  rw [Reader.look, Decides]
  by_cases h5 : v.1.length < 5
  · simp only [h5, if_true, true_iff]
    exact fun h => absurd h.1 (Nat.not_le.mpr h5)
  · by_cases he : (eol.lineEnd v.1).isSome = true <;> by_cases h3 : v.1[3]? = some 45 <;>
      simp [h5, he, h3, Nat.not_lt.mp h5]

/-- **The looks of a call** are those of one reply. -/
theorem Reader.seen_look (r : Reader) (vs : List Look) : seen Reader.look r vs = replyLooks vs := by
  refine seen_eq_upTo (I := fun _ => True) ?_ ?_ trivial
  · rintro r v - hv r' hl
    have hd : Decides v := by
      by_contra hd
      rw [(r.look_stall_iff v).mpr hd] at hl
      cases hl
    have h3 : v.1[3]? ≠ some 45 := fun h3 => hv ⟨hd, h3⟩
    obtain ⟨-, he⟩ := Reader.look_taken (Or.inr hl)
    rw [Reader.look_stop hd.1 he h3] at hl
    cases hl
  · rintro r v - hv
    obtain ⟨hd, h3⟩ := not_not.mp hv
    exact ⟨_, Reader.look_go hd.1 (hd.2 h3) h3, trivial⟩

/-- **Where `get_response` returns**: where each look that it takes decides. -/
theorem getResponse_returns_iff {s : Proc Smtpbuf (Peer B ω)} (hf : Fed s.base) :
    (∃ s', Returns (getResponse (Kernel.feed B W)) s () s') ↔
      ∀ v ∈ replyLooks (looks s.base), Decides v := by
  rw [← Reader.seen_look (reader s []), ← isSome_scan_iff Reader.look_stall_iff]
  constructor
  · rintro ⟨s', h⟩
    obtain ⟨r, vs, hs, -⟩ := returns_getResponse hf h
    exact Option.isSome_of_eq_some hs
  · intro hs
    obtain ⟨p, hp⟩ := Option.isSome_iff_exists.mp hs
    obtain ⟨s', -, hret⟩ := getResponse_ret (W := W) hf hp
    exact ⟨s', _, hret _ (Nat.lt_succ_self _)⟩

end Feed

end Smtpbuf

end Socketpp
