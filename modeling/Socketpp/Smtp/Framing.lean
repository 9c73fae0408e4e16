import Socketpp.Protocol.Replies
import Socketpp.Smtp.Reply

/-!
# Smtp — framing

Replies cut into reads in any way.  As long as each look shows a whole line, a call of
`get_response` takes one reply (`scan_reply`).  At the first look that does not, the call either
spins for good or returns in the middle of a reply; the fourth byte there says which (`Waits`).
So the calls that return have read the replies to their commands exactly when the first cut line
is waited for (`calls_read_replies_iff`).
-/

namespace Socketpp
open Lib

namespace Smtpbuf
open Sockbuf

/-- A reply: lines that say that more is to come, and a last one, which may be the code alone. -/
structure Reply where
  more : List (Code × Text)
  code : Code
  text : Option Text

namespace Reply

def last (r : Reply) : Text :=
  match r.text with
  | some t => r.code.last t
  | none   => r.code.bare

/-- Lines that say that more is to come. -/
def lines (more : List (Code × Text)) : List Byte := more.flatMap fun m => (m.1.more m.2).line

def bytes (r : Reply) : List Byte := lines r.more ++ r.last.line

end Reply

/-! ### One line -/

/-- The first look to come that does not show a whole line. -/
def firstCut (vs : List Look) : Option Look := vs.find? fun v => (eol.lineEnd v.1).isNone

/-- At a line cut like this, the reader spins. -/
def Waits (v : Look) : Prop := v.1.length < 5 ∨ v.1[3]? = some 45

instance (v : Look) : Decidable (Waits v) :=
  inferInstanceAs (Decidable (v.1.length < 5 ∨ v.1[3]? = some 45))

theorem firstCut_cons_some {v : Look} {e : Nat} (he : eol.lineEnd v.1 = some e) (vs : List Look) :
    firstCut (v :: vs) = firstCut vs := by
  simp [firstCut, he]

theorem firstCut_cons_none {v : Look} (he : eol.lineEnd v.1 = none) (vs : List Look) :
    firstCut (v :: vs) = some v := by
  simp [firstCut, he]

/-- The look at a line: it is cut, or shows the line as a whole. -/
theorem line_look {t : Text} {rest : List Byte} {vs : List Look} (h5 : 5 ≤ t.line.length)
    (hs : Shows (t.line ++ rest) vs) :
    ∃ v ws, vs = v :: ws ∧ (eol.lineEnd v.1 = none ∨
      (eol.lineEnd v.1).isSome ∧ 5 ≤ v.1.length ∧ v.1[3]? = t.line[3]? ∧
        v.1.take (bump v) = t.line ∧ Shows rest ws ∧ firstCut vs = firstCut ws) := by
  cases vs with
  | nil =>
      have h0 := congrArg List.length (hs.eq_nil.mpr rfl)
      rw [List.length_append, List.length_nil] at h0
      omega
  | cons v ws =>
      refine ⟨v, ws, rfl, ?_⟩
      obtain ⟨A', hp, hA, hws⟩ := hs.uncons
      cases he : eol.lineEnd v.1 with
      | none => exact Or.inl rfl
      | some e =>
          obtain ⟨hlen, hdrop⟩ := lineEnd_of_prefix hp he hA
          have hte := t.lineEnd_line_append rest
          obtain rfl : t.line.length = e := Option.some.inj (hte.symm.trans hlen)
          have hle := (Eol.lineEnd_bounds he).2
          obtain rfl : rest = A' := by
            rw [← hdrop]
            exact List.drop_left.symm
          have htake : v.1.take (bump v) = t.line := (List.append_cancel_right hA).symm
          refine Or.inr ⟨rfl, Nat.le_trans h5 hle, ?_, htake, hws, firstCut_cons_some he ws⟩
          obtain ⟨u, hu⟩ := hp
          have h3 : (v.1 ++ u)[3]? = v.1[3]? := List.getElem?_append_left (by omega)
          rw [← h3, hu, List.getElem?_append_left (by omega)]

/-! ### One reply -/

/-- At a cut line the call spins, or leaves with what it has. -/
theorem scan_cut {r : Reader} {v : Look} (he : eol.lineEnd v.1 = none) (ws : List Look) :
    firstCut (v :: ws) = some v ∧
      (Waits v ∧ scan Reader.look r (v :: ws) = none ∨
        ¬ Waits v ∧ scan Reader.look r (v :: ws) = some (r, v :: ws)) := by
  have hlook : r.look v = if Waits v then .stall else .leave r := Reader.look_of_none he
  refine ⟨firstCut_cons_none he ws, ?_⟩
  by_cases hw : Waits v
  · rw [if_pos hw] at hlook
    exact Or.inl ⟨hw, scan_stall hlook⟩
  · rw [if_neg hw] at hlook
    exact Or.inr ⟨hw, scan_leave hlook⟩

/-- What a call may come to over the bytes `l` of a reply: it takes them, or comes to a cut line in
them; there it spins, or leaves with a part. -/
def Framed (r : Reader) (vs : List Look) (l : List Byte) : Prop :=
  (∃ r' vs', scan Reader.look r vs = some (r', vs') ∧ r'.taken = r.taken ++ l ∧
    r'.output = r.output.map (fun out => out ++ l) ∧ firstCut vs = firstCut vs') ∨
  ∃ v, firstCut vs = some v ∧
    (Waits v ∧ scan Reader.look r vs = none ∨
      ¬ Waits v ∧ ∃ r' vs', scan Reader.look r vs = some (r', vs') ∧
        r'.taken.length < r.taken.length + l.length)

theorem framed_of_cut {r : Reader} {v : Look} (he : eol.lineEnd v.1 = none) (ws : List Look)
    {l : List Byte} (hl : 0 < l.length) : Framed r (v :: ws) l := by
  obtain ⟨hcut, ⟨hw, hs⟩ | ⟨hw, hs⟩⟩ := scan_cut (r := r) he ws
  · exact Or.inr ⟨v, hcut, Or.inl ⟨hw, hs⟩⟩
  · exact Or.inr ⟨v, hcut, Or.inr ⟨hw, r, v :: ws, hs, Nat.lt_add_of_pos_right hl⟩⟩

/-- A line taken in front of the rest of a reply. -/
theorem framed_of_go {r : Reader} {v : Look} {ws : List Look} {t l : List Byte}
    (hlook : r.look v = .go (r.take v)) (ht : v.1.take (bump v) = t)
    (hcut : firstCut (v :: ws) = firstCut ws) (h : Framed (r.take v) ws l) :
    Framed r (v :: ws) (t ++ l) := by
  have htaken : (r.take v).taken = r.taken ++ t := by rw [Reader.take, ht]
  have hout : (r.take v).output = r.output.map fun out => out ++ t := by rw [Reader.take, ht]
  rw [Framed, scan_go hlook, hcut]
  rcases h with ⟨r', vs', hs, ht', ho', hc⟩ | ⟨v', hc, ⟨hw, hs⟩ | ⟨hw, r', vs', hs, hlt⟩⟩
  · refine Or.inl ⟨r', vs', hs, ?_, ?_, hc⟩
    · rw [ht', htaken, List.append_assoc]
    · rw [ho', hout, Option.map_map]
      simp only [Function.comp_def, List.append_assoc]
  · exact Or.inr ⟨v', hc, Or.inl ⟨hw, hs⟩⟩
  · refine Or.inr ⟨v', hc, Or.inr ⟨hw, r', vs', hs, ?_⟩⟩
    rw [htaken, List.length_append] at hlt
    rw [List.length_append]
    omega

theorem more_line (m : Code × Text) :
    5 ≤ (m.1.more m.2).line.length ∧ (m.1.more m.2).line[3]? = some 45 := by
  constructor
  · simp only [Text.line, Code.more, Code.text, Code.digits, List.length_append, List.length_cons]
    omega
  · rfl

theorem last_line (r : Reply) : 5 ≤ r.last.line.length ∧ r.last.line[3]? ≠ some 45 := by
  rw [Reply.last]
  cases r.text with
  | none => exact ⟨Nat.le_refl 5, by rw [show r.code.bare.line[3]? = some 13 from rfl]; decide⟩
  | some t =>
      constructor
      · simp only [Text.line, Code.last, Code.text, Code.digits, List.length_append, List.length_cons]
        omega
      · rw [show (r.code.last t).line[3]? = some 32 from rfl]
        decide

/-- **One call over one reply.** -/
theorem scan_reply (rep : Reply) {rest : List Byte} {r : Reader} {vs : List Look}
    (hs : Shows (rep.bytes ++ rest) vs) : Framed r vs rep.bytes := by
  obtain ⟨hlast5, hlast3⟩ := last_line rep
  rw [Reply.bytes] at hs ⊢
  generalize rep.last = last at hs hlast5 hlast3 ⊢
  generalize rep.more = more at hs ⊢
  -- by the lines in front of the last
  induction more generalizing r vs with
  | nil =>
      have hnil : Reply.lines [] ++ last.line = last.line := rfl
      rw [hnil] at hs ⊢
      obtain ⟨v, ws, rfl, he | ⟨he, h5, h3, htake, hws, hcut⟩⟩ := line_look hlast5 hs
      · exact framed_of_cut he ws (Nat.lt_of_lt_of_le (by decide) hlast5)
      · refine Or.inl ⟨r.take v, ws, scan_stop (Reader.look_stop h5 he (h3 ▸ hlast3)), ?_, ?_, hcut⟩
        · rw [Reader.take, htake]
        · rw [Reader.take, htake]
  | cons m more ih =>
      obtain ⟨hm5, hm3⟩ := more_line m
      have hcons : Reply.lines (m :: more) ++ last.line =
          (m.1.more m.2).line ++ (Reply.lines more ++ last.line) := by
        simp [Reply.lines]
      rw [hcons] at hs ⊢
      rw [List.append_assoc] at hs
      obtain ⟨v, ws, rfl, he | ⟨he, h5, h3, htake, hws, hcut⟩⟩ := line_look hm5 hs
      · refine framed_of_cut he ws ?_
        rw [List.length_append]
        omega
      · exact framed_of_go (Reader.look_go h5 he (h3.trans hm3)) htake hcut (ih hws)

/-! ### Calls, one after another -/

section Feed

variable {B : Nat} {ω : Type} {W : ω → (bs : List Byte) → WriteResult bs.length × ω}

/-- As many calls as `done` has replies, each of which has returned. -/
def Calls (W : ω → (bs : List Byte) → WriteResult bs.length × ω) (done : List Reply)
    (s s' : Proc Smtpbuf (Peer B ω)) : Prop :=
  Runs (fun _ s s' => Returns (getResponse (Kernel.feed B W)) s () s') done s s'

/-- Whenever some calls have returned, they have read as many replies, and nothing else. -/
def ReadsReplies (W : ω → (bs : List Byte) → WriteResult bs.length × ω) (replies : List Reply)
    (out : List Byte) (s : Proc Smtpbuf (Peer B ω)) : Prop :=
  ∀ done todo s', replies = done ++ todo → Calls W done s s' →
    ahead s'.base = todo.flatMap Reply.bytes ∧ s'.obj.output = some (out ++ done.flatMap Reply.bytes)

/-- One call, and the calls behind it. -/
theorem readsReplies_cons {rep : Reply} {replies : List Reply} {out : List Byte}
    {s : Proc Smtpbuf (Peer B ω)} (hA : ahead s.base = (rep :: replies).flatMap Reply.bytes)
    (ho : s.obj.output = some out) :
    ReadsReplies W (rep :: replies) out s ↔
      ∀ s₁, Returns (getResponse (Kernel.feed B W)) s () s₁ →
        ReadsReplies W replies (out ++ rep.bytes) s₁ := by
  constructor
  · intro h s₁ h₁ done todo s' heq hcalls
    have := h (rep :: done) todo s' (by rw [heq]; rfl) (.cons h₁ hcalls)
    rwa [List.flatMap_cons, ← List.append_assoc] at this
  · intro h done todo s' heq hcalls
    cases hcalls with
    | nil =>
        obtain rfl : rep :: replies = todo := heq
        exact ⟨hA, by rw [ho]; simp⟩
    | cons h₁ hcalls =>
        obtain ⟨rfl, htail⟩ := List.cons.inj heq
        have := h _ h₁ _ todo s' htail hcalls
        rwa [List.append_assoc, ← List.flatMap_cons] at this

/-- The state after a call that has taken a reply. -/
theorem after_reply {rep : Reply} {rest out : List Byte} {s s₁ : Proc Smtpbuf (Peer B ω)}
    {r : Reader} {vs : List Look} (hf : Fed s.base) (hA : ahead s.base = rep.bytes ++ rest)
    (ho : s.obj.output = some out) (hs : replyScan s = some (r, vs)) (ht : r.taken = rep.bytes)
    (hout : r.output = s.obj.output.map fun out => out ++ rep.bytes)
    (h₁ : Returns (getResponse (Kernel.feed B W)) s () s₁) :
    Fed s₁.base ∧ ahead s₁.base = rest ∧ s₁.obj.output = some (out ++ rep.bytes) ∧
      looks s₁.base = vs := by
  obtain ⟨r₁, vs₁, hs₁, hat⟩ := returns_getResponse hf h₁
  cases hs₁.symm.trans hs
  refine ⟨hat.fed, ?_, ?_, hat.looks⟩
  · have hsplit := hat.ahead
    rw [hA] at hsplit
    change r.taken ++ _ = _ at hsplit
    rw [ht] at hsplit
    exact List.append_cancel_left hsplit
  · rw [hat.own, hout, ho]
    rfl

/-- **Reply framing.**  Replies in a stream that is cut in any way: the calls that return have
each read the reply to their command exactly when the first look that does not show a whole line,
if there is one, is waited for. -/
theorem calls_read_replies_iff (replies : List Reply) {out : List Byte}
    {s : Proc Smtpbuf (Peer B ω)} (hf : Fed s.base)
    (hA : ahead s.base = replies.flatMap Reply.bytes) (ho : s.obj.output = some out) :
    ReadsReplies W replies out s ↔ ∀ v ∈ firstCut (looks s.base), Waits v := by
  induction replies generalizing s out with
  | nil =>
      have hlooks : looks s.base = [] := (shows_looks hf.readable).eq_nil.mp hA
      rw [hlooks]
      refine iff_of_true (fun done todo s' hnil hcalls => ?_) (by simp [firstCut])
      obtain ⟨rfl, rfl⟩ := List.nil_eq_append_iff.mp hnil
      cases hcalls
      exact ⟨hA, by rw [ho]; simp⟩
  | cons rep replies ih =>
      have hshow := shows_looks hf.readable
      rw [hA, List.flatMap_cons] at hshow
      rw [readsReplies_cons hA ho]
      rcases scan_reply (r := reader s []) rep hshow with
        ⟨r, vs, hs, ht, hout, hcut⟩ | ⟨v, hcut, ⟨hw, hs⟩ | ⟨hw, r, vs, hs, hlt⟩⟩
      · -- the call takes the reply
        have hnext : ∀ s₁, Returns (getResponse (Kernel.feed B W)) s () s₁ →
            (ReadsReplies W replies (out ++ rep.bytes) s₁ ↔
              ∀ v ∈ firstCut (looks s.base), Waits v) := by
          intro s₁ h₁
          obtain ⟨hf₁, hA₁, ho₁, hlooks⟩ := after_reply hf hA ho hs ht hout h₁
          rw [ih hf₁ hA₁ ho₁, hlooks, hcut]
        obtain ⟨s₁, -, hret⟩ := getResponse_ret (W := W) hf hs
        have h₁ : Returns (getResponse (Kernel.feed B W)) s () s₁ := ⟨_, hret _ (Nat.lt_succ_self _)⟩
        exact ⟨fun h => (hnext s₁ h₁).mp (h s₁ h₁), fun h s₁ h₁ => (hnext s₁ h₁).mpr h⟩
      · -- the call spins, and no later one is made
        rw [hcut]
        refine iff_of_true (fun s₁ h₁ => ?_) fun v' hv' => Option.some.inj hv' ▸ hw
        obtain ⟨r, vs, hs₁, -⟩ := returns_getResponse hf h₁
        cases hs₁.symm.trans hs
      · -- the call returns in the middle of the reply
        rw [hcut]
        refine iff_of_false (fun h => ?_) fun h => hw (h v rfl)
        obtain ⟨s₁, hat, hret⟩ := getResponse_ret (W := W) hf hs
        have h₁ := h s₁ ⟨_, hret _ (Nat.lt_succ_self _)⟩
        obtain ⟨hA₁, -⟩ := h₁ [] replies s₁ rfl (.nil s₁)
        have hsplit := congrArg List.length hat.ahead
        simp only [lineReader, hA₁, hA, List.flatMap_cons, List.length_append] at hsplit
        simp only [reader, List.length_nil] at hlt
        omega

end Feed

/-- `250-hi`, `250 you`, and `250` for the next command. -/
def hello : List Reply :=
  [⟨[(codeOfNat 250, ⟨ascii "hi", by decide⟩)], codeOfNat 250, some ⟨ascii "you", by decide⟩⟩,
    ⟨[], codeOfNat 250, none⟩]

/-- Cut behind the first line. -/
def cutBehind : List (Chunk 1024) :=
  [⟨ascii "250-hi\r\n", by decide⟩, ⟨ascii "250 you\r\n250\r\n", by decide⟩]

theorem calls_read_replies_iff_hello :
    ReadsReplies (fun (_ : Unit) bs => (.all bs, ())) hello [] (opened (some []) cutBehind) :=
  (calls_read_replies_iff hello (opened_fed _ cutBehind) (by decide) rfl).mpr (by decide)

/-- Cut inside the last line. -/
def cutInside : List (Chunk 1024) :=
  [⟨ascii "250-hi\r\n250 y", by decide⟩, ⟨ascii "ou\r\n250\r\n", by decide⟩]

/-- The call returns with the last line still in the stream, where the next command finds it. -/
theorem getResponse_leaves_line :
    ahead (opened (some []) cutInside).base = hello.flatMap Reply.bytes ∧
    ∃ s', Returns (getResponse (Kernel.smooth 1024)) (opened (some []) cutInside) () s' ∧
      s'.obj.output = some (ascii "250-hi\r\n") ∧ ahead s'.base = ascii "250 you\r\n250\r\n" ∧
      ¬ ReadsReplies (fun (_ : Unit) bs => (.all bs, ())) hello [] (opened (some []) cutInside) := by
  have hs : replyScan (opened (some []) cutInside) =
      some (⟨some (ascii "250-hi\r\n"), ascii "250-hi\r\n"⟩,
        (looks (opened (some []) cutInside).base).tail) := by
    decide
  obtain ⟨s', hat, hret⟩ :=
    getResponse_ret (W := fun (_ : Unit) bs => (.all bs, ())) (opened_fed _ cutInside) hs
  have h : Returns (getResponse (Kernel.smooth 1024)) (opened (some []) cutInside) () s' :=
    ⟨_, hret _ (Nat.lt_succ_self _)⟩
  refine ⟨by decide, s', h, hat.own, ?_, fun hreads => ?_⟩
  · exact List.append_cancel_left (hat.ahead.trans (by decide))
  · obtain ⟨-, ho⟩ := hreads (hello.take 1) (hello.drop 1) s' rfl (.cons h (.nil s'))
    exact absurd (hat.own.symm.trans ho) (by decide)

end Smtpbuf

end Socketpp
