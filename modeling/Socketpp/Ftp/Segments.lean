import Socketpp.Ftp.Reply

/-!
# Ftp — segments

How the stream of replies is cut into reads.  A call of `get_response` is `Aligned` when the area
holds a whole line each time the loop looks at it.  Two aligned calls on the same stream see the
same lines, whatever the cutting is (`look_of_prefix`), so they come to the same
(`getResponse_segmentation`).

Where the area ends inside a line the loop takes that part for a line, and writes the byte behind
the area along with it: one byte to `o` that it does not take out of the stream (`scan_excess`).
So a call that is not aligned writes more than one that is.
-/

namespace Socketpp
open Lib

namespace Ftpbuf
open Sockbuf

/-- Each look that the call takes shows a whole line. -/
def Aligned {B : Nat} {ω : Type} (s : Proc Ftpbuf (Peer B ω)) : Prop :=
  ∀ v ∈ replyLooks (looks s.base), (eol.lineEnd v.1).isSome

instance {B : Nat} {ω : Type} (s : Proc Ftpbuf (Peer B ω)) : Decidable (Aligned s) :=
  inferInstanceAs (Decidable (∀ v ∈ replyLooks (looks s.base), (eol.lineEnd v.1).isSome))

/-- Two calls that have come to the same: the reply class, the code, the bytes written to `o` and
the stream that is left. -/
structure Agree {B : Nat} {ω : Type} (c₁ : Byte) (s₁ : Proc Ftpbuf (Peer B ω)) (c₂ : Byte)
    (s₂ : Proc Ftpbuf (Peer B ω)) : Prop where
  result    : c₁ = c₂
  replycode : s₁.obj.replycode = s₂.obj.replycode
  o         : s₁.obj.o = s₂.obj.o
  ahead     : ahead s₁.base = ahead s₂.base

/-! ### Aligned calls -/

/-- The head of the stream, up to the end of the first line at least, looks like the stream. -/
theorem Reader.look_of_prefix (r : Reader) {v : Look} {A : List Byte} (hp : v.1 <+: A)
    (h5 : 5 ≤ v.1.length) {e : Nat} (he : eol.lineEnd v.1 = some e) (x : Byte) :
    r.look v = r.look (A, x) := by
  obtain ⟨t, rfl⟩ := hp
  have hle := (Eol.lineEnd_bounds he).2
  have he' := Eol.lineEnd_append he t
  have htake : ∀ k ≤ v.1.length, (v.1 ++ t).take k = v.1.take k := fun k hk =>
    List.take_append_of_le_length hk
  have h3 : (v.1 ++ t)[3]? = v.1[3]? := List.getElem?_append_left (by omega)
  have hw : written (v.1 ++ t, x) = written v := by
    simp only [written, he, he', htake e hle]
  have hb : (v.1 ++ t).take (bump (v.1 ++ t, x)) = v.1.take (bump v) := by
    simp only [bump, he, he', Option.getD_some, htake e hle]
  have h5' : ¬ v.1.length + t.length < 5 := by omega
  simp only [look, Reader.take, keepCode, List.length_append, h3, hw, hb, htake 3 (by omega),
    htake 4 (by omega), if_neg h5', if_neg (Nat.not_lt.mpr h5)]

/-- **Aligned scans agree.** -/
theorem scan_agree {vs₁ vs₂ : List Look} {A : List Byte} {r : Reader} (h₁ : Shows A vs₁)
    (h₂ : Shows A vs₂)
    (ha₁ : ∀ v ∈ seen Reader.look r vs₁, 5 ≤ v.1.length ∧ (eol.lineEnd v.1).isSome)
    (ha₂ : ∀ v ∈ seen Reader.look r vs₂, 5 ≤ v.1.length ∧ (eol.lineEnd v.1).isSome) :
    (scan Reader.look r vs₁).map Prod.fst = (scan Reader.look r vs₂).map Prod.fst := by
  -- by the looks of the first scan; the lines they show are those of the stream
  induction vs₁ generalizing vs₂ A r with
  | nil =>
      obtain rfl : vs₂ = [] := h₂.eq_nil.mp (h₁.eq_nil.mpr rfl)
      rfl
  | cons v₁ vs₁ ih =>
      cases vs₂ with
      | nil =>
          have := h₁.eq_nil.mp (h₂.eq_nil.mpr rfl)
          cases this
      | cons v₂ vs₂ =>
          obtain ⟨h5₁, he₁⟩ := ha₁ v₁ mem_seen_head
          obtain ⟨h5₂, he₂⟩ := ha₂ v₂ mem_seen_head
          obtain ⟨e₁, he₁⟩ := Option.isSome_iff_exists.mp he₁
          obtain ⟨e₂, he₂⟩ := Option.isSome_iff_exists.mp he₂
          obtain ⟨A₁, hp₁, hA₁, ht₁⟩ := h₁.uncons
          obtain ⟨A₂, hp₂, hA₂, ht₂⟩ := h₂.uncons
          have hlook : r.look v₁ = r.look v₂ :=
            (r.look_of_prefix hp₁ h5₁ he₁ 0).trans (r.look_of_prefix hp₂ h5₂ he₂ 0).symm
          -- both take the first line of the stream
          obtain rfl : A₁ = A₂ := by
            obtain ⟨hA₁, hd₁⟩ := lineEnd_of_prefix hp₁ he₁ hA₁
            obtain ⟨hA₂, hd₂⟩ := lineEnd_of_prefix hp₂ he₂ hA₂
            obtain rfl : e₁ = e₂ := Option.some.inj (hA₁.symm.trans hA₂)
            exact hd₁.symm.trans hd₂
          cases hl : r.look v₂ with
          | stall => rw [scan_stall (hlook.trans hl), scan_stall hl]
          | leave r' => rw [scan_leave (hlook.trans hl), scan_leave hl]; rfl
          | stop r' => rw [scan_stop (hlook.trans hl), scan_stop hl]; rfl
          | go r' =>
              rw [scan_go (hlook.trans hl), scan_go hl]
              exact ih ht₁ ht₂ (fun v hv => ha₁ v (mem_seen_tail (hlook.trans hl) hv))
                fun v hv => ha₂ v (mem_seen_tail hl hv)

/-! ### Calls that are not aligned -/

theorem length_written (v : Look) :
    (written v).length = (v.1.take (bump v)).length + if (eol.lineEnd v.1).isNone then 1 else 0 := by
  rw [written, bump]
  cases he : eol.lineEnd v.1 with
  | some e => rfl
  | none => simp

/-- The bytes written for a look that is taken. -/
theorem look_excess {r r' : Reader} {v : Look} (h : r.look v = .stop r' ∨ r.look v = .go r')
    {out : List Byte} (ho : r.o = some out) :
    ∃ out', r'.o = some out' ∧ out'.length + r.taken.length = out.length + r'.taken.length +
      if (eol.lineEnd v.1).isNone then 1 else 0 := by
  obtain ⟨ht, ho'⟩ := Reader.look_taken h
  refine ⟨out ++ written v, by rw [ho', ho]; rfl, ?_⟩
  rw [ht, List.length_append, List.length_append, length_written]
  omega

/-- **One byte too many** is written for each look at a part of a line. -/
theorem scan_excess {vs vs' : List Look} {r r' : Reader} (hs : scan Reader.look r vs = some (r', vs'))
    {out : List Byte} (ho : r.o = some out) :
    ∃ out', r'.o = some out' ∧
      out'.length + r.taken.length = out.length + r'.taken.length +
        (seen Reader.look r vs).countP fun v => (eol.lineEnd v.1).isNone := by
  induction vs generalizing r out with
  | nil =>
      cases hs
      exact ⟨out, ho, rfl⟩
  | cons v vs ih =>
      cases hl : r.look v with
      | stall => rw [scan_stall hl] at hs; cases hs
      | leave r₁ => exact absurd hl (r.look_ne_leave r₁ v)
      | stop r₁ =>
          rw [scan_stop hl] at hs
          cases hs
          obtain ⟨out₁, ho₁, hlen⟩ := look_excess (Or.inl hl) ho
          refine ⟨out₁, ho₁, ?_⟩
          simp only [seen, hl, List.countP_cons, List.countP_nil, Nat.zero_add]
          exact hlen
      | go r₁ =>
          rw [scan_go hl] at hs
          obtain ⟨out₁, ho₁, hlen⟩ := look_excess (Or.inr hl) ho
          obtain ⟨out', ho', hlen'⟩ := ih hs ho₁
          refine ⟨out', ho', ?_⟩
          rw [seen_go hl, List.countP_cons]
          omega

section Feed

variable {B : Nat} {ω : Type} {W : ω → (bs : List Byte) → WriteResult bs.length × ω}

theorem aligned_iff {s : Proc Ftpbuf (Peer B ω)} :
    Aligned s ↔ (seen Reader.look (reader true s []) (looks s.base)).countP
      (fun v => (eol.lineEnd v.1).isNone) = 0 := by
  rw [Aligned, Reader.seen_look rfl, List.countP_eq_zero]
  simp only [Option.isNone_iff_eq_none, Option.isSome_iff_ne_none]

/-- What a call that has returned has written, and what it has taken. -/
theorem returns_excess {s s' : Proc Ftpbuf (Peer B ω)} {c : Byte} (hf : Fed s.base)
    (h : Returns (getResponse (Kernel.feed B W)) s c s') {out : List Byte} (ho : s.obj.o = some out) :
    ∃ out' k, s'.obj.o = some out' ∧
      out'.length + (ahead s'.base).length = out.length + (ahead s.base).length + k ∧
      (Aligned s ↔ k = 0) := by
  obtain ⟨r, vs, hs, rfl, hat⟩ := returns_getResponse hf h
  obtain ⟨out', ho', hlen⟩ := scan_excess hs (r := reader true s []) ho
  refine ⟨out', _, hat.own.2.trans ho', ?_, aligned_iff⟩
  have hA := congrArg List.length hat.ahead
  simp only [lineReader, List.length_append] at hA
  have h0 : (reader true s []).taken.length = 0 := rfl
  rw [h0] at hlen
  omega

/-- **Segmentation.**  Two calls that have returned, on the same stream of replies, cut in two
ways.  When both cuttings show whole lines the calls agree; when only one does, they do not, for
an `o` that is not null. -/
theorem getResponse_segmentation {s₁ s₂ s₁' s₂' : Proc Ftpbuf (Peer B ω)} {c₁ c₂ : Byte}
    (hf₁ : Fed s₁.base) (hf₂ : Fed s₂.base) (hA : ahead s₁.base = ahead s₂.base)
    (hc : s₁.obj.replycode = s₂.obj.replycode) (ho : s₁.obj.o = s₂.obj.o)
    (h₁ : Returns (getResponse (Kernel.feed B W)) s₁ c₁ s₁')
    (h₂ : Returns (getResponse (Kernel.feed B W)) s₂ c₂ s₂') :
    (Aligned s₁ ∧ Aligned s₂ → Agree c₁ s₁' c₂ s₂') ∧
    (s₁.obj.o ≠ none → Aligned s₁ ∨ Aligned s₂ →
      (Agree c₁ s₁' c₂ s₂' ↔ Aligned s₁ ∧ Aligned s₂)) := by
  have hboth : Aligned s₁ ∧ Aligned s₂ → Agree c₁ s₁' c₂ s₂' := by
    rintro ⟨ha₁, ha₂⟩
    have h5₁ := (getResponse_returns_iff (W := W) hf₁).mp ⟨_, _, h₁⟩
    have h5₂ := (getResponse_returns_iff (W := W) hf₂).mp ⟨_, _, h₂⟩
    obtain ⟨r₁, vs₁, hs₁, rfl, hat₁⟩ := returns_getResponse hf₁ h₁
    obtain ⟨r₂, vs₂, hs₂, rfl, hat₂⟩ := returns_getResponse hf₂ h₂
    have hr : reader true s₁ [] = reader true s₂ [] := by simp only [reader, hc, ho]
    have hshow₁ := shows_looks hf₁.readable
    rw [hA] at hshow₁
    have hscan := scan_agree (r := reader true s₁ []) hshow₁ (shows_looks hf₂.readable)
      (fun v hv => by
        rw [Reader.seen_look rfl] at hv
        exact ⟨h5₁ v hv, ha₁ v hv⟩)
      (fun v hv => by
        rw [Reader.seen_look rfl] at hv
        exact ⟨h5₂ v hv, ha₂ v hv⟩)
    simp only [replyScan] at hs₁ hs₂
    rw [hs₁, hr, hs₂] at hscan
    obtain rfl : r₁ = r₂ := Option.some.inj hscan
    refine ⟨rfl, hat₁.own.1.trans hat₂.own.1.symm, hat₁.own.2.trans hat₂.own.2.symm, ?_⟩
    exact List.append_cancel_left (hat₁.ahead.trans (hA.trans hat₂.ahead.symm))
  refine ⟨hboth, fun hne hor => ⟨fun hag => ?_, hboth⟩⟩
  obtain ⟨out, hout⟩ := Option.ne_none_iff_exists'.mp hne
  obtain ⟨out₁, k₁, ho₁, hlen₁, hk₁⟩ := returns_excess hf₁ h₁ hout
  obtain ⟨out₂, k₂, ho₂, hlen₂, hk₂⟩ := returns_excess hf₂ h₂ (ho.symm.trans hout)
  -- as many bytes are written, and as many are left
  have hlen : out₁.length = out₂.length := by
    rw [Option.some.inj (ho₁.symm.trans (hag.o.trans ho₂))]
  have hleft : (ahead s₁'.base).length = (ahead s₂'.base).length := by rw [hag.ahead]
  have hk : k₁ = k₂ := by
    rw [hA] at hlen₁
    omega
  rw [hk₁, hk₂, hk] at hor ⊢
  exact ⟨hor.elim id id, hor.elim id id⟩

end Feed

/-- A reply of two lines, in one read, and cut between the lines. -/
def twoLines : List (Chunk 1024) := [⟨ascii "220-hello\r\n220 world\r\n", by decide⟩]

def cutBetween : List (Chunk 1024) :=
  [⟨ascii "220-hello\r\n", by decide⟩, ⟨ascii "220 world\r\n", by decide⟩]

theorem getResponse_segmentation_lines :
    ∃ s₁ s₂, Returns (getResponse (Kernel.smooth 1024)) (opened (some []) twoLines) 50 s₁ ∧
      Returns (getResponse (Kernel.smooth 1024)) (opened (some []) cutBetween) 50 s₂ ∧
      Agree 50 s₁ 50 s₂ := by
  obtain ⟨s₁, h₁, -⟩ := returns_answer (c := 50) (o := some (ascii "220-hello\r\n220 world\r\n"))
    (t := ascii "220-hello\r\n220 world\r\n") (opened_fed (some []) twoLines) (by decide)
  obtain ⟨s₂, h₂, -⟩ := returns_answer (c := 50) (o := some (ascii "220-hello\r\n220 world\r\n"))
    (t := ascii "220-hello\r\n220 world\r\n") (opened_fed (some []) cutBetween) (by decide)
  refine ⟨s₁, s₂, h₁, h₂, ?_⟩
  exact (getResponse_segmentation (opened_fed _ twoLines) (opened_fed _ cutBetween) (by decide)
    rfl rfl h₁ h₂).1 (by decide)

/-- The greeting `220 hello`, in one read, and cut in front of its line end. -/
def wholeLine : List (Chunk 1024) := [⟨ascii "220 hello\r\n", by decide⟩]

def cutLine : List (Chunk 1024) := [⟨ascii "220 hello", by decide⟩, ⟨ascii "\r\n", by decide⟩]

/-- The cut line is written with a byte that nobody has sent, and its end is left for the next
call. -/
theorem getResponse_cut :
    ahead (opened (some []) wholeLine).base = ahead (opened (some []) cutLine).base ∧
    ∃ s₁ s₂, Returns (getResponse (Kernel.smooth 1024)) (opened (some []) wholeLine) 50 s₁ ∧
      Returns (getResponse (Kernel.smooth 1024)) (opened (some []) cutLine) 50 s₂ ∧
      s₁.obj.o = some (ascii "220 hello\r\n") ∧ s₂.obj.o = some (ascii "220 hello\x00") ∧
      ahead s₁.base = [] ∧ ahead s₂.base = ascii "\r\n" ∧ ¬ Agree 50 s₁ 50 s₂ := by
  obtain ⟨s₁, h₁, ho₁, hA₁⟩ := returns_answer (c := 50) (o := some (ascii "220 hello\r\n"))
    (t := ascii "220 hello\r\n") (opened_fed (some []) wholeLine) (by decide)
  obtain ⟨s₂, h₂, ho₂, hA₂⟩ := returns_answer (c := 50) (o := some (ascii "220 hello\x00"))
    (t := ascii "220 hello") (opened_fed (some []) cutLine) (by decide)
  refine ⟨by decide, s₁, s₂, h₁, h₂, ho₁, ho₂, ?_, ?_, fun hag => ?_⟩
  · exact List.append_cancel_left (hA₁.trans (by decide))
  · exact List.append_cancel_left (hA₂.trans (by decide))
  · have := ho₁.symm.trans (hag.o.trans ho₂)
    revert this
    decide

end Ftpbuf

end Socketpp
