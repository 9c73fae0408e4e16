import Socketpp.Ftp.Reply
import Socketpp.Protocol.Replies

/-!
# Ftp — framing

Replies that lie complete in the get area, one behind the other.  Each call of `get_response`
takes one of them, whatever the kernel would answer (`getResponse_framing`).

One round of the loop takes one line (`first_line`, `later_line`).  It is the last round where the
line begins with the code and a space, and the lines in the middle of a reply do not: the four
bytes compared may run into the next line, but the code and the space have no CR in them
(`code_prefix_iff`).
-/

namespace Socketpp
open Lib

namespace Ftpbuf
open Sockbuf

/-- A line in the middle of a reply with the code `c`. -/
abbrev MiddleLine (c : Code) := { t : Text // ¬ c.digits ++ [32] <+: t.1 }

/-- A reply: one line, or several, of which the last one is the first that begins with the code
and a space. -/
inductive Reply where
  | line (code : Code) (text : Text)
  | lines (code : Code) (first : Text) (middle : List (MiddleLine code)) (last : Text)

namespace Reply

def code : Reply → Code
  | line c _      => c
  | lines c _ _ _ => c

/-- The lines behind the first. -/
def later (c : Code) (middle : List (MiddleLine c)) (last : Text) : List Byte :=
  middle.flatMap (fun m => m.1.line) ++ (c.last last).line

def bytes : Reply → List Byte
  | line c text               => (c.last text).line
  | lines c first middle last => (c.more first).line ++ later c middle last

end Reply

variable {κ : Type} {K : Kernel κ}

/-- Between the two states the bytes `l` have been taken out of the area and written to `o`. -/
structure Took (s s' : Proc Ftpbuf κ) (l : List Byte) : Prop where
  o    : s'.obj.o = s.obj.o.map fun out => out ++ l
  area : s.base.obj.unread = l ++ s'.base.obj.unread

theorem Took.trans {s s₁ s' : Proc Ftpbuf κ} {l l' : List Byte} (h₁ : Took s s₁ l)
    (h₂ : Took s₁ s' l') : Took s s' (l ++ l') := by
  refine ⟨?_, ?_⟩
  · rw [h₂.o, h₁.o, Option.map_map]
    simp only [Function.comp_def, List.append_assoc]
  · rw [h₁.area, h₂.area, List.append_assoc]

/-! ### One line -/

/-- A look that takes its line, on an area that begins with it. -/
theorem took_after {s : Proc Ftpbuf κ} {a : GetArea} (ha : s.base.obj.getArea = some a) {t : Text}
    {rest : List Byte} (hu : s.base.obj.unread = t.line ++ rest) {v : Look}
    (hv : v.1 = s.base.obj.unread) {r : Reader} (hr : r.o = s.obj.o.map fun out => out ++ written v) :
    Took s (after s r (bump v)) t.line := by
  have he : eol.lineEnd v.1 = some t.line.length := by
    rw [hv, hu]
    exact t.lineEnd_line_append rest
  have htake : v.1.take t.line.length = t.line := by
    rw [hv, hu]
    exact List.take_left
  have hb : bump v = t.line.length := by rw [bump, he, Option.getD_some]
  constructor
  · show r.o = _
    simp only [hr, written, he, htake]
  · have hle := (Eol.lineEnd_bounds he).2
    rw [hv] at hle htake
    show _ = _ ++ (s.base.obj.onGet fun a => a.gbump (bump v)).unread
    have hsplit := List.take_append_drop t.line.length s.base.obj.unread
    rw [htake] at hsplit
    rw [hb, unread_gbump ha hle]
    exact hsplit.symm

/-- A round on an area that begins with a whole line is one look. -/
theorem readRound_line {s : Proc Ftpbuf κ} {t : Text} {rest : List Byte}
    (hu : s.base.obj.unread = t.line ++ rest) :
    ∃ a v, s.base.obj.getArea = some a ∧ v.1 = s.base.obj.unread ∧ ∀ firstline,
      readRound K readLine firstline s =
        match (reader firstline s []).look v with
        | .stall   => .ret (.inl firstline) s
        | .leave _ => .ret (.inr ()) s
        | .stop r  => .ret (.inr ()) (after s r (bump v))
        | .go r    => .ret (.inl r.firstline) (after s r (bump v)) := by
  have hne : s.base.obj.unread ≠ [] := by
    rw [hu]
    simp [Text.line]
  obtain ⟨a, ha⟩ : ∃ a, s.base.obj.getArea = some a := by
    cases ha : s.base.obj.getArea with
    | none => exact absurd (by simp only [unread, ha]) hne
    | some a => exact ⟨a, rfl⟩
  refine ⟨a, (s.base.obj.unread, a.mem a.egptr), ha, rfl, fun firstline => ?_⟩
  rw [readRound_of_unread hne]
  exact readLine_look ha hne rfl firstline []

theorem strncpyCells_digits (c : Code) : strncpyCells c.digits = c.digits := by
  have h0 : ∀ d : Digit, d.1 ≠ 0 := fun d => Code.ne_of_lt_digit (by decide)
  simp only [Code.digits, strncpyCells, if_neg (h0 _)]

/-- **The first line** of a reply. -/
theorem first_line {s : Proc Ftpbuf κ} {c : Code} {sep : Byte} {hsep : sep ≠ 13} {t : Text}
    {rest : List Byte} (hu : s.base.obj.unread = (c.text sep hsep t).line ++ rest) :
    ∃ s₁, readRound K readLine true s = .ret (if sep = 32 then .inr () else .inl false) s₁ ∧
      Took s s₁ (c.text sep hsep t).line ∧ s₁.obj.replycode.slice 0 4 = c.digits ++ [32] := by
  obtain ⟨a, v, ha, hv, hround⟩ := readRound_line (K := K) hu
  have hcells : v.1 = c.first.1 :: c.second.1 :: c.third.1 :: sep :: (t.1 ++ 13 :: 10 :: rest) := by
    rw [hv, hu]
    simp [Text.line, Code.text, Code.digits]
  have h5 : 5 ≤ v.1.length := by
    rw [hcells]
    simp only [List.length_cons, List.length_append]
    omega
  have h3 : v.1[3]? = some sep := by rw [hcells]; rfl
  have hcode : v.1.take 3 = c.digits := by rw [hcells]; rfl
  refine ⟨after s (((reader true s []).take v).keepCode v) (bump v), ?_, took_after ha hu hv rfl, ?_⟩
  · rw [hround]
    by_cases h : sep = 32
    · rw [Reader.look_first_stop rfl h5 (h3.trans (congrArg some h)), if_pos h]
    · rw [Reader.look_first_go rfl h5 fun h' => h (Option.some.inj (h3.symm.trans h')), if_neg h]
      rfl
  · show (((reader true s []).take v).keepCode v).replycode.slice 0 4 = _
    rw [Reader.keepCode, hcode]
    exact (slice_strncpy _ _ rfl).trans (by rw [strncpyCells_digits])

/-- `strncmp` of equally long cells without a NUL. -/
theorem strncmp_eq_zero_iff {s t : List Byte} (hl : s.length = t.length) (ht : ∀ d ∈ t, d ≠ 0) :
    strncmp s t = 0 ↔ s = t := by
  induction s generalizing t with
  | nil =>
      obtain rfl : t = [] := List.length_eq_zero_iff.mp hl.symm
      exact iff_of_true rfl rfl
  | cons c s ih =>
      cases t with
      | nil => cases hl
      | cons d t =>
          rw [strncmp]
          by_cases hcd : c = d
          · subst hcd
            rw [if_neg (not_not_intro rfl), if_neg (ht c List.mem_cons_self),
              ih (Nat.succ.inj hl) fun d hd => ht d (List.mem_cons_of_mem c hd), List.cons.injEq]
            exact (and_iff_right rfl).symm
          · rw [if_pos hcd, List.cons.injEq]
            refine iff_of_false (fun h => hcd ?_) fun h => hcd h.1
            exact UInt8.toNat_inj.mp (Int.ofNat.inj (Int.sub_eq_zero.mp h))

/-- **A later line** of a reply with the code `c`. -/
theorem later_line {s : Proc Ftpbuf κ} {c : Code} {t : Text} {rest : List Byte}
    (hu : s.base.obj.unread = t.line ++ rest) (h5 : 5 ≤ s.base.obj.unread.length)
    (hc : s.obj.replycode.slice 0 4 = c.digits ++ [32]) :
    ∃ s₁, readRound K readLine false s =
        .ret (if c.digits ++ [32] <+: s.base.obj.unread then .inr () else .inl false) s₁ ∧
      Took s s₁ t.line ∧ s₁.obj.replycode.slice 0 4 = c.digits ++ [32] := by
  obtain ⟨a, v, ha, hv, hround⟩ := readRound_line (K := K) hu
  rw [← hv] at h5 ⊢
  refine ⟨after s ((reader false s []).take v) (bump v), ?_, took_after ha hu hv rfl, hc⟩
  have hcmp : strncmp (v.1.take 4) (s.obj.replycode.slice 0 4) = 0 ↔ c.digits ++ [32] <+: v.1 := by
    rw [hc, strncmp_eq_zero_iff, List.prefix_iff_eq_take]
    · exact eq_comm
    · rw [List.length_take]
      exact Nat.min_eq_left (Nat.le_of_succ_le h5)
    · intro d hd
      rcases List.mem_append.mp hd with hd | hd
      · intro h0
        have := (Code.mem_digits hd).1
        rw [h0] at this
        exact absurd this (by decide)
      · rw [List.mem_singleton.mp hd]
        decide
  rw [hround]
  by_cases h : c.digits ++ [32] <+: v.1
  · rw [Reader.look_later_stop rfl h5 (hcmp.mpr h), if_pos h]
  · rw [Reader.look_later_go rfl h5 (mt hcmp.mp h), if_neg h]
    rfl

/-! ### One reply -/

/-- A code and a space in front of a line end do not run into the line end. -/
theorem code_prefix_iff {c : Code} {t : Text} {l : List Byte} :
    c.digits ++ [32] <+: t.line ++ l ↔ c.digits ++ [32] <+: t.1 := by
  have hl : t.line ++ l = t.1 ++ 13 :: 10 :: l := by simp [Text.line]
  rw [hl]
  refine ⟨fun h => ?_, fun h => h.trans (List.prefix_append _ _)⟩
  rcases Nat.le_total (c.digits ++ [32]).length t.1.length with hle | hle
  · exact List.prefix_of_prefix_length_le h (List.prefix_append _ _) hle
  · rcases Nat.eq_or_lt_of_le hle with heq | hlt
    · exact List.prefix_of_prefix_length_le h (List.prefix_append _ _) (Nat.le_of_eq heq.symm)
    · -- the CR would be a digit or the space
      have hpre : t.1 ++ [13] <+: t.1 ++ 13 :: 10 :: l := ⟨10 :: l, by simp⟩
      have hcr : t.1 ++ [13] <+: c.digits ++ [32] := by
        refine List.prefix_of_prefix_length_le hpre h ?_
        rw [List.length_append]
        exact hlt
      have h13 : (13 : Byte) ∈ c.digits ++ [32] := hcr.subset (by simp)
      rcases List.mem_append.mp h13 with hm | hm
      · exact absurd (Code.mem_digits hm).1 (by decide)
      · exact absurd hm (by decide)

theorem code_prefix_last (c : Code) (t : Text) : c.digits ++ [32] <+: (c.last t).1 :=
  ⟨t.1, by simp [Code.last, Code.text]⟩

/-- The lines behind the first, to the end of the reply. -/
theorem later_lines {c : Code} {last : Text} {rest : List Byte} {middle : List (MiddleLine c)}
    {s : Proc Ftpbuf κ} (hu : s.base.obj.unread = Reply.later c middle last ++ rest)
    (hc : s.obj.replycode.slice 0 4 = c.digits ++ [32]) :
    ∃ s', Returns (fun n => Prog.loop (readRound K readLine) n false) s () s' ∧
      Took s s' (Reply.later c middle last) ∧ s'.obj.replycode.slice 0 4 = c.digits ++ [32] := by
  -- by the lines in the middle; the last line is always there, so the area is never short
  have h5 : ∀ l : List Byte, 5 ≤ (l ++ ((c.last last).line ++ rest)).length := by
    intro l
    simp only [Code.last, Code.text, Code.digits, Text.line, List.length_append, List.length_cons]
    omega
  induction middle generalizing s with
  | nil =>
      have hlast : Reply.later c [] last = (c.last last).line := rfl
      rw [hlast] at hu ⊢
      obtain ⟨s₁, hround, htook, hc₁⟩ := later_line (K := K) hu (by rw [hu]; exact h5 []) hc
      rw [hu, if_pos (code_prefix_iff.mpr (code_prefix_last c last))] at hround
      exact ⟨s₁, .loop_inr hround, htook, hc₁⟩
  | cons m middle ih =>
      have hcons : Reply.later c (m :: middle) last = m.1.line ++ Reply.later c middle last := by
        simp [Reply.later]
      rw [hcons, List.append_assoc] at hu
      have hlen : 5 ≤ s.base.obj.unread.length := by
        have := h5 (m.1.line ++ middle.flatMap fun m => m.1.line)
        rw [hu, Reply.later]
        simpa using this
      obtain ⟨s₁, hround, htook, hc₁⟩ := later_line (K := K) hu hlen hc
      rw [hu, if_neg (mt code_prefix_iff.mp m.2)] at hround
      obtain ⟨s', hloop, htook', hc'⟩ := ih (List.append_cancel_left (htook.area.symm.trans hu)) hc₁
      rw [hcons]
      exact ⟨s', .loop_inl hround hloop, htook.trans htook', hc'⟩

/-- One call has read the reply: it has returned the first digit of the code, left the code in
`replycode` and taken the bytes of the reply, which went to `o`. -/
structure Reads (K : Kernel κ) (r : Reply) (s s' : Proc Ftpbuf κ) : Prop where
  returned  : Returns (getResponse K) s r.code.first.1 s'
  replycode : s'.obj.replycode.slice 0 3 = r.code.digits
  took      : Took s s' r.bytes

theorem getResponse_reads {r : Reply} {rest : List Byte} {s : Proc Ftpbuf κ}
    (hu : s.base.obj.unread = r.bytes ++ rest) : ∃ s', Reads K r s s' := by
  have hloop : ∃ s', Returns (fun n => Prog.loop (readRound K readLine) n true) s () s' ∧
      Took s s' r.bytes ∧ s'.obj.replycode.slice 0 4 = r.code.digits ++ [32] := by
    cases r with
    | line c text =>
        obtain ⟨s₁, hround, htook, hc⟩ := first_line (K := K) hu
        exact ⟨s₁, .loop_inr hround, htook, hc⟩
    | lines c first middle last =>
        rw [Reply.bytes, List.append_assoc] at hu
        obtain ⟨s₁, hround, htook, hc⟩ := first_line (K := K) hu
        obtain ⟨s', hloop, htook', hc'⟩ :=
          later_lines (K := K) (List.append_cancel_left (htook.area.symm.trans hu)) hc
        exact ⟨s', .loop_inl hround hloop, htook.trans htook', hc'⟩
  obtain ⟨s', ⟨n, hn⟩, htook, hc⟩ := hloop
  have hfirst : s'.obj.replycode 0 = r.code.first.1 := (List.cons.inj hc).1
  refine ⟨s', ⟨n, ?_⟩, ?_, htook⟩
  · simp only [getResponse, Prog.bind_apply, hn, Outcome.andThen_ret, Prog.get_apply,
      Prog.pure_apply, hfirst]
  · rw [← Mem.take_slice _ _ (show 3 ≤ 4 by decide), hc]
    rfl

/-- **Reply framing.**  With replies lying complete and back to back in the get area, and anything
behind them, as many calls of `get_response` as there are replies read them in order, one each. -/
theorem getResponse_framing (K : Kernel κ) (replies : List Reply) (rest : List Byte)
    (s : Proc Ftpbuf κ) (hu : s.base.obj.unread = replies.flatMap Reply.bytes ++ rest) :
    ∃ s', Runs (Reads K) replies s s' ∧ s'.base.obj.unread = rest := by
  induction replies generalizing s with
  | nil => exact ⟨s, .nil s, hu⟩
  | cons r replies ih =>
      rw [List.flatMap_cons, List.append_assoc] at hu
      obtain ⟨s₁, h₁⟩ := getResponse_reads (K := K) hu
      obtain ⟨s', hruns, hrest⟩ := ih s₁ (List.append_cancel_left (h₁.took.area.symm.trans hu))
      exact ⟨s', .cons h₁ hruns, hrest⟩

/-- A reply with a line in the middle that begins with the code, and one shorter than a code. -/
def greeting : List Reply :=
  [.lines (codeOfNat 230) ⟨ascii "hello", by decide⟩
      [⟨⟨ascii "230-world", by decide⟩, by decide⟩, ⟨⟨[], by decide⟩, by decide⟩]
      ⟨ascii "done", by decide⟩,
    .line (codeOfNat 230) ⟨[], by decide⟩]

theorem getResponse_framing_greeting :
    let bs := ascii "230-hello\r\n230-world\r\n\r\n230 done\r\n230 \r\n22"
    let s := opened (some []) []
    let s₁ : Proc Ftpbuf (Peer 1024 Unit) :=
      ⟨{ s.obj with toSockbuf := s.obj.toSockbuf.onGet fun a => a.refill bs }, s.sys⟩
    ∃ s', Runs (Reads (Kernel.smooth 1024)) greeting s₁ s' ∧ s'.base.obj.unread = ascii "22" :=
  getResponse_framing (Kernel.smooth 1024) greeting (ascii "22") _ (by decide)

end Ftpbuf

end Socketpp
