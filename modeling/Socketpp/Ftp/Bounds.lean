import Socketpp.Ftp.Reply
import Socketpp.Sockbuf.Bulk

/-!
# Ftp — the cells an iteration touches

`reads` lists the cells of the get buffer that one iteration of `get_response` reads: the scan for CR LF
and the byte it looks ahead, the bytes written to `o`, and the code.  An iteration depends on no other
cell (`readLine_reads`).

The scan and the comparison of the code stay in front of `egptr ()`.  But `i` counts from 2, and stands at
`n + 1` where the scan has found nothing: then the iteration writes the cell at `egptr ()` to `o` too, and
moves `gptr ()` behind it (`readLine_inside_iff`).
-/

namespace Socketpp
open Lib

/-- The cells the scan for CR LF reads, for the rounds that are left. -/
def zapReads (mem : Mem Byte) : Nat → Nat → List Nat
  | 0,     _ => []
  | k + 1, p =>
    if mem p = 13 then
      if mem (p + 1) = 10 then [p, p + 1] else p :: (p + 1) :: zapReads mem k (p + 1)
    else p :: zapReads mem k (p + 1)

/-- The cells `strncpy (_, q, n)` reads: up to a NUL. -/
def strncpyReads (mem : Mem Byte) : Nat → Nat → List Nat
  | 0,     _ => []
  | n + 1, q => q :: if mem q = 0 then [] else strncpyReads mem n (q + 1)

/-- The cells `strncmp (q, t, _)` reads at `q`: up to a difference or a NUL. -/
def strncmpReads (mem : Mem Byte) : List Byte → Nat → List Nat
  | [],     _ => []
  | d :: t, q => q :: if mem q ≠ d then [] else if mem q = 0 then [] else strncmpReads mem t (q + 1)

theorem zapReads_bounds {mem : Mem Byte} : ∀ {k p i : Nat}, i ∈ zapReads mem k p → p ≤ i ∧ i ≤ p + k := by
  intro k
  induction k with
  | zero => intro p i hi; cases hi
  | succ k ih =>
      intro p i hi
      rw [zapReads] at hi
      have behind : i = p ∨ i = p + 1 ∨ i ∈ zapReads mem k (p + 1) := by
        split at hi
        · split at hi
          · simp only [List.mem_cons, List.not_mem_nil, or_false] at hi
            exact hi.imp_right .inl
          · simpa only [List.mem_cons] using hi
        · exact (List.mem_cons.mp hi).imp_right .inr
      rcases behind with rfl | rfl | hi
      · omega
      · omega
      · have := ih hi
        omega

theorem strncpyReads_bounds {mem : Mem Byte} : ∀ {n q i : Nat}, i ∈ strncpyReads mem n q →
    q ≤ i ∧ i < q + n := by
  intro n
  induction n with
  | zero => intro q i hi; cases hi
  | succ n ih =>
      intro q i hi
      rcases List.mem_cons.mp hi with rfl | hi
      · omega
      · split at hi
        · cases hi
        · have := ih hi
          omega

theorem strncmpReads_bounds {mem : Mem Byte} : ∀ {t : List Byte} {q i : Nat}, i ∈ strncmpReads mem t q →
    q ≤ i ∧ i < q + t.length := by
  intro t
  induction t with
  | nil => intro q i hi; cases hi
  | cons d t ih =>
      intro q i hi
      rw [List.length_cons]
      rcases List.mem_cons.mp hi with rfl | hi
      · omega
      · split at hi
        · cases hi
        · split at hi
          · cases hi
          · have := ih hi
            omega

section Congruence

variable {mem mem' : Mem Byte}

theorem zapLoop_congr : ∀ {k p : Nat} (i : Nat), (∀ j ∈ zapReads mem k p, mem' j = mem j) →
    zapLoop mem' k p i = zapLoop mem k p i := by
  intro k
  induction k with
  | zero => intro p i _; rfl
  | succ k ih =>
      intro p i h
      rw [zapReads] at h
      rw [zapLoop, zapLoop]
      by_cases hcr : mem p = 13
      · rw [if_pos hcr] at h
        by_cases hlf : mem (p + 1) = 10
        · rw [if_pos hlf] at h
          rw [h p (by simp), h (p + 1) (by simp), if_pos ⟨hcr, hlf⟩, if_pos ⟨hcr, hlf⟩]
        · rw [if_neg hlf] at h
          rw [h p (by simp), h (p + 1) (by simp), if_neg fun hc => hlf hc.2, if_neg fun hc => hlf hc.2]
          exact ih _ fun j hj => h j (by simp [hj])
      · rw [if_neg hcr] at h
        rw [h p (by simp), if_neg fun hc => hcr hc.1, if_neg fun hc => hcr hc.1]
        exact ih _ fun j hj => h j (by simp [hj])

theorem strncpyCells_congr : ∀ {n q : Nat}, (∀ j ∈ strncpyReads mem n q, mem' j = mem j) →
    strncpyCells (mem'.slice q n) = strncpyCells (mem.slice q n) := by
  intro n
  induction n with
  | zero => intro q _; rfl
  | succ n ih =>
      intro q h
      rw [strncpyReads] at h
      rw [Mem.slice_succ, Mem.slice_succ, strncpyCells, strncpyCells, h q List.mem_cons_self]
      by_cases h0 : mem q = 0
      · rw [if_pos h0, if_pos h0, List.map_const', List.map_const', Mem.length_slice, Mem.length_slice]
      · rw [if_neg h0] at h
        rw [if_neg h0, if_neg h0, ih fun j hj => h j (List.mem_cons_of_mem q hj)]

theorem strncmp_congr : ∀ {t : List Byte} {q : Nat}, (∀ j ∈ strncmpReads mem t q, mem' j = mem j) →
    strncmp (mem'.slice q t.length) t = strncmp (mem.slice q t.length) t := by
  intro t
  induction t with
  | nil => intro q _; rfl
  | cons d t ih =>
      intro q h
      rw [strncmpReads] at h
      rw [List.length_cons, Mem.slice_succ, Mem.slice_succ, strncmp, strncmp, h q List.mem_cons_self]
      by_cases hd : mem q ≠ d
      · rw [if_pos hd, if_pos hd]
      · rw [if_neg hd] at h
        rw [if_neg hd, if_neg hd]
        by_cases h0 : mem q = 0
        · rw [if_pos h0, if_pos h0]
        · rw [if_neg h0] at h
          rw [if_neg h0, if_neg h0, ih fun j hj => h j (List.mem_cons_of_mem q hj)]

end Congruence

namespace Ftpbuf
open Sockbuf

variable {κ : Type} {K : Kernel κ}

/-- The cells at `q` that the check of a line reads. -/
def checkReads (firstline : Bool) (mem : Mem Byte) (q : Nat) (replycode : Mem Byte) : List Nat :=
  if firstline then strncpyReads mem 3 q ++ [q + 3] else strncmpReads mem (replycode.slice 0 4) q

/-- The cells of the get buffer that an iteration reads. -/
def reads (firstline : Bool) (x : Ftpbuf) : List Nat :=
  match x.getArea with
  | none   => []
  | some a =>
    let n := a.egptr - a.gptr
    if n < 5 then []
    else
      zapReads a.mem (n - 1) a.gptr ++ (if x.o.isSome then List.range' a.gptr (a.zap n) else []) ++
        checkReads firstline a.mem a.gptr x.replycode

/-- The object with another get buffer. -/
def withMem (mem : Mem Byte) (s : Proc Ftpbuf κ) : Proc Ftpbuf κ :=
  s.onObj fun x => { x with toSockbuf := x.toSockbuf.onGet fun a => { a with mem := mem } }

/-- The object with `gptr ()` moved. -/
def bumped (i : Nat) (s : Proc Ftpbuf κ) : Proc Ftpbuf κ :=
  s.onObj fun x => { x with toSockbuf := x.toSockbuf.onGet fun a => a.gbump i }

theorem gbump_apply (i : Nat) (s : Proc Ftpbuf κ) : gbump i s = .ret ⟨⟩ (bumped i s) := rfl

theorem bumped_withMem (i : Nat) (mem : Mem Byte) (s : Proc Ftpbuf κ) :
    bumped i (withMem mem s) = withMem mem (bumped i s) := by
  cases ha : s.obj.getArea with
  | none => simp only [bumped, withMem, Proc.onObj, onGet, ha, Option.map_none]
  | some a => simp only [bumped, withMem, Proc.onObj, onGet, ha, Option.map_some, GetArea.gbump]

theorem checkLine_reads {firstline : Bool} {mem mem' : Mem Byte} {q : Nat} {s : Proc Ftpbuf κ}
    (h : ∀ j ∈ checkReads firstline mem q s.obj.replycode, mem' j = mem j) (m : Mem Byte) :
    checkLine firstline mem' q (withMem m s) = (checkLine firstline mem q s).mapState (withMem m) := by
  cases firstline with
  | true =>
      have hcode : strncpyCells (mem'.slice q 3) = strncpyCells (mem.slice q 3) :=
        strncpyCells_congr fun j hj => h j (List.mem_append_left _ hj)
      have hsep : mem' (q + 3) = mem (q + 3) := h (q + 3) (List.mem_append_right _ List.mem_cons_self)
      have hset : ∀ x, setReplycode (mem'.slice q 3) x = setReplycode (mem.slice q 3) x := fun x => by
        rw [setReplycode, setReplycode, strncpy, strncpy, hcode]
      simp only [checkLine, if_true, Prog.bind_apply, Prog.modify_apply, Outcome.andThen_ret, hsep,
        Prog.ite_apply, Proc.onObj, hset]
      split <;> rfl
  | false =>
      have hcmp : strncmp (mem'.slice q 4) (s.obj.replycode.slice 0 4) =
          strncmp (mem.slice q 4) (s.obj.replycode.slice 0 4) := by
        have := strncmp_congr (t := s.obj.replycode.slice 0 4) (q := q) h
        rwa [Mem.length_slice] at this
      have hcode : (withMem m s).obj.replycode = s.obj.replycode := rfl
      simp only [checkLine, Bool.false_eq_true, if_false, Prog.bind_apply, Prog.get_apply,
        Outcome.andThen_ret, Prog.ite_apply, hcode, hcmp]
      split <;> rfl

/-- **An iteration reads these cells only**: with any other buffer that has the same bytes in them it
comes to the same, the buffer apart. -/
theorem readLine_reads {firstline : Bool} {s : Proc Ftpbuf κ} {a : GetArea} {mem : Mem Byte}
    (ha : s.obj.getArea = some a) (h : ∀ j ∈ reads firstline s.obj, mem j = a.mem j) :
    readLine firstline (withMem mem s) = (readLine firstline s).mapState (withMem mem) := by
  have ha' : (withMem mem s).obj.getArea = some { a with mem := mem } := by
    simp only [withMem, Proc.onObj, onGet, ha, Option.map_some]
  simp only [readLine, Prog.bind_apply, Prog.get_apply, Outcome.andThen_ret, ha, ha', Prog.ite_apply]
  rw [reads, ha] at h
  by_cases hn : a.egptr - a.gptr < 5
  · rw [if_pos hn, if_pos hn]
    rfl
  · simp only [if_neg hn, List.mem_append] at h
    have hzap : GetArea.zap { a with mem := mem } (a.egptr - a.gptr) = a.zap (a.egptr - a.gptr) :=
      zapLoop_congr 2 fun j hj => h j (.inl (.inl hj))
    -- what is written to `o` is read from the cells in front of `zap`
    have hwrite : writeO (mem.slice a.gptr (a.zap (a.egptr - a.gptr))) s.obj =
        writeO (a.mem.slice a.gptr (a.zap (a.egptr - a.gptr))) s.obj := by
      cases ho : s.obj.o with
      | none => rw [writeO, writeO, ho, Option.map_none, Option.map_none]
      | some out =>
          have hslice : mem.slice a.gptr (a.zap (a.egptr - a.gptr)) =
              a.mem.slice a.gptr (a.zap (a.egptr - a.gptr)) := by
            refine Mem.slice_congr fun i h₁ h₂ => h i (.inl (.inr ?_))
            rw [ho, Option.isSome_some, if_pos rfl, List.mem_range'_1]
            exact ⟨h₁, h₂⟩
          rw [hslice]
    rw [if_neg hn, if_neg hn, hzap]
    have hstep : withMem mem (s.onObj (writeO (a.mem.slice a.gptr (a.zap (a.egptr - a.gptr))))) =
        (withMem mem s).onObj (writeO (mem.slice a.gptr (a.zap (a.egptr - a.gptr)))) := by
      rw [Proc.onObj, ← hwrite]
      rfl
    simp only [Prog.bind_apply, Prog.modify_apply, Outcome.andThen_ret, ← hstep, gbump_apply,
      bumped_withMem]
    exact checkLine_reads (s := bumped _ (s.onObj _)) (fun j hj => h j (.inr hj)) mem

/-- An iteration has stayed inside the bytes received: it has read none of the other cells, has written
some of the first unread bytes to `o`, and has left `gptr ()` inside the area. -/
structure Inside (firstline : Bool) (s s' : Proc Ftpbuf κ) : Prop where
  reads   : ∀ a, s.obj.getArea = some a → ∀ i ∈ Ftpbuf.reads firstline s.obj, a.gptr ≤ i ∧ i < a.egptr
  written : ∃ l, l <+: s.base.obj.unread ∧ s'.obj.o = s.obj.o.map fun out => out ++ l
  area    : ∃ a, s'.obj.getArea = some a ∧ a.gptr ≤ a.egptr

theorem checkReads_bounds {firstline : Bool} {mem replycode : Mem Byte} {q i : Nat}
    (h : i ∈ checkReads firstline mem q replycode) : q ≤ i ∧ i < q + 4 := by
  cases firstline with
  | true =>
      rcases List.mem_append.mp h with hi | hi
      · have := strncpyReads_bounds hi
        omega
      · rw [List.mem_singleton.mp hi]
        omega
  | false =>
      have := strncmpReads_bounds (t := replycode.slice 0 4) h
      rwa [Mem.length_slice] at this

/-- Where there is a line end, everything read is in front of `egptr ()`. -/
theorem reads_bounds {firstline : Bool} {s : Proc Ftpbuf κ} {a : GetArea} (ha : s.obj.getArea = some a)
    (hzap : 5 ≤ a.egptr - a.gptr → a.gptr + a.zap (a.egptr - a.gptr) ≤ a.egptr) :
    ∀ i ∈ reads firstline s.obj, a.gptr ≤ i ∧ i < a.egptr := by
  intro i hi
  rw [reads, ha] at hi
  by_cases hn : a.egptr - a.gptr < 5
  · simp only [hn, if_true, List.not_mem_nil] at hi
  · have hz := hzap (Nat.le_of_not_lt hn)
    simp only [if_neg hn, List.mem_append] at hi
    rcases hi with (hi | hi) | hi
    · have := zapReads_bounds hi
      omega
    · split at hi
      · have := List.mem_range'_1.mp hi
        omega
      · cases hi
    · have := checkReads_bounds hi
      omega

/-- An iteration on five bytes or more: what goes to `o`, and where `gptr ()` is then. -/
theorem readLine_takes {s : Proc Ftpbuf κ} {a : GetArea} (ha : s.obj.getArea = some a)
    (hne : s.base.obj.unread ≠ []) (h5 : 5 ≤ s.base.obj.unread.length) (firstline : Bool) :
    ∃ r s', readLine firstline s = .ret r s' ∧
      s'.obj.o = s.obj.o.map (fun out => out ++ written (s.base.obj.unread, a.mem a.egptr)) ∧
      s'.obj.getArea = some (a.gbump (a.zap (a.egptr - a.gptr))) := by
  have hafter : ∀ r : Reader,
      (after s r (bump (s.base.obj.unread, a.mem a.egptr))).obj.getArea =
        some (a.gbump (a.zap (a.egptr - a.gptr))) := by
    intro r
    have hb : s.base.obj.getArea = some a := ha
    rw [zap_eq hb hne]
    simp only [after, onGet, ha, Option.map_some, bump]
  have hlook := readLine_look ha hne rfl firstline []
  cases hl : (reader firstline s []).look (s.base.obj.unread, a.mem a.egptr) with
  | stall => exact absurd h5 ((Reader.look_stall_iff _ _).mp hl)
  | leave r => exact absurd hl (Reader.look_ne_leave _ _ _)
  | stop r =>
      rw [hl] at hlook
      exact ⟨_, _, hlook, (Reader.look_taken (.inl hl)).2, hafter r⟩
  | go r =>
      rw [hl] at hlook
      exact ⟨_, _, hlook, (Reader.look_taken (.inr hl)).2, hafter r⟩

/-- On entry to an iteration there is a byte in the area. -/
theorem entry_unread {s₀ s : Proc Ftpbuf κ} {v : Int}
    (hentry : inherited (Sockbuf.underflow K) s₀ = .ret v s) (hv : v ≠ eofValue) :
    s.base.obj.unread ≠ [] ∧ ∃ a, s.obj.getArea = some a := by
  have hne : s.base.obj.unread ≠ [] := by
    rw [inherited, Prog.zoom_apply] at hentry
    cases hu : Sockbuf.underflow K s₀.base with
    | ret w t =>
        rw [hu] at hentry
        cases hentry
        rw [Proc.base_rebase]
        exact (underflow_again hu hv).1
    | thrown e t => rw [hu] at hentry; cases hentry
    | spin => rw [hu] at hentry; cases hentry
  refine ⟨hne, ?_⟩
  cases hg : s.obj.getArea with
  | none => exact absurd (by simp only [Proc.base, Derived.base, unread, hg]) hne
  | some a => exact ⟨a, rfl⟩

/-- **The bounds of an iteration.**  Entered with any bytes in the area, an iteration returns, and has
stayed inside the bytes received exactly when there are fewer than five of them, which it leaves alone, or
there is a CR LF among them. -/
theorem readLine_inside_iff {s₀ s : Proc Ftpbuf κ} {v : Int}
    (hentry : inherited (Sockbuf.underflow K) s₀ = .ret v s) (hv : v ≠ eofValue) (firstline : Bool) :
    ∃ r s', readLine firstline s = .ret r s' ∧ (Inside firstline s s' ↔
      s.base.obj.unread.length < 5 ∨ (eol.lineEnd s.base.obj.unread).isSome = true) := by
  obtain ⟨hne, a, ha⟩ := entry_unread hentry hv
  have hb : s.base.obj.getArea = some a := ha
  have hlen : s.base.obj.unread.length = a.egptr - a.gptr := by rw [unread_eq hb, Mem.length_slice]
  have hpos := List.length_pos_of_ne_nil hne
  have hzap := zap_eq hb hne
  rw [hlen] at hpos hzap
  by_cases h5 : s.base.obj.unread.length < 5
  · -- too few bytes: the iteration does nothing
    have hlook := readLine_look ha hne rfl firstline []
    rw [(Reader.look_stall_iff _ _).mpr (Nat.not_le.mpr h5)] at hlook
    refine ⟨_, _, hlook, iff_of_true ⟨?_, ⟨[], List.nil_prefix, ?_⟩, a, ha, by omega⟩ (.inl h5)⟩
    · intro a' ha'
      cases ha.symm.trans ha'
      exact reads_bounds ha fun h => absurd h (by omega)
    · cases s.obj.o with
      | none => rfl
      | some out => exact congrArg some (List.append_nil out).symm
  · obtain ⟨r, s', hret, ho, hget⟩ := readLine_takes ha hne (Nat.le_of_not_lt h5) firstline
    refine ⟨r, s', hret, ?_⟩
    rw [or_iff_right h5]
    cases he : eol.lineEnd s.base.obj.unread with
    | some e =>
        rw [he, Option.getD_some] at hzap
        have hle := (Eol.lineEnd_bounds he).2
        refine iff_of_true
          ⟨fun a' ha' => ?_, ⟨s.base.obj.unread.take e, List.take_prefix _ _, ?_⟩, _, hget, ?_⟩ rfl
        · cases ha.symm.trans ha'
          exact reads_bounds ha fun _ => by omega
        · simp only [ho, written, he]
        · simp only [GetArea.gbump]
          omega
    | none =>
        rw [he, Option.getD_none] at hzap
        -- without a line end `gptr ()` is left behind `egptr ()`
        refine iff_of_false (fun h => ?_) Bool.false_ne_true
        obtain ⟨a', ha', hle⟩ := h.area
        cases hget.symm.trans ha'
        simp only [GetArea.gbump] at hle
        omega

/-- A whole line. -/
theorem readLine_inside_iff_line :
    ∃ v s, inherited (Sockbuf.underflow (Kernel.smooth 1024))
        (opened (some []) [⟨ascii "220 hi\r\n", by decide⟩]) = .ret v s ∧
      ∃ r s', readLine true s = .ret r s' ∧ (Inside true s s' ↔
        s.base.obj.unread.length < 5 ∨ (eol.lineEnd s.base.obj.unread).isSome = true) :=
  ⟨50, _, rfl, readLine_inside_iff (show inherited (Sockbuf.underflow (Kernel.smooth 1024))
    (opened (some []) [⟨ascii "220 hi\r\n", by decide⟩]) = .ret 50 _ from rfl) (by decide) true⟩

/-- Five bytes without a line end: the cell behind them goes to `o`, and `gptr ()` is then behind
`egptr ()`. -/
theorem readLine_past_end :
    ∃ s s', inherited (Sockbuf.underflow (Kernel.smooth 1024))
        (opened (some []) [⟨ascii "220 h", by decide⟩]) = .ret 50 s ∧
      readLine true s = .ret (.inr ()) s' ∧ s'.obj.o = some (ascii "220 h" ++ [0]) ∧
      s'.obj.getArea.map (fun a => (a.gptr, a.egptr)) = some (6, 5) :=
  ⟨_, _, rfl, rfl, by decide +kernel, rfl⟩

end Ftpbuf

end Socketpp
