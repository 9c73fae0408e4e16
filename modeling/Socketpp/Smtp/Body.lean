import Socketpp.Lib.Scan
import Socketpp.Smtp.Model

/-!
# Smtp — the message body

`send_buf` puts on the wire the stuffed content of the buffer, where it looks one byte ahead
behind each line feed, behind the end of the buffer too (`puts_sendBuf`).

* A message that `data (buf, len)` sends is received as it was sent exactly when the look ahead
  does not find a dot behind a final line feed (`data_transparent_iff`).
* `data (filename)` calls `send_buf` for each chunk of the file; it puts on the wire what one call
  for the whole content does exactly when the chunks are `Seamless` (`sendBufs_eq_sendBuf_iff`).
-/

namespace Socketpp
open Lib

namespace Smtpbuf
open Sockbuf

variable {κ : Type} {K : Kernel κ}

/-! ### `send_buf` -/

theorem puts_doubleDot (buf : Mem Byte) (p : Nat) :
    Puts K (doubleDot K buf p) (if buf p = 46 then [46] else []) := by
  unfold doubleDot
  split
  · exact puts_sputc 46
  · exact Puts.pure 0

/-- The bytes of one round. -/
def byteOf (buf : Mem Byte) (p : Nat) : List Byte :=
  if buf p = 10 then [13, 10] ++ if buf (p + 1) = 46 then [46] else [] else [buf p]

theorem puts_sendByte (buf : Mem Byte) (p : Nat) : Puts K (sendByte K buf p) (byteOf buf p) := by
  unfold sendByte byteOf
  split
  · rename_i h
    rw [h]
    exact (puts_sputc 13).bind fun _ => (puts_sputc 10).bind fun _ => puts_doubleDot buf (p + 1)
  · exact puts_sputc (buf p)

/-- The bytes of the rounds that are left. -/
def bytesOf (buf : Mem Byte) : Nat → Nat → List Byte
  | 0,     _ => []
  | k + 1, p => byteOf buf p ++ bytesOf buf k (p + 1)

theorem puts_sendLoop (buf : Mem Byte) : ∀ (k p : Nat),
    Puts K (sendLoop K buf k p) (bytesOf buf k p) := by
  intro k
  induction k with
  | zero => intro p; exact Puts.pure ()
  | succ k ih => intro p; exact (puts_sendByte buf p).bind fun _ => ih (p + 1)

/-- The loop is the encoder.  A dot that a line feed has looked ahead to stands for the one the
encoder puts before the next byte. -/
theorem dot_bytesOf (buf : Mem Byte) : ∀ (k p : Nat) (bol : Bool),
    (if bol = true ∧ buf p = 46 then [46] else []) ++ bytesOf buf k p =
      marks.stuff bol (buf.slice p k) ++
        if marks.atStart bol (buf.slice p k) = true ∧ buf (p + k) = 46 then [46] else [] := by
  intro k
  induction k with
  | zero => intro p bol; simp [bytesOf, Marks.stuff, Marks.atStart]
  | succ k ih =>
      intro p bol
      have ih' := ih (p + 1) (decide (buf p = 10))
      rw [Nat.add_right_comm p 1 k] at ih'
      rw [bytesOf, Mem.slice_succ, Marks.stuff_cons, List.append_assoc]
      congr 1
      by_cases h : buf p = 10
      · simp only [h, decide_true, true_and] at ih'
        simp only [byteOf, h, if_true, List.append_assoc, ih']
        rfl
      · simp only [h, decide_false, Bool.false_eq_true, false_and, if_false, List.nil_append] at ih'
        have hlf : buf p ≠ marks.lf := h
        simp only [byteOf, h, hlf, if_false, ih']
        simp only [Marks.atStart, hlf, decide_false]
        rfl

/-- **`send_buf`** puts the stuffed content on the wire, having looked at the byte behind it. -/
theorem puts_sendBuf (buf : Mem Byte) {len : Nat} (hlen : 0 < len) :
    Puts K (sendBuf K (some buf) len) (marks.wire (buf.slice 0 len) (buf len)) := by
  have h := (puts_doubleDot (K := K) buf 0).bind fun _ => puts_sendLoop buf len 0
  have hd := dot_bytesOf buf len 0 true
  simp only [true_and, Nat.zero_add] at hd
  rw [hd] at h
  have hpos : ¬ (len : Int) ≤ 0 := by omega
  simp only [sendBuf, hpos, if_false, Int.toNat_natCast]
  exact h

/-! ### Commands and replies -/

section Replies

variable {R : Proc Sockbuf κ → Proc Sockbuf κ → Prop}

/-- Reading replies keeps what the get functions keep. -/
theorem keeps_getResponse (h : GetFrame K R) (n : Nat) :
    Prog.Keeps (OnBase R) (getResponse K n) := by
  have hc : Closed (OnBase (β := Smtpbuf) R) := h.toClosed.onBase
  have bump : ∀ i, Prog.Keeps (OnBase R) (gbump i : SmtpM κ PUnit) := fun i =>
    keeps_inherited (keeps_onGet h fun a => a.gbump i)
  refine keeps_readLoop h (fun _ => hc.keeps_bind hc.keeps_get fun s => ?_) n ()
  cases s.obj.getArea with
  | none => exact hc.keeps_pure _
  | some a =>
      refine Prog.Keeps.ite (hc.keeps_pure _) (hc.keeps_bind ?_ fun _ => ?_)
      · refine Prog.Keeps.ite (hc.keeps_bind ?_ fun _ => bump _) (hc.keeps_pure _)
        exact Prog.Keeps.modify fun s => h.refl s.base
      · exact Prog.Keeps.ite (hc.keeps_pure _) (hc.keeps_pure _)

theorem keeps_response (h : GetFrame K R) (n : Nat) : Prog.Keeps (OnBase R) (response K n) := by
  have hc : Closed (OnBase (β := Smtpbuf) R) := h.toClosed.onBase
  exact hc.keeps_bind hc.keeps_get fun s =>
    Prog.Keeps.ite (keeps_getResponse h n) (hc.keeps_pure _)

end Replies

/-- Without a stream for them, replies are not read. -/
theorem response_of_none {s : Proc Smtpbuf κ} (h : s.obj.output = none) (n : Nat) :
    response K n s = .ret () s := by
  simp [response, h]

theorem output_of_sameRest {s s' : Proc Smtpbuf κ} (h : SameRest s s') :
    s'.obj.output = s.obj.output := by
  rw [h]
  rfl

/-- A run of `p` from `s` sends `xs`.  When it returns, everything has been handed to the kernel;
without a stream for the replies it does return, unless a write fails. -/
structure Sends (K : Kernel κ) (p : SmtpM κ Unit) (s : Proc Smtpbuf κ) (xs : List Byte) : Prop where
  returned : ∀ s', p s = .ret () s' → Flushed s.base s'.base xs
  returns : K.WriteSucceeds → s.obj.output = none → ∃ s', p s = .ret () s' ∧ SameRest s s'

theorem Sends.bind {p q : SmtpM κ Unit} {s : Proc Smtpbuf κ} {xs ys : List Byte}
    (hp : Sends K p s xs) (hq : ∀ s₁, p s = .ret () s₁ → Sends K q s₁ ys) :
    Sends K (p >>= fun _ => q) s (xs ++ ys) := by
  constructor
  · intro s' h
    obtain ⟨_, s₁, h₁, h₂⟩ := Prog.bind_eq_ret h
    exact (hp.returned s₁ h₁).trans ((hq s₁ h₁).returned s' h₂)
  · intro hK hn
    obtain ⟨s₁, h₁, hr₁⟩ := hp.returns hK hn
    obtain ⟨s', h₂, hr₂⟩ := (hq s₁ h₁).returns hK (by rw [output_of_sameRest hr₁, hn])
    exact ⟨s', by rw [Prog.bind_apply, h₁, Outcome.andThen_ret, h₂], hr₁.trans hr₂⟩

/-- What is sent on a fresh connection. -/
theorem Sends.sent_fresh {p : SmtpM κ Unit} {s : Proc Smtpbuf κ} {xs : List Byte}
    (h : Sends K p s xs) (hK : K.WriteSucceeds) (ho : s.obj.output = none)
    (hs : sent s.base = []) (hp : s.base.obj.pending = []) :
    ∃ s', p s = .ret () s' ∧ sent s'.base = xs := by
  obtain ⟨s', hret, -⟩ := h.returns hK ho
  have hsent := (h.returned s' hret).sent
  rw [hs, hp] at hsent
  exact ⟨s', hret, hsent⟩

/-- Something put, flushed and answered. -/
def putThenResponse (K : Kernel κ) (n : Nat) {α : Type} (p : SmtpM κ α) : SmtpM κ Unit := do
  let _ ← p
  let _ ← sync K
  response K n

theorem sends_putThenResponse {α : Type} {p : SmtpM κ α} {xs : List Byte} {s : Proc Smtpbuf κ}
    (h : (p s).Sat (fun _ s₁ => Put s s₁ xs) fun _ _ => ¬ K.WriteSucceeds) (n : Nat) :
    Sends K (putThenResponse K n p) s xs := by
  constructor
  · intro s' hr
    obtain ⟨_, s₁, h₁, hr⟩ := Prog.bind_eq_ret hr
    have put := h.ret h₁
    obtain ⟨_, s₂, h₂, hr⟩ := Prog.bind_eq_ret hr
    obtain ⟨put', he⟩ := (sync_flushes put.moved.writable).ret h₂
    have hf : Flushed s.base s₂.base xs := by
      simpa only [List.append_nil] using (put.trans put').flushed he
    have same : PutSame s₂.base s'.base := (keeps_response (getFrame_putSame K) n).ret hr
    exact hf.same same
  · intro hK hn
    have hs : (putThenResponse K n p s).Sat (fun _ s' => SameRest s s') fun _ _ => False := by
      simp only [putThenResponse, Prog.bind_apply]
      refine h.andThen (fun _ s₁ h₁ => ?_) fun _ _ h => h hK
      refine (sync_flushes h₁.moved.writable).andThen (fun _ s₂ h₂ => ?_) fun _ _ h => h hK
      have hr := h₁.rest.trans h₂.1.rest
      rw [response_of_none (by rw [output_of_sameRest hr, hn])]
      exact hr
    obtain ⟨_, s', hret, hr⟩ := hs.returns
    exact ⟨s', hret, hr⟩

theorem puts_putString (s : Option (List Byte)) : Puts K (putString K s) (s.getD []) := by
  cases s with
  | none => exact Puts.pure 0
  | some s => exact puts_xsputn s

/-- **`send_cmd`** sends the command, its arguments and a line end. -/
theorem sends_sendCmd {s : Proc Smtpbuf κ} (hw : s.base.obj.Writable) (n : Nat) (cmd : List Byte)
    (a p : Option (List Byte)) :
    Sends K (sendCmd K n cmd a p) s (cmd ++ (a.getD [] ++ (p.getD [] ++ [13, 10]))) := by
  have h : Puts K (xsputn K cmd >>= fun _ => putString K a >>= fun _ => putString K p >>= fun _ =>
      xsputn K [13, 10]) (cmd ++ (a.getD [] ++ (p.getD [] ++ [13, 10]))) :=
    (puts_xsputn cmd).bind fun _ => (puts_putString a).bind fun _ =>
      (puts_putString p).bind fun _ => puts_xsputn [13, 10]
  have := sends_putThenResponse (h s hw) n
  simp only [putThenResponse, Prog.bind_assoc] at this
  exact this

theorem sends_data {s : Proc Smtpbuf κ} (hw : s.base.obj.Writable) (n : Nat) :
    Sends K (data K n) s (ascii "DATA\r\n") := sends_sendCmd hw n (ascii "DATA") none none

/-! ### `data (buf, len)` -/

/-- The message `data (buf, len)` sends behind the DATA line. -/
def message (buf : Mem Byte) (len : Nat) : List Byte :=
  marks.wire (buf.slice 0 len) (buf len) ++ [13, 10, 46, 13, 10]

theorem sends_dataBuf {s : Proc Smtpbuf κ} (hw : s.base.obj.Writable) (n : Nat) (buf : Mem Byte)
    {len : Nat} (hlen : 0 < len) :
    Sends K (dataBuf K n (some buf) len) s (ascii "DATA\r\n" ++ message buf len) := by
  refine (sends_data hw n).bind fun s₁ h₁ => ?_
  have h : Puts K (sendBuf K (some buf) len >>= fun _ => xsputn K [13, 10, 46, 13, 10])
      (message buf len) := (puts_sendBuf buf hlen).bind fun _ => puts_xsputn _
  have := sends_putThenResponse (h s₁ ((sends_data hw n).returned s₁ h₁).writable) n
  simp only [putThenResponse, Prog.bind_assoc] at this
  exact this

/-- The content ends at a line start exactly when its last byte is a line feed. -/
theorem atStart_slice (buf : Mem Byte) (len : Nat) :
    marks.atStart true (buf.slice 0 (len + 1)) = true ↔ buf len = 10 := by
  have h : buf.slice 0 (len + 1) = buf.slice 0 len ++ [buf len] := by
    rw [Mem.slice_add, Nat.zero_add]
    rfl
  rw [h, Marks.atStart_append]
  simp [Marks.atStart]
  rfl

/-- **A message is received as it was sent**, the content and one line end, with nothing left
behind it, exactly when the byte behind the content is not a dot, or is not looked at. -/
theorem receive_message_iff (buf : Mem Byte) (len : Nat) :
    marks.receive (message buf (len + 1)) = some (buf.slice 0 (len + 1) ++ [10], [], []) ↔
      buf len ≠ 10 ∨ buf (len + 1) ≠ 46 := by
  have hat := atStart_slice buf len
  have hend : marks.receive [46, 13, 10] = some ([], [], []) := by decide
  by_cases h : buf len = 10 ∧ buf (len + 1) = 46
  · have hx : marks.atStart true (buf.slice 0 (len + 1)) = true ∧ buf (len + 1) = marks.dot :=
      ⟨hat.mpr h.1, h.2⟩
    have hs : buf.slice 0 (len + 1) = buf.slice 0 len ++ [10] := by
      rw [Mem.slice_add, Nat.zero_add, ← h.1]
      rfl
    have hm : message buf (len + 1) = marks.stuff true (buf.slice 0 len) ++
        marks.cr :: marks.lf :: [46, 13, 10, 46, 13, 10] := by
      rw [message, Marks.wire, if_pos hx, hs, Marks.stuff_append]
      simp [Marks.stuff, marks, eol]
    -- the dot that was looked ahead to ends the message
    have hd : marks.receive [46, 13, 10, 46, 13, 10] = some ([], [[46]], []) := by decide
    rw [hm, Marks.receive_stuff, hd]
    simp [h.1, h.2]
  · have hx : ¬ (marks.atStart true (buf.slice 0 (len + 1)) = true ∧ buf (len + 1) = marks.dot) :=
      fun hc => h ⟨hat.mp hc.1, hc.2⟩
    have hm : message buf (len + 1) = marks.stuff true (buf.slice 0 (len + 1)) ++
        marks.cr :: marks.lf :: [46, 13, 10] := by
      rw [message, Marks.wire, if_neg hx, List.append_nil]
      rfl
    rw [hm, Marks.receive_stuff, hend]
    refine iff_of_true rfl ?_
    by_contra hc
    rw [not_or, not_not, not_not] at hc
    exact h hc

/-- What lies behind the content changes the message exactly where the last byte is a line
feed. -/
theorem message_eq_iff (buf : Mem Byte) (len : Nat) :
    (∀ buf' : Mem Byte, buf'.slice 0 (len + 1) = buf.slice 0 (len + 1) →
        message buf' (len + 1) = message buf (len + 1)) ↔ buf len ≠ 10 := by
  have hat := atStart_slice buf len
  constructor
  · intro h hlf
    -- another byte behind the content, a dot where there was none
    have hw : ∀ x, (buf.write (len + 1) x).slice 0 (len + 1) = buf.slice 0 (len + 1) := fun x =>
      Mem.slice_congr fun i _ hi => Mem.write_other buf x (by omega)
    have h₁ := congrArg List.length (h _ (hw 46))
    have h₂ := congrArg List.length (h _ (hw 0))
    simp only [message, Marks.wire, hw, Mem.write_same, hat.mpr hlf, true_and,
      List.length_append] at h₁ h₂
    have h46 : ((46 : Byte) = marks.dot) := rfl
    have h0 : ¬ ((0 : Byte) = marks.dot) := by decide
    rw [if_pos h46] at h₁
    rw [if_neg h0] at h₂
    simp only [List.length_singleton, List.length_nil] at h₁ h₂
    omega
  · intro hlf buf' hs
    have hn : marks.atStart true (buf.slice 0 (len + 1)) = false :=
      Bool.eq_false_iff.mpr fun h => hlf (hat.mp h)
    simp only [message, Marks.wire, hs, hn, Bool.false_eq_true, false_and, if_false]

/-- **Transparency of the message body.**  `data (buf, len)` sends the DATA line and the message.
The message is received as the content and one line end, ending exactly where `data` has ended it,
if and only if the content does not end with a line feed or no dot lies behind it; and it depends
on what lies there if and only if the content does end with a line feed. -/
theorem data_transparent_iff (K : Kernel κ) {s : Proc Smtpbuf κ} (hw : s.base.obj.Writable)
    (n : Nat) (buf : Mem Byte) {len : Nat} (hlen : 0 < len) :
    Sends K (dataBuf K n (some buf) len) s (ascii "DATA\r\n" ++ message buf len) ∧
    (marks.receive (message buf len) = some (buf.slice 0 len ++ [10], [], []) ↔
      buf (len - 1) ≠ 10 ∨ buf len ≠ 46) ∧
    ((∀ buf' : Mem Byte, buf'.slice 0 len = buf.slice 0 len → message buf' len = message buf len) ↔
      buf (len - 1) ≠ 10) := by
  refine ⟨sends_dataBuf hw n buf hlen, ?_⟩
  obtain ⟨k, rfl⟩ : ∃ k, len = k + 1 := ⟨len - 1, by omega⟩
  exact ⟨receive_message_iff buf k, message_eq_iff buf k⟩

/-- An smtpbuf as constructed, on a connection that accepts everything. -/
def fresh (out : Option (List Byte)) : Proc Smtpbuf (Peer 1024 Unit) :=
  ⟨ofDesc bufsiz 3 (fun _ => 0) (fun _ => 0) out, ⟨⟨[], ()⟩, 0, []⟩⟩

theorem fresh_writable (out : Option (List Byte)) : (fresh out).base.obj.Writable :=
  ofDesc_writable bufsiz 3 (fun _ => 0) (fun _ => 0)

theorem data_transparent_iff_hi :
    Sends (Kernel.smooth 1024) (dataBuf (Kernel.smooth 1024) 0 (some (Mem.store (fun _ => 46) 0 (ascii "hi")))
      (2 : Nat)) (fresh none) (ascii "DATA\r\n" ++ message (Mem.store (fun _ => 46) 0 (ascii "hi")) 2) ∧
    (marks.receive (message (Mem.store (fun _ => 46) 0 (ascii "hi")) 2) =
        some ((Mem.store (fun _ => 46) 0 (ascii "hi")).slice 0 2 ++ [10], [], []) ↔
      Mem.store (fun _ => 46) 0 (ascii "hi") (2 - 1) ≠ 10 ∨
        Mem.store (fun _ => 46) 0 (ascii "hi") 2 ≠ 46) ∧
    ((∀ buf' : Mem Byte, buf'.slice 0 2 = (Mem.store (fun _ => 46) 0 (ascii "hi")).slice 0 2 →
        message buf' 2 = message (Mem.store (fun _ => 46) 0 (ascii "hi")) 2) ↔
      Mem.store (fun _ => 46) 0 (ascii "hi") (2 - 1) ≠ 10) :=
  data_transparent_iff (Kernel.smooth 1024) (fresh_writable none) 0 _ (by decide)

/-- `data ("hi\n", 3)` with a dot behind the buffer: the receiver ends the message at the dot that
was looked ahead to, without the last line end, and takes what is left for something else. -/
theorem data_dot_behind :
    ∃ s', dataBuf (Kernel.smooth 1024) 0 (some (Mem.store (fun _ => 46) 0 (ascii "hi\n"))) 3
        (fresh none) = .ret () s' ∧
      sent s'.base = ascii "DATA\r\nhi\r\n.\r\n.\r\n" ∧
      marks.receive (ascii "hi\r\n.\r\n.\r\n") = some (ascii "hi\n", [[46]], []) ∧
      marks.receive (ascii "hi\r\n.\r\n.\r\n") ≠ some (ascii "hi\n" ++ [10], [], []) := by
  have h := sends_dataBuf (K := Kernel.smooth 1024) (fresh_writable none) 0
    (Mem.store (fun _ => 46) 0 (ascii "hi\n")) (show 0 < 3 by decide)
  obtain ⟨s', hret, hs⟩ := h.sent_fresh (Kernel.smooth_writeSucceeds 1024) rfl rfl rfl
  exact ⟨s', hret, hs, by decide, by decide⟩

/-! ### `data (filename)` -/

/-- Calls of `send_buf`, one after another. -/
def sendBufs (K : Kernel κ) : List (Mem Byte × ℕ+) → SmtpM κ Unit
  | []              => return ()
  | (buf, len) :: l => do
    sendBuf K (some buf) len
    sendBufs K l

/-- What the calls are given, each with the byte behind it. -/
def piecesOf (calls : List (Mem Byte × ℕ+)) : Pieces Byte :=
  calls.map fun c => (c.1.slice 0 c.2, c.1 c.2)

/-- The calls `data (filename)` makes for the chunks it reads into `buf`. -/
def callsFor : Mem Byte → List (Chunk 1024) → List (Mem Byte × ℕ+)
  | _,   []      => []
  | buf, c :: cs =>
    (buf.store 0 c.1, ⟨c.1.length, List.length_pos_iff.mpr c.2.1⟩) :: callsFor (buf.store 0 c.1) cs

theorem puts_sendBufs : ∀ (calls : List (Mem Byte × ℕ+)),
    Puts K (sendBufs K calls) (marks.wires (piecesOf calls)) := by
  intro calls
  induction calls with
  | nil => exact Puts.pure ()
  | cons c calls ih => exact (puts_sendBuf c.1 c.2.pos).bind fun _ => ih

section Frames

variable {R : Proc Sockbuf κ → Proc Sockbuf κ → Prop}

theorem own_doubleDot (h : OwnFrame K R) (buf : Mem Byte) (p : Nat) :
    Prog.Keeps (OnBase R) (doubleDot K buf p) :=
  Prog.Keeps.ite (keeps_inherited (h.sputc 46)) (h.toClosed.onBase.keeps_pure _)

theorem own_sendBuf (h : OwnFrame K R) (buf : Option (Mem Byte)) (len : Int) :
    Prog.Keeps (OnBase R) (sendBuf K buf len) := by
  have hc : Closed (OnBase (β := Smtpbuf) R) := h.toClosed.onBase
  have byte : ∀ c, Prog.Keeps (OnBase R) (sputc K c) := fun c => keeps_inherited (h.sputc c)
  have loop : ∀ (buf : Mem Byte) (k p : Nat), Prog.Keeps (OnBase R) (sendLoop K buf k p) := by
    intro buf k
    induction k with
    | zero => intro p; exact hc.keeps_pure _
    | succ k ih =>
        intro p
        refine hc.keeps_bind (Prog.Keeps.ite ?_ (byte _)) fun _ => ih (p + 1)
        exact hc.keeps_bind (byte 13) fun _ => hc.keeps_bind (byte _) fun _ =>
          own_doubleDot h buf (p + 1)
  cases buf with
  | none => exact hc.keeps_pure _
  | some buf =>
      refine Prog.Keeps.ite (hc.keeps_pure _) ?_
      exact hc.keeps_bind (own_doubleDot h buf 0) fun _ => loop buf _ 0

theorem keeps_sendBuf (h : PutFrame K R) (buf : Option (Mem Byte)) (len : Int) :
    Prog.Keeps (OnBase R) (sendBuf K buf len) := own_sendBuf h.own buf len

theorem keeps_sendCmd (hp : PutFrame K R) (hg : GetFrame K R) (n : Nat) (cmd : List Byte)
    (s p : Option (List Byte)) : Prog.Keeps (OnBase R) (sendCmd K n cmd s p) := by
  have hc : Closed (OnBase (β := Smtpbuf) R) := hp.toClosed.onBase
  have put : ∀ bs, Prog.Keeps (OnBase R) (xsputn K bs) := fun bs =>
    keeps_inherited (keeps_xsputn hp bs)
  have putOpt : ∀ a, Prog.Keeps (OnBase R) (putString K a) := by
    intro a
    cases a with
    | none => exact hc.keeps_pure _
    | some a => exact put a
  refine hc.keeps_bind (put cmd) fun _ => hc.keeps_bind (putOpt s) fun _ => ?_
  refine hc.keeps_bind (putOpt p) fun _ => hc.keeps_bind (put _) fun _ => ?_
  exact hc.keeps_bind (keeps_inherited (keeps_sync hp)) fun _ => keeps_response hg n

end Frames

section File

variable {F : Int}

/-- The file is as it was, seen from a sockbuf on another descriptor. -/
def FileSame (F : Int) (s s' : Proc Sockbuf (κ × Peer 1024 Unit)) : Prop :=
  s.obj.rep.sock ≠ F → s'.obj.rep = s.obj.rep ∧ s'.sys.kern.2 = s.sys.kern.2

theorem fileSame_closed (F : Int) : Closed (FileSame (κ := κ) F) := by
  refine ⟨fun s _ => ⟨rfl, rfl⟩, fun s s₁ s' h h' hs => ?_⟩
  obtain ⟨hr, hk⟩ := h hs
  obtain ⟨hr', hk'⟩ := h' (by rw [hr]; exact hs)
  exact ⟨hr'.trans hr, hk'.trans hk⟩

theorem fileSame_enter {s : Proc Sockbuf (κ × Peer 1024 Unit)} {y : Sys (κ × Peer 1024 Unit)}
    {k : κ × Peer 1024 Unit} (hk : y.kern = k) (h : k.2 = s.sys.kern.2) :
    FileSame F s { s with sys := y } := fun _ => ⟨rfl, by rw [← h, ← hk]⟩

theorem putFrame_fileSame (K : Kernel κ) (F : Int) : PutFrame (K.withFile F) (FileSame F) where
  toClosed := fileSame_closed F
  write _ _ := keeps_writeCall fun _ _ _ hk _ => fileSame_enter hk rfl
  selectWrite _ _ := keeps_answer fun _ _ _ hk _ => fileSame_enter hk rfl
  put _ _ _ := ⟨rfl, rfl⟩

theorem getFrame_fileSame (K : Kernel κ) (F : Int) : GetFrame (K.withFile F) (FileSame F) where
  toClosed := fileSame_closed F
  read _ _ := leaves_readCall fun _ _ hk _ hs => ⟨rfl, by
    have := congrArg Prod.snd hk
    simpa only [Kernel.withFile, if_neg hs] using this⟩
  selectRead _ _ := keeps_answer fun _ _ _ hk _ => fileSame_enter hk rfl
  sockatmark _ := keeps_answer fun _ _ _ hk _ => fileSame_enter hk rfl
  get _ _ _ := ⟨rfl, rfl⟩

/-- The connection is open for output, and `cs` is what reading the file on `F` will give. -/
structure Reading (F : Int) (cs : List (Chunk 1024)) (s : Proc Smtpbuf (κ × Peer 1024 Unit)) :
    Prop where
  writable : s.base.obj.Writable
  sock     : s.base.obj.rep.sock ≠ F
  chunks   : s.sys.kern.2.inbox = cs

/-- One round: the next chunk goes to `send_buf`. -/
theorem fileBody_sat {c : Chunk 1024} {cs : List (Chunk 1024)} (buf : Mem Byte)
    {s : Proc Smtpbuf (κ × Peer 1024 Unit)} (h : Reading F (c :: cs) s) :
    (fileBody (K.withFile F) F buf s).Sat
      (fun r s' => r = .inl (buf.store 0 c.1) ∧ Reading F cs s' ∧
        Put s s' (marks.wire c.1 (buf.store 0 c.1 c.1.length)))
      (fun _ _ => ¬ (K.withFile F).WriteSucceeds) := by
  obtain ⟨c, hne, hle⟩ := c
  obtain ⟨b, bs, rfl⟩ := List.exists_cons_of_ne_nil hne
  obtain ⟨y, hc, ht, hk⟩ : ∃ y, call (Sys.read (K.withFile F) F 1024) s =
      .ret (some (b :: bs)) { s with sys := y } ∧
      y.trace = s.sys.trace ++ [.read F 1024 (some (b :: bs))] ∧ y.kern.2.inbox = cs := by
    have hle' : bs.length + 1 ≤ 1024 := hle
    refine ⟨s.sys.enter (s.sys.kern.1, { s.sys.kern.2 with inbox := cs })
      (.read F 1024 (some (b :: bs))), ?_, rfl, rfl⟩
    simp [call, Sys.read, Kernel.withFile, Peer.take, h.chunks, hle']
  have h₁ := put_of_call h.writable ht rfl
  have hsend := puts_sendBuf (K := K.withFile F) (buf.store 0 (b :: bs))
    (List.length_pos_iff.mpr hne) _ h₁.moved.writable
  have hfile := keeps_sendBuf (putFrame_fileSame K F) (some (buf.store 0 (b :: bs)))
    (b :: bs).length { s with sys := y }
  simp only [fileBody, Prog.bind_apply, hc, Outcome.andThen_ret]
  refine (hsend.and_leaves hfile).andThen ?_ fun _ _ h => h.1
  rintro _ s' ⟨h₂, hsame⟩
  obtain ⟨hrep, hkern⟩ := hsame h.sock
  rw [Mem.slice_store] at h₂
  refine ⟨rfl, ⟨h₂.moved.writable, by rw [hrep]; exact h.sock, ?_⟩, h₁.trans h₂⟩
  rw [← hk]
  exact congrArg Peer.inbox hkern

/-- **The loop of `data (filename)`** makes one call of `send_buf` for each chunk. -/
theorem fileLoop_sat : ∀ (cs : List (Chunk 1024)) (buf : Mem Byte) (n : Nat)
    {s : Proc Smtpbuf (κ × Peer 1024 Unit)}, cs.length < n → Reading F cs s →
    (Prog.loop (fileBody (K.withFile F) F) n buf s).Sat
      (fun _ s' => Put s s' (marks.wires (piecesOf (callsFor buf cs))))
      (fun _ _ => ¬ (K.withFile F).WriteSucceeds) := by
  intro cs
  induction cs with
  | nil =>
      intro buf n s hn h
      obtain ⟨n, rfl⟩ := Nat.exists_eq_succ_of_ne_zero (Nat.ne_of_gt hn)
      have hb : fileBody (K.withFile F) F buf s = .ret (.inr ())
          { s with sys := s.sys.enter s.sys.kern (.read F 1024 (some [])) } := by
        simp [fileBody, call, Sys.read, Kernel.withFile, Peer.take, h.chunks]
      rw [Prog.loop_inr n hb]
      exact put_of_call h.writable rfl rfl
  | cons c cs ih =>
      intro buf n s hn h
      obtain ⟨n, rfl⟩ := Nat.exists_eq_succ_of_ne_zero (Nat.ne_of_gt (Nat.zero_lt_of_lt hn))
      rw [Prog.loop_succ]
      refine (fileBody_sat buf h).andThen ?_ fun _ _ h => h
      rintro _ s₁ ⟨rfl, hr, h₁⟩
      refine (ih (buf.store 0 c.1) n (Nat.lt_of_succ_lt_succ hn) hr).mono ?_ fun _ _ h => h
      intro _ s' h₂
      have hp : piecesOf (callsFor buf (c :: cs)) = (c.1, buf.store 0 c.1 c.1.length) ::
          piecesOf (callsFor (buf.store 0 c.1) cs) := by
        simp [piecesOf, callsFor, Mem.slice_store]
      rw [hp, Marks.wires_cons]
      exact h₁.trans h₂

/-- `data (filename)` sends the DATA line, what the calls of `send_buf` put, and the end. -/
theorem sends_dataFile {filename : Option String} (hF : filename = none → F = 0) (buf : Mem Byte)
    {cs : List (Chunk 1024)} {n : Nat} (hn : cs.length < n)
    {s : Proc Smtpbuf (κ × Peer 1024 Unit)} (h : Reading F cs s) :
    Sends (K.withFile F) (dataFile (K.withFile F) n filename buf) s
      (ascii "DATA\r\n" ++ (marks.wires (piecesOf (callsFor buf cs)) ++ [13, 10, 46, 13, 10])) := by
  refine (sends_data h.writable n).bind fun s₁ h₁ => ?_
  have hfile : FileSame F s.base s₁.base :=
    (keeps_sendCmd (putFrame_fileSame K F) (getFrame_fileSame K F) n _ none none).ret h₁
  obtain ⟨hrep, hkern⟩ := hfile h.sock
  have hr : Reading F cs s₁ := by
    refine ⟨((sends_data h.writable n).returned s₁ h₁).writable, by rw [hrep]; exact h.sock, ?_⟩
    rw [← h.chunks]
    exact congrArg Peer.inbox hkern
  have hopen : (openFile (K.withFile F) filename s₁).Sat
      (fun fd s₂ => fd = F ∧ Reading F cs s₂ ∧ Put s₁ s₂ []) fun _ _ => False := by
    cases filename with
    | none => exact ⟨(hF rfl).symm, hr, .refl hr.writable⟩
    | some path => exact ⟨rfl, ⟨hr.writable, hr.sock, hr.chunks⟩, put_of_call hr.writable rfl rfl⟩
  have hput : ((openFile (K.withFile F) filename >>= fun fd =>
      Prog.loop (fileBody (K.withFile F) fd) n buf >>= fun _ =>
      xsputn (K.withFile F) [13, 10, 46, 13, 10]) s₁).Sat
      (fun _ s' => Put s₁ s' (marks.wires (piecesOf (callsFor buf cs)) ++ [13, 10, 46, 13, 10]))
      (fun _ _ => ¬ (K.withFile F).WriteSucceeds) := by
    refine hopen.andThen ?_ fun _ _ h => h.elim
    rintro _ s₂ ⟨rfl, hr₂, h₂⟩
    refine (fileLoop_sat cs buf n hn hr₂).andThen (fun _ s₃ h₃ => ?_) fun _ _ h => h
    refine (puts_xsputn _ s₃ h₃.moved.writable).mono (fun _ s' h₄ => ?_) fun _ _ h => h
    exact h₂.trans (h₃.trans h₄)
  have := sends_putThenResponse hput n
  simp only [putThenResponse, Prog.bind_assoc] at this
  exact this

/-- **Sending a body in pieces.**  Calls of `send_buf` with non-empty pieces put on the wire what
one call with the whole content does if and only if the pieces are seamless; and the calls that
`data (filename)` makes for the chunks of a file are all it puts between the DATA line and the
end. -/
theorem sendBufs_eq_sendBuf_iff (K : Kernel κ) (calls : List (Mem Byte × ℕ+)) (hne : calls ≠ [])
    (whole : Mem Byte)
    (hw : whole.slice 0 (piecesOf calls).whole.length = (piecesOf calls).whole) :
    Puts K (sendBufs K calls) (marks.wires (piecesOf calls)) ∧
    Puts K (sendBuf K (some whole) (piecesOf calls).whole.length)
      (marks.wire (piecesOf calls).whole (whole (piecesOf calls).whole.length)) ∧
    (marks.wires (piecesOf calls) =
        marks.wire (piecesOf calls).whole (whole (piecesOf calls).whole.length) ↔
      marks.Seamless (whole (piecesOf calls).whole.length) (piecesOf calls)) ∧
    ∀ (F : Int) (filename : Option String) (buf : Mem Byte) (cs : List (Chunk 1024)) (n : Nat)
      (s : Proc Smtpbuf (κ × Peer 1024 Unit)), (filename = none → F = 0) → cs.length < n →
      Reading F cs s → callsFor buf cs = calls →
      Sends (K.withFile F) (dataFile (K.withFile F) n filename buf) s
        (ascii "DATA\r\n" ++ (marks.wires (piecesOf calls) ++ [13, 10, 46, 13, 10])) := by
  obtain ⟨c, calls, rfl⟩ := List.exists_cons_of_ne_nil hne
  have hp : ∀ q ∈ piecesOf (c :: calls), q.1 ≠ [] := by
    intro q hq
    obtain ⟨d, -, rfl⟩ := List.mem_map.mp hq
    rw [← List.length_pos_iff, Mem.length_slice]
    exact d.2.pos
  have hpos : 0 < (piecesOf (c :: calls)).whole.length :=
    List.length_pos_of_ne_nil (Pieces.whole_ne_nil (hp _ List.mem_cons_self))
  refine ⟨puts_sendBufs (c :: calls), ?_, Marks.wires_eq_wire_iff hp, ?_⟩
  · have h := puts_sendBuf (K := K) whole hpos
    rwa [hw] at h
  · rintro F filename buf cs n s hF hn hr hc
    rw [← hc]
    exact sends_dataFile hF buf hn hr

/-- A cut behind a line feed, with no dot behind it in the buffer, is seamless. -/
theorem sendBufs_eq_sendBuf_iff_lines :
    let calls : List (Mem Byte × ℕ+) :=
      [(Mem.store (fun _ => 0) 0 (ascii "a\n"), 2), (Mem.store (fun _ => 0) 0 (ascii ".b"), 2)]
    let whole : Mem Byte := Mem.store (fun _ => 0) 0 (ascii "a\n.b")
    let K := Kernel.smooth 1024
    Puts K (sendBufs K calls) (marks.wires (piecesOf calls)) ∧
    Puts K (sendBuf K (some whole) (piecesOf calls).whole.length)
      (marks.wire (piecesOf calls).whole (whole (piecesOf calls).whole.length)) ∧
    (marks.wires (piecesOf calls) =
        marks.wire (piecesOf calls).whole (whole (piecesOf calls).whole.length) ↔
      marks.Seamless (whole (piecesOf calls).whole.length) (piecesOf calls)) ∧
    ∀ (F : Int) (filename : Option String) (buf : Mem Byte) (cs : List (Chunk 1024)) (n : Nat)
      (s : Proc Smtpbuf (Peer 1024 Unit × Peer 1024 Unit)), (filename = none → F = 0) →
      cs.length < n → Reading F cs s → callsFor buf cs = calls →
      Sends (K.withFile F) (dataFile (K.withFile F) n filename buf) s
        (ascii "DATA\r\n" ++ (marks.wires (piecesOf calls) ++ [13, 10, 46, 13, 10])) :=
  sendBufs_eq_sendBuf_iff (Kernel.smooth 1024) _ (by decide) _ (by decide)

/-- An smtpbuf as constructed, and a file on the descriptor 4 that is read in the given chunks. -/
def freshWithFile (cs : List (Chunk 1024)) : Proc Smtpbuf (Peer 1024 Unit × Peer 1024 Unit) :=
  ⟨ofDesc bufsiz 3 (fun _ => 0) (fun _ => 0) none, ⟨(⟨[], ()⟩, ⟨cs, ()⟩), 0, []⟩⟩

theorem freshWithFile_reading (cs : List (Chunk 1024)) : Reading 4 cs (freshWithFile cs) :=
  ⟨ofDesc_writable bufsiz 3 (fun _ => 0) (fun _ => 0), show (3 : Int) ≠ 4 by decide, rfl⟩

/-- The content `a.b`, cut before the dot. -/
def cutBeforeDot : List (Chunk 1024) := [⟨ascii "a", by decide⟩, ⟨ascii ".b", by decide⟩]

/-- Sent from such a file, it has a second dot inside the line. -/
theorem dataFile_cut_before_dot :
    (∃ s', dataFile ((Kernel.smooth 1024).withFile 4) 3 (some "mail") (fun _ => 0)
        (freshWithFile cutBeforeDot) = .ret () s' ∧
      sent s'.base = ascii "DATA\r\na..b\r\n.\r\n") ∧
    ∃ s', dataBuf (Kernel.smooth 1024) 3 (some (Mem.store (fun _ => 0) 0 (ascii "a.b"))) 3
        (fresh none) = .ret () s' ∧
      sent s'.base = ascii "DATA\r\na.b\r\n.\r\n" := by
  constructor
  · have hK := Kernel.withFile_writeSucceeds (Kernel.smooth_writeSucceeds 1024) 4
    refine Sends.sent_fresh ?_ hK rfl rfl rfl
    have hx : ascii "DATA\r\na..b\r\n.\r\n" = ascii "DATA\r\n" ++
        (marks.wires (piecesOf (callsFor (fun _ => 0) cutBeforeDot)) ++ [13, 10, 46, 13, 10]) := by
      decide
    rw [hx]
    exact sends_dataFile (by simp) (fun _ => 0) (Nat.lt_succ_self 2)
      (freshWithFile_reading cutBeforeDot)
  · refine Sends.sent_fresh ?_ (Kernel.smooth_writeSucceeds 1024) rfl rfl rfl
    exact sends_dataBuf (fresh_writable none) 3 _ (show 0 < 3 by decide)

end File

end Smtpbuf

end Socketpp
