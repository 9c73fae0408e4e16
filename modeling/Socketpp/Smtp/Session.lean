import Socketpp.Lib.Dialogue
import Socketpp.Protocol.Commands

/-!
# Smtp — sessions

A session is any list of calls on an smtpbuf.  The class looks at no reply: it copies them to a stream,
if it is given one, and goes on.  In particular `data (buf, len)` sends the message whether the server has
accepted DATA or not.

`session_received_iff` says what a server makes of the bytes, whatever it decides: it receives what the
calls mean, at the end of each call, exactly when it takes a body for the DATA of each `data` and for no
other command.  Where it refuses a DATA, it takes the lines of the message for commands.
-/

namespace Socketpp
open Lib

section

variable {κ : Type} {s s₁ s' : Proc Sockbuf κ} {xs : List Byte}

/-- Nothing sent, with nothing pending. -/
theorem Flushed.nothing (hw : s.obj.Writable) (hp : s.obj.pending = []) : Flushed s s [] :=
  ⟨hw, rfl, hp, by rw [hp, List.append_nil, List.append_nil]⟩

/-- What is flushed behind something that leaves the put side. -/
theorem Flushed.behind (h : Flushed s₁ s' xs) (hsame : Sockbuf.PutSame s s₁) : Flushed s s' xs := by
  have hpending : s₁.obj.pending = s.obj.pending := by
    rw [Sockbuf.pending, Sockbuf.pending, hsame.putArea]
  have hsent : Sockbuf.sent s₁ = Sockbuf.sent s := by
    rw [Sockbuf.sent, Sockbuf.sent, hsame.rep]
    exact hsame.sent _
  exact ⟨h.writable, h.rep.trans hsame.rep, h.pending, by rw [h.sent, hsent, hpending]⟩

end

namespace Smtpbuf
open Sockbuf

variable {κ : Type} {K : Kernel κ}

/-! ### Calls -/

/-- The calls of a session.  `name` is what `localhost ()` gives. -/
inductive Call where
  | helo (name : List Byte)
  | method (m : Method) (arg : Option (List Byte))
  | rset
  | noop
  | quit
  | turn
  | data (buf : Option (Mem Byte)) (len : Int)

/-- What a call without an argument means. -/
def Method.bare : Method → Parcel Byte
  | rcpt => .nothing
  | mail => .command (ascii "MAIL FROM:<>")
  | m    => .command m.verb

/-- What a call of such a method means. -/
def Method.parcel (m : Method) : Option (List Byte) → Parcel Byte
  | none     => m.bare
  | some arg => .command (m.commandLine arg)

namespace Call

def exec (K : Kernel κ) (n : Nat) : Call → SmtpM κ Unit
  | helo name    => Smtpbuf.helo K n name
  | method m arg => m.call K n arg
  | rset         => Smtpbuf.rset K n
  | noop         => Smtpbuf.noop K n
  | quit         => Smtpbuf.quit K n
  | turn         => Smtpbuf.turn K n
  | data buf len => dataBuf K n buf len

/-- The content of the message that `data (buf, len)` is given. -/
def content : Option (Mem Byte) → Int → List Byte
  | none,     _   => []
  | some buf, len => buf.slice 0 len.toNat

/-- What it sends behind the DATA line. -/
def body : Option (Mem Byte) → Int → List Byte
  | none,     _   => [13, 10, 46, 13, 10]
  | some buf, len => if len ≤ 0 then [13, 10, 46, 13, 10] else message buf len.toNat

/-- What a call means, with the lines it sends. -/
def parcel : Call → Parcel Byte
  | helo name    => .command (ascii "HELO " ++ name)
  | method m arg => m.parcel arg
  | rset         => .command (ascii "RSET")
  | noop         => .command (ascii "NOOP")
  | quit         => .command (ascii "QUIT")
  | turn         => .command (ascii "TURN")
  | data buf len => .body (ascii "DATA") (content buf len ++ [10]) (eol.split (body buf len)).1

/-- The bytes of a call. -/
def wire (c : Call) : List Byte :=
  match c with
  | data buf len => ascii "DATA\r\n" ++ body buf len
  | c            => c.parcel.lines.flatMap fun l => l ++ [13, 10]

/-- There is no line end in the argument; and `data` finds no dot behind a final line feed. -/
def Clean : Call → Prop
  | helo name           => eol.lineEnd name = none
  | method _ (some arg) => eol.lineEnd arg = none
  | data (some buf) len => 0 < len → buf (len.toNat - 1) ≠ 10 ∨ buf len.toNat ≠ 46
  | _                   => True

/-! ### One call -/

/-- The body is received as the content and one line end. -/
theorem receive_body {buf : Option (Mem Byte)} {len : Int} (h : (data buf len).Clean) :
    marks.receive (body buf len) = some (content buf len ++ [10], [], []) := by
  have hnil : marks.receive [13, 10, 46, 13, 10] = some ([10], [], []) := by decide
  cases buf with
  | none => exact hnil
  | some buf =>
      by_cases h0 : len ≤ 0
      · rw [body, if_pos h0, hnil, content, show len.toNat = 0 by omega, Mem.slice_zero]
        rfl
      · obtain ⟨k, hk⟩ : ∃ k, len.toNat = k + 1 := ⟨len.toNat - 1, by omega⟩
        have hclean := h (by omega)
        rw [hk, Nat.add_sub_cancel] at hclean
        rw [body, if_neg h0, content, hk]
        exact (receive_message_iff buf k).mpr hclean

theorem text_body {buf : Option (Mem Byte)} {len : Int} (h : (data buf len).Clean) :
    marks.text (eol.split (body buf len)).1 = some (content buf len ++ [10], []) ∧
      (eol.split (body buf len)).2 = [] := by
  obtain ⟨⟨text, rest⟩, htext, heq⟩ := Option.map_eq_some_iff.mp (receive_body h)
  simp only [Prod.mk.injEq] at heq
  obtain ⟨rfl, rfl, hrest⟩ := heq
  exact ⟨htext, hrest⟩

theorem sound_parcel {c : Call} (h : c.Clean) : c.parcel.Sound marks := by
  cases c with
  | data buf len => exact (text_body h).1
  | method m arg => cases m <;> cases arg <;> trivial
  | helo | rset | noop | quit | turn => trivial

/-- A server that splits the bytes of a call at the line ends sees its lines. -/
theorem split_wire {c : Call} (h : c.Clean) : eol.split c.wire = (c.parcel.lines, []) := by
  have one : ∀ l : List Byte, eol.lineEnd l = none →
      eol.split ([l].flatMap fun l => l ++ [13, 10]) = ([l], []) := by
    intro l hl
    rw [List.flatMap_singleton]
    exact Eol.split_line_iff.mpr hl
  cases c with
  | data buf len =>
      have hsplit := Eol.split_line (E := eol) (t := ascii "DATA") (by decide) (body buf len)
      rw [(text_body h).2] at hsplit
      exact hsplit
  | helo name => exact one _ ((Eol.lineEnd_append_iff (by decide) name).mpr h)
  | method m arg =>
      cases arg with
      | some arg => exact one _ ((m.lineEnd_commandLine arg).mpr h)
      | none =>
          cases m with
          | rcpt => rfl
          | vrfy | expn | help | mail => exact one _ (by decide)
  | rset | noop | quit | turn => exact one _ (by decide)

theorem puts_body (buf : Option (Mem Byte)) (len : Int) :
    Puts K (sendBuf K buf len >>= fun _ => xsputn K [13, 10, 46, 13, 10]) (body buf len) := by
  cases buf with
  | none => exact (Puts.pure ()).bind fun _ => puts_xsputn [13, 10, 46, 13, 10]
  | some buf =>
      by_cases h0 : len ≤ 0
      · rw [body, if_pos h0]
        simp only [sendBuf, h0, if_true]
        exact (Puts.pure ()).bind fun _ => puts_xsputn [13, 10, 46, 13, 10]
      · obtain ⟨k, rfl⟩ : ∃ k : Nat, len = k := ⟨len.toNat, by omega⟩
        rw [body, if_neg h0, Int.toNat_natCast, message]
        exact (puts_sendBuf buf (by omega)).bind fun _ => puts_xsputn _

theorem sends_data_body {s : Proc Smtpbuf κ} (hw : s.base.obj.Writable) (n : Nat)
    (buf : Option (Mem Byte)) (len : Int) :
    Sends K (dataBuf K n buf len) s (ascii "DATA\r\n" ++ body buf len) := by
  refine (sends_data hw n).bind fun s₁ h₁ => ?_
  have := sends_putThenResponse (puts_body (K := K) buf len s₁ ((sends_data hw n).returned s₁ h₁).writable) n
  simp only [putThenResponse, Prog.bind_assoc] at this
  exact this

/-- `helo` reads the greeting first, where it reads replies. -/
theorem sends_helo {s : Proc Smtpbuf κ} (hw : s.base.obj.Writable) (n : Nat) (name : List Byte) :
    Sends K (Smtpbuf.helo K n name) s (ascii "HELO " ++ name ++ [13, 10]) := by
  have hcmd : ∀ {s₁ : Proc Smtpbuf κ}, s₁.base.obj.Writable →
      Sends K (sendCmd K n (ascii "HELO ") (some name) none) s₁ (ascii "HELO " ++ name ++ [13, 10]) := by
    intro s₁ hw₁
    rw [List.append_assoc]
    exact sends_sendCmd hw₁ n (ascii "HELO ") (some name) none
  constructor
  · intro s' hret
    obtain ⟨_, s₁, h₁, h₂⟩ := Prog.bind_eq_ret hret
    have hsame : PutSame s.base s₁.base := (keeps_response (getFrame_putSame K) n).ret h₁
    exact ((hcmd (writable_of_putSame hsame hw)).returned s' h₂).behind hsame
  · intro hK hn
    rw [Smtpbuf.helo, Prog.bind_of_ret (response_of_none hn n)]
    exact (hcmd hw).returns hK hn

/-- **A call** sends its bytes. -/
theorem sends_exec (c : Call) {s : Proc Smtpbuf κ} (hw : s.base.obj.Writable)
    (hp : s.base.obj.pending = []) (n : Nat) : Sends K (c.exec K n) s c.wire := by
  have cmd : ∀ (verb : List Byte) (a p : Option (List Byte)) (w : List Byte),
      w = verb ++ (a.getD [] ++ (p.getD [] ++ [13, 10])) → Sends K (sendCmd K n verb a p) s w := by
    rintro verb a p w rfl
    exact sends_sendCmd hw n verb a p
  cases c with
  | helo name =>
      have heq : wire (helo name) = ascii "HELO " ++ name ++ [13, 10] := List.flatMap_singleton _ _
      exact heq ▸ sends_helo hw n name
  | method m arg =>
      cases arg with
      | some arg =>
          have heq : wire (method m (some arg)) = m.commandLine arg ++ [13, 10] := List.flatMap_singleton _ _
          rw [heq, exec, Method.call_eq]
          exact cmd _ _ _ _ (by simp [Method.commandLine])
      | none =>
          cases m with
          | rcpt => exact ⟨fun s' h => by cases h; exact .nothing hw hp, fun _ _ => ⟨s, rfl, .refl s⟩⟩
          | vrfy => exact cmd _ _ _ _ rfl
          | expn => exact cmd _ _ _ _ rfl
          | help => exact cmd _ _ _ _ rfl
          | mail => exact cmd _ _ _ _ rfl
  | data buf len => exact sends_data_body hw n buf len
  | rset => exact cmd _ _ _ _ rfl
  | noop => exact cmd _ _ _ _ rfl
  | quit => exact cmd _ _ _ _ rfl
  | turn => exact cmd _ _ _ _ rfl

end Call

/-! ### Sessions -/

/-- The calls, one after another. -/
def session (K : Kernel κ) (n : Nat) : List Call → SmtpM κ Unit
  | []      => return ()
  | c :: cs => do
    c.exec K n
    session K n cs

/-- The bytes of a session. -/
def wires (cs : List Call) : List Byte := cs.flatMap Call.wire

/-- What a session means. -/
def means (cs : List Call) : List (Item Byte) := cs.flatMap fun c => c.parcel.items

/-- **A session** sends the bytes of its calls, and waits for no reply where it reads none. -/
theorem sends_session (n : Nat) : ∀ (cs : List Call) {s : Proc Smtpbuf κ}, s.base.obj.Writable →
    s.base.obj.pending = [] → Sends K (session K n cs) s (wires cs) := by
  intro cs
  induction cs with
  | nil => exact fun {s} hw hp => ⟨fun s' h => by cases h; exact .nothing hw hp, fun _ _ => ⟨s, rfl, .refl s⟩⟩
  | cons c cs ih =>
      intro s hw hp
      have hc := c.sends_exec (K := K) hw hp n
      refine hc.bind fun s₁ h₁ => ?_
      obtain ⟨hw₁, -, hp₁, -⟩ := hc.returned s₁ h₁
      exact ih hw₁ hp₁

theorem split_wires : ∀ {cs : List Call}, (∀ c ∈ cs, c.Clean) →
    eol.split (wires cs) = ((cs.map Call.parcel).flatMap Parcel.lines, [])
  | [],      _ => rfl
  | c :: cs, h => by
      have hc := Call.split_wire (h c List.mem_cons_self)
      have hcs := split_wires fun c' hc' => h c' (List.mem_cons_of_mem c hc')
      rw [wires, List.flatMap_cons, Eol.split_append (congrArg Prod.snd hc), ← wires, hcs, hc]
      rfl

theorem means_eq (cs : List Call) : (cs.map Call.parcel).flatMap Parcel.items = means cs := by
  rw [means, List.flatMap_map]

/-- **Sessions.**  A session of any calls with clean arguments sends their bytes.  The server may decide
in any way which commands are followed by a body.  It has received what the calls mean, and nothing
else, at the end of each of them, exactly when it takes a body for the DATA of each `data` and for no
other command. -/
theorem session_received_iff (K : Kernel κ) {s : Proc Smtpbuf κ} (hw : s.base.obj.Writable)
    (hp : s.base.obj.pending = []) (n : Nat) {cs : List Call} (hclean : ∀ c ∈ cs, c.Clean) :
    Sends K (session K n cs) s (wires cs) ∧ ∀ P : Policy Byte,
      (∀ done, done <+: cs → Receiver.receive marks P (wires done) = (⟨means done, none⟩, [])) ↔
        Parcel.Opens P [] (cs.map Call.parcel) := by
  refine ⟨sends_session n cs hw hp, fun P => ?_⟩
  have hsound : ∀ p ∈ cs.map Call.parcel, p.Sound marks := by
    intro p hpm
    obtain ⟨c, hc, rfl⟩ := List.mem_map.mp hpm
    exact Call.sound_parcel (hclean c hc)
  rw [← Parcel.received_iff hsound]
  have hreceive : ∀ done, done <+: cs → Receiver.receive marks P (wires done) =
      (Receiver.lines marks P ⟨[], none⟩ ((done.map Call.parcel).flatMap Parcel.lines), []) := by
    intro done hdone
    have hsplit := split_wires fun c hc => hclean c (hdone.subset hc)
    rw [Receiver.receive, show marks.split (wires done) = _ from hsplit]
    rfl
  constructor
  · intro hall ps hps
    obtain ⟨k, rfl⟩ : ∃ k, ps = (cs.take k).map Call.parcel :=
      ⟨ps.length, by rw [List.map_take]; exact List.prefix_iff_eq_take.mp hps⟩
    have hk := hall (cs.take k) (List.take_prefix k cs)
    rw [hreceive _ (List.take_prefix k cs)] at hk
    rw [means_eq]
    exact congrArg Prod.fst hk
  · intro hall done hdone
    rw [hreceive done hdone, hall (done.map Call.parcel) (hdone.map Call.parcel), means_eq]
    rfl

/-- A message between two commands. -/
def letter : List Call :=
  [.method .mail (some (ascii "a")), .data (some (Mem.store (fun _ => 0) 0 (ascii "RSET"))) 4, .quit]

theorem letter_clean : ∀ c ∈ letter, c.Clean := by
  intro c hc
  rcases List.mem_cons.mp hc with rfl | hc
  · exact show eol.lineEnd (ascii "a") = none by decide
  · rcases List.mem_cons.mp hc with rfl | hc
    · exact fun _ => .inl (by decide)
    · rw [List.mem_singleton.mp hc]
      trivial

theorem session_received_iff_letter :
    Sends (Kernel.smooth 1024) (session (Kernel.smooth 1024) 0 letter) (fresh none) (wires letter) ∧
      ∀ P : Policy Byte,
        (∀ done, done <+: letter → Receiver.receive marks P (wires done) = (⟨means done, none⟩, [])) ↔
          Parcel.Opens P [] (letter.map Call.parcel) :=
  session_received_iff (Kernel.smooth 1024) (fresh_writable none) rfl 0 letter_clean

/-- A server that refuses the DATA takes the message for a command. -/
example : Receiver.receive marks (fun _ _ => false) (wires letter) =
    (⟨[.command (ascii "MAIL FROM:<a>"), .command (ascii "DATA"), .command (ascii "RSET"),
      .command (ascii "."), .command (ascii "QUIT")], none⟩, []) := by
  decide

end Smtpbuf

end Socketpp
