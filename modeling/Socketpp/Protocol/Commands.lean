import Socketpp.Ftp.Eof
import Socketpp.Smtp.Body

/-!
# Protocol — commands

What one `send_cmd` puts on the wire: the verb, the argument as it is given, and CR LF, behind what
a flush that failed before has left pending.  Neither class looks into the argument.  So with nothing
pending, a server that splits the bytes at CR LF sees one command, the verb with the whole argument,
exactly when there is no CR LF in the argument (`one_command_iff`); an argument with one in it is a
way to send a second command.
-/

namespace Socketpp
open Lib Sockbuf

section Hands

variable {β κ α γ : Type} [Derived β] {K : Kernel κ}

/-- The call `p`, with any number of iterations to wait for a reply, hands over `w`: it puts `w`
behind what is pending and flushes, which throws only if a write fails; and from then on (`wait`) it hands
nothing over. -/
structure Hands (K : Kernel κ) (p : Nat → Prog Thrown (Proc β κ) α) (s : Proc β κ)
    (w : List Byte) : Prop where
  returned : ∀ n a s', p n s = .ret a s' → Flushed s.base s'.base w
  waits : ∃ (flush : Prog Thrown (Proc β κ) Int) (wait : Nat → Prog Thrown (Proc β κ) α),
    (∀ n, p n s = (flush >>= fun _ => wait n) s) ∧
      (flush s).Sat (fun _ t => Flushed s.base t.base w) (fun _ _ => ¬ K.WriteSucceeds) ∧
      ∀ n, Prog.Keeps (OnBase PutSame) (wait n)

/-- Something put and flushed, and then a wait. -/
theorem hands_flush {p : Prog Thrown (Proc β κ) γ} {wait : Nat → Prog Thrown (Proc β κ) α}
    {w : List Byte} (hp : Puts K p w) (hwait : ∀ n, Prog.Keeps (OnBase PutSame) (wait n))
    {s : Proc β κ} (hw : s.base.obj.Writable) :
    Hands K (fun n => p >>= fun _ => inherited (Sockbuf.sync K) >>= fun _ => wait n) s w := by
  have hflush : ((p >>= fun _ => inherited (Sockbuf.sync K)) s).Sat
      (fun _ t => Flushed s.base t.base w) fun _ _ => ¬ K.WriteSucceeds := by
    refine (hp s hw).andThen (fun _ s₁ h₁ => ?_) fun _ _ h => h
    refine (sync_flushes h₁.moved.writable).mono (fun _ t h₂ => ?_) fun _ _ h => h
    simpa only [List.append_nil] using (h₁.trans h₂.1).flushed h₂.2
  have hsplit : ∀ n, (p >>= fun _ => inherited (Sockbuf.sync K) >>= fun _ => wait n) =
      (p >>= fun _ => inherited (Sockbuf.sync K)) >>= fun _ => wait n := fun n => (Prog.bind_assoc _ _ _).symm
  refine ⟨fun n a s' hret => ?_, _, wait, fun n => congrFun (hsplit n) s, hflush, hwait⟩
  rw [hsplit n] at hret
  obtain ⟨v, t, hboth, hrest⟩ := Prog.bind_eq_ret hret
  exact (hflush.ret hboth).same ((hwait n).ret hrest)

/-- The call `p`, begun with nothing pending, hands over `w` and nothing else, unless a write fails, and
waits. -/
structure Sends (K : Kernel κ) (p : Nat → Prog Thrown (Proc β κ) α) (s : Proc β κ)
    (w : List Byte) : Prop where
  returned : ∀ n a s', p n s = .ret a s' → sent s'.base = sent s.base ++ w
  waits : ∃ (flush : Prog Thrown (Proc β κ) Int) (wait : Nat → Prog Thrown (Proc β κ) α),
    (∀ n, p n s = (flush >>= fun _ => wait n) s) ∧
      (flush s).Sat (fun _ t => sent t.base = sent s.base ++ w ∧ t.base.obj.pending = [])
        (fun _ _ => ¬ K.WriteSucceeds) ∧
      ∀ n, Prog.Keeps (OnBase PutSame) (wait n)

theorem Flushed.sent_alone {t t' : Proc Sockbuf κ} {w : List Byte} (h : Flushed t t' w)
    (h0 : t.obj.pending = []) : Sockbuf.sent t' = Sockbuf.sent t ++ w := by
  rw [h.sent, h0, List.append_nil]

theorem Hands.sends {p : Nat → Prog Thrown (Proc β κ) α} {s : Proc β κ} {w : List Byte}
    (h : Hands K p s w) (h0 : s.base.obj.pending = []) : Sends K p s w := by
  refine ⟨fun n a s' hret => (h.returned n a s' hret).sent_alone h0, ?_⟩
  obtain ⟨flush, wait, hp, hflush, hwait⟩ := h.waits
  exact ⟨flush, wait, hp, hflush.mono (fun _ t ht => ⟨ht.sent_alone h0, ht.pending⟩) fun _ _ h => h, hwait⟩

end Hands

/-! ### Ftp -/

namespace Ftpbuf

variable {κ : Type} {K : Kernel κ}

/-- The commands the source hands to `send_cmd` with an argument, those of `ftpdata` included. -/
def verbs : List (List Byte) :=
  ["USER", "PASS", "ACCT", "CWD", "PORT", "PASV", "TYPE", "STRU", "RETR", "NLST", "LIST", "STOR",
    "STOU", "APPE", "ALLO", "REST", "RNFR", "RNTO", "DELE", "RMD", "MKD"].map ascii

theorem cr_notMem_verbs : ∀ verb ∈ verbs, 13 ∉ verb := by decide

/-- The methods that are one `send_cmd` with the caller's string. -/
inductive Method where
  | user | passwd | acct | cd | rmfile | rmdir | mkdir

namespace Method

def call (K : Kernel κ) (n : Nat) : Method → Option (List Byte) → FtpM κ Byte
  | user   => Ftpbuf.user K n
  | passwd => Ftpbuf.passwd K n
  | acct   => Ftpbuf.acct K n
  | cd     => Ftpbuf.cd K n
  | rmfile => Ftpbuf.rmfile K n
  | rmdir  => Ftpbuf.rmdir K n
  | mkdir  => Ftpbuf.mkdir K n

def verb : Method → List Byte
  | user   => ascii "USER"
  | passwd => ascii "PASS"
  | acct   => ascii "ACCT"
  | cd     => ascii "CWD"
  | rmfile => ascii "DELE"
  | rmdir  => ascii "RMD"
  | mkdir  => ascii "MKD"

theorem call_eq (m : Method) (n : Nat) (arg : Option (List Byte)) :
    m.call K n arg = sendCmd K n m.verb arg := by
  cases m <;> rfl

theorem verb_mem (m : Method) : m.verb ∈ verbs := by
  cases m <;> decide

end Method

/-- A command as the server is to see it. -/
def commandLine (verb arg : List Byte) : List Byte := verb ++ 32 :: arg

theorem lineEnd_commandLine {verb : List Byte} (hv : verb ∈ verbs) (arg : List Byte) :
    eol.lineEnd (commandLine verb arg) = none ↔ eol.lineEnd arg = none := by
  have hsp : 13 ∉ verb ++ [32] := by
    rw [List.mem_append, not_or]
    exact ⟨cr_notMem_verbs verb hv, by decide⟩
  have heq : commandLine verb arg = (verb ++ [32]) ++ arg := by simp [commandLine]
  rw [heq]
  exact Eol.lineEnd_append_iff hsp arg

/-- **`send_cmd`** hands over the command, its argument and a line end. -/
theorem hands_sendCmd {s : Proc Ftpbuf κ} (hw : s.base.obj.Writable) (verb arg : List Byte) :
    Hands K (fun n => sendCmd K n verb (some arg)) s (commandLine verb arg ++ [13, 10]) := by
  have hputs : Puts K (xsputn K verb >>= fun _ => putArg K (some arg) >>= fun _ =>
      xsputn K [13, 10]) (verb ++ ([32] ++ arg ++ [13, 10])) :=
    (puts_xsputn verb).bind fun _ => ((puts_xsputn [32]).bind fun _ => puts_xsputn arg).bind
      fun _ => puts_xsputn [13, 10]
  have heq : commandLine verb arg ++ [13, 10] = verb ++ ([32] ++ arg ++ [13, 10]) := by
    simp [commandLine]
  have := hands_flush hputs (keeps_getResponse (getFrame_putSame K)) hw
  rw [heq]
  simp only [Prog.bind_assoc] at this
  exact this

/-- Where the reply ends and the writes do not fail, the call returns. -/
theorem sendCmd_sent {B : Nat} {ω : Type} {W : ω → (bs : List Byte) → WriteResult bs.length × ω}
    (hK : (Kernel.feed B W).WriteSucceeds) {s : Proc Ftpbuf (Peer B ω)} (hf : Fed s.base)
    (hw : s.base.obj.Writable) (h : Ends (looks s.base)) (verb arg : List Byte) :
    ∃ c s', sendCmd (Kernel.feed B W) ((looks s.base).length + 1) verb (some arg) s = .ret c s' ∧
      sent s'.base = sent s.base ++ s.base.obj.pending ++ (commandLine verb arg ++ [13, 10]) := by
  have hsat := sendCmd_ends (W := W) hf hw h (Nat.lt_succ_self _) verb (some arg)
  obtain ⟨c, s', hret, -⟩ := (hsat.mono (fun _ _ h => h) fun _ _ h => h hK).returns
  exact ⟨c, s', hret, ((hands_sendCmd hw verb arg).returned _ c s' hret).sent⟩

/-- **`rename`** hands over its first command, or both. -/
theorem flushed_rename {s s' : Proc Ftpbuf κ} (hw : s.base.obj.Writable) {n : Nat}
    {rpath newrpath : List Byte} {c : Byte}
    (h : rename K n (some rpath) (some newrpath) s = .ret c s') :
    Flushed s.base s'.base (commandLine (ascii "RNFR") rpath ++ [13, 10]) ∨
    Flushed s.base s'.base (commandLine (ascii "RNFR") rpath ++ [13, 10] ++
      (commandLine (ascii "RNTO") newrpath ++ [13, 10])) := by
  obtain ⟨c₁, s₁, h₁, h₂⟩ := Prog.bind_eq_ret h
  have hfrom := (hands_sendCmd hw (ascii "RNFR") rpath).returned n c₁ s₁ h₁
  rw [Prog.ite_apply] at h₂
  split at h₂
  · cases h₂
    exact Or.inl hfrom
  · have hto := (hands_sendCmd hfrom.writable (ascii "RNTO") newrpath).returned n c s' h₂
    exact Or.inr (hfrom.trans hto)

end Ftpbuf

/-! ### Smtp -/

namespace Smtpbuf

variable {κ : Type} {K : Kernel κ}

/-- The methods that are one `send_cmd` with the caller's string. -/
inductive Method where
  | vrfy | expn | help | mail | rcpt

namespace Method

def call (K : Kernel κ) (n : Nat) : Method → Option (List Byte) → SmtpM κ Unit
  | vrfy => Smtpbuf.vrfy K n
  | expn => Smtpbuf.expn K n
  | help => Smtpbuf.help K n
  | mail => Smtpbuf.mail K n
  | rcpt => Smtpbuf.rcpt K n

/-- What stands in front of the argument. -/
def verb : Method → List Byte
  | vrfy => ascii "VRFY "
  | expn => ascii "EXPN "
  | help => ascii "HELP "
  | mail => ascii "MAIL FROM:<"
  | rcpt => ascii "RCPT TO:<"

/-- What stands behind it. -/
def tail : Method → Option (List Byte)
  | vrfy | expn | help => none
  | mail | rcpt => some (ascii ">")

/-- A command as the server is to see it. -/
def commandLine (m : Method) (arg : List Byte) : List Byte := m.verb ++ (arg ++ m.tail.getD [])

theorem call_eq (m : Method) (n : Nat) (arg : List Byte) :
    m.call K n (some arg) = sendCmd K n m.verb (some arg) m.tail := by
  cases m <;> rfl

theorem lineEnd_commandLine (m : Method) (arg : List Byte) :
    eol.lineEnd (m.commandLine arg) = none ↔ eol.lineEnd arg = none := by
  have hverb : 13 ∉ m.verb := by cases m <;> decide
  have htail : eol.lineEnd (arg ++ m.tail.getD []) = none ↔ eol.lineEnd arg = none := by
    have hgt : (62 : Byte) ≠ eol.lf := by decide
    cases m with
    | vrfy | expn | help => rw [tail, Option.getD_none, List.append_nil]
    | mail | rcpt => exact Eol.lineEnd_concat_iff hgt
  exact (Eol.lineEnd_append_iff hverb _).trans htail

end Method

/-- **`send_cmd`** hands over the command, its argument and a line end. -/
theorem hands_call (m : Method) {s : Proc Smtpbuf κ} (hw : s.base.obj.Writable)
    (arg : List Byte) :
    Hands K (fun n => m.call K n (some arg)) s (m.commandLine arg ++ [13, 10]) := by
  have hputs : Puts K (xsputn K m.verb >>= fun _ => putString K (some arg) >>= fun _ =>
      putString K m.tail >>= fun _ => xsputn K [13, 10])
      (m.verb ++ (arg ++ (m.tail.getD [] ++ [13, 10]))) :=
    (puts_xsputn m.verb).bind fun _ => (puts_putString (some arg)).bind fun _ =>
      (puts_putString m.tail).bind fun _ => puts_xsputn [13, 10]
  have heq : m.commandLine arg ++ [13, 10] = m.verb ++ (arg ++ (m.tail.getD [] ++ [13, 10])) := by
    simp [Method.commandLine]
  have := hands_flush hputs (keeps_response (getFrame_putSame K)) hw
  simp only [Prog.bind_assoc] at this
  simp only [heq, Method.call_eq]
  exact this

end Smtpbuf

/-! ### One call, one command -/

/-- The bytes `w` are one command line, `line`, to a server that splits them at CR LF. -/
def IsCommand (w line : List Byte) : Prop := eol.split w = ([line], [])

/-- The bytes `w` are several command lines. -/
def IsCommands (w : List Byte) : Prop := 2 ≤ (eol.split w).1.length

theorem isCommands_iff {line : List Byte} : IsCommands (line ++ [13, 10]) ↔ eol.lineEnd line ≠ none := by
  refine ⟨fun h hnone => ?_, Eol.two_le_split⟩
  have hone : eol.split (line ++ [13, 10]) = ([line], []) := Eol.split_line_iff.mpr hnone
  rw [IsCommands, hone, List.length_singleton] at h
  exact absurd h (by decide)

/-- **One command a call.**  With nothing pending, a command sent with an argument hands over the verb
with the whole argument and a line end, and nothing else.  To the server that is one command if there is
no line end in the argument, and several if there is one. -/
theorem one_command_iff {κ : Type} (K : Kernel κ) (arg : List Byte) :
    (∀ s : Proc Ftpbuf κ, s.base.obj.Writable → s.base.obj.pending = [] →
      (∀ verb ∈ Ftpbuf.verbs,
        Sends K (fun n => Ftpbuf.sendCmd K n verb (some arg)) s
          (Ftpbuf.commandLine verb arg ++ [13, 10])) ∧
      (∀ m : Ftpbuf.Method, m.verb ∈ Ftpbuf.verbs ∧
        Sends K (fun n => m.call K n (some arg)) s (Ftpbuf.commandLine m.verb arg ++ [13, 10])) ∧
      ∀ newrpath n c s', Ftpbuf.rename K n (some arg) (some newrpath) s = .ret c s' →
        sent s'.base = sent s.base ++ (Ftpbuf.commandLine (ascii "RNFR") arg ++ [13, 10]) ∨
        sent s'.base = sent s.base ++ (Ftpbuf.commandLine (ascii "RNFR") arg ++ [13, 10] ++
          (Ftpbuf.commandLine (ascii "RNTO") newrpath ++ [13, 10]))) ∧
    (∀ verb ∈ Ftpbuf.verbs,
      (IsCommand (Ftpbuf.commandLine verb arg ++ [13, 10]) (Ftpbuf.commandLine verb arg) ↔
        eol.lineEnd arg = none) ∧
      (IsCommands (Ftpbuf.commandLine verb arg ++ [13, 10]) ↔ eol.lineEnd arg ≠ none)) ∧
    ∀ m : Smtpbuf.Method,
      (∀ s : Proc Smtpbuf κ, s.base.obj.Writable → s.base.obj.pending = [] →
        Sends K (fun n => m.call K n (some arg)) s (m.commandLine arg ++ [13, 10])) ∧
      (IsCommand (m.commandLine arg ++ [13, 10]) (m.commandLine arg) ↔ eol.lineEnd arg = none) ∧
      (IsCommands (m.commandLine arg ++ [13, 10]) ↔ eol.lineEnd arg ≠ none) := by
  refine ⟨fun s hw h0 => ⟨fun verb _ => (Ftpbuf.hands_sendCmd hw verb arg).sends h0, fun m => ?_,
    fun _ _ _ _ h => ?_⟩, fun verb hv => ⟨?_, ?_⟩, fun m => ⟨fun s hw h0 => ?_, ?_, ?_⟩⟩
  · simp only [Ftpbuf.Method.call_eq]
    exact ⟨m.verb_mem, (Ftpbuf.hands_sendCmd hw m.verb arg).sends h0⟩
  · exact (Ftpbuf.flushed_rename hw h).imp (fun h => h.sent_alone h0) fun h => h.sent_alone h0
  · exact Eol.split_line_iff.trans (Ftpbuf.lineEnd_commandLine hv arg)
  · exact isCommands_iff.trans (not_congr (Ftpbuf.lineEnd_commandLine hv arg))
  · exact (Smtpbuf.hands_call m hw arg).sends h0
  · exact Eol.split_line_iff.trans (m.lineEnd_commandLine arg)
  · exact isCommands_iff.trans (not_congr (m.lineEnd_commandLine arg))

theorem one_command_iff_anonymous :
    Sends (Kernel.smooth 1024) (fun n => Ftpbuf.Method.user.call (Kernel.smooth 1024) n
        (some (ascii "anonymous"))) (Ftpbuf.opened none [])
      (Ftpbuf.commandLine (ascii "USER") (ascii "anonymous") ++ [13, 10]) ∧
    IsCommand (Ftpbuf.commandLine (ascii "USER") (ascii "anonymous") ++ [13, 10])
      (Ftpbuf.commandLine (ascii "USER") (ascii "anonymous")) := by
  obtain ⟨hftp, hline, -⟩ := one_command_iff (Kernel.smooth 1024) (ascii "anonymous")
  exact ⟨((hftp (Ftpbuf.opened none []) (Ftpbuf.opened_writable none []) (by decide)).2.1 .user).2,
    (hline (ascii "USER") (by decide)).1.mpr (by decide)⟩

def welcomed : List (Chunk 1024) := [⟨ascii "331 ok\r\n", by decide⟩]

/-- A line end in the name of a user, and the server sees the name and a DELE. -/
theorem user_sends_two :
    ∃ n c s', Ftpbuf.user (Kernel.smooth 1024) n (some (ascii "x\r\nDELE y"))
        (Ftpbuf.opened none welcomed) = .ret c s' ∧
      eol.split (sent s'.base) = ([ascii "USER x", ascii "DELE y"], []) := by
  obtain ⟨c, s', hret, hsent⟩ := Ftpbuf.sendCmd_sent (W := fun (_ : Unit) bs => (.all bs, ()))
    (Kernel.smooth_writeSucceeds 1024) (Ftpbuf.opened_fed none welcomed)
    (Ftpbuf.opened_writable none welcomed) (by decide) (ascii "USER") (ascii "x\r\nDELE y")
  refine ⟨_, c, s', hret, ?_⟩
  rw [hsent]
  decide

end Socketpp
