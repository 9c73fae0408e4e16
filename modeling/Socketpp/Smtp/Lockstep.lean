import Socketpp.Protocol.Server
import Socketpp.Smtp.Framing
import Socketpp.Smtp.Session

/-!
# Smtp — sessions in step

The sessions of `Smtp.Session` with a server that replies, where the replies go to `output`.  `Call.talk` is
what a call does on the queue of replies; the code plays it with any server (`plays_calls`).

The server answers each command and each message once, and decides itself which commands open a body.
Where it opens one at each DATA and at no other command, a session stays in step
(`session_replies_in_step`).  A `helo` reads a reply more than it asks for, the greeting.
-/

namespace Socketpp
open Lib

namespace Smtpbuf
open Sockbuf

section Serve

variable {B : Nat} {ω : Type} {S : Answerer Byte (Chunk B)}
  {W : ω → (bs : List Byte) → WriteResult bs.length × ω} {V : Answerer Byte Reply} {out : List Byte}

/-- Where an smtpbuf is in the talk with its server. -/
abbrev At (out : List Byte) : Proc Smtpbuf (Peer B (List Byte × ω)) → Desk Byte Reply → Prop :=
  AtDesk Reply.bytes Smtpbuf.output (some out)

/-- **`get_response`** reads the first reply that has not been read. -/
theorem plays_response :
    Plays (At out) V (response (Kernel.serve S W)) (.hear fun _ => .done ()) := by
  refine .hear (f := fun _ => ()) fun s d rep rs hs hu => ?_
  have hahead := hs.ahead
  rw [hu, List.flatMap_cons] at hahead
  have hshow := shows_looks hs.fed.readable
  rw [hahead] at hshow
  have hcut : firstCut (looks s.base) = none := by
    refine List.find?_eq_none.mpr fun v hv => ?_
    have := (hs.whole v hv).2
    simp [Option.isNone_iff_eq_none, Option.isSome_iff_ne_none.mp this]
  rcases scan_reply (r := reader s []) rep hshow with ⟨r, vs, hscan, htaken, hout, -⟩ | ⟨v, hv, -⟩
  · obtain ⟨s', hat, hret⟩ := getResponse_ret (W := fun k bs => ((W k.2 bs).1, k)) hs.fed hscan
    have hlistens : s.obj.output.isSome = true := by
      rw [hs.told]
      rfl
    have hret' : ∀ n, (looks s.base).length < n → response (Kernel.serve S W) n s = .ret () s' := fun n hn => by
      simp only [response, Prog.bind_apply, Prog.get_apply, Outcome.andThen_ret, hlistens, if_true]
      exact hret n hn
    refine ⟨s', ⟨(looks s.base).length + 1, fun n hn => hret' n hn⟩, ?_⟩
    have hone := hret' _ (Nat.lt_succ_self _)
    refine hs.hear ((keeps_response (getFrame_putSame _) _).ret hone) hat.fed
      ((keeps_response (getFrame_sameHearing S W) _).ret hone) ?_ ?_ ?_
    · have hsplit := hat.ahead
      change r.taken ++ _ = _ at hsplit
      rw [htaken, hahead] at hsplit
      exact List.append_cancel_left hsplit
    · rw [hat.looks]
      exact fun v hv => (scan_suffix hscan).subset hv
    · rw [hat.own, hout]
      rfl
  · rw [hcut] at hv
    cases hv

/-- Something put, flushed and answered. -/
theorem plays_put {α : Type} (out : List Byte) {p : SmtpM (Peer B (List Byte × ω)) α} {w : List Byte}
    (hp : Puts (Kernel.serve S W) p w) (hk : Prog.Keeps (OnBase (Served S)) p) (hW : Accepting W)
    (hS : Speaks S V Reply.bytes) :
    Plays (At out) V (fun n => p >>= fun _ => sync (Kernel.serve S W) >>= fun _ => response (Kernel.serve S W) n)
      (.exchange w fun _ => .done ()) := by
  have hsay := Plays.say (f := fun _ => response (Kernel.serve S W))
    (fun s d hs => say_ret (o := some out) hp hk hW hS (fun _ _ => rfl) hs) fun _ => plays_response
  simp only [Prog.bind_assoc] at hsay
  exact hsay

/-- **`send_cmd`** says the command and reads a reply. -/
theorem plays_sendCmd (hW : Accepting W) (hS : Speaks S V Reply.bytes) (cmd : List Byte)
    (a p : Option (List Byte)) :
    Plays (At out) V (fun n => sendCmd (Kernel.serve S W) n cmd a p)
      (.exchange (cmd ++ (a.getD [] ++ (p.getD [] ++ [13, 10]))) fun _ => .done ()) := by
  have hframe := ownFrame_served S W
  have hc := hframe.toClosed.onBase (β := Smtpbuf)
  have put : ∀ bs, Prog.Keeps (OnBase (Served S)) (xsputn (Kernel.serve S W) bs) :=
    fun bs => keeps_inherited (hframe.xsputn bs)
  have putOpt : ∀ a, Prog.Keeps (OnBase (Served S)) (putString (Kernel.serve S W) a) := by
    intro a
    cases a with
    | none => exact hc.keeps_pure _
    | some a => exact put a
  have hputs : Puts (Kernel.serve S W) (xsputn (Kernel.serve S W) cmd >>= fun _ =>
      putString (Kernel.serve S W) a >>= fun _ => putString (Kernel.serve S W) p >>= fun _ =>
      xsputn (Kernel.serve S W) [13, 10]) (cmd ++ (a.getD [] ++ (p.getD [] ++ [13, 10]))) :=
    (puts_xsputn cmd).bind fun _ => (puts_putString a).bind fun _ =>
      (puts_putString p).bind fun _ => puts_xsputn [13, 10]
  have hplays := plays_put out hputs (hc.keeps_bind (put cmd) fun _ => hc.keeps_bind (putOpt a) fun _ =>
    hc.keeps_bind (putOpt p) fun _ => put _) hW hS
  simp only [Prog.bind_assoc] at hplays
  exact hplays

/-- The body of a message, and the reply to it. -/
theorem plays_body (hW : Accepting W) (hS : Speaks S V Reply.bytes) (buf : Option (Mem Byte)) (len : Int) :
    Plays (At out) V (fun n => sendBuf (Kernel.serve S W) buf len >>= fun _ => endData (Kernel.serve S W) n)
      (.exchange (Call.body buf len) fun _ => .done ()) := by
  have hframe := ownFrame_served S W
  have hplays := plays_put out (Call.puts_body (K := Kernel.serve S W) buf len)
    ((hframe.toClosed.onBase (β := Smtpbuf)).keeps_bind (own_sendBuf hframe buf len) fun _ =>
      keeps_inherited (hframe.xsputn _)) hW hS
  simp only [Prog.bind_assoc] at hplays
  exact hplays

/-- What a call does. -/
def Call.talk : Call → Talk Byte Reply Unit
  | helo name         => .hear fun _ => .exchange (wire (helo name)) fun _ => .done ()
  | method .rcpt none => .done ()
  | data buf len      => .exchange (ascii "DATA\r\n") fun _ => .exchange (body buf len) fun _ => .done ()
  | c                 => .exchange c.wire fun _ => .done ()

theorem plays_exec (hW : Accepting W) (hS : Speaks S V Reply.bytes) (c : Call) :
    Plays (At out) V (fun n => c.exec (Kernel.serve S W) n) c.talk := by
  have cmd : ∀ (verb : List Byte) (a p : Option (List Byte)) (w : List Byte),
      w = verb ++ (a.getD [] ++ (p.getD [] ++ [13, 10])) →
      Plays (At out) V (fun n => sendCmd (Kernel.serve S W) n verb a p) (.exchange w fun _ => .done ()) := by
    rintro verb a p w rfl
    exact plays_sendCmd hW hS verb a p
  cases c with
  | helo name =>
      refine plays_response.bind fun _ => cmd (ascii "HELO ") (some name) none _ ?_
      simp [Call.wire, Call.parcel, Parcel.lines]
  | method m arg =>
      cases arg with
      | some arg =>
          simp only [Call.exec, Method.call_eq]
          have htalk : Call.talk (.method m (some arg)) = .exchange (Call.wire (.method m (some arg)))
              fun _ => .done () := by cases m <;> rfl
          rw [htalk]
          refine cmd _ _ _ _ ?_
          simp [Call.wire, Call.parcel, Method.parcel, Parcel.lines, Method.commandLine]
      | none =>
          cases m with
          | rcpt => exact .done ()
          | vrfy => exact cmd (ascii "VRFY ") none none _ rfl
          | expn => exact cmd (ascii "EXPN ") none none _ rfl
          | help => exact cmd (ascii "HELP ") none none _ rfl
          | mail => exact cmd (ascii "MAIL FROM:<>") none none _ rfl
  | data buf len =>
      exact (cmd (ascii "DATA") none none (ascii "DATA\r\n") rfl).bind fun _ => plays_body hW hS buf len
  | rset | noop | quit | turn => exact cmd _ none none _ rfl

/-- What a session does. -/
def talks : List Call → Talk Byte Reply Unit
  | []      => .done ()
  | c :: cs => c.talk.bind fun _ => talks cs

/-- **A session** plays its talk, with any server. -/
theorem plays_calls (hW : Accepting W) (hS : Speaks S V Reply.bytes) : ∀ cs : List Call,
    Plays (At out) V (fun n => session (Kernel.serve S W) n cs) (talks cs)
  | []      => .done ()
  | c :: cs => (plays_exec hW hS c).bind fun _ => plays_calls hW hS cs

end Serve

/-! ### In step -/

/-- A server that answers each command and each message once; `P` decides which commands open a body. -/
def itemServer (P : Policy Byte) (answer : List (Item Byte) → Item Byte → Reply) : Answerer Byte Reply :=
  .each (fun a => (Receiver.receive marks P a).1.items) Receiver.receive_prefix answer

/-- The replies a call reads in front of its command. -/
def Call.greets : Call → Nat
  | helo _ => 1
  | _      => 0

section InStep

variable {P : Policy Byte} (answer : List (Item Byte) → Item Byte → Reply) {d : Desk Byte Reply}
  {hist : List (Item Byte)}

/-- The server has received the items, and waits for a command. -/
def Waiting (P : Policy Byte) (d : Desk Byte Reply) (hist : List (Item Byte)) : Prop :=
  Receiver.receive marks P d.heard = (⟨hist, none⟩, [])

/-- Bytes that are one item more to the server. -/
theorem run_item {w : List Byte} {x : Item Byte} {r : Receiver Byte}
    (h : (Receiver.receive marks P d.heard).1.items = hist)
    (hw : Receiver.receive marks P (d.heard ++ w) = (r, [])) (hr : r.items = hist ++ [x])
    (next : Reply → Talk Byte Reply Unit) :
    ∃ r' d', (Talk.exchange w next).run (itemServer P answer) d = (next r').run (itemServer P answer) d' ∧
      d'.heard = d.heard ++ w ∧ d'.unread.length = d.unread.length := by
  have hmore : (itemServer P answer).more d.heard w = [answer hist x] := by
    rw [itemServer, Answerer.more_each [x] (by rw [hw, h]; exact hr), h]
    rfl
  exact ⟨_, _, Talk.run_exchange_one next hmore, rfl, length_enqueue d.unread _⟩

/-- What the server makes of a call that opens a body where it means one. -/
theorem receive_wire {c : Call} (hc : c.Clean) (hd : Waiting P d hist) (hopen : c.parcel.Opened P hist) :
    Receiver.receive marks P (d.heard ++ c.wire) = (⟨hist ++ c.parcel.items, none⟩, []) := by
  have hsplit := Call.split_wire hc
  rw [Receiver.receive_append (congrArg Prod.snd hd), hd,
    show marks.split c.wire = (c.parcel.lines, []) from hsplit,
    (Parcel.received_one (Call.sound_parcel hc)).mpr hopen]

/-- **One call.** -/
theorem Call.run_talk {c : Call} (hc : c.Clean) (hd : Waiting P d hist) (hopen : c.parcel.Opened P hist)
    (hgreet : c.greets ≤ d.unread.length) :
    ∃ d', c.talk.run (itemServer P answer) d = some ((), d') ∧ d'.heard = d.heard ++ c.wire ∧
      Waiting P d' (hist ++ c.parcel.items) ∧ d'.unread.length + c.greets = d.unread.length := by
  have hwire := receive_wire hc hd hopen
  have one : ∀ {d : Desk Byte Reply} {x : Item Byte}, Waiting P d hist →
      Receiver.receive marks P (d.heard ++ c.wire) = (⟨hist ++ [x], none⟩, []) →
      ∃ d', (Talk.exchange c.wire fun _ => .done ()).run (itemServer P answer) d = some ((), d') ∧
        d'.heard = d.heard ++ c.wire ∧ Waiting P d' (hist ++ [x]) ∧ d'.unread.length = d.unread.length := by
    intro d x hd hw
    obtain ⟨_, d', hrun, hheard, hlag⟩ := run_item answer
      (by rw [show Receiver.receive marks P d.heard = _ from hd]) hw rfl fun _ => .done ()
    exact ⟨d', hrun, hheard, by rw [Waiting, hheard]; exact hw, hlag⟩
  cases c with
  | helo name =>
      obtain ⟨r, rs, hu⟩ := List.exists_cons_of_length_pos (Nat.lt_of_lt_of_le Nat.one_pos hgreet)
      obtain ⟨d', hrun, hheard, hwait, hlag⟩ := one (d := d.hear r rs) hd hwire
      refine ⟨d', ?_, hheard, hwait, ?_⟩
      · rw [talk, Talk.run, hu]
        exact hrun
      · rw [hlag, hu]
        rfl
  | data buf len =>
      -- the command opens the body, and the body is one message
      have hdata : Receiver.receive marks P (d.heard ++ ascii "DATA\r\n") =
          (⟨hist ++ [.command (ascii "DATA")], some []⟩, []) := by
        have hopen' : P hist (ascii "DATA") = true := hopen
        rw [Receiver.receive_append (congrArg Prod.snd hd), show Receiver.receive marks P d.heard = _ from hd,
          show marks.split (ascii "DATA\r\n") = ([ascii "DATA"], []) by decide]
        simp only [Receiver.lines, List.foldl_cons, List.foldl_nil, Receiver.line, hopen', if_true]
      obtain ⟨_, d₁, hrun₁, hheard₁, hlag₁⟩ := run_item answer
        (by rw [show Receiver.receive marks P d.heard = _ from hd]) hdata rfl fun _ =>
          .exchange (body buf len) fun _ => .done ()
      have hbody : Receiver.receive marks P (d₁.heard ++ body buf len) =
          (⟨hist ++ (data buf len).parcel.items, none⟩, []) := by
        rw [hheard₁, List.append_assoc]
        exact hwire
      obtain ⟨_, d', hrun', hheard', hlag'⟩ := run_item answer (d := d₁) (x := .message (content buf len ++ [10]))
        (show _ = hist ++ [.command (ascii "DATA")] by rw [hheard₁, hdata]) hbody (by simp [parcel, Parcel.items]) fun _ => .done ()
      refine ⟨d', hrun₁.trans hrun', ?_, ?_, hlag'.trans hlag₁⟩
      · rw [hheard', hheard₁, List.append_assoc]
        rfl
      · rw [Waiting, hheard']
        exact hbody
  | method m arg =>
      cases arg with
      | some arg => cases m <;> exact one hd hwire
      | none =>
          cases m with
          | rcpt => exact ⟨d, rfl, (List.append_nil _).symm, by
              rw [show (method Method.rcpt none).parcel.items = [] from rfl, List.append_nil]; exact hd, rfl⟩
          | vrfy | expn | help | mail => exact one hd hwire
  | rset | noop | quit | turn => exact one hd hwire

theorem run_talks {cs : List Call} (hcs : ∀ c ∈ cs, c.Clean) (hd : Waiting P d hist)
    (hopen : Parcel.Opens P hist (cs.map Call.parcel)) (hgreet : (cs.map Call.greets).sum ≤ d.unread.length) :
    ∃ d', (talks cs).run (itemServer P answer) d = some ((), d') ∧ d'.heard = d.heard ++ wires cs ∧
      Waiting P d' (hist ++ means cs) ∧ d'.unread.length + (cs.map Call.greets).sum = d.unread.length := by
  induction cs generalizing d hist with
  | nil => exact ⟨d, rfl, (List.append_nil _).symm, by rw [means, List.flatMap_nil, List.append_nil]; exact hd, rfl⟩
  | cons c cs ih =>
      rw [List.map_cons, List.sum_cons] at hgreet ⊢
      obtain ⟨hfirst, hrest⟩ := hopen
      obtain ⟨d₁, hrun₁, hheard₁, hwait₁, hlag₁⟩ := Call.run_talk answer (hcs c List.mem_cons_self) hd
        hfirst (by omega)
      obtain ⟨d', hrun', hheard', hwait', hlag'⟩ := ih (fun c' hc' => hcs c' (List.mem_cons_of_mem c hc')) hwait₁
        hrest (by omega)
      refine ⟨d', ?_, ?_, ?_, by omega⟩
      · rw [talks, Talk.run_bind_some hrun₁]
        exact hrun'
      · rw [hheard', hheard₁, List.append_assoc, wires, wires, List.flatMap_cons]
      · rw [means, List.flatMap_cons, ← List.append_assoc]
        exact hwait'

/-- **Sessions stay in step.**  The server answers each command and each message once, as it likes, and its
replies are cut into reads at line ends; the kernel accepts writes in any portions.  Where it takes a body
for the DATA of each `data` and for no other command, a session of any calls with clean arguments comes to
its end, if there is a greeting to read for each `helo`.  It leaves as many replies unread as before, less the
greetings, and `output` has got those it has read, in order: none is lost or read twice. -/
theorem session_replies_in_step {B : Nat} {ω : Type} {S : Answerer Byte (Chunk B)}
    {W : ω → (bs : List Byte) → WriteResult bs.length × ω} (P : Policy Byte)
    (hW : Accepting W)
    (hS : Speaks S (itemServer P answer) Reply.bytes) {cs : List Call} (hcs : ∀ c ∈ cs, c.Clean)
    {s : Proc Smtpbuf (Peer B (List Byte × ω))} {out : List Byte} (hs : At out s d) (hd : Waiting P d hist)
    (hopen : Parcel.Opens P hist (cs.map Call.parcel)) (hgreet : (cs.map Call.greets).sum ≤ d.unread.length) :
    ∃ s' d', Comes (fun n => session (Kernel.serve S W) n cs) s () s' ∧ At out s' d' ∧
      d'.heard = d.heard ++ wires cs ∧ d'.unread.length + (cs.map Call.greets).sum = d.unread.length ∧
      d'.read ++ d'.unread = d.read ++ d.unread ++ Answerer.answers answer hist (means cs) ∧
      s'.obj.output = some (out ++ d'.read.flatMap Reply.bytes) := by
  obtain ⟨d', hrun, hheard, hwait, hlag⟩ := run_talks answer hcs hd hopen hgreet
  obtain ⟨s', hcomes, hs'⟩ := plays_calls hW hS cs s d () d' hs hrun
  obtain ⟨w, hw, hreplies⟩ := Talk.run_ledger _ hrun
  obtain rfl : wires cs = w := List.append_cancel_left (hheard.symm.trans hw)
  have hmore : (itemServer P answer).more d.heard (wires cs) = Answerer.answers answer hist (means cs) := by
    have hitems : (Receiver.receive marks P d.heard).1.items = hist := by
      rw [show Receiver.receive marks P d.heard = _ from hd]
    rw [itemServer, Answerer.more_each (means cs), hitems]
    rw [hitems, ← hheard, show Receiver.receive marks P d'.heard = _ from hwait]
  rw [hmore] at hreplies
  exact ⟨s', d', hcomes, hs', hheard, hlag, hreplies, hs'.told⟩

end InStep

/-- DATA opens a body, and nothing else. -/
def onData (_ : List (Item Byte)) (l : List Byte) : Bool := l = ascii "DATA"

/-- `250`, and nothing else. -/
def fine : Reply := ⟨[], codeOfNat 250, none⟩

def fineChunk : Chunk 1024 := ⟨fine.bytes, by decide⟩

theorem fine_cut (_ : List (Item Byte)) (_ : Item Byte) : CutAs Reply.bytes [fine] [fineChunk] :=
  ⟨by decide, by decide⟩

/-- All of it. -/
def gulp (_ : Unit) (bs : List Byte) : WriteResult bs.length × Unit := (.all bs, ())

theorem gulp_accepting : Accepting gulp := fun _ _ l => ⟨_, Nat.succ_pos l.length, Nat.le_refl _, (), rfl⟩

/-- An smtpbuf as constructed, with the greeting in the inbox. -/
def atGreeting : Proc Smtpbuf (Peer 1024 (List Byte × Unit)) :=
  ⟨ofDesc bufsiz 3 (fun _ => 0) (fun _ => 0) (some []), ⟨⟨[fineChunk], ([], ())⟩, 0, []⟩⟩

theorem atGreeting_at : At [] atGreeting ⟨[], [], [fine]⟩ where
  writable := ⟨_, rfl, Nat.zero_le _, rfl, Nat.succ_pos _⟩
  pending  := rfl
  fed      := ⟨⟨_, rfl⟩, rfl⟩
  heard    := rfl
  ahead    := by decide
  whole    := by decide
  told     := rfl

/-- The greeting, and four replies to the letter with a `helo` in front of it. -/
theorem session_replies_in_step_letter :
    let S := (Answerer.each (fun a => (Receiver.receive marks onData a).1.items) Receiver.receive_prefix
      fun _ _ => [fineChunk]).flat
    ∃ s' d', Comes (fun n => session (Kernel.serve S gulp) n (.helo (ascii "me") :: letter)) atGreeting () s' ∧
      At [] s' d' ∧ d'.unread = [] ∧ s'.obj.output = some (d'.read.flatMap Reply.bytes) := by
  obtain ⟨s', d', hcomes, hs', -, hlag, -, hout⟩ := session_replies_in_step (fun _ _ => fine) onData
    gulp_accepting (speaks_each fine_cut) (show ∀ c ∈ Call.helo (ascii "me") :: letter, c.Clean by
      intro c hc
      rcases List.mem_cons.mp hc with rfl | hc
      · exact show eol.lineEnd (ascii "me") = none by decide
      · exact letter_clean c hc) atGreeting_at
    (show Waiting onData _ [] from rfl) ⟨rfl, rfl, rfl, rfl, trivial⟩ (by decide)
  exact ⟨s', d', hcomes, hs', List.length_eq_zero_iff.mp (Nat.succ.inj hlag), hout⟩

end Smtpbuf

end Socketpp
