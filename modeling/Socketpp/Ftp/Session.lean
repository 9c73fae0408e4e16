import Socketpp.Ftp.Framing
import Socketpp.Ftp.Wire
import Socketpp.Lib.Dialogue
import Socketpp.Protocol.Server

/-!
# Ftp — sessions

A session on the control connection: any list of calls of the methods that send commands and have no
data connection; `useraddr` is not among them.  `Call.talk` is what a call does on the queue of replies: a
command is sent and the first reply that has not been read is taken for the answer to it.  The code plays
that talk with any server (`plays_session`), and so do calls of `get_response` in front of a session.

With a server that answers each line once, `Call.course` says what a call returns and sends; the queue is
as long behind it as before, so that a session stays where it began (`session_in_step`).
-/

namespace Socketpp
open Lib

namespace Ftpbuf
open Sockbuf

/-! ### A reply in whole looks -/

/-- The four bytes compared. -/
theorem strncmp_take_iff {c : Code} {l : List Byte} (h5 : 5 ≤ l.length) :
    strncmp (l.take 4) (c.digits ++ [32]) = 0 ↔ c.digits ++ [32] <+: l := by
  rw [strncmp_eq_zero_iff, List.prefix_iff_eq_take]
  · exact eq_comm
  · rw [List.length_take]
    exact Nat.min_eq_left (Nat.le_of_succ_le h5)
  · intro d hd
    rcases List.mem_append.mp hd with hd | hd
    · intro h0
      have := (Code.mem_digits hd).1
      rw [h0] at this
      exact absurd this (by decide)
    · rw [List.mem_singleton.mp hd]
      decide

/-- What a scan over the bytes `l` of a reply with the code `c` has to come to. -/
def Scanned (c : Code) (l rest : List Byte) (r : Reader) (vs : List Look) : Prop :=
  ∃ r' vs', scan Reader.look r vs = some (r', vs') ∧ r'.taken = r.taken ++ l ∧
    r'.o = r.o.map (fun out => out ++ l) ∧ r'.replycode.slice 0 4 = c.digits ++ [32] ∧ Shows rest vs'

theorem written_line {t : Text} {v : Look} (he : eol.lineEnd v.1 = some t.line.length)
    (ht : v.1.take (bump v) = t.line) : written v = t.line := by
  simp only [written, he]
  rw [bump, he, Option.getD_some] at ht
  exact ht

/-- A line in front of the rest of a reply. -/
theorem Scanned.cons {c : Code} {l rest : List Byte} {r r₁ : Reader} {t : Text} {v : Look} {ws : List Look}
    (hlook : r.look v = .go r₁) (htaken : r₁.taken = r.taken ++ t.line)
    (ho : r₁.o = r.o.map fun out => out ++ t.line) (h : Scanned c l rest r₁ ws) :
    Scanned c (t.line ++ l) rest r (v :: ws) := by
  obtain ⟨r', vs', hs, ht', ho', hc, hrest⟩ := h
  refine ⟨r', vs', (scan_go hlook).trans hs, ?_, ?_, hc, hrest⟩
  · rw [ht', htaken, List.append_assoc]
  · rw [ho', ho, Option.map_map]
    simp only [Function.comp_def, List.append_assoc]

/-- The lines behind the first. -/
theorem scan_later {c : Code} {last : Text} {rest : List Byte} {middle : List (MiddleLine c)} {r : Reader}
    {vs : List Look} (hs : Shows (Reply.later c middle last ++ rest) vs) (hw : ∀ v ∈ vs, Whole v.1)
    (hf : r.firstline = false) (hc : r.replycode.slice 0 4 = c.digits ++ [32]) :
    Scanned c (Reply.later c middle last) rest r vs := by
  -- by the lines in the middle
  induction middle generalizing r vs with
  | nil =>
      have hlast : Reply.later c [] last = (c.last last).line := rfl
      rw [hlast] at hs ⊢
      obtain ⟨v, ws, rfl, h5, ⟨u, hu⟩, he, ht, hws⟩ := line_whole hs hw
      have hcmp : strncmp (v.1.take 4) (r.replycode.slice 0 4) = 0 := by
        rw [hc, strncmp_take_iff h5, hu]
        exact code_prefix_iff.mpr (code_prefix_last c last)
      refine ⟨r.take v, ws, scan_stop (Reader.look_later_stop hf h5 hcmp), ?_, ?_, hc, hws⟩
      · rw [Reader.take, ht]
      · rw [Reader.take, written_line he ht]
  | cons m middle ih =>
      have hcons : Reply.later c (m :: middle) last = m.1.line ++ Reply.later c middle last := by
        simp [Reply.later]
      rw [hcons] at hs ⊢
      rw [List.append_assoc] at hs
      obtain ⟨v, ws, rfl, h5, ⟨u, hu⟩, he, ht, hws⟩ := line_whole hs hw
      have hcmp : ¬ strncmp (v.1.take 4) (r.replycode.slice 0 4) = 0 := by
        rw [hc, strncmp_take_iff h5, hu]
        exact mt code_prefix_iff.mp m.2
      refine .cons (Reader.look_later_go hf h5 hcmp) ?_ ?_
        (ih hws (fun v hv => hw v (List.mem_cons_of_mem _ hv)) hf hc)
      · rw [Reader.take, ht]
      · rw [Reader.take, written_line he ht]

/-- **One call over one reply**, where each look is whole. -/
theorem scan_reply {rep : Reply} {rest : List Byte} {r : Reader} {vs : List Look}
    (hs : Shows (rep.bytes ++ rest) vs) (hw : ∀ v ∈ vs, Whole v.1) (hf : r.firstline = true) :
    Scanned rep.code rep.bytes rest r vs := by
  -- the first look at a line `ddd sep text`
  have first : ∀ {c : Code} {sep : Byte} {hsep : sep ≠ 13} {t : Text} {A : List Byte},
      Shows ((c.text sep hsep t).line ++ A) vs → ∃ v ws, vs = v :: ws ∧ 5 ≤ v.1.length ∧ v.1[3]? = some sep ∧
        eol.lineEnd v.1 = some (c.text sep hsep t).line.length ∧ v.1.take (bump v) = (c.text sep hsep t).line ∧
        ((r.take v).keepCode v).replycode.slice 0 4 = c.digits ++ [32] ∧ Shows A ws := by
    intro c sep hsep t A hs
    obtain ⟨v, ws, rfl, h5, ⟨u, hu⟩, he, ht, hws⟩ := line_whole hs hw
    have hcells : v.1 = c.first.1 :: c.second.1 :: c.third.1 :: sep :: (t.1 ++ 13 :: 10 :: u) := by
      rw [hu]
      simp [Text.line, Code.text, Code.digits]
    refine ⟨v, ws, rfl, h5, by rw [hcells]; rfl, he, ht, ?_, hws⟩
    rw [Reader.slice_keepCode _ h5, codeOf, show v.1.take 3 = c.digits by rw [hcells]; rfl, strncpyCells_digits]
  cases rep with
  | line c text =>
      obtain ⟨v, ws, rfl, h5, h3, he, ht, hc, hws⟩ := first hs
      refine ⟨_, ws, scan_stop (Reader.look_first_stop hf h5 h3), ?_, ?_, hc, hws⟩
      · exact congrArg _ ht
      · show r.o.map (fun out => out ++ written v) = _
        rw [written_line he ht]
        rfl
  | lines c fst middle last =>
      rw [Reply.bytes, List.append_assoc] at hs
      obtain ⟨v, ws, rfl, h5, h3, he, ht, hc, hws⟩ := first hs
      have h3' : v.1[3]? ≠ some 32 := by
        rw [h3]
        decide
      refine Scanned.cons (Reader.look_first_go hf h5 h3') (congrArg _ ht) ?_
        (scan_later hws (fun v hv => hw v (List.mem_cons_of_mem _ hv)) rfl hc)
      show r.o.map (fun out => out ++ written v) = _
      rw [written_line he ht]
      rfl

/-! ### Calls -/

section Serve

variable {B : Nat} {ω : Type} {S : Answerer Byte (Chunk B)}
  {W : ω → (bs : List Byte) → WriteResult bs.length × ω} {V : Answerer Byte Reply} {o : Option (List Byte)}

/-- Where an ftpbuf is in the talk with its server. -/
abbrev At (o : Option (List Byte)) : Proc Ftpbuf (Peer B (List Byte × ω)) → Desk Byte Reply → Prop :=
  AtDesk Reply.bytes Ftpbuf.o o

/-- The class of a reply. -/
def Reply.class (r : Reply) : Byte := r.code.first.1

/-- **`get_response`** reads the first reply that has not been read. -/
theorem plays_getResponse : Plays (At o) V (getResponse (Kernel.serve S W)) (.hear fun r => .done r.class) := by
  refine .hear fun s d rep rs hs hu => ?_
  have hahead := hs.ahead
  rw [hu, List.flatMap_cons] at hahead
  have hshow := shows_looks hs.fed.readable
  rw [hahead] at hshow
  obtain ⟨r, vs, hscan, htaken, ho, hc, -⟩ := scan_reply (r := reader true s []) hshow hs.whole rfl
  obtain ⟨s', hat, hret⟩ := getResponse_ret (W := fun k bs => ((W k.2 bs).1, k)) hs.fed hscan
  have hvalue : r.replycode 0 = rep.class := (List.cons.inj hc).1
  rw [hvalue] at hret
  have hret' : ∀ n, (looks s.base).length < n → getResponse (Kernel.serve S W) n s = .ret rep.class s' := hret
  refine ⟨s', ⟨(looks s.base).length + 1, fun n hn => hret' n hn⟩, ?_⟩
  have hone := hret' _ (Nat.lt_succ_self _)
  refine hs.hear ((keeps_getResponse (getFrame_putSame _) _).ret hone) hat.fed
    ((keeps_getResponse (getFrame_sameHearing S W) _).ret hone) ?_ ?_ ?_
  · have hsplit := hat.ahead
    change r.taken ++ _ = _ at hsplit
    rw [htaken, hahead] at hsplit
    exact List.append_cancel_left hsplit
  · rw [hat.looks]
    exact fun v hv => (scan_suffix hscan).subset hv
  · rw [hat.own.2, ho]
    rfl

/-- A command as it is sent. -/
def line (verb : List Byte) (arg : Option (List Byte)) : List Byte := verb ++ argBytes arg

/-- What a command does: it is sent, and a reply is read. -/
def command {α : Type} (verb : List Byte) (arg : Option (List Byte)) (next : Reply → Talk Byte Reply α) :
    Talk Byte Reply α :=
  .exchange (line verb arg ++ [13, 10]) next

theorem puts_line {κ : Type} {K : Kernel κ} (verb : List Byte) (arg : Option (List Byte)) :
    Puts K (xsputn K verb >>= fun _ => putArg K arg >>= fun _ => xsputn K [13, 10])
      (line verb arg ++ [13, 10]) := by
  have harg : Puts K (putArg K arg) (argBytes arg) := by
    cases arg with
    | none => exact .pure 0
    | some arg => exact (puts_xsputn [32]).bind fun _ => puts_xsputn arg
  rw [line, List.append_assoc]
  exact (puts_xsputn verb).bind fun _ => harg.bind fun _ => puts_xsputn [13, 10]

/-- **`send_cmd`** says the command and reads a reply. -/
theorem plays_sendCmd (hW : Accepting W) (hS : Speaks S V Reply.bytes) (verb : List Byte)
    (arg : Option (List Byte)) :
    Plays (At o) V (fun n => sendCmd (Kernel.serve S W) n verb arg) (command verb arg fun r => .done r.class) := by
  have hframe := ownFrame_served S W
  have hc := hframe.toClosed.onBase (β := Ftpbuf)
  have hput : ∀ bs, Prog.Keeps (OnBase (Served S)) (xsputn (Kernel.serve S W) bs) :=
    fun bs => keeps_inherited (hframe.xsputn bs)
  have hkeeps : Prog.Keeps (OnBase (Served S)) (xsputn (Kernel.serve S W) verb >>= fun _ =>
      putArg (Kernel.serve S W) arg >>= fun _ => xsputn (Kernel.serve S W) [13, 10]) := by
    refine hc.keeps_bind (hput _) fun _ => hc.keeps_bind ?_ fun _ => hput _
    cases arg with
    | none => exact hc.keeps_pure _
    | some arg => exact hc.keeps_bind (hput _) fun _ => hput _
  have hsay := Plays.say (f := fun _ => getResponse (Kernel.serve S W))
    (fun s d hs => say_ret (o := o) (puts_line verb arg) hkeeps hW hS (fun _ _ => rfl) hs)
    fun _ => plays_getResponse
  simp only [Prog.bind_assoc] at hsay
  exact hsay

/-- The methods that send commands on the control connection alone. -/
inductive Call where
  | help | noop | quit | abort | pwd | system | status
  | method (m : Method) (arg : Option (List Byte))
  | server_port (portno : Int)
  | allocate (numbytes : Int)
  | restart (marker : Int)
  | rep_type (rt : Reptype)
  | file_stru (fs : Filestru)
  | trans_mode (tm : Transmode)
  | rename (rpath newrpath : Option (List Byte))

namespace Call

def exec {κ : Type} (K : Kernel κ) (n : Nat) : Call → FtpM κ Byte
  | help                  => Ftpbuf.help K n
  | noop                  => Ftpbuf.noop K n
  | quit                  => Ftpbuf.quit K n
  | abort                 => Ftpbuf.abort K n
  | pwd                   => Ftpbuf.pwd K n
  | system                => Ftpbuf.system K n
  | status                => Ftpbuf.status K n
  | method m arg          => m.call K n arg
  | server_port portno    => Ftpbuf.server_port K n portno
  | allocate numbytes     => Ftpbuf.allocate K n numbytes
  | restart marker        => Ftpbuf.restart K n marker
  | rep_type rt           => Ftpbuf.rep_type K n rt
  | file_stru fs          => Ftpbuf.file_stru K n fs
  | trans_mode tm         => Ftpbuf.trans_mode K n tm
  | rename rpath newrpath => Ftpbuf.rename K n rpath newrpath

/-- The command of a call that sends one. -/
def sends : Call → Option (List Byte × Option (List Byte))
  | help               => some (ascii "HELP", none)
  | noop               => some (ascii "NOOP", none)
  | quit               => some (ascii "QUIT", none)
  | abort              => some (ascii "ABOR", none)
  | pwd                => some (ascii "PWD", none)
  | system             => some (ascii "SYST", none)
  | status             => some (ascii "STAT", none)
  | method m arg       => some (m.verb, arg)
  | server_port portno => some (ascii "PASV", some (decimal (portno / 256) ++ ascii "," ++ decimal (portno % 256)))
  | allocate numbytes  => some (ascii "ALLO", some (decimal numbytes))
  | restart marker     => some (ascii "REST", some (decimal marker))
  | rep_type rt        => some (ascii "TYPE", some (ascii rt.name))
  | file_stru fs       => some (ascii "STRU", some (ascii fs.name))
  | trans_mode tm      => some (ascii "STRU", some (ascii tm.name))
  | rename _ _         => none

theorem exec_of_sends {κ : Type} (K : Kernel κ) (n : Nat) {c : Call} {verb : List Byte}
    {arg : Option (List Byte)} (h : c.sends = some (verb, arg)) : c.exec K n = sendCmd K n verb arg := by
  cases c <;> cases h <;> first | rfl | exact Method.call_eq _ n _

/-- What a call does. -/
def talk : Call → Talk Byte Reply Byte
  | rename (some rpath) (some newrpath) =>
      command (ascii "RNFR") (some rpath) fun r =>
        if IsError r.class then .done rca_error
        else command (ascii "RNTO") (some newrpath) fun r => .done r.class
  | rename _ _ => .done rca_error
  | c =>
    match c.sends with
    | some (verb, arg) => command verb arg fun r => .done r.class
    | none             => .done rca_error

theorem talk_of_sends {c : Call} {verb : List Byte} {arg : Option (List Byte)}
    (h : c.sends = some (verb, arg)) : c.talk = command verb arg fun r => .done r.class := by
  cases c <;> cases h <;> rfl

end Call

/-- The calls, one after another, with what they return. -/
def session {κ : Type} (K : Kernel κ) (n : Nat) : List Call → FtpM κ (List Byte)
  | []      => return []
  | c :: cs => do
    let v ← c.exec K n
    let vs ← session K n cs
    return v :: vs

/-- As many calls of `get_response`. -/
def listen {κ : Type} (K : Kernel κ) (n : Nat) : Nat → FtpM κ (List Byte)
  | 0     => return []
  | k + 1 => do
    let v ← getResponse K n
    let vs ← listen K n k
    return v :: vs

/-- What a session does. -/
def talks : List Call → Talk Byte Reply (List Byte)
  | []      => .done []
  | c :: cs => c.talk.bind fun v => (talks cs).bind fun vs => .done (v :: vs)

/-- What calls of `get_response` do. -/
def listens : Nat → Talk Byte Reply (List Byte)
  | 0     => .done []
  | k + 1 => (Talk.hear fun r => .done r.class).bind fun v => (listens k).bind fun vs => .done (v :: vs)

theorem plays_exec (hW : Accepting W) (hS : Speaks S V Reply.bytes) (c : Call) :
    Plays (At o) V (fun n => c.exec (Kernel.serve S W) n) c.talk := by
  cases hc : c.sends with
  | some p =>
      simp only [Call.exec_of_sends _ _ hc, Call.talk_of_sends hc]
      exact plays_sendCmd hW hS p.1 p.2
  | none =>
      cases c with
      | rename rpath newrpath =>
          cases rpath with
          | none => exact .done rca_error
          | some rpath =>
              cases newrpath with
              | none => exact .done rca_error
              | some newrpath =>
                  have second : ∀ v : Byte, Plays (At o) V
                      (fun n => if IsError v then pure rca_error
                        else sendCmd (Kernel.serve S W) n (ascii "RNTO") (some newrpath))
                      (if IsError v then .done rca_error
                        else command (ascii "RNTO") (some newrpath) fun r => .done r.class) := by
                    intro v
                    split
                    · exact .done rca_error
                    · exact plays_sendCmd hW hS _ _
                  exact (plays_sendCmd hW hS (ascii "RNFR") (some rpath)).bind second
      | _ => cases hc

/-- **A session** plays its talk, with any server. -/
theorem plays_session (hW : Accepting W) (hS : Speaks S V Reply.bytes) : ∀ cs : List Call,
    Plays (At o) V (fun n => session (Kernel.serve S W) n cs) (talks cs)
  | []      => .done []
  | c :: cs => (plays_exec hW hS c).bind fun _ => (plays_session hW hS cs).bind fun _ => .done _

theorem plays_listen : ∀ k : Nat, Plays (At o) V (fun n => listen (Kernel.serve S W) n k) (listens k)
  | 0     => .done []
  | k + 1 => plays_getResponse.bind fun _ => (plays_listen k).bind fun _ => .done _

end Serve

/-! ### In step -/

/-- A server that answers each line once. -/
def lineServer (answer : List (List Byte) → List Byte → Reply) : Answerer Byte Reply :=
  .each (fun a => (eol.split a).1) Eol.split_prefix answer

/-- There is no line end in the arguments. -/
def Call.Clean : Call → Prop
  | .method _ (some arg)                     => eol.lineEnd arg = none
  | .rename (some rpath) (some newrpath) => eol.lineEnd rpath = none ∧ eol.lineEnd newrpath = none
  | _                                        => True

theorem lineEnd_line {verb : List Byte} (hv : verb ∈ verbs) {arg : List Byte} (h : eol.lineEnd arg = none) :
    eol.lineEnd (line verb (some arg)) = none := (lineEnd_commandLine hv arg).mpr h

theorem Call.lineEnd_sends {c : Call} (h : c.Clean) {verb : List Byte} {arg : Option (List Byte)}
    (hc : c.sends = some (verb, arg)) : eol.lineEnd (line verb arg) = none := by
  have number : ∀ n, eol.lineEnd (decimal n) = none := fun n => Eol.lineEnd_of_notMem (Request.lf_notMem_decimal n)
  cases c with
  | method m arg' =>
      cases hc
      cases arg with
      | none => cases m <;> decide
      | some arg => exact lineEnd_line m.verb_mem h
  | server_port portno =>
      cases hc
      refine lineEnd_line (by decide) (Eol.lineEnd_of_notMem ?_)
      simp only [List.mem_append, not_or]
      exact ⟨⟨Request.lf_notMem_decimal _, by decide⟩, Request.lf_notMem_decimal _⟩
  | allocate n => cases hc; exact lineEnd_line (by decide) (number n)
  | restart n => cases hc; exact lineEnd_line (by decide) (number n)
  | rep_type rt => cases hc; cases rt <;> decide
  | file_stru fs => cases hc; cases fs <;> decide
  | trans_mode tm => cases hc; cases tm <;> decide
  | rename _ _ => cases hc
  | help | noop | quit | abort | pwd | system | status => cases hc; decide

section InStep

variable (answer : List (List Byte) → List Byte → Reply) {d d₁ d' : Desk Byte Reply}

/-- The lines the server has received. -/
def received (d : Desk Byte Reply) : List (List Byte) := (eol.split d.heard).1

/-- There is no unfinished line. -/
def Complete (d : Desk Byte Reply) : Prop := (eol.split d.heard).2 = []

/-- The server has received the lines, and there are as many replies to read as before. -/
structure Stepped (d d' : Desk Byte Reply) (ls : List (List Byte)) : Prop where
  heard : d'.heard = d.heard ++ onWire ls
  clean : ∀ l ∈ ls, eol.lineEnd l = none
  lag   : d'.unread.length = d.unread.length

theorem Stepped.refl (d : Desk Byte Reply) : Stepped d d [] :=
  ⟨(List.append_nil _).symm, List.forall_mem_nil _, rfl⟩

theorem Stepped.trans {ls ls' : List (List Byte)} (h : Stepped d d₁ ls) (h' : Stepped d₁ d' ls') :
    Stepped d d' (ls ++ ls') :=
  ⟨by rw [h'.heard, h.heard, onWire, onWire, onWire, List.flatMap_append, List.append_assoc],
    fun l hl => (List.mem_append.mp hl).elim (h.clean l) (h'.clean l), h'.lag.trans h.lag⟩

theorem split_heard (hd : Complete d) {w : List Byte} {ls : List (List Byte)} (hw : w = onWire ls)
    (hclean : ∀ l ∈ ls, eol.lineEnd l = none) : eol.split (d.heard ++ w) = (received d ++ ls, []) := by
  rw [Eol.split_append hd, hw, split_onWire hclean]
  rfl

theorem Stepped.received {ls : List (List Byte)} (h : Stepped d d' ls) (hd : Complete d) :
    received d' = received d ++ ls ∧ Complete d' := by
  rw [Ftpbuf.received, Complete, h.heard, split_heard hd rfl h.clean]
  exact ⟨rfl, rfl⟩

/-- The server's replies to lines. -/
theorem more_lines (hd : Complete d) {ls : List (List Byte)} (h : ∀ l ∈ ls, eol.lineEnd l = none) :
    (lineServer answer).more d.heard (onWire ls) = Answerer.answers answer (received d) ls :=
  Answerer.more_each ls (congrArg Prod.fst (split_heard hd rfl h))

/-- **A command** is one line; its answer joins the queue, and the head of the queue is read. -/
theorem run_command {α : Type} (hd : Complete d) {verb : List Byte} {arg : Option (List Byte)}
    (hl : eol.lineEnd (line verb arg) = none) (next : Reply → Talk Byte Reply α) :
    ∃ d₁, (command verb arg next).run (lineServer answer) d =
        (next (enqueue d.unread (answer (received d) (line verb arg))).1).run (lineServer answer) d₁ ∧
      Stepped d d₁ [line verb arg] ∧
      d₁.unread = (enqueue d.unread (answer (received d) (line verb arg))).2 := by
  have hwire : onWire [line verb arg] = line verb arg ++ [13, 10] := List.flatMap_singleton _ _
  have hmore := more_lines answer hd (List.forall_mem_singleton.mpr hl)
  rw [hwire] at hmore
  refine ⟨_, Talk.run_exchange_one next hmore, ⟨by rw [hwire], List.forall_mem_singleton.mpr hl, ?_⟩, rfl⟩
  exact length_enqueue _ _

/-- What calls return, the lines they send, and the replies unread behind them. -/
structure Course (β : Type) where
  value  : β
  lines  : List (List Byte)
  unread : List Reply

/-- The course of a call, where the server has received the lines `hist` and the replies `us` are unread.
`rename` sends its second command where the reply it has read is no error. -/
def Call.course (answer : List (List Byte) → List Byte → Reply) (hist : List (List Byte)) (us : List Reply)
    (c : Call) : Course Byte :=
  match c with
  | rename (some rpath) (some newrpath) =>
    let l := line (ascii "RNFR") (some rpath)
    let l' := line (ascii "RNTO") (some newrpath)
    let first := enqueue us (answer hist l)
    let second := enqueue first.2 (answer (hist ++ [l]) l')
    if IsError first.1.class then ⟨rca_error, [l], first.2⟩ else ⟨second.1.class, [l, l'], second.2⟩
  | c =>
    match c.sends with
    | some (verb, arg) =>
      let read := enqueue us (answer hist (line verb arg))
      ⟨read.1.class, [line verb arg], read.2⟩
    | none => ⟨rca_error, [], us⟩

/-- A run of a talk goes as the course says. -/
structure Takes {β : Type} (t : Talk Byte Reply β) (d d' : Desk Byte Reply) (c : Course β) : Prop where
  run     : t.run (lineServer answer) d = some (c.value, d')
  stepped : Stepped d d' c.lines
  unread  : d'.unread = c.unread

/-- **One call.** -/
theorem Call.run_talk {c : Call} (hc : c.Clean) (hd : Complete d) :
    ∃ d', Takes answer c.talk d d' (c.course answer (received d) d.unread) := by
  cases hs : c.sends with
  | some p =>
      obtain ⟨d₁, hrun, hstep, hunread⟩ := run_command answer hd (c.lineEnd_sends hc hs)
        fun r => .done r.class
      have hcourse : c.course answer (received d) d.unread =
          ⟨(enqueue d.unread (answer (received d) (line p.1 p.2))).1.class, [line p.1 p.2],
            (enqueue d.unread (answer (received d) (line p.1 p.2))).2⟩ := by
        cases c with
        | rename _ _ => cases hs
        | _ => cases hs; rfl
      rw [hcourse]
      exact ⟨d₁, talk_of_sends hs ▸ hrun, hstep, hunread⟩
  | none =>
      cases c with
      | rename rpath newrpath =>
          cases rpath with
          | none => exact ⟨d, rfl, .refl d, rfl⟩
          | some rpath =>
              cases newrpath with
              | none => exact ⟨d, rfl, .refl d, rfl⟩
              | some newrpath =>
                  obtain ⟨d₁, hrun, hstep, hunread⟩ := run_command answer hd
                    (lineEnd_line (show ascii "RNFR" ∈ verbs by decide) hc.1) fun r =>
                      if IsError r.class then .done rca_error
                      else command (ascii "RNTO") (some newrpath) fun r => .done r.class
                  simp only [Call.course]
                  split
                  · rename_i herr
                    rw [if_pos herr] at hrun
                    exact ⟨d₁, hrun, hstep, hunread⟩
                  · rename_i herr
                    rw [if_neg herr] at hrun
                    obtain ⟨hlines, hd₁⟩ := hstep.received hd
                    obtain ⟨d', hrun', hstep', hunread'⟩ := run_command answer hd₁
                      (lineEnd_line (show ascii "RNTO" ∈ verbs by decide) hc.2) fun r => .done r.class
                    rw [hlines, hunread] at hrun' hunread'
                    exact ⟨d', hrun.trans hrun', hstep.trans hstep', hunread'⟩
      | _ => cases hs

/-- The course of a session, call by call. -/
def courses (answer : List (List Byte) → List Byte → Reply) : List (List Byte) → List Reply → List Call →
    Course (List Byte)
  | _,    us, []      => ⟨[], [], us⟩
  | hist, us, c :: cs =>
    let one := c.course answer hist us
    let rest := courses answer (hist ++ one.lines) one.unread cs
    ⟨one.value :: rest.value, one.lines ++ rest.lines, rest.unread⟩

/-- **All calls.** -/
theorem run_talks {cs : List Call} (hcs : ∀ c ∈ cs, c.Clean) (hd : Complete d) :
    ∃ d', Takes answer (talks cs) d d' (courses answer (received d) d.unread cs) := by
  induction cs generalizing d with
  | nil => exact ⟨d, rfl, .refl d, rfl⟩
  | cons c cs ih =>
      obtain ⟨d₁, hrun, hstep, hunread⟩ := Call.run_talk answer (hcs c List.mem_cons_self) hd
      obtain ⟨hlines, hd₁⟩ := hstep.received hd
      obtain ⟨d', hrun', hstep', hunread'⟩ := ih (fun c' hc' => hcs c' (List.mem_cons_of_mem c hc')) hd₁
      rw [hlines, hunread] at hrun' hstep' hunread'
      refine ⟨d', ?_, hstep.trans hstep', hunread'⟩
      rw [talks, Talk.run_bind_some hrun, Talk.run_bind_some hrun', Talk.run]
      rfl

/-- Reading what is unread. -/
theorem run_listens (V : Answerer Byte Reply) : ∀ (rs : List Reply) (d : Desk Byte Reply), d.unread = rs →
    (listens rs.length).run V d = some (rs.map Reply.class, ⟨d.heard, d.read ++ rs, []⟩)
  | [],      d, h => by
      cases d
      cases h
      simp [listens, Talk.run]
  | r :: rs, d, h => by
      have hone : (Talk.hear fun r => .done r.class).run V d = some (r.class, d.hear r rs) := by
        rw [Talk.run, h]
        rfl
      have hrest := run_listens V rs (d.hear r rs) rfl
      rw [List.length_cons, listens, Talk.run_bind_some hone, Talk.run_bind_some hrest, Talk.run]
      simp [Desk.hear]

/-! ### The sessions -/

variable {B : Nat} {ω : Type} {S : Answerer Byte (Chunk B)}
  {W : ω → (bs : List Byte) → WriteResult bs.length × ω} {o : Option (List Byte)}

/-- **Sessions stay in step.**  The server answers each line once, as it likes, and its replies are cut into
reads at line ends; the kernel accepts writes in any portions.  Then a session of any calls with clean
arguments comes to its end: it returns what its course says, and the server has received the lines of the
course.  There are as many replies unread as before it, so that each command has been answered with the
reply as many replies back; and none is lost or read twice.  A client that first reads what is unread gets
from each call the server's answer to it. -/
theorem session_in_step (hW : Accepting W)
    (hS : Speaks S (lineServer answer) Reply.bytes) {cs : List Call} (hcs : ∀ c ∈ cs, c.Clean)
    {s : Proc Ftpbuf (Peer B (List Byte × ω))} {d : Desk Byte Reply} (hs : At o s d) (hd : Complete d) :
    (∃ s' read, Comes (fun n => session (Kernel.serve S W) n cs) s
        (courses answer (received d) d.unread cs).value s' ∧
      At o s' ⟨d.heard ++ onWire (courses answer (received d) d.unread cs).lines, read,
        (courses answer (received d) d.unread cs).unread⟩ ∧
      (courses answer (received d) d.unread cs).unread.length = d.unread.length ∧
      read ++ (courses answer (received d) d.unread cs).unread = d.read ++ d.unread ++
        Answerer.answers answer (received d) (courses answer (received d) d.unread cs).lines) ∧
    ∃ s', Comes (fun n => listen (Kernel.serve S W) n d.unread.length >>= fun us =>
        session (Kernel.serve S W) n cs >>= fun vs => pure (us, vs)) s
        (d.unread.map Reply.class, (courses answer (received d) [] cs).value) s' ∧
      At o s' ⟨d.heard ++ onWire (courses answer (received d) [] cs).lines, d.read ++ d.unread ++
        Answerer.answers answer (received d) (courses answer (received d) [] cs).lines, []⟩ := by
  -- what the talk comes to, from a desk
  have run : ∀ d : Desk Byte Reply, Complete d → ∃ d',
      Takes answer (talks cs) d d' (courses answer (received d) d.unread cs) ∧
      d'.read ++ d'.unread = d.read ++ d.unread ++
        Answerer.answers answer (received d) (courses answer (received d) d.unread cs).lines := by
    intro d hd
    obtain ⟨d', htakes⟩ := run_talks answer hcs hd
    obtain ⟨w, hheard, hreplies⟩ := Talk.run_ledger _ htakes.run
    obtain rfl : onWire _ = w := List.append_cancel_left (htakes.stepped.heard.symm.trans hheard)
    rw [more_lines answer hd htakes.stepped.clean] at hreplies
    exact ⟨d', htakes, hreplies⟩
  constructor
  · obtain ⟨d', htakes, hreplies⟩ := run d hd
    obtain ⟨s', hcomes, hs'⟩ := plays_session hW hS cs s d _ d' hs htakes.run
    have hd' : d' = ⟨d.heard ++ onWire (courses answer (received d) d.unread cs).lines, d'.read,
        (courses answer (received d) d.unread cs).unread⟩ := by
      rw [← htakes.stepped.heard, ← htakes.unread]
    have hlag := htakes.stepped.lag
    rw [htakes.unread] at hlag hreplies
    exact ⟨s', d'.read, hcomes, hd' ▸ hs', hlag, hreplies⟩
  · have hlisten := run_listens (lineServer answer) d.unread d rfl
    obtain ⟨d', htakes, hreplies⟩ := run ⟨d.heard, d.read ++ d.unread, []⟩ hd
    have hboth : ((listens d.unread.length).bind fun us => (talks cs).bind fun vs => .done (us, vs)).run
        (lineServer answer) d =
          some ((d.unread.map Reply.class, (courses answer (received d) [] cs).value), d') := by
      rw [Talk.run_bind_some hlisten, Talk.run_bind_some htakes.run, Talk.run]
      rfl
    have hplays := (plays_listen (S := S) (W := W) (V := lineServer answer) (o := o) d.unread.length).bind
      fun us => (plays_session hW hS cs).bind fun vs => .done (us, vs)
    obtain ⟨s', hcomes, hs'⟩ := hplays s d _ d' hs hboth
    have hempty : d'.unread = [] := List.length_eq_zero_iff.mp htakes.stepped.lag
    rw [hempty, List.append_nil, List.append_nil] at hreplies
    have hd' : d' = ⟨d.heard ++ onWire (courses answer (received d) [] cs).lines, d.read ++ d.unread ++
        Answerer.answers answer (received d) (courses answer (received d) [] cs).lines, []⟩ := by
      have hheard := htakes.stepped.heard
      cases d'
      cases hempty
      cases hreplies
      cases hheard
      rfl
    exact ⟨s', hcomes, hd' ▸ hs'⟩

end InStep

/-- A reply of one line. -/
def oneLine (n : Nat) : Reply := .line (codeOfNat n) ⟨ascii "ok", by decide⟩

/-- A password is asked for behind the first command. -/
def polite (hist : List (List Byte)) (_ : List Byte) : Reply := if hist = [] then oneLine 331 else oneLine 250

def asChunk (r : Reply) (h : r.bytes ≠ [] ∧ r.bytes.length ≤ 1024) : Chunk 1024 := ⟨r.bytes, h⟩

def politely (hist : List (List Byte)) (_ : List Byte) : List (Chunk 1024) :=
  if hist = [] then [asChunk (oneLine 331) (by decide)] else [asChunk (oneLine 250) (by decide)]

theorem politely_cut (hist : List (List Byte)) (l : List Byte) :
    CutAs Reply.bytes [polite hist l] (politely hist l) := by
  rw [polite, politely]
  by_cases h : hist = []
  · rw [if_pos h, if_pos h]
    exact ⟨by decide, by decide⟩
  · rw [if_neg h, if_neg h]
    exact ⟨by decide, by decide⟩

/-- One byte at a time. -/
def sip (_ : Unit) (bs : List Byte) : WriteResult bs.length × Unit :=
  if h : 0 < bs.length then (.accepted 1 Nat.one_pos h, ()) else (.failed 0, ())

theorem sip_accepting : Accepting sip := fun _ _ l => ⟨1, Nat.one_pos, Nat.succ_pos l.length, (), rfl⟩

/-- A user, a password, a file renamed and the end. -/
def visit : List Call :=
  [.method .user (some (ascii "me")), .method .passwd (some (ascii "x")), .rename (some (ascii "a")) (some (ascii "b")),
    .quit]

/-- An ftpbuf as constructed, with the greeting in the inbox. -/
def atGreeting : Proc Ftpbuf (Peer 1024 (List Byte × Unit)) :=
  ⟨ofDesc bufsiz 3 (fun _ => 0) (fun _ => 0) (fun _ => 0) (some []),
    ⟨⟨[asChunk (oneLine 220) (by decide)], ([], ())⟩, 0, []⟩⟩

theorem atGreeting_at : At (some []) atGreeting ⟨[], [], [oneLine 220]⟩ where
  writable := ⟨_, rfl, Nat.zero_le _, rfl, Nat.succ_pos _⟩
  pending  := rfl
  fed      := ⟨⟨_, rfl⟩, rfl⟩
  heard    := rfl
  ahead    := by decide
  whole    := by decide
  told     := rfl

theorem visit_clean : ∀ c ∈ visit, c.Clean := by
  intro c hc
  rcases List.mem_cons.mp hc with rfl | hc
  · exact show eol.lineEnd (ascii "me") = none by decide
  · rcases List.mem_cons.mp hc with rfl | hc
    · exact show eol.lineEnd (ascii "x") = none by decide
    · rcases List.mem_cons.mp hc with rfl | hc
      · exact ⟨by decide, by decide⟩
      · rw [List.mem_singleton.mp hc]
        trivial

/-- With the greeting unread each call returns the class of the reply before; with the greeting read, of its
own. -/
theorem session_in_step_visit :
    let S := (Answerer.each (fun a => (eol.split a).1) Eol.split_prefix politely).flat
    (∃ s' read, Comes (fun n => session (Kernel.serve S sip) n visit) atGreeting [50, 51, 50, 50] s' ∧
      At (some []) s' ⟨onWire (["USER me", "PASS x", "RNFR a", "RNTO b", "QUIT"].map ascii), read, [oneLine 250]⟩) ∧
    ∃ s', Comes (fun n => listen (Kernel.serve S sip) n 1 >>= fun us =>
        session (Kernel.serve S sip) n visit >>= fun vs => pure (us, vs)) atGreeting ([50], [51, 50, 50, 50]) s' := by
  obtain ⟨⟨s, read, hcomes, hs, -⟩, s', hcomes', -⟩ := session_in_step (o := some []) polite sip_accepting
    (speaks_each politely_cut) visit_clean atGreeting_at rfl
  exact ⟨⟨s, read, hcomes, hs⟩, s', hcomes'⟩

end Ftpbuf

end Socketpp
