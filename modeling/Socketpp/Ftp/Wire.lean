import Socketpp.Ftp.Aside
import Socketpp.Ftp.Endpoint

/-!
# Ftp — commands on the wire

What a call puts on the control connection: the command lines of RFC 959 with the caller's arguments
(`Request.lines`), except that `trans_mode` sends STRU where the command is MODE, and `append` sends APPE
without a path (`right_iff`).
-/

namespace Socketpp
open Lib

section Lines

variable {ls : List (List Byte)}

/-- Lines with their ends. -/
def onWire (ls : List (List Byte)) : List Byte := ls.flatMap fun l => l ++ [13, 10]

theorem split_onWire : ∀ {ls : List (List Byte)}, (∀ l ∈ ls, eol.lineEnd l = none) →
    eol.split (onWire ls) = (ls, [])
  | [],      _ => rfl
  | l :: ls, h => by
      have hls := split_onWire fun l' hl' => h l' (List.mem_cons_of_mem l hl')
      have hline := Eol.split_line (h l List.mem_cons_self) (onWire ls)
      rw [hls] at hline
      rw [← hline, onWire, List.flatMap_cons, List.append_assoc]
      rfl

end Lines

/-- The ftpbuf of a client. -/
def Proc.ftpbuf {κ : Type} (s : Proc Client κ) : Proc Ftpbuf κ := ⟨s.obj.transfer.ftp, s.sys⟩

/-- The control connection of a client. -/
def Proc.control {κ : Type} (s : Proc Client κ) : Proc Sockbuf κ := s.ftpbuf.base

namespace Request
open Client Transfer Ftpbuf

/-! ### The lines -/

/-- The commands of RFC 959 for a call.  `port` is the argument of PORT. -/
def lines (port : List Byte) : Request → List (List Byte)
  | command v arg       => [commandLine v.verb arg]
  | rep_type rt         => [commandLine (ascii "TYPE") (ascii rt.name)]
  | file_stru fs        => [commandLine (ascii "STRU") (ascii fs.name)]
  | trans_mode tm       => [commandLine (ascii "MODE") (ascii tm.name)]
  | allocate numbytes   => [commandLine (ascii "ALLO") (decimal numbytes)]
  | restart marker      => [commandLine (ascii "REST") (decimal marker)]
  | rename rpath new    => [commandLine (ascii "RNFR") rpath, commandLine (ascii "RNTO") new]
  | getfile rpath _     => [commandLine (ascii "PORT") port, commandLine (ascii "RETR") rpath]
  | putfile lpath rpath =>
    [commandLine (ascii "PORT") port, commandLine (ascii "STOR") (rpath.getD lpath)]
  | putunique lpath     => [commandLine (ascii "PORT") port, commandLine (ascii "STOU") lpath]
  | append lpath rpath  =>
    [commandLine (ascii "PORT") port, commandLine (ascii "APPE") (rpath.getD lpath)]

/-- The calls that send them. -/
def Right : Request → Prop
  | trans_mode _ | append _ _ => False
  | _ => True

/-- The strings of a call. -/
def strings : Request → List (List Byte)
  | command _ arg       => [arg]
  | rename rpath new    => [rpath, new]
  | getfile rpath _     => [rpath]
  | putfile lpath rpath => [rpath.getD lpath]
  | putunique lpath     => [lpath]
  | append lpath rpath  => [rpath.getD lpath]
  | _                   => []

/-- There is no CR and no LF in them. -/
def Clean (r : Request) : Prop := ∀ arg ∈ r.strings, 13 ∉ arg ∧ 10 ∉ arg

def First.lines (port : List Byte) : First → List (List Byte)
  | nothing     => []
  | .from rpath => [commandLine (ascii "RNFR") rpath]
  | .port _     => [commandLine (ascii "PORT") port]

/-- The lines that are sent. -/
def sent (port : List Byte) (r : Request) : List (List Byte) :=
  r.first.lines port ++ [r.verb ++ argBytes r.arg]

theorem sent_eq {r : Request} (h : r.Right) (port : List Byte) : r.sent port = r.lines port := by
  cases r with
  | trans_mode | append => exact h.elim
  | putfile lpath rpath => cases rpath <;> rfl
  | _ => rfl

theorem sent_ne {r : Request} (h : ¬ r.Right) (port port' : List Byte) : r.sent port ≠ r.lines port' := by
  cases r with
  | trans_mode tm => cases tm <;> simp [sent, lines, first, First.lines, verb, commandLine, ascii]
  | append lpath rpath =>
      intro heq
      have hlast := congrArg (fun ls => (ls.getLast?.map List.length)) heq
      simp [sent, lines, first, First.lines, verb, arg, argBytes, commandLine] at hlast
  | _ => exact absurd trivial h

/-! ### Line feeds -/

theorem decimal_negSucc (n : Nat) : decimal (Int.negSucc n) = 45 :: Decimal.print (n + 1) := by
  show ascii ("-" ++ (n + 1).repr) = _
  rw [ascii, String.toList_append, List.map_append, Nat.toList_repr]
  rfl

theorem lf_notMem_decimal (n : Int) : 10 ∉ decimal n := by
  have hdigits : ∀ m, 10 ∉ Decimal.print m := fun m => Decimal.notMem_print (by decide)
  cases n with
  | ofNat m =>
      rw [Int.ofNat_eq_natCast, decimal_natCast]
      exact hdigits m
  | negSucc m =>
      rw [decimal_negSucc, List.mem_cons, not_or]
      exact ⟨by decide, hdigits _⟩

theorem lf_notMem_portArg (ina : InAddr) (portno : Nat) : 10 ∉ portArg ina portno := by
  have hdigits : ∀ m, 10 ∉ Decimal.print m := fun m => Decimal.notMem_print (by decide)
  rw [portArg_eq]
  simp [octets, List.intercalate_cons_cons, hdigits]

theorem verb_mem (r : Request) : r.verb ∈ verbs := by
  cases r with
  | command v arg => exact v.verb_mem
  | _ => simp [verb, verbs]

theorem lf_notMem_verb (r : Request) : 10 ∉ r.verb := by
  have hverbs : ∀ verb ∈ verbs, 10 ∉ verb := by decide
  exact hverbs _ r.verb_mem

theorem lf_notMem_arg {r : Request} (hclean : r.Clean) : ∀ arg, r.arg = some arg → 10 ∉ arg := by
  have hstring : ∀ arg ∈ r.strings, 10 ∉ arg := fun arg harg => (hclean arg harg).2
  intro a ha
  cases r with
  | rep_type rt => cases ha; cases rt <;> decide
  | file_stru fs => cases ha; cases fs <;> decide
  | trans_mode tm => cases ha; cases tm <;> decide
  | allocate | restart => cases ha; exact lf_notMem_decimal _
  | append => cases ha
  | putfile lpath rpath => cases rpath <;> cases ha <;> exact hstring _ (by simp [strings])
  | _ => cases ha; exact hstring _ (by simp [strings])

theorem lf_notMem_commandLine {cmd arg : List Byte} (hcmd : 10 ∉ cmd) (harg : 10 ∉ arg) :
    10 ∉ commandLine cmd arg := by
  simp [commandLine, hcmd, harg]

/-- Each line that is sent ends where its line end is. -/
theorem lf_notMem_sent {r : Request} (hclean : r.Clean) {port : List Byte} (hport : 10 ∉ port) :
    ∀ l ∈ r.sent port, 10 ∉ l := by
  intro l hl
  rcases List.mem_append.mp hl with hl | hl
  · cases hf : r.first with
    | nothing => rw [hf] at hl; cases hl
    | «from» rpath =>
        rw [hf, First.lines, List.mem_singleton] at hl
        have hrpath : 10 ∉ rpath := by
          cases r with
          | rename rpath new => cases hf; exact (hclean _ (by simp [strings])).2
          | _ => cases hf
        rw [hl]
        exact lf_notMem_commandLine (by decide) hrpath
    | port opening =>
        rw [hf, First.lines, List.mem_singleton] at hl
        rw [hl]
        exact lf_notMem_commandLine (by decide) hport
  · rw [List.mem_singleton] at hl
    rw [hl, List.mem_append, not_or]
    refine ⟨lf_notMem_verb r, ?_⟩
    cases harg : r.arg with
    | none => simp [argBytes]
    | some arg => simp [argBytes, lf_notMem_arg hclean arg harg]

/-! ### What a call hands over -/

variable {κ : Type} {N : NetKernel κ} {B : ℕ+} {m m' l l' : Alloc} {n : Nat} {fd : Int}
  {s s₁ s' : Proc Client κ} {r : Request}

theorem flushed_behind {s s₁ s' : Proc Sockbuf κ} {xs : List Byte} (h : Sockbuf.PutSame s s₁)
    (h' : Flushed s₁ s' xs) : Flushed s s' xs := by
  obtain ⟨hw, hrep, hpend, hsent⟩ := h'
  refine ⟨hw, hrep.trans h.rep, hpend, ?_⟩
  rw [hsent, Sockbuf.sent, Sockbuf.sent, h.rep, h.sent, Sockbuf.pending, Sockbuf.pending, h.putArea]

theorem putSame_of_still {s s' : Proc Sockbuf κ} (hobj : s'.obj = s.obj)
    (ht : s'.sys.trace = s.sys.trace) : Sockbuf.PutSame s s' :=
  ⟨by rw [hobj], by rw [hobj], by rw [hobj], fun fd => by rw [ht]⟩

/-- **A command** with or without an argument, and its line end. -/
theorem flushed_putCmd {t t' : Proc Ftpbuf κ} {K : Kernel κ} {cmd : List Byte}
    {arg : Option (List Byte)} {w : Int} (hw : t.base.obj.Writable)
    (h : putCmd K cmd arg t = .ret w t') :
    Flushed t.base t'.base (cmd ++ argBytes arg ++ [13, 10]) := by
  obtain ⟨_, t₁, h₁, h⟩ := Prog.bind_eq_ret h
  obtain ⟨_, t₂, h₂, h⟩ := Prog.bind_eq_ret h
  obtain ⟨_, t₃, h₃, h₄⟩ := Prog.bind_eq_ret h
  have hcmd := (puts_xsputn cmd t hw).ret h₁
  have harg : Put t₁ t₂ (argBytes arg) := by
    have hw₁ := hcmd.moved.writable
    cases arg with
    | none =>
        cases h₂
        exact .refl hw₁
    | some arg =>
        exact (((puts_xsputn [32]).bind fun _ => puts_xsputn arg) t₁ hw₁).ret h₂
  have hend := (puts_xsputn [13, 10] t₂ harg.moved.writable).ret h₃
  have hsync := (sync_flushes hend.moved.writable).ret h₄
  have hput := ((hcmd.trans harg).trans hend).trans hsync.1
  rw [List.append_nil] at hput
  exact hput.flushed hsync.2

theorem onFtp_ret {α : Type} {p : FtpM κ α} {a : α} {t t' : Proc Transfer κ}
    (h : onFtp p t = .ret a t') : p ⟨t.obj.ftp, t.sys⟩ = .ret a ⟨t'.obj.ftp, t'.sys⟩ ∧
      t'.obj = { t.obj with ftp := t'.obj.ftp } := by
  obtain ⟨u, hp, rfl⟩ := Prog.zoom_eq_ret h
  exact ⟨hp, rfl⟩

theorem onControl_ret {α : Type} {p : FtpM κ α} {a : α} (h : onControl p s = .ret a s₁) :
    p s.ftpbuf = .ret a s₁.ftpbuf ∧ s₁.obj.transfer.sb = s.obj.transfer.sb := by
  obtain ⟨hp, hobj⟩ := onFtp_ret (raising_ret.mp (onTransfer_ret h).1)
  refine ⟨hp, ?_⟩
  rw [show s₁.obj.transfer = _ from hobj]
  rfl

/-- A whole command, with its reply. -/
theorem flushed_sendCmd {t t' : Proc Ftpbuf κ} {K : Kernel κ} {cmd arg : List Byte} {c : Byte}
    (hw : t.base.obj.Writable) (h : sendCmd K n cmd (some arg) t = .ret c t') :
    Flushed t.base t'.base (commandLine cmd arg ++ [13, 10]) := (hands_sendCmd hw cmd arg).returned n c t' h

/-- **`useraddr`** sends one command, with some address and port. -/
theorem flushed_useraddr {t t' : Proc Ftpbuf κ} {sa : Sockinetaddr} {c : Byte}
    (hw : t.base.obj.Writable) (h : useraddr N n sa t = .ret c t') :
    ∃ ina portno, Flushed t.base t'.base (commandLine (ascii "PORT") (portArg ina portno) ++ [13, 10]) := by
  have hstill : Prog.Keeps Still (localhost N) := by
    refine closed_still.keeps_bind (keeps_netCall _) fun a => ?_
    cases a with
    | none => exact closed_still.keeps_throw _
    | some hostname =>
        refine closed_still.keeps_bind (fun s => ⟨rfl, rfl⟩) fun h => ?_
        cases h with
        | none => exact closed_still.keeps_throw _
        | some h => exact closed_still.keeps_pure _
  have send : ∀ ina t₁, Still t t₁ →
      sendCmd N.toKernel n (ascii "PORT") (some (portArg ina (ntohs sa.sin_port))) t₁ = .ret c t' →
      Flushed t.base t'.base (commandLine (ascii "PORT") (portArg ina (ntohs sa.sin_port)) ++ [13, 10]) := by
    intro ina t₁ hs hsend
    have hsame : Sockbuf.PutSame t.base t₁.base := putSame_of_still (by rw [Proc.base, hs.1]; rfl) hs.2
    exact flushed_behind hsame (flushed_sendCmd (writable_of_putSame hsame hw) hsend)
  unfold useraddr at h
  split at h
  · obtain ⟨ina, t₁, hlocal, h⟩ := Prog.bind_eq_ret h
    exact ⟨ina, _, send ina t₁ (hstill.ret hlocal) h⟩
  · obtain ⟨ina, t₁, hpure, h⟩ := Prog.bind_eq_ret h
    cases hpure
    exact ⟨_, _, send _ t ⟨rfl, rfl⟩ h⟩

theorem still_onSb {α : Type} {p : SockM κ α} (h : Prog.Keeps Still p) : Prog.Keeps Still (onSb p) :=
  Prog.Keeps.zoom h fun s t ht => ⟨by show { s.obj with sb := t.obj } = s.obj; rw [ht.1], ht.2⟩

/-- **`prepare`** sends PORT. -/
theorem flushed_prepare (hw : s.control.obj.Writable)
    (h : onTransfer (raising (prepare N n 10000)) s = .ret () s₁) :
    (∃ ina portno, Flushed s.control s₁.control
      (commandLine (ascii "PORT") (portArg ina portno) ++ [13, 10])) ∧
    s₁.obj.transfer.sb = s.obj.transfer.sb := by
  obtain ⟨h, -⟩ := onTransfer_ret h
  rw [raising_ret] at h
  obtain ⟨_, t₁, hbind, h⟩ := Prog.bind_eq_ret h
  obtain ⟨sa, t₂, hlocal, h⟩ := Prog.bind_eq_ret h
  obtain ⟨c, t₃, haddr, hlisten⟩ := Prog.bind_eq_ret h
  have h₁ := (still_onSb (keeps_bind_until_success N n 10000)).ret hbind
  have h₂ := (still_onSb (keeps_localaddr N)).ret hlocal
  have h₃ := (still_onSb (keeps_listen N 1)).ret hlisten
  obtain ⟨haddr, hobj⟩ := onFtp_ret haddr
  have hbefore : Sockbuf.PutSame s.control ⟨t₂.obj.ftp.toSockbuf, t₂.sys⟩ :=
    putSame_of_still (by rw [h₂.1, h₁.1]; rfl) (h₂.2.trans h₁.2)
  have hbehind : Sockbuf.PutSame ⟨t₃.obj.ftp.toSockbuf, t₃.sys⟩ s₁.control :=
    putSame_of_still (congrArg (fun x => x.ftp.toSockbuf) h₃.1) h₃.2
  refine ⟨?_, ?_⟩
  · obtain ⟨ina, portno, hport⟩ := flushed_useraddr (writable_of_putSame hbefore hw) haddr
    exact ⟨ina, portno, flushed_behind hbefore (hport.same hbehind)⟩
  · show s₁.transfer.obj.sb = s.transfer.obj.sb
    rw [h₃.1, hobj, h₂.1, h₁.1]

/-! ### A call -/

/-- A local file that is opened leaves the control connection alone. -/
theorem opening_ftp {opening : Client → Client} (h : r.first = .port opening) (x : Client) :
    (opening x).transfer.ftp = x.transfer.ftp := by
  cases r with
  | getfile rpath lpath =>
      cases h
      simp only [openOut]
      split <;> rfl
  | putfile | putunique | append => cases h; rfl
  | command | rep_type | file_stru | trans_mode | allocate | restart | rename => cases h

/-- `sb` is new, and the control connection as it was. -/
theorem openSb_control (hN : N.Avoids fd)
    (h : onTransfer (raising (openSb N B m sock_stream 0)) s = .ret () s₁) :
    Sockbuf.PutSame s.control s₁.control ∧ s₁.obj.transfer.sb.rep.sock ≠ fd := by
  obtain ⟨hobj, ht, hsock⟩ :=
    (openSb_sat hN sock_stream 0 s.transfer).ret (raising_ret.mp (onTransfer_ret h).1)
  exact ⟨putSame_of_still (congrArg (fun x => x.ftp.toSockbuf) hobj) ht, hsock⟩

/-- **What a call hands over** with its last command: its lines. -/
theorem flushed_ask (hN : N.Avoids fd) (hw : s.control.obj.Writable)
    (h : r.ask N B m n s = .ret () s₁) :
    (∃ ina portno, Flushed s.control s₁.control (onWire (r.sent (portArg ina portno)))) ∧
      ∀ opening, r.first = .port opening → s₁.obj.transfer.sb.rep.sock ≠ fd := by
  obtain ⟨s₀, w, hfirst, hput⟩ := ask_ret.mp h
  obtain ⟨hput, hsb⟩ := onControl_ret hput
  have wire : ∀ ls l, onWire (ls ++ [l]) = onWire ls ++ (l ++ [13, 10]) := fun ls l => by
    simp [onWire]
  have single : ∀ l, onWire [l] = l ++ [13, 10] := fun l => by simp [onWire]
  cases hf : r.first with
  | nothing =>
      rw [hf] at hfirst
      cases hfirst
      refine ⟨⟨⟨0, 0, 0, 0⟩, 0, ?_⟩, fun _ => First.noConfusion⟩
      rw [sent, hf, wire]
      exact flushed_putCmd hw hput
  | «from» rpath =>
      rw [hf] at hfirst
      obtain ⟨c, _, hfrom, hs₀⟩ := Prog.bind_eq_ret hfirst
      cases hs₀
      have hsent := flushed_sendCmd hw (onControl_ret hfrom).1
      refine ⟨⟨⟨0, 0, 0, 0⟩, 0, ?_⟩, fun _ => First.noConfusion⟩
      rw [sent, hf, wire, First.lines, single]
      exact hsent.trans (flushed_putCmd hsent.writable hput)
  | port opening =>
      rw [hf] at hfirst
      obtain ⟨s₂, hopen, hprep⟩ := first_port_ret.mp hfirst
      have hopening : (s.onObj opening).control = s.control := by
        rw [Proc.control, Proc.ftpbuf, Proc.onObj, opening_ftp hf]
        rfl
      obtain ⟨hsame, hsock⟩ := openSb_control hN hopen
      rw [hopening] at hsame
      obtain ⟨⟨ina, portno, hport⟩, hsb₀⟩ := flushed_prepare (writable_of_putSame hsame hw) hprep
      have hsent := flushed_behind hsame hport
      refine ⟨⟨ina, portno, ?_⟩, fun _ _ => by rw [hsb, hsb₀]; exact hsock⟩
      rw [sent, hf, wire, First.lines, single]
      exact hsent.trans (flushed_putCmd hsent.writable hput)

/-- `Silent`, for a client. -/
def Hushed (fd : Int) (s s' : Proc Client κ) : Prop := Silent fd s.transfer s'.transfer

theorem hushed_onTransfer {p : Prog Raised (Proc Transfer κ) Byte} (hp : Prog.Keeps (Silent fd) p) :
    Prog.Keeps (Hushed fd) (onTransfer p) := Prog.Keeps.zoom hp fun _ _ h => h

theorem hushed_closeOut :
    Prog.Keeps (Hushed fd) (modify (Proc.onObj closeOut) : Prog Thrown (Proc Client κ) PUnit) := by
  refine Prog.Keeps.modify fun s => ?_
  have hsame : (closeOut s.obj).transfer = s.obj.transfer := by
    rw [closeOut]
    split <;> rfl
  refine silent_of_same ?_ ?_ rfl
  · show (closeOut s.obj).transfer.ftp.rep.sock = _
    rw [hsame]
    rfl
  · show (closeOut s.obj).transfer.sb = _
    rw [hsame]
    rfl

theorem hushed_after (hN : N.Avoids fd) (r : Request) : Prog.Keeps (Hushed fd) (r.after N B m' n) := by
  have hc := closed_silent (κ := κ) fd
  have hfinish : ∀ i o, Prog.Keeps (Hushed fd) (onTransfer (finish N B m' n i o)) :=
    fun i o => hushed_onTransfer (silent_finish hN i o)
  cases r with
  | getfile rpath lpath =>
      refine keeps_inBlock (fun s s₁ s' => ?_) (fun s => ?_) (hfinish _ _) hushed_closeOut
      · exact hc.trans s.transfer s₁.transfer s'.transfer
      · exact hc.refl s.transfer
  | putfile | putunique | append => exact hfinish _ _
  | _ => exact hushed_onTransfer (silent_getResponse n)

/-- **What a call does behind its last command** hands nothing over on the control connection. -/
theorem after_sent (hN : N.Avoids fd) (hfd : s.control.obj.rep.sock = fd)
    (hsb : ∀ opening, r.first = .port opening → s.obj.transfer.sb.rep.sock ≠ fd) :
    (r.after N B m' n s).Leaves fun s' => Sockbuf.sent s'.control = Sockbuf.sent s.control := by
  by_cases hport : ∃ opening, r.first = .port opening
  · obtain ⟨opening, hf⟩ := hport
    refine (hushed_after hN r s).mono fun s' h => ?_
    have hsock : s'.control.obj.rep.sock = s.control.obj.rep.sock := h.ftp
    rw [Sockbuf.sent, Sockbuf.sent, hsock, hfd]
    exact h.sent (hsb opening hf)
  · have hafter : r.after N B m' n = onControl (getResponse N.toKernel n) := by
      cases r with
      | getfile | putfile | putunique | append => exact absurd ⟨_, rfl⟩ hport
      | _ => rfl
    have hkeeps : Prog.Keeps (fun s s' : Proc Client κ => Sockbuf.PutSame s.control s'.control)
        (onControl (getResponse N.toKernel n)) := by
      have hreply := keeps_getResponse (Sockbuf.getFrame_putSame N.toKernel) n
      refine Prog.Keeps.zoom (keeps_raising (Prog.Keeps.zoom (R := fun s s' : Proc Transfer κ =>
        Sockbuf.PutSame ⟨s.obj.ftp.toSockbuf, s.sys⟩ ⟨s'.obj.ftp.toSockbuf, s'.sys⟩) hreply ?_)) ?_
      · exact fun _ _ h => h
      · exact fun _ _ h => h
    rw [hafter]
    refine (hkeeps s).mono fun s' h => ?_
    rw [Sockbuf.sent, Sockbuf.sent, h.rep, h.sent]

/-- The command lines of the call have been handed over, and nothing else. -/
def Carries (r : Request) (s s₁ : Proc Client κ) : Prop :=
  ∃ w ina portno, Flushed s.control s₁.control w ∧ eol.split w = (r.lines (portArg ina portno), [])

/-- **The right command with the right argument.**  What a call hands over up to its last command are its
command lines exactly if it is neither `trans_mode` nor `append`, for arguments without CR and LF.  From
there on it hands nothing over; and a call that returns has come there. -/
theorem carries_iff (m' l l' : Alloc) (hN : N.Avoids s.control.obj.rep.sock)
    (hw : s.control.obj.Writable) (hclean : r.Clean) (hpos : r.Positive N n s) :
    (∀ s₁, r.ask N B m n s = .ret () s₁ →
      (Carries r s s₁ ↔ r.Right) ∧
      (r.call N B m m' l l' n s).Leaves fun s' => Sockbuf.sent s'.control = Sockbuf.sent s₁.control) ∧
    ∀ v s', r.call N B m m' l l' n s = .ret v s' → ∃ s₁, r.ask N B m n s = .ret () s₁ := by
  refine ⟨fun s₁ hask => ?_, fun v s' hret => ask_of_call hpos hret⟩
  obtain ⟨⟨ina, portno, hsent⟩, hsb⟩ := flushed_ask hN hw hask
  have hsplit : eol.split (onWire (r.sent (portArg ina portno))) = (r.sent (portArg ina portno), []) :=
    split_onWire fun l hl =>
      Eol.lineEnd_of_notMem (lf_notMem_sent hclean (lf_notMem_portArg ina portno) l hl)
  refine ⟨⟨fun ⟨w, ina', portno', hw', hlines⟩ => ?_, fun hright => ?_⟩, ?_⟩
  · by_contra hwrong
    have hsame : w = onWire (r.sent (portArg ina portno)) :=
      List.append_cancel_left (hw'.sent.symm.trans hsent.sent)
    rw [hsame, hsplit, Prod.mk.injEq] at hlines
    exact sent_ne hwrong _ _ hlines.1
  · rw [sent_eq hright] at hsent hsplit
    exact ⟨_, ina, portno, hsent, hsplit⟩
  · rw [call_eq_after hpos hask]
    exact after_sent hN (by rw [hsent.rep]) hsb

/-- A file is asked for. -/
theorem carries_iff_getfile : ∃ s₁, (getfile (ascii "f") none).ask (Transfer.server 5) bufsiz
    Transfer.scratch 2 (downloading true) = .ret () s₁ ∧
      Carries (getfile (ascii "f") none) (downloading true) s₁ := by
  have hN : (Transfer.server 5).Avoids (downloading true).control.obj.rep.sock :=
    ⟨fun _ _ _ _ _ h => absurd (Except.ok.inj (congrArg Prod.fst h)) (by decide),
      fun _ _ _ h => absurd (Except.ok.inj (congrArg Prod.fst h)) (by decide)⟩
  have hw : (downloading true).control.obj.Writable := Sockbuf.ofDesc_writable bufsiz 3 _ _
  have hclean : (getfile (ascii "f") none).Clean := by unfold Clean; decide
  have hpos : (getfile (ascii "f") none).Positive (Transfer.server 5) 2 (downloading true) :=
    fun rpath h => by cases h
  obtain ⟨hask, -⟩ := carries_iff (B := bufsiz) (m := Transfer.scratch) Transfer.scratch Transfer.scratch
    Transfer.scratch hN hw hclean hpos
  have hseen : (((getfile (ascii "f") none).ask (Transfer.server 5) bufsiz Transfer.scratch 2
      (downloading true)).result.map fun r => r.1.toOption) = some (some ()) := by decide +kernel
  cases hrun : (getfile (ascii "f") none).ask (Transfer.server 5) bufsiz Transfer.scratch 2
      (downloading true) with
  | ret u s₁ => exact ⟨s₁, rfl, (hask s₁ hrun).1.mpr trivial⟩
  | thrown e s' => rw [hrun] at hseen; simp [Outcome.result, Except.toOption] at hseen
  | spin => rw [hrun] at hseen; cases hseen

/-- **Two wrong commands.**  `trans_mode` sends STRU, and `append` sends APPE without a path. -/
theorem wrong_commands :
    (((trans_mode .tm_block).call (Transfer.server 5) bufsiz Transfer.scratch Transfer.scratch
      Transfer.scratch Transfer.scratch 2 (downloading true)).result.map fun r =>
        (r.1.toOption, eol.split (Sockbuf.sent r.2.control))) =
      some (some 50, [ascii "STRU B"], []) ∧
    (trans_mode .tm_block).lines [] = [ascii "MODE B"] ∧
    (((append (ascii "f") none).call (Transfer.server 5) bufsiz Transfer.scratch Transfer.scratch
      Transfer.scratch Transfer.scratch 2 (downloading true)).result.map fun r =>
        (r.1.toOption, eol.split (Sockbuf.sent r.2.control))) =
      some (some rca_error, [ascii "PORT 127,0,0,1,39,16", ascii "APPE"], []) ∧
    (append (ascii "f") none).lines (ascii "127,0,0,1,39,16") =
      [ascii "PORT 127,0,0,1,39,16", ascii "APPE f"] := by
  refine ⟨?_, ?_, ?_, ?_⟩ <;> decide +kernel

end Request

end Socketpp
