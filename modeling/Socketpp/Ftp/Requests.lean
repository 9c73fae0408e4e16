import Socketpp.Ftp.Refused
import Socketpp.Protocol.Commands

/-!
# Ftp — requests

A call of a method of ftpbuf that sends commands with an argument, as one value (`Request`).  Such a call
prepares its last command, sends it, and goes on (`Request.first`, `Request.ask`, `Request.after`): what it
comes to is what it comes to from where the command has been sent (`call_eq_after`), and it does not return
without having sent it (`ask_of_call`).
-/

namespace Socketpp
open Lib

/-- The calls with the caller's arguments. -/
inductive Request where
  | command (m : Ftpbuf.Method) (arg : List Byte)
  | rep_type (rt : Reptype)
  | file_stru (fs : Filestru)
  | trans_mode (tm : Transmode)
  | allocate (numbytes : Int)
  | restart (marker : Int)
  | rename (rpath newrpath : List Byte)
  | getfile (rpath : List Byte) (lpath : Option (List Byte))
  | putfile (lpath : List Byte) (rpath : Option (List Byte))
  | putunique (lpath : List Byte)
  | append (lpath : List Byte) (rpath : Option (List Byte))

namespace Transfer

variable {κ : Type}

/-- `connect` up to the last command. -/
def prepare (N : NetKernel κ) (n : Nat) (portno : Int) : TransferM κ Unit := do
  let _ ← onSb (Sockinetbuf.bind_until_success N n portno)
  let sa ← onSb (Sockinetbuf.localaddr N)
  let _ ← onFtp (Ftpbuf.useraddr N n sa)
  onSb (Sockbuf.listen N 1)

/-- `ftpdata` from the reply to the last command on. -/
def finish (N : NetKernel κ) (B : ℕ+) (m' : Alloc) (n : Nat) (i : Bool) (o : Option OStream) :
    Prog Raised (Proc Transfer κ) Byte :=
  inBlock (destroySb N) do
    if IsError (← raising (onFtp (Ftpbuf.getResponse N.toKernel n))) then return rca_error
    else transfer N B m' n i o

end Transfer

namespace Client

variable {κ : Type}

/-- A method of the ftpbuf alone. -/
def onControl {α : Type} (p : FtpM κ α) : ClientM κ α := onTransfer (raising (Transfer.onFtp p))

end Client

namespace Request
open Client Transfer

section Calls

variable {κ : Type} (N : NetKernel κ) (B : ℕ+) (m m' l l' : Alloc) (n : Nat)

/-- The call. -/
def call : Request → ClientM κ Byte
  | command v arg       => onControl (v.call N.toKernel n (some arg))
  | rep_type rt         => onControl (Ftpbuf.rep_type N.toKernel n rt)
  | file_stru fs        => onControl (Ftpbuf.file_stru N.toKernel n fs)
  | trans_mode tm       => onControl (Ftpbuf.trans_mode N.toKernel n tm)
  | allocate numbytes   => onControl (Ftpbuf.allocate N.toKernel n numbytes)
  | restart marker      => onControl (Ftpbuf.restart N.toKernel n marker)
  | rename rpath new    => onControl (Ftpbuf.rename N.toKernel n (some rpath) (some new))
  | getfile rpath lpath => Client.getfile N B m m' l l' n (some rpath) lpath
  | putfile lpath rpath => Client.putfile N B m m' n (some lpath) rpath
  | putunique lpath     => Client.putunique N B m m' n (some lpath)
  | append lpath rpath  => Client.append N B m m' n (some lpath) rpath

/-- What comes in front of the last command. -/
inductive First where
  | nothing
  | from (rpath : List Byte)
  | port (opening : Client → Client)

def First.run : First → ClientM κ Unit
  | nothing      => pure ()
  | .from rpath  => do let _ ← onControl (Ftpbuf.sendCmd N.toKernel n (ascii "RNFR") (some rpath))
  | port opening => do
    modify (Proc.onObj opening)
    onTransfer (raising (openSb N B m sock_stream 0))
    onTransfer (raising (prepare N n 10000))

def first : Request → First
  | rename rpath _      => .from rpath
  | getfile rpath lpath => .port (openOut (lpath.or (some rpath)))
  | putfile lpath _     => .port (openIn lpath)
  | putunique lpath     => .port (openIn lpath)
  | append lpath _      => .port (openIn lpath)
  | _                   => .nothing

/-- The verb of the last command, as it is sent. -/
def verb : Request → List Byte
  | command v _   => v.verb
  | rep_type _    => ascii "TYPE"
  | file_stru _   => ascii "STRU"
  | trans_mode _  => ascii "STRU"
  | allocate _    => ascii "ALLO"
  | restart _     => ascii "REST"
  | rename _ _    => ascii "RNTO"
  | getfile _ _   => ascii "RETR"
  | putfile _ _   => ascii "STOR"
  | putunique _   => ascii "STOU"
  | append _ _    => ascii "APPE"

/-- Its argument, as it is sent. -/
def arg : Request → Option (List Byte)
  | command _ arg       => some arg
  | rep_type rt         => some (ascii rt.name)
  | file_stru fs        => some (ascii fs.name)
  | trans_mode tm       => some (ascii tm.name)
  | allocate numbytes   => some (Ftpbuf.decimal numbytes)
  | restart marker      => some (Ftpbuf.decimal marker)
  | rename _ new        => some new
  | getfile rpath _     => some rpath
  | putfile lpath rpath => rpath.or (some lpath)
  | putunique lpath     => some lpath
  | append _ _          => none

/-- The call up to the reply to its last command. -/
def ask (r : Request) : ClientM κ Unit := do
  r.first.run N B m n
  let _ ← onControl (Ftpbuf.putCmd N.toKernel r.verb r.arg)

/-- The call from there on. -/
def after : Request → ClientM κ Byte
  | getfile _ _ => inBlock (modify (Proc.onObj closeOut)) (onTransfer (finish N B m' n false (some .file)))
  | putfile _ _ | putunique _ | append _ _ => onTransfer (finish N B m' n true none)
  | _ => onControl (Ftpbuf.getResponse N.toKernel n)

/-- Where two commands are sent, the reply to the first is no error. -/
def Positive (r : Request) (s : Proc Client κ) : Prop :=
  ∀ rpath, r.first = .from rpath →
    ∀ c s₁, onControl (Ftpbuf.sendCmd N.toKernel n (ascii "RNFR") (some rpath)) s = .ret c s₁ →
      ¬ IsError c

end Calls

/-! ### The course of a call -/

variable {κ : Type} {N : NetKernel κ} {B : ℕ+} {m m' l l' : Alloc} {n : Nat} {i : Bool}
  {o : Option OStream} {cmd : List Byte} {arg : Option (List Byte)} {s s₀ s₁ s₂ s' : Proc Client κ}
  {r : Request} {v : Byte} {w : Int}

theorem onFtp_bind {α β : Type} (p : FtpM κ α) (f : α → FtpM κ β) :
    onFtp (p >>= f) = onFtp p >>= fun a => onFtp (f a) := by
  unfold onFtp
  refine Prog.zoom_bind ?_ ?_ p f
  · exact fun _ _ => rfl
  · exact fun _ _ _ => rfl

theorem onTransfer_bind {α β : Type} (p : Prog Raised (Proc Transfer κ) α)
    (f : α → Prog Raised (Proc Transfer κ) β) :
    onTransfer (p >>= f) = onTransfer p >>= fun a => onTransfer (f a) := by
  unfold onTransfer
  refine Prog.zoom_bind ?_ ?_ p f
  · exact fun _ _ => rfl
  · exact fun _ _ _ => rfl

theorem onControl_bind {α β : Type} (p : FtpM κ α) (f : α → FtpM κ β) :
    onControl (p >>= f) = onControl p >>= fun a => onControl (f a) := by
  rw [onControl, onFtp_bind, raising, Prog.mapThrown_bind, onTransfer_bind]
  rfl

/-- A call that is one command. -/
theorem onControl_sendCmd (n : Nat) (cmd : List Byte) (arg : Option (List Byte)) :
    onControl (Ftpbuf.sendCmd N.toKernel n cmd arg) =
      onControl (Ftpbuf.putCmd N.toKernel cmd arg) >>= fun _ =>
        onControl (Ftpbuf.getResponse N.toKernel n) := by
  rw [Ftpbuf.sendCmd_eq, onControl_bind]

theorem connect_eq (N : NetKernel κ) (n : Nat) (portno : Int) (cmd : List Byte)
    (arg : Option (List Byte)) :
    connect N n portno cmd arg = prepare N n portno >>= fun _ =>
      onFtp (Ftpbuf.putCmd N.toKernel cmd arg) >>= fun _ => onFtp (Ftpbuf.getResponse N.toKernel n) := by
  simp only [connect, prepare, Ftpbuf.sendCmd_eq, onFtp_bind, Prog.bind_assoc]

/-- A transfer that goes on as another one does from a later state. -/
theorem onTransfer_congr {α : Type} {p q : Prog Raised (Proc Transfer κ) α}
    (h : p s.transfer = q s₁.transfer) (hobj : s₁.obj = { s.obj with transfer := s₁.obj.transfer }) :
    onTransfer p s = onTransfer q s₁ := by
  simp only [onTransfer, Prog.zoom_apply, h]
  rw [hobj]

theorem onTransfer_of_ret {α : Type} {p : Prog Raised (Proc Transfer κ) α} {a : α}
    {t : Proc Transfer κ} (h : p s.transfer = .ret a t) :
    onTransfer p s = .ret a ⟨{ s.obj with transfer := t.obj }, t.sys⟩ := by
  rw [onTransfer, Prog.zoom_apply, h]
  rfl

/-- **`ftpdata`** from where its command has been sent. -/
theorem ftpdata_after (hopen : onTransfer (raising (openSb N B m sock_stream 0)) s = .ret () s₀)
    (hprep : onTransfer (raising (prepare N n 10000)) s₀ = .ret () s₁)
    (hput : onControl (Ftpbuf.putCmd N.toKernel cmd arg) s₁ = .ret w s₂) :
    onTransfer (ftpdata N B m m' n 10000 i o cmd arg) s = onTransfer (finish N B m' n i o) s₂ := by
  obtain ⟨hopen, h₀⟩ := onTransfer_ret hopen
  obtain ⟨hprep, h₁⟩ := onTransfer_ret hprep
  obtain ⟨hput, h₂⟩ := onTransfer_ret hput
  refine onTransfer_congr ?_ (by rw [h₂, h₁, h₀])
  rw [ftpdata, Prog.bind_apply, hopen, Outcome.andThen_ret, finish]
  refine inBlock_congr ?_
  simp only [raising] at hprep hput ⊢
  rw [connect_eq, Prog.mapThrown_bind, Prog.bind_assoc, Prog.bind_apply, hprep, Outcome.andThen_ret,
    Prog.mapThrown_bind, Prog.bind_assoc, Prog.bind_apply, hput, Outcome.andThen_ret]

theorem inBlock_ret {σ α : Type} {destructor : Prog Thrown σ Unit} {p : Prog Raised σ α} {t t' : σ}
    {a : α} (h : inBlock destructor p t = .ret a t') : ∃ a₁ t₁, p t = .ret a₁ t₁ := by
  cases hp : p t with
  | ret a₁ t₁ => exact ⟨a₁, t₁, rfl⟩
  | thrown e t₁ =>
      obtain ⟨a₁, t₂, htry, -⟩ := Prog.bind_eq_ret h
      rw [Prog.tryCatch_apply, hp, Outcome.handle_thrown] at htry
      cases e with
      | exception e =>
          obtain ⟨_, _, -, hthrow⟩ := Prog.bind_eq_ret htry
          cases hthrow
      | terminate => cases htry
  | spin =>
      rw [inBlock_spin hp] at h
      cases h

/-- It does not return without having sent its command. -/
theorem asks_of_ftpdata (h : onTransfer (ftpdata N B m m' n 10000 i o cmd arg) s = .ret v s') :
    ∃ s₀ s₁ w s₂, onTransfer (raising (openSb N B m sock_stream 0)) s = .ret () s₀ ∧
      onTransfer (raising (prepare N n 10000)) s₀ = .ret () s₁ ∧
      onControl (Ftpbuf.putCmd N.toKernel cmd arg) s₁ = .ret w s₂ := by
  obtain ⟨_, t₀, hopen, hblock⟩ := Prog.bind_eq_ret (onTransfer_ret h).1
  obtain ⟨_, _, hbody⟩ := inBlock_ret hblock
  obtain ⟨_, t, hconn, -⟩ := Prog.bind_eq_ret hbody
  rw [raising_ret, connect_eq] at hconn
  obtain ⟨_, t₁, hprep, hconn⟩ := Prog.bind_eq_ret hconn
  obtain ⟨w, t₂, hput, -⟩ := Prog.bind_eq_ret hconn
  have hopen := onTransfer_of_ret hopen
  have hprep := onTransfer_of_ret (s := ⟨{ s.obj with transfer := t₀.obj }, t₀.sys⟩) (raising_ret.mpr hprep)
  have hput := onTransfer_of_ret (s := ⟨{ s.obj with transfer := t₁.obj }, t₁.sys⟩) (raising_ret.mpr hput)
  exact ⟨_, _, w, _, hopen, hprep, hput⟩

theorem ask_ret : r.ask N B m n s = .ret () s₁ ↔ ∃ s₀ w, r.first.run N B m n s = .ret () s₀ ∧
    onControl (Ftpbuf.putCmd N.toKernel r.verb r.arg) s₀ = .ret w s₁ := by
  refine ⟨fun h => ?_, fun ⟨s₀, w, hfirst, hput⟩ => ?_⟩
  · obtain ⟨_, s₀, hfirst, h⟩ := Prog.bind_eq_ret h
    obtain ⟨w, _, hput, h⟩ := Prog.bind_eq_ret h
    cases h
    exact ⟨s₀, w, hfirst, hput⟩
  · rw [ask, Prog.bind_apply, hfirst, Outcome.andThen_ret, Prog.bind_apply, hput]
    rfl

/-- A call without a data connection that is one command. -/
theorem call_command (h : r.first = .nothing) (m' l l' : Alloc) :
    r.call N B m m' l l' n = onControl (Ftpbuf.sendCmd N.toKernel n r.verb r.arg) ∧
      r.after N B m' n = onControl (Ftpbuf.getResponse N.toKernel n) := by
  cases r with
  | command v arg => cases v <;> exact ⟨rfl, rfl⟩
  | rep_type | file_stru | trans_mode | allocate | restart => exact ⟨rfl, rfl⟩
  | rename | getfile | putfile | putunique | append => cases h

/-- A block: what it comes to depends on what its body came to, and it returns only if its body does. -/
structure Block (f : ClientM κ Byte → ClientM κ Byte) : Prop where
  congr : ∀ p q s t, p s = q t → f p s = f q t
  ret   : ∀ p s v s', f p s = .ret v s' → ∃ v₁ s₁, p s = .ret v₁ s₁

theorem block_inBlock (destructor : Prog Thrown (Proc Client κ) Unit) : Block (inBlock destructor) :=
  ⟨fun _ _ _ _ => inBlock_congr, fun _ _ _ _ => inBlock_ret⟩

/-- A call with a data connection. -/
theorem call_transfer {opening : Client → Client} (h : r.first = .port opening) (m' l l' : Alloc) :
    ∃ i o block, Block block ∧
      r.call N B m m' l l' n = (modify (Proc.onObj opening) >>= fun _ =>
        block (onTransfer (ftpdata N B m m' n 10000 i o r.verb r.arg))) ∧
      r.after N B m' n = block (onTransfer (finish N B m' n i o)) := by
  have self : Block (id : ClientM κ Byte → ClientM κ Byte) :=
    ⟨fun _ _ _ _ h => h, fun _ _ v s' h => ⟨v, s', h⟩⟩
  cases r with
  | getfile rpath lpath =>
      cases h
      refine ⟨false, some .file, _, block_inBlock _, ?_, rfl⟩
      simp [call, Client.getfile, openFile, verb, arg]
  | putfile lpath rpath =>
      cases h
      exact ⟨true, none, id, self, rfl, rfl⟩
  | putunique lpath =>
      cases h
      exact ⟨true, none, id, self, rfl, rfl⟩
  | append lpath rpath =>
      cases h
      exact ⟨true, none, id, self, rfl, rfl⟩
  | command | rep_type | file_stru | trans_mode | allocate | restart | rename => cases h

theorem first_port_ret {opening : Client → Client} :
    (First.port opening).run N B m n s = .ret () s₁ ↔
      ∃ s₀, onTransfer (raising (openSb N B m sock_stream 0)) (s.onObj opening) = .ret () s₀ ∧
        onTransfer (raising (prepare N n 10000)) s₀ = .ret () s₁ := by
  rw [First.run, Prog.bind_apply, Prog.modify_apply, Outcome.andThen_ret]
  refine ⟨fun h => ?_, fun ⟨s₀, hopen, hprep⟩ => ?_⟩
  · obtain ⟨_, s₀, hopen, hprep⟩ := Prog.bind_eq_ret h
    exact ⟨s₀, hopen, hprep⟩
  · rw [Prog.bind_apply, hopen]
    exact hprep

/-- **What a call comes to** from where its last command has been sent. -/
theorem call_eq_after (hpos : r.Positive N n s) (hask : r.ask N B m n s = .ret () s₁)
    (m' l l' : Alloc) : r.call N B m m' l l' n s = r.after N B m' n s₁ := by
  obtain ⟨s₀, w, hfirst, hput⟩ := ask_ret.mp hask
  cases hf : r.first with
  | nothing =>
      rw [hf] at hfirst
      cases hfirst
      obtain ⟨hcall, hafter⟩ := call_command (N := N) (B := B) (m := m) (n := n) hf m' l l'
      rw [hcall, hafter, onControl_sendCmd, Prog.bind_apply, hput]
      rfl
  | «from» rpath =>
      rw [hf] at hfirst
      obtain ⟨c, _, hfrom, hs₀⟩ := Prog.bind_eq_ret hfirst
      cases hs₀
      have hc : ¬ IsError c := hpos rpath hf c _ hfrom
      cases r with
      | rename rpath new =>
          cases hf
          show onControl (Ftpbuf.rename N.toKernel n (some rpath) (some new)) s =
            onControl (Ftpbuf.getResponse N.toKernel n) s₁
          rw [Ftpbuf.rename, onControl_bind, Prog.bind_apply, hfrom, Outcome.andThen_ret, if_neg hc,
            onControl_sendCmd, Prog.bind_apply]
          simp only [verb, arg] at hput
          rw [hput]
          rfl
      | _ => cases hf
  | port opening =>
      rw [hf] at hfirst
      obtain ⟨s₂, hopen, hprep⟩ := first_port_ret.mp hfirst
      obtain ⟨i, o, block, hblock, hcall, hafter⟩ :=
        call_transfer (N := N) (B := B) (m := m) (n := n) hf m' l l'
      rw [hcall, hafter]
      exact hblock.congr _ _ _ _ (ftpdata_after hopen hprep hput)

/-- A call that returns has sent its last command. -/
theorem ask_of_call (hpos : r.Positive N n s) (h : r.call N B m m' l l' n s = .ret v s') :
    ∃ s₁, r.ask N B m n s = .ret () s₁ := by
  cases hf : r.first with
  | nothing =>
      rw [(call_command hf m' l l').1, onControl_sendCmd] at h
      obtain ⟨w, s₁, hput, -⟩ := Prog.bind_eq_ret h
      exact ⟨s₁, ask_ret.mpr ⟨s, w, by rw [hf]; rfl, hput⟩⟩
  | «from» rpath =>
      cases r with
      | rename rpath new =>
          cases hf
          rw [call, Ftpbuf.rename, onControl_bind] at h
          obtain ⟨c, s₀, hfrom, h⟩ := Prog.bind_eq_ret h
          have hc : ¬ IsError c := hpos rpath rfl c s₀ hfrom
          rw [if_neg hc, onControl_sendCmd] at h
          obtain ⟨w, s₁, hput, -⟩ := Prog.bind_eq_ret h
          refine ⟨s₁, ask_ret.mpr ⟨s₀, w, ?_, hput⟩⟩
          rw [first, First.run, Prog.bind_apply, hfrom]
          rfl
      | _ => cases hf
  | port opening =>
      obtain ⟨i, o, block, hblock, hcall, -⟩ :=
        call_transfer (N := N) (B := B) (m := m) (n := n) hf m' l l'
      rw [hcall, Prog.bind_apply] at h
      obtain ⟨_, _, hdata⟩ := hblock.ret _ _ _ _ h
      obtain ⟨s₀, s₁, w, s₂, hopen, hprep, hput⟩ := asks_of_ftpdata hdata
      exact ⟨s₂, ask_ret.mpr ⟨s₁, w, by rw [hf]; exact first_port_ret.mpr ⟨s₀, hopen, hprep⟩, hput⟩⟩

end Request

end Socketpp
