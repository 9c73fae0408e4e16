import Socketpp.Ftp.Files
import Socketpp.Ftp.Transfers
import Socketpp.Sockbuf.Output

/-!
# Ftp — a refused download

`getfile` opens the local file before it asks the server for the remote one.  To open it is to truncate
it, so a file for which the server has an error reply is lost: it is as it was only if it was empty, or
could not be opened (`getfile_refused_iff`).
-/

namespace Socketpp
open Lib

/-- `close` does not fail. -/
def NetKernel.CloseSucceeds {κ : Type} (N : NetKernel κ) : Prop :=
  ∀ k fd, ∃ k', N.close k fd = (.ok (), k')

/-! ### What the calls leave alone -/

section Still

variable {β κ α : Type}

/-- The object is as it was, and nothing has been handed over. -/
def Still (s s' : Proc β κ) : Prop := s'.obj = s.obj ∧ s'.sys.trace = s.sys.trace

theorem closed_still : Closed (Still : Proc β κ → Proc β κ → Prop) :=
  ⟨fun _ => ⟨rfl, rfl⟩, fun _ _ _ h h' => ⟨h'.1.trans h.1, h'.2.trans h.2⟩⟩

/-- A call on sockets. -/
theorem keeps_netCall (c : κ → Except Int α × κ) :
    Prog.Keeps Still (netCall c : Prog Thrown (Proc β κ) (Option α)) := by
  intro s
  rcases hc : c s.sys.kern with ⟨r, k⟩
  cases r with
  | ok a =>
      rw [netCall_ok hc]
      exact ⟨rfl, rfl⟩
  | error e =>
      rw [netCall_error hc]
      exact ⟨rfl, rfl⟩

theorem keeps_bind (N : NetKernel κ) (sa : Sockinetaddr) :
    Prog.Keeps Still (Sockbuf.bind N sa) := by
  refine closed_still.keeps_bind closed_still.keeps_get fun s => ?_
  exact closed_still.keeps_bind (keeps_netCall _) fun a =>
    Sockbuf.keeps_checked closed_still _ a

theorem keeps_bind_until_success (N : NetKernel κ) (n : Nat) (portno : Int) :
    Prog.Keeps Still (Sockinetbuf.bind_until_success N n portno) := by
  refine Prog.Keeps.loop closed_still.refl closed_still.trans (fun portno => ?_) n portno
  refine Prog.Keeps.tryCatch closed_still.trans ?_ fun e => ?_
  · exact closed_still.keeps_bind (keeps_bind N _) fun _ => closed_still.keeps_pure _
  · cases e with
    | err e op spec =>
        exact Prog.Keeps.ite (closed_still.keeps_throw _) (closed_still.keeps_pure _)
    | _ => exact closed_still.keeps_throw _

theorem keeps_localaddr (N : NetKernel κ) : Prog.Keeps Still (Sockinetbuf.localaddr N) := by
  refine closed_still.keeps_bind closed_still.keeps_get fun s => ?_
  refine closed_still.keeps_bind (keeps_netCall _) fun a => ?_
  cases a with
  | some sin => exact closed_still.keeps_pure _
  | none => exact closed_still.keeps_bind closed_still.keeps_get fun _ =>
      closed_still.keeps_throw _

theorem keeps_listen (N : NetKernel κ) (num : Int) : Prog.Keeps Still (Sockbuf.listen N num) := by
  refine closed_still.keeps_bind closed_still.keeps_get fun s => ?_
  exact closed_still.keeps_bind (keeps_netCall _) fun a =>
    Sockbuf.keeps_checked closed_still _ a

end Still

namespace Transfer

variable {κ : Type} {N : NetKernel κ} {B : ℕ+} {m : Alloc} {n : Nat} {portno : Int} {cmd : List Byte}
  {arg : Option (List Byte)} {s s₀ s₁ : Proc Transfer κ} {reply : Byte}

/-- Only the ftpbuf has changed. -/
def FtpOnly (s s' : Proc Transfer κ) : Prop := s'.obj = { s.obj with ftp := s'.obj.ftp }

theorem closed_ftpOnly : Closed (FtpOnly : Proc Transfer κ → Proc Transfer κ → Prop) := by
  refine ⟨fun _ => rfl, fun s s₁ s' h h' => ?_⟩
  unfold FtpOnly at h h' ⊢
  rw [h', h]

theorem ftpOnly_onSb {α : Type} {p : SockM κ α} (h : Prog.Keeps Still p) :
    Prog.Keeps FtpOnly (onSb p) := by
  refine Prog.Keeps.zoom h fun s t ht => ?_
  show ({ s.obj with sb := t.obj } : Transfer) = _
  rw [ht.1]

theorem ftpOnly_onFtp {α : Type} (p : FtpM κ α) : Prog.Keeps FtpOnly (onFtp p) :=
  Prog.Keeps.zoom (S := fun _ _ => True) (fun s => by cases p s <;> trivial) fun _ _ _ => rfl

theorem ftpOnly_connect (N : NetKernel κ) (n : Nat) (portno : Int) (cmd : List Byte)
    (arg : Option (List Byte)) : Prog.Keeps FtpOnly (connect N n portno cmd arg) := by
  refine closed_ftpOnly.keeps_bind (ftpOnly_onSb (keeps_bind_until_success N n portno)) fun _ => ?_
  refine closed_ftpOnly.keeps_bind (ftpOnly_onSb (keeps_localaddr N)) fun _ => ?_
  refine closed_ftpOnly.keeps_bind (ftpOnly_onFtp _) fun _ => ?_
  exact closed_ftpOnly.keeps_bind (ftpOnly_onSb (keeps_listen N 1)) fun _ => ftpOnly_onFtp _

/-- `sb` is new. -/
theorem openSb_ret {ty proto : Int} (h : openSb N B m ty proto s = .ret () s₀) :
    ∃ soc, s₀.obj = { s.obj with sb := Sockbuf.ofDesc B soc m.gbuf m.pbuf } := by
  obtain ⟨a, s₁, hcall, h⟩ := Prog.bind_eq_ret h
  have hobj := ((keeps_netCall _).ret hcall).1
  cases a with
  | none =>
      obtain ⟨_, _, -, h⟩ := Prog.bind_eq_ret h
      cases h
  | some soc =>
      cases h
      exact ⟨soc, by rw [← hobj]; rfl⟩

/-- With nothing pending, the destructor of `sb` only closes its descriptor. -/
theorem destroySb_sat {soc : Int} (hsb : s.obj.sb = Sockbuf.ofDesc B soc m.gbuf m.pbuf) :
    (destroySb N s).Sat
      (fun _ s' => s'.obj = { s.obj with closed := s'.obj.closed } ∧ s'.sys.trace = s.sys.trace)
      (fun _ _ => ¬ N.CloseSucceeds) := by
  have hflush : onSb (Sockbuf.overflow N.toKernel eofValue) s = .ret 0 s := by
    have hsync : Sockbuf.overflow N.toKernel eofValue ⟨s.obj.sb, s.sys⟩ = .ret 0 ⟨s.obj.sb, s.sys⟩ := by
      rw [Sockbuf.overflow_eof (by rw [hsb]; exact Sockbuf.ofDesc_writable B soc _ _)]
      simp [Sockbuf.sync, hsb, Sockbuf.ofDesc]
    rw [onSb, Prog.zoom_apply, hsync]
    rfl
  rw [destroySb, Prog.bind_apply, hflush, Outcome.andThen_ret, Prog.bind_apply, Prog.get_apply,
    Outcome.andThen_ret]
  simp only [close, Prog.bind_apply, Prog.get_apply, Prog.modify_apply, Outcome.andThen_ret]
  cases hc : N.close s.sys.kern s.obj.sb.rep.sock with
  | mk r k =>
      cases r with
      | ok u =>
          rw [netCall_ok hc]
          exact ⟨rfl, rfl⟩
      | error e =>
          rw [netCall_error hc]
          intro hclose
          obtain ⟨k', hk⟩ := hclose s.sys.kern s.obj.sb.rep.sock
          rw [hc] at hk
          cases hk

/-- **`ftpdata`** behind an error reply. -/
theorem ftpdata_refused (m' : Alloc) (i : Bool) (o : Option OStream)
    (hopen : openSb N B m sock_stream 0 s = .ret () s₀)
    (hconn : connect N n portno cmd arg s₀ = .ret reply s₁) (hreply : IsError reply) :
    (ftpdata N B m m' n portno i o cmd arg s).Sat
      (fun v s' => v = rca_error ∧ s'.obj.o = s.obj.o)
      (fun e _ => e = .terminate ∧ ¬ N.CloseSucceeds) := by
  have hblock : ftpdata N B m m' n portno i o cmd arg s =
      inBlock (destroySb N) (pure rca_error) s₁ := by
    simp only [ftpdata, raising, Prog.bind_apply, Prog.mapThrown_apply, hopen, Outcome.mapThrown,
      Outcome.andThen_ret]
    refine inBlock_congr ?_
    simp only [Prog.bind_apply, Prog.mapThrown_apply, hconn, Outcome.mapThrown, Outcome.andThen_ret,
      hreply, if_true]
  obtain ⟨soc, h₀⟩ := openSb_ret hopen
  have h₁ : FtpOnly s₀ s₁ := (ftpOnly_connect N n portno cmd arg).ret hconn
  have hsb : s₁.obj.sb = Sockbuf.ofDesc B soc m.gbuf m.pbuf := by rw [h₁, h₀]
  have ho : s₁.obj.o = s.obj.o := by rw [h₁, h₀]
  rw [hblock]
  refine inBlock_sat (P := fun v s' => v = rca_error ∧ s' = s₁) (F := fun _ _ => False) ?_ ?_ ?_
  · exact ⟨rfl, rfl⟩
  · rintro v s' ⟨hv, rfl⟩
    refine (destroySb_sat hsb).mono (fun _ s' h => ⟨hv, ?_⟩) fun _ _ h => ⟨rfl, h⟩
    rw [h.1]
    exact ho
  · exact fun _ _ h => h.elim

end Transfer

namespace Client

variable {κ : Type} {N : NetKernel κ} {B : ℕ+} {m l l' : Alloc} {n : Nat}
  {rpath lpath : Option (List Byte)} {s s₁ s₂ : Proc Client κ} {reply : Byte} {path : List Byte}

/-- A block that throws nothing, unless the program ends in it. -/
theorem inBlock_quiet {σ α : Type} {destructor : Prog Thrown σ Unit} {p : Prog Raised σ α} {s : σ}
    {P Q : α → σ → Prop} {T : σ → Prop} (hp : (p s).Sat P fun e s' => e = .terminate ∧ T s')
    (hd : ∀ a s', P a s' → (destructor s').Sat (fun _ => Q a) fun _ => T) :
    (inBlock destructor p s).Sat Q fun e s' => e = .terminate ∧ T s' := by
  simp only [inBlock, Prog.bind_apply, Prog.tryCatch_apply]
  refine Outcome.Sat.andThen (hp.handle (fun _ _ h => h) ?_) (fun a s' ha => ?_) fun _ _ h => h
  · rintro e s' ⟨rfl, ht⟩
    exact ⟨rfl, ht⟩
  · simp only [noexcept]
    exact (Outcome.sat_mapThrown.mpr ((hd a s' ha).mono (fun _ _ h => h) fun _ _ h => ⟨rfl, h⟩)).andThen
      (fun _ _ h => h) fun _ _ h => h

theorem raising_ret {σ α : Type} {p : Prog Thrown σ α} {s s' : σ} {a : α} :
    raising p s = .ret a s' ↔ p s = .ret a s' := by
  rw [raising, Prog.mapThrown_apply]
  cases p s <;> simp [Outcome.mapThrown]

/-- `getfile` up to the reply to `RETR`. -/
def askFile (N : NetKernel κ) (B : ℕ+) (m l l' : Alloc) (n : Nat) (rpath lpath : Option (List Byte)) :
    ClientM κ Byte := do
  openFile N B l l' n rpath lpath
  onTransfer (raising (Transfer.openSb N B m sock_stream 0))
  onTransfer (raising (Transfer.connect N n 10000 (ascii "RETR") rpath))

/-- A transfer leaves the local files alone. -/
theorem onTransfer_disk {α : Type} (p : Prog Raised (Proc Transfer κ) α) :
    Prog.Keeps (fun s s' : Proc Client κ => s'.obj.disk = s.obj.disk) (onTransfer p) :=
  Prog.Keeps.zoom (S := fun _ _ => True) (fun s => by cases p s <;> trivial) fun _ _ _ => rfl

theorem onTransfer_ret {α : Type} {p : Prog Raised (Proc Transfer κ) α} {a : α}
    (h : onTransfer p s = .ret a s₁) : p s.transfer = .ret a s₁.transfer ∧
      s₁.obj = { s.obj with transfer := s₁.obj.transfer } := by
  obtain ⟨t, hp, rfl⟩ := Prog.zoom_eq_ret h
  exact ⟨hp, rfl⟩

/-- What `getfile` finds before the transfer: the local file has been opened. -/
theorem openFile_ret (h : openFile N B l l' n rpath lpath s = .ret () s₂) :
    ∃ x : Client, x.disk = s.obj.disk ∧ s₂.obj = openOut (lpath.or rpath) x := by
  by_cases hr : rpath = none
  · simp only [openFile, hr, if_true] at h
    obtain ⟨_, s₁, hlist, h⟩ := Prog.bind_eq_ret h
    cases h
    refine ⟨s₁.obj, ?_, by rw [hr]; rfl⟩
    have hkeeps : Prog.Keeps (fun s s' : Proc Client κ => s'.obj.disk = s.obj.disk)
        (list N B l l' n none false) := by
      refine Prog.Keeps.get_bind fun s => ?_
      exact onTransfer_disk _ s
    exact hkeeps.ret hlist
  · simp only [openFile, hr, if_false] at h
    cases h
    exact ⟨s.obj, rfl, rfl⟩

/-- What `getfile` does when the server has refused: it reports the error, and has emptied the local file
if it could open it. -/
theorem getfile_refused (m' : Alloc) {bs : List Byte} (hpath : lpath.or rpath = some path)
    (hfile : s.obj.disk.content path = some bs) (hasked : askFile N B m l l' n rpath lpath s = .ret reply s₁)
    (hreply : IsError reply) :
    (getfile N B m m' l l' n rpath lpath s).Sat
      (fun v s' => IsError v ∧
        (s'.obj.disk.content path = some bs ↔ bs = [] ∨ s.obj.disk.writable path = false))
      (fun e _ => e = .terminate ∧ ¬ N.CloseSucceeds) := by
  obtain ⟨_, s₂, hopened, hasked⟩ := Prog.bind_eq_ret hasked
  obtain ⟨_, s₃, hopen, hconn⟩ := Prog.bind_eq_ret hasked
  obtain ⟨x, hdisk, hs₂⟩ := openFile_ret hopened
  obtain ⟨hopen, h₃⟩ := onTransfer_ret hopen
  obtain ⟨hconn, -⟩ := onTransfer_ret hconn
  have hftp := Transfer.ftpdata_refused m' false (some .file) (raising_ret.mp hopen)
    (raising_ret.mp hconn) hreply
  rw [getfile, Prog.bind_apply, hopened, Outcome.andThen_ret]
  refine inBlock_quiet (T := fun _ => ¬ N.CloseSucceeds)
    (P := fun v s' => v = rca_error ∧ s'.obj.disk = s₂.obj.disk ∧ s'.obj.f = s₂.obj.f ∧
      s'.obj.transfer.o = s₂.obj.transfer.o) ?_ ?_
  · rw [onTransfer, Prog.zoom_apply, Outcome.sat_mapState]
    exact hftp.mono (fun v t h => ⟨h.1, rfl, rfl, h.2⟩) fun _ _ h => h
  · rintro v s' ⟨rfl, hdisk', hf, ho⟩
    refine ⟨isError_rca_error, ?_⟩
    rw [hpath] at hs₂
    show (closeOut s'.obj).disk.content path = some bs ↔ _
    cases hw : s.obj.disk.writable path with
    | true =>
        have hopen₂ : s₂.obj = { x with
            transfer := { x.transfer with o := [] }
            f        := some path
            disk     := x.disk.write path [] } := by
          rw [hs₂, openOut, Option.filter_some, hdisk, hw]
          rfl
        -- opening the file has emptied it, and the refused transfer has written nothing
        have hempty : (closeOut s'.obj).disk.content path = some [] := by
          have hclose : closeOut s'.obj =
              { s'.obj with f := none, disk := s'.obj.disk.write path s'.obj.transfer.o } := by
            rw [closeOut, hf, hopen₂]
          rw [hclose, ho, hopen₂]
          exact Function.update_self ..
        rw [hempty]
        simp [eq_comm]
    | false =>
        have hopen₂ : s₂.obj = { x with transfer := { x.transfer with o := [] }, f := none } := by
          rw [hs₂, openOut, Option.filter_some, hdisk, hw]
          rfl
        -- the file has not been opened, so closing does nothing
        have hkept : (closeOut s'.obj).disk.content path = some bs := by
          have hclose : closeOut s'.obj = s'.obj := by
            rw [closeOut, hf, hopen₂]
          rw [hclose, hdisk', hopen₂, hdisk, hfile]
        simp [hkept]

/-- **A refused download.**  `getfile` has an error reply for its caller, and the local file is as it was
exactly if it was empty or could not be opened.  It returns, unless the socket cannot be closed. -/
theorem getfile_refused_iff (m' : Alloc) {bs : List Byte} (hpath : lpath.or rpath = some path)
    (hfile : s.obj.disk.content path = some bs) (hasked : askFile N B m l l' n rpath lpath s = .ret reply s₁)
    (hclass : reply = 52 ∨ reply = 53) :
    (∀ v s', getfile N B m m' l l' n rpath lpath s = .ret v s' → IsError v ∧
      (s'.obj.disk.content path = s.obj.disk.content path ↔
        bs = [] ∨ s.obj.disk.writable path = false)) ∧
    (N.CloseSucceeds → ∃ v s', getfile N B m m' l l' n rpath lpath s = .ret v s') := by
  have hreply : IsError reply := by
    rcases hclass with rfl | rfl
    · decide
    · decide
  have hsat := getfile_refused m' hpath hfile hasked hreply
  refine ⟨fun v s' hret => ?_, fun hclose => ?_⟩
  · rw [hfile]
    exact hsat.ret hret
  · obtain ⟨v, s', hret, -⟩ := (hsat.mono (fun _ _ h => h) fun _ _ h => h.2 hclose).returns
    exact ⟨v, s', hret⟩

/-- The replies of a server that has no such file. -/
def noFile : List (Chunk 1024) := [⟨ascii "200 fine\r\n", by decide⟩, ⟨ascii "550 no\r\n", by decide⟩]

/-- A client with a local file `f` that can be opened or not. -/
def downloading (writable : Bool) : Proc Client (Peer 1024 Unit × Peer 1024 Unit) where
  obj := {
    transfer := Transfer.client.obj
    disk := {
      content  := fun path => if path = ascii "f" then some (ascii "old") else none
      writable := fun _ => writable
      readable := fun _ => true }
    f := none }
  sys := ⟨(⟨noFile, ()⟩, ⟨[], ()⟩), 0, []⟩

theorem downloading_file (writable : Bool) :
    (downloading writable).obj.disk.content (ascii "f") = some (ascii "old") := by
  simp [downloading]

theorem downloading_asks (writable : Bool) : ∃ s₁, askFile (Transfer.server 5) bufsiz Transfer.scratch
    Transfer.scratch Transfer.scratch 2 (some (ascii "f")) none (downloading writable) = .ret 53 s₁ := by
  have hseen : ((askFile (Transfer.server 5) bufsiz Transfer.scratch Transfer.scratch Transfer.scratch 2
      (some (ascii "f")) none (downloading writable)).result.map fun r => r.1.toOption) =
        some (some 53) := by
    cases writable <;> decide +kernel
  cases hrun : askFile (Transfer.server 5) bufsiz Transfer.scratch Transfer.scratch Transfer.scratch 2
      (some (ascii "f")) none (downloading writable) with
  | ret reply s₁ =>
      rw [hrun] at hseen
      simp only [Outcome.result, Option.map_some, Except.toOption, Option.some.injEq] at hseen
      exact ⟨s₁, by rw [hseen]⟩
  | thrown e s' => rw [hrun] at hseen; simp [Outcome.result, Except.toOption] at hseen
  | spin => rw [hrun] at hseen; cases hseen

/-- A file that cannot be opened. -/
theorem getfile_refused_iff_readonly : ∃ v s', getfile (Transfer.server 5) bufsiz Transfer.scratch
    Transfer.scratch Transfer.scratch Transfer.scratch 2 (some (ascii "f")) none (downloading false) =
      .ret v s' ∧ IsError v ∧ s'.obj.disk.content (ascii "f") = some (ascii "old") := by
  obtain ⟨s₁, hasked⟩ := downloading_asks false
  have hpath : (none : Option (List Byte)).or (some (ascii "f")) = some (ascii "f") := rfl
  obtain ⟨hiff, hreturns⟩ := getfile_refused_iff Transfer.scratch hpath (downloading_file false) hasked (.inr rfl)
  obtain ⟨v, s', hret⟩ := hreturns fun k fd => ⟨k, rfl⟩
  obtain ⟨hv, hfile⟩ := hiff v s' hret
  exact ⟨v, s', hret, hv, (hfile.mpr (.inr rfl)).trans (downloading_file false)⟩

/-- **The file is lost.**  The server has refused, and there is nothing left in `f`. -/
theorem refused_truncates :
    (∃ s₁, askFile (Transfer.server 5) bufsiz Transfer.scratch Transfer.scratch Transfer.scratch 2
      (some (ascii "f")) none (downloading true) = .ret 53 s₁) ∧
    (downloading true).obj.disk.content (ascii "f") = some (ascii "old") ∧
    ((getfile (Transfer.server 5) bufsiz Transfer.scratch Transfer.scratch Transfer.scratch
      Transfer.scratch 2 (some (ascii "f")) none (downloading true)).result.map fun r =>
        (r.1.toOption, r.2.obj.disk.content (ascii "f"))) = some (some rca_error, some []) :=
  ⟨downloading_asks true, downloading_file true, by decide +kernel⟩

end Client

end Socketpp
