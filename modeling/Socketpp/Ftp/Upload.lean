import Socketpp.Sockbuf.Faults
import Socketpp.Sockbuf.Output
import Socketpp.Ftp.Transfers

/-!
# Ftp — sending a file

What is left in `i`, what is pending in `c` and what the kernel has accepted on its descriptor make up the
file in every round (`Sending`).  Behind the loop nothing is left in `i`, and the destructor of `c` hands
over what is pending before it closes the descriptor (`Uploaded`).
-/

namespace Socketpp
open Lib

namespace Transfer
open Sockbuf

variable {κ : Type} {N : NetKernel κ} {B : ℕ+} {m m' : Alloc} {n : Nat} {portno : Int} {cmd : List Byte}
  {arg : Option (List Byte)} {s s₀ s₁ s₂ : Proc Transfer κ} {reply : Byte}

/-- A `::write` on the connection accepted in `s₂` has failed before `s`. -/
def Failed (s₂ s : Proc Transfer κ) : Prop := WriteFailed s₂.obj.c.rep.sock s₂.sys.trace s.sys.trace

/-- `s` is on the way from `s₂`, and nothing of the file is lost. -/
structure Sending (s₂ s : Proc Transfer κ) : Prop where
  writable  : s.obj.c.Writable
  unwaiting : Unwaiting s₂.obj.c.rep.sock s₂.sys.trace (atC s)
  bytes     : sentOn s₂.obj.c.rep.sock s.sys.trace ++ s.obj.c.pending ++ s.obj.i =
    sentOn s₂.obj.c.rep.sock s₂.sys.trace ++ s₂.obj.i
  frame     : s.obj = { s₂.obj with c := s.obj.c, i := s.obj.i }

/-- The file is in the hands of the kernel, and after that the connection is closed; nothing else has
changed. -/
structure Uploaded (s₂ s₃ : Proc Transfer κ) : Prop where
  bytes  : sentOn s₂.obj.c.rep.sock s₃.sys.trace = sentOn s₂.obj.c.rep.sock s₂.sys.trace ++ s₂.obj.i
  closed : s₃.obj.closed = s₂.obj.closed ++ [(s₂.obj.c.rep.sock, s₃.sys.trace)]
  frame  : s₃.obj = { s₂.obj with c := s₃.obj.c, i := [], closed := s₃.obj.closed }

/-- What a put on `c` keeps, and what it is given. -/
theorem Sending.moved (h : Sending s₂ s) {t : Proc Sockbuf κ} {xs l : List Byte}
    (hm : Moved (atC s) t xs) (ht : Unwaiting s₂.obj.c.rep.sock s₂.sys.trace t) (hi : s.obj.i = xs ++ l) :
    Sending s₂ ⟨{ s.obj with c := t.obj, i := l }, t.sys⟩ where
  writable  := hm.writable
  unwaiting := ht
  bytes     := by
    have hp : sent t ++ t.obj.pending = sent (atC s) ++ s.obj.c.pending ++ xs := hm.moves.pushed_eq
    have hs : sent (atC s) = sentOn s₂.obj.c.rep.sock s.sys.trace := by rw [sent, h.unwaiting.sock]; rfl
    have ht' : sent t = sentOn s₂.obj.c.rep.sock t.sys.trace := by rw [sent, ht.sock]
    show sentOn _ t.sys.trace ++ t.obj.pending ++ l = _
    rw [← ht', hp, hs, List.append_assoc, ← hi]
    exact h.bytes
  frame     := by
    show ({ s.obj with c := t.obj, i := l } : Transfer) = _
    rw [h.frame]

/-- `c.sputn` of what has been taken out of `i`. -/
theorem sputnC_sat (h : Sending s₂ s) {xs l : List Byte} (hi : s.obj.i = xs ++ l) :
    (onC (xsputn N.toKernel xs) (s.onObj fun x => { x with i := l })).Sat
      (fun r s' => r = xs.length ∧ Sending s₂ s' ∧ s'.obj.i = l)
      (fun _ s' => s'.obj.c.Writable ∧ Failed s₂ s') := by
  have hput := (xsputn_sat (K := N.toKernel) h.writable xs).and_within
    (xsputn_faults (K := N.toKernel) xs (atC s) h.unwaiting)
  rw [onC_apply, Outcome.sat_mapState]
  refine hput.mono ?_ ?_
  · rintro r t ⟨⟨hr, hm, -⟩, ht⟩
    exact ⟨hr, h.moved hm ht hi, rfl⟩
  · rintro e t ⟨⟨⟨k, -, hm⟩, -⟩, hf⟩
    exact ⟨hm.writable, hf⟩

/-- **A round** takes bytes from `i` and puts them into `c`. -/
theorem sendRound_sat (h : Sending s₂ s) :
    (sendRound N.toKernel s).Sat
      (fun r s' => r.elim (fun _ => Sending s₂ s' ∧ s'.obj.i.length < s.obj.i.length)
        fun _ => Sending s₂ s' ∧ s'.obj.i = [])
      (fun _ s' => s'.obj.c.Writable ∧ Failed s₂ s') := by
  have hi := (List.take_append_drop 1024 s.obj.i).symm
  simp only [sendRound, Prog.bind_apply, Prog.get_apply, Prog.modify_apply, Outcome.andThen_ret,
    Prog.ite_apply]
  split
  · rename_i hpos
    refine Outcome.Sat.andThen (sputnC_sat h hi) ?_ fun _ _ he => he
    rintro r s' ⟨rfl, hs', hl⟩
    simp only [ne_eq, not_true_eq_false, if_false, Prog.pure_apply]
    refine ⟨hs', ?_⟩
    rw [hl, List.length_drop]
    rw [List.length_take] at hpos
    omega
  · rename_i hpos
    have h0 : s.obj.i = [] := by
      rw [List.length_take] at hpos
      exact List.length_eq_zero_iff.mp (by omega)
    have hdrop : s.obj.i = [] ++ s.obj.i.drop 1024 := by rw [h0]; rfl
    refine ⟨h.moved (.refl h.writable) h.unwaiting hdrop, ?_⟩
    show s.obj.i.drop 1024 = []
    rw [h0, List.drop_nil]

/-! ### The destructor of `c` -/

/-- `close` writes its line into the log, and hands nothing over. -/
theorem close_sat (b : Sockbuf) (s : Proc Transfer κ) :
    (close N b s).Sat
      (fun _ s' => s'.obj = { s.obj with closed := s.obj.closed ++ [(b.rep.sock, s.sys.trace)] } ∧
        s'.sys.trace = s.sys.trace)
      (fun _ s' => s'.obj = { s.obj with closed := s.obj.closed ++ [(b.rep.sock, s.sys.trace)] } ∧
        s'.sys.trace = s.sys.trace) := by
  simp only [close, Prog.bind_apply, Prog.get_apply, Prog.modify_apply, Outcome.andThen_ret]
  cases hc : N.close s.sys.kern b.rep.sock with
  | mk r k =>
      cases r with
      | ok u =>
          rw [netCall_ok hc]
          exact ⟨rfl, rfl⟩
      | error e =>
          rw [netCall_error hc]
          exact ⟨rfl, rfl⟩

/-- The flush of the destructor. -/
theorem flushC_sat (h : Sending s₂ s) :
    (onC (overflow N.toKernel eofValue) s).Sat
      (fun _ s' => Sending s₂ s' ∧ s'.obj.i = s.obj.i ∧ s'.obj.c.pending = [])
      (fun _ s' => Failed s₂ s') := by
  have hflush := (sync_sat (K := N.toKernel) h.writable).and_within
    (sync_faults (K := N.toKernel) (atC s) h.unwaiting)
  rw [onC_apply, Outcome.sat_mapState, overflow_eof h.writable]
  refine hflush.mono ?_ ?_
  · rintro r t ⟨⟨-, hm, hp⟩, ht⟩
    exact ⟨h.moved hm ht rfl, rfl, hp⟩
  · rintro e t ⟨-, hf⟩
    exact hf

/-- Behind the last round the destructor hands over what is pending, and closes then. -/
theorem destroyC_sending (h : Sending s₂ s) (hi : s.obj.i = []) :
    (destroyC N s).Sat (fun _ s₃ => Uploaded s₂ s₃) fun _ s₃ => Uploaded s₂ s₃ ∨ Failed s₂ s₃ := by
  refine (flushC_sat h).andThen ?_ fun _ _ hf => .inr hf
  rintro r s' ⟨hs', hi', hp⟩
  have uploaded : ∀ s₃ : Proc Transfer κ,
      s₃.obj = { s'.obj with closed := s'.obj.closed ++ [(s'.obj.c.rep.sock, s'.sys.trace)] } ∧
        s₃.sys.trace = s'.sys.trace → Uploaded s₂ s₃ := by
    rintro s₃ ⟨hobj, htr⟩
    have hb := hs'.bytes
    rw [hp, hi', hi, List.append_nil, List.append_nil] at hb
    have hsock : s'.obj.c.rep.sock = s₂.obj.c.rep.sock := hs'.unwaiting.sock
    have hcl : s'.obj.closed = s₂.obj.closed := by rw [hs'.frame]
    refine ⟨by rw [htr, hb], by rw [hobj, hsock, htr, hcl], ?_⟩
    rw [hobj, hs'.frame, hi', hi]
  exact (close_sat s'.obj.c s').mono (fun _ s₃ h₃ => uploaded s₃ h₃) fun _ s₃ h₃ => .inl (uploaded s₃ h₃)

/-- A failure is not taken back. -/
theorem destroyC_failed (hw : s.obj.c.Writable) (hf : Failed s₂ s) :
    (destroyC N s).Sat (fun _ s₃ => Failed s₂ s₃) fun _ s₃ => Failed s₂ s₃ := by
  have hflush : (onC (overflow N.toKernel eofValue) s).Sat (fun _ s' => Failed s₂ s')
      fun _ s' => Failed s₂ s' := by
    have hframe := putFrame_faulty N.toKernel s₂.obj.c.rep.sock s₂.sys.trace
    have hkept := keeps_overflow hframe eofValue (atC s)
    rw [onC_apply, Outcome.sat_mapState]
    rw [overflow_eof hw] at hkept ⊢
    exact ((sync_sat hw).and_leaves hkept).mono (fun _ _ h => h.2 hf) fun _ _ h => h.2 hf
  refine hflush.andThen (fun r s' hs' => ?_) fun _ _ h => h
  have failed : ∀ s₃ : Proc Transfer κ, s₃.sys.trace = s'.sys.trace → Failed s₂ s₃ := by
    intro s₃ htr
    rw [Failed, htr]
    exact hs'
  exact (close_sat s'.obj.c s').mono (fun _ s₃ h₃ => failed s₃ h₃.2) fun _ s₃ h₃ => failed s₃ h₃.2

/-! ### The branch -/

/-- The connection accepted is new, and nothing has been sent on it. -/
theorem openC_sending (h : openC N B m s₁ = .ret () s₂) : Sending s₂ s₂ := by
  obtain ⟨socfd, hc⟩ := openC_ret h
  refine ⟨hc ▸ ofDesc_writable B socfd _ _, ⟨rfl, ?_, List.prefix_rfl⟩, ?_, rfl⟩
  · show s₂.obj.c.rep.stmo = -1
    rw [hc]
    rfl
  · rw [hc, ofDesc_pending, List.append_nil]

/-- **`send`** hands the file over and closes the connection, unless a `::write` on it fails.  A `::close`
that fails ends the program. -/
theorem send_sat (h : openC N B m s₁ = .ret () s₂) :
    (send N B m s₁).Sat (fun _ s₃ => Uploaded s₂ s₃)
      fun e s₃ => Failed s₂ s₃ ∨ e = .terminate ∧ Uploaded s₂ s₃ := by
  have rounds : (Prog.loop (fun _ => sendRound N.toKernel) (s₂.obj.i.length + 1) () s₂).Sat
      (fun _ s => Sending s₂ s ∧ s.obj.i = []) fun _ s => s.obj.c.Writable ∧ Failed s₂ s :=
    Prog.loop_sat (I := fun _ s => Sending s₂ s) (fun _ s => s.obj.i.length)
      (fun _ _ hs => sendRound_sat hs) _ () s₂ (openC_sending h) (Nat.lt_succ_self _)
  simp only [send, raising, Prog.bind_apply, Prog.mapThrown_apply, h, Outcome.mapThrown,
    Outcome.andThen_ret, Prog.get_apply]
  refine inBlock_sat (P := fun _ s => Sending s₂ s ∧ s.obj.i = [])
    (F := fun _ s => s.obj.c.Writable ∧ Failed s₂ s) ?_ ?_ ?_
  · rw [Prog.mapThrown_apply, Outcome.sat_mapThrown]
    exact rounds.mono (fun _ _ h => h) fun e _ he => ⟨e, rfl, he⟩
  · rintro u s ⟨hs, hi⟩
    exact (destroyC_sending hs hi).mono (fun _ _ h => h) fun _ _ h => h.symm.imp_right fun hu => ⟨rfl, hu⟩
  · rintro e s ⟨hw, hf⟩
    exact (destroyC_failed hw hf).mono (fun _ _ h => .inl h) fun _ _ h => .inl h

/-- **What the upload sends.**  Behind the accepted connection `ftpdata` sends, and goes on to the final
reply.  Whatever the file and however short the writes are, when `send` is done the kernel has accepted
exactly the file on the connection, and the connection has been closed after that, unless a `::write` on
it has failed. -/
theorem ftpdata_uploads (hopen : openSb N B m sock_stream 0 s = .ret () s₀)
    (hconn : connect N n portno cmd arg s₀ = .ret reply s₁) (hreply : ¬ IsError reply)
    (hacc : openC N B m' s₁ = .ret () s₂) :
    (ftpdata N B m m' n portno true none cmd arg s = inBlock (destroySb N) (do
      send N B m'
      raising (onFtp (Ftpbuf.getResponse N.toKernel n))) s₁) ∧
    (send N B m' s₁).Sat (fun _ s₃ => Uploaded s₂ s₃)
      fun e s₃ => Failed s₂ s₃ ∨ e = .terminate ∧ Uploaded s₂ s₃ :=
  ⟨ftpdata_eq hopen hconn hreply, send_sat hacc⟩

/-- The kernel accepts at most 700 bytes of a write. -/
def slowServer (fd : Int) : NetKernel (Peer 1024 Unit × Peer 1024 Unit) :=
  { server fd with
    toKernel := (Kernel.feed 1024 fun _ bs =>
      (if h : 0 < bs.length then .accepted (min 700 bs.length) (by omega) (Nat.min_le_right ..)
        else .failed 0, ())).withFile fd }

/-- A client with a file of 1500 bytes, which `ftpdata` reads in two rounds. -/
def longClient : Proc Transfer (Peer 1024 Unit × Peer 1024 Unit) :=
  { client with obj := { client.obj with i := List.replicate 1500 120 } }

theorem ftpdata_uploads_long :
    ∃ s₁ s₂, s₂.obj.i = List.replicate 1500 120 ∧
      (ftpdata (slowServer 5) bufsiz scratch scratch 1 10000 true none (ascii "STOR") (some (ascii "f"))
          longClient = inBlock (destroySb (slowServer 5)) (do
          send (slowServer 5) bufsiz scratch
          raising (onFtp (Ftpbuf.getResponse (slowServer 5).toKernel 1))) s₁) ∧
      (send (slowServer 5) bufsiz scratch s₁).Sat (fun _ s₃ => Uploaded s₂ s₃)
        fun e s₃ => Failed s₂ s₃ ∨ e = .terminate ∧ Uploaded s₂ s₃ := by
  have hseen : seen (slowServer 5) (ascii "STOR") longClient =
      some (some 49, List.replicate 1500 120, 5, remote) := by decide +kernel
  obtain ⟨s₀, s₁, s₂, hopen, hconn, hacc, hi, -⟩ := opening_connects hseen
  exact ⟨s₁, s₂, hi, ftpdata_uploads hopen hconn (by decide) hacc⟩

end Transfer

end Socketpp
