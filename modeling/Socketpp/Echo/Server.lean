import Socketpp.Echo.Causal
import Socketpp.Ftp.Aside
import Socketpp.Ftp.Blocks
import Socketpp.Lib.Forking
import Socketpp.Sockbuf.Waits

/-!
# Echo — the server

The loop of `serve_clients` in the parent: `sockbuf s (accept ())`, `Fork f (1, 1)`, `f.is_child ()`, and the
destructors at the end of the block, of which only that of `s` makes a call on a descriptor.  `deeds` lists
what the parent has done.  The child has its model in `Echo.Model`; what it does is its calls, and `exit`, or
the destructor of `s` where an exception leaves its loops.

`f` points at a record, and `reaper_nohang` deletes the record of a child that has died.  `is_child` and
`~Fork` read the record all the same.  Where the parent handles no SIGCHLD from its fork to the end of the
round the record is there; `stray` says that it has been read and was not, and what the parent does from then
on is not followed.  What `reaper_nohang` writes to `cerr` is left out.

Both are programs of a server that forks (`forking`): the parent accepts, forks and closes in turn, and all
calls of a child are on the descriptor of its connection.
-/

namespace Socketpp
open Lib

/-- The descriptor of a call. -/
def Syscall.fd : Syscall → Int
  | .write fd _ _ | .read fd _ _ | .selectRead fd _ _ | .selectWrite fd _ _ | .sockatmark fd _
  | .shutdown fd _ _ => fd
  | .open_ _ _ => -1

/-- The echobuf, which listens, `s`, and the `pid` in the record of `f`, unless the record may have been
deleted. -/
structure EchoParent where
  echobuf : Sockbuf
  s       : Sockbuf
  process : Option Int
  stray   : Bool
  deeds   : List (Deed Syscall)

/-- What the system does about the children.  `::fork` answers in the parent with the process it has made, or
with none; `sigchld` says whether `reaper_nohang` runs where it may; `garbage` is read from a record that has
been deleted. -/
structure Children (κ : Type) where
  fork    : κ → Option ℕ+ × κ
  sigchld : κ → Bool × κ
  garbage : κ → Int

/-- What `::fork` returns. -/
def Children.pid : Option ℕ+ → Int
  | some p => p
  | none   => -1

namespace EchoParent

variable {κ : Type}

/-- Run a method of the echobuf. -/
def onEcho {α : Type} (p : SockM κ α) : Prog Thrown (Proc EchoParent κ) α :=
  Prog.zoom (fun q => ⟨q.obj.echobuf, q.sys⟩) (fun t q => ⟨{ q.obj with echobuf := t.obj }, t.sys⟩) p

/-- Run a method of `s`. -/
def onS {α : Type} (p : SockM κ α) : Prog Thrown (Proc EchoParent κ) α :=
  Prog.zoom (fun q => ⟨q.obj.s, q.sys⟩) (fun t q => ⟨{ q.obj with s := t.obj }, t.sys⟩) p

def enter (d : Deed Syscall) (x : EchoParent) : EchoParent := { x with deeds := x.deeds ++ [d] }

/-- `sockbuf s (accept ())`. -/
def openS (N : NetKernel κ) (B : ℕ+) (m : Alloc) : Prog Thrown (Proc EchoParent κ) Unit := do
  let socfd ← onEcho (Sockbuf.accept N)
  modify (Proc.onObj fun x => enter (.accept socfd) { x with s := Sockbuf.ofDesc B socfd m.gbuf m.pbuf })

/-- `Fork f (1, 1)`. -/
def fork (C : Children κ) : Prog Thrown (Proc EchoParent κ) Unit := do
  let q ← get
  let (made, k) := C.fork q.sys.kern
  set { obj := { q.obj.enter (.fork made.isSome) with process := some (Children.pid made) },
        sys := { q.sys with kern := k } : Proc EchoParent κ }

/-- `reaper_nohang`, where it may run.  The record it deletes may be that of `f`, if that is on the list, or
the one that `f` is being linked to. -/
def reaper_nohang (C : Children κ) : Prog Thrown (Proc EchoParent κ) Unit := do
  let q ← get
  let (runs, k) := C.sigchld q.sys.kern
  set { obj := { q.obj with process := q.obj.process.filter fun pid => !runs || pid ≤ 0 },
        sys := { q.sys with kern := k } : Proc EchoParent κ }

/-- `f.process->pid`. -/
def pid (C : Children κ) : Prog Thrown (Proc EchoParent κ) Int := do
  let q ← get
  match q.obj.process with
  | some pid => return pid
  | none =>
    modify (Proc.onObj fun x => { x with stray := true })
    return C.garbage q.sys.kern

/-- `f.is_child ()`. -/
def is_child (C : Children κ) : Prog Thrown (Proc EchoParent κ) Bool := do return (← pid C) = 0

/-- `f.~Fork ()`. -/
def destroyF (C : Children κ) : Prog Thrown (Proc EchoParent κ) Unit := do
  if (← pid C) ≤ 0 then
    modify (Proc.onObj fun x => { x with process := none })

/-- The life of `f`.  A parent that takes itself for a child has read a record deleted. -/
def forked (C : Children κ) : Prog Thrown (Proc EchoParent κ) Unit := do
  fork C
  reaper_nohang C
  if ← is_child C then
    Prog.spin
  else
    reaper_nohang C
    destroyF C

/-- `s.~sockbuf ()`. -/
def destroyS (N : NetKernel κ) : Prog Thrown (Proc EchoParent κ) Unit := do
  let _ ← onS (Sockbuf.overflow N.toKernel eofValue)
  let q ← get
  match ← netCall fun k => N.close k q.obj.s.rep.sock with
  | some _ => modify (Proc.onObj (enter (.close q.obj.s.rep.sock)))
  | none =>
    let q ← get
    throw (.err q.sys.errno "sockbuf::~sockbuf" q.obj.s.sockname)

/-- The body of `for (;;)`. -/
def serveRound (N : NetKernel κ) (C : Children κ) (B : ℕ+) (m : Alloc) (_ : Unit) :
    Prog Raised (Proc EchoParent κ) (Unit ⊕ Unit) := do
  raising (openS N B m)
  inBlock (destroyS N) (raising (forked C))
  return .inl ()

/-! ### What the parent does -/

section Parent

variable {N : NetKernel κ} {C : Children κ} {B : ℕ+} {m : Alloc} {q q' : Proc EchoParent κ} {sd : Int}

/-- `q'` is a state of a run of the loop from `q`: rounds that have come to their end, and then one more. -/
def InServe (N : NetKernel κ) (C : Children κ) (B : ℕ+) (m : Alloc) (q q' : Proc EchoParent κ) : Prop :=
  ∃ k q₁ r, Prog.Rounds (serveRound N C B m) k () q () q₁ ∧ (serveRound N C B m () q₁).result = some (r, q')

/-- What the parent has done leads to `ph`, and it has made no other call. -/
structure Standing (ph : Phase) (q : Proc EchoParent κ) : Prop where
  turn  : Trail InTurn .idle q.obj.deeds ph
  quiet : q.sys.trace = []

theorem Standing.enter {ph ph' : Phase} (h : Standing ph q) {d : Deed Syscall} (hd : InTurn ph d ph')
    (hobj : q'.obj.deeds = q.obj.deeds ++ [d]) (ht : q'.sys.trace = q.sys.trace) : Standing ph' q' :=
  ⟨hobj ▸ h.turn.snoc hd, ht.trans h.quiet⟩

/-- In a round: `s` has the connection accepted last, and nothing is pending. -/
def InRound (B : ℕ+) (m : Alloc) (ph : Int → Phase) (q : Proc EchoParent κ) : Prop :=
  ∃ sd, Standing (ph sd) q ∧ q.obj.s = Sockbuf.ofDesc B sd m.gbuf m.pbuf

theorem openS_standing :
    Prog.Triple (Standing .idle) (openS N B m) (InRound B m .hand) (Standing .idle : Proc EchoParent κ → Prop) := by
  intro q h
  have haccept : (onEcho (Sockbuf.accept N) q).Sat
      (fun _ q' => q'.obj.deeds = q.obj.deeds ∧ q'.sys.trace = q.sys.trace)
      (fun _ q' => q'.obj.deeds = q.obj.deeds ∧ q'.sys.trace = q.sys.trace) := by
    rw [onEcho, Prog.zoom_apply, Outcome.sat_mapState]
    exact (Transfer.accept_sat N _).mono (fun _ _ h => ⟨rfl, h.1.2⟩) fun _ _ h => ⟨rfl, h.2⟩
  have hopen : (openS N B m q).Sat (fun _ => InRound B m .hand) fun _ => Standing .idle := by
    rw [openS, Prog.bind_apply]
    refine haccept.andThen (fun sd q₁ h₁ => ?_) fun _ _ h₁ => ⟨h₁.1 ▸ h.turn, h₁.2.trans h.quiet⟩
    refine ⟨sd, h.enter (.accept sd) ?_ h₁.2, rfl⟩
    rw [← h₁.1]
    rfl
  exact hopen.within

/-- What is kept as long as `f` lives. -/
theorem InRound.of_same {ph : Int → Phase} (h : InRound B m ph q) (hs : q'.obj.s = q.obj.s)
    (hdeeds : q'.obj.deeds = q.obj.deeds) (ht : q'.sys.trace = q.sys.trace) : InRound B m ph q' := by
  obtain ⟨sd, ⟨hturn, hquiet⟩, hsd⟩ := h
  exact ⟨sd, ⟨hdeeds ▸ hturn, ht.trans hquiet⟩, hs.trans hsd⟩

theorem pid_inRound {ph : Int → Phase} {E : Proc EchoParent κ → Prop} :
    Prog.Triple (InRound B m ph) (pid C) (InRound B m ph) E := by
  refine .get_bind fun q hq => ?_
  cases q.obj.process with
  | some pid => exact hq
  | none => exact hq.of_same rfl rfl rfl

theorem reaper_inRound {ph : Int → Phase} {E : Proc EchoParent κ → Prop} :
    Prog.Triple (InRound B m ph) (reaper_nohang C) (InRound B m ph) E :=
  .get_bind fun _ hq => hq.of_same rfl rfl rfl

/-- **The life of `f`**: the parent forks once, and `f` leaves its socket alone. -/
theorem forked_inRound {E : Proc EchoParent κ → Prop} :
    Prog.Triple (InRound B m .hand) (forked C) (InRound B m .forked) E := by
  have hfork : Prog.Triple (InRound B m .hand) (fork C) (InRound B m .forked) E := by
    refine .get_bind fun q hq => ?_
    obtain ⟨sd, hstanding, hs⟩ := hq
    exact ⟨sd, hstanding.enter (.fork sd _) rfl rfl, hs⟩
  have hdestroy : Prog.Triple (InRound B m .forked) (destroyF C) (InRound B m .forked) E :=
    .bind pid_inRound fun _ => .ite (.modify fun _ hq => hq.of_same rfl rfl rfl) (.pure _)
  refine .bind hfork fun _ => .bind reaper_inRound fun _ => .bind (.bind pid_inRound fun _ => .pure _) fun _ => ?_
  exact .ite .spin (.bind reaper_inRound fun _ => hdestroy)

/-- With nothing pending, the destructor of `s` only closes its descriptor. -/
theorem destroyS_standing :
    Prog.Triple (InRound B m .forked) (destroyS N) (Standing .idle)
      fun q' : Proc EchoParent κ => ∃ ph, Standing ph q' := by
  rintro q ⟨sd, h, hs⟩
  have hflush : onS (Sockbuf.overflow N.toKernel eofValue) q = .ret 0 q := by
    have hsync : Sockbuf.overflow N.toKernel eofValue ⟨q.obj.s, q.sys⟩ = .ret 0 ⟨q.obj.s, q.sys⟩ := by
      rw [Sockbuf.overflow_eof (by rw [hs]; exact Sockbuf.ofDesc_writable B sd _ _)]
      simp [Sockbuf.sync, hs, Sockbuf.ofDesc]
    rw [onS, Prog.zoom_apply, hsync]
    rfl
  have hsock : q.obj.s.rep.sock = sd := by rw [hs]; rfl
  rw [destroyS, Prog.bind_apply, hflush, Outcome.andThen_ret, Prog.bind_apply, Prog.get_apply,
    Outcome.andThen_ret, Prog.bind_apply, hsock]
  rcases hc : N.close q.sys.kern sd with ⟨r, k⟩
  cases r with
  | ok u =>
      rw [netCall_ok hc]
      exact h.enter (.close sd) rfl rfl
  | error e =>
      rw [netCall_error hc]
      exact ⟨_, h.turn, h.quiet⟩

/-- **A round**: the parent accepts, forks and closes. -/
theorem serveRound_standing :
    Blocks (Standing .idle) (serveRound N C B m ()) (Standing .idle) (fun q' => ∃ ph, Standing ph q')
      fun q' => ∃ ph, Standing ph q' := by
  have hopen : Blocks (Standing .idle) (raising (openS N B m)) (InRound B m .hand) (fun q' => ∃ ph, Standing ph q')
      fun q' => ∃ ph, Standing ph q' :=
    .raising fun q hq => (openS_standing q hq).mono (fun _ h => h) fun _ h => ⟨_, h⟩
  have hblock : Blocks (InRound B m .hand) (inBlock (destroyS N) (raising (forked C))) (Standing .idle)
      (fun q' => ∃ ph, Standing ph q') fun q' => ∃ ph, Standing ph q' :=
    .inBlock (F := fun _ => False) (.raising forked_inRound) destroyS_standing fun _ h => h.elim
  exact .bind hopen fun _ => .bind hblock fun _ => .pure _

theorem rounds_standing {k : Nat} {u u' : Unit} (h : Prog.Rounds (serveRound N C B m) k u q u' q')
    (hs : Standing .idle q) : Standing .idle q' := by
  induction h with
  | refl => exact hs
  | step hround _ ih => exact ih (serveRound_standing.ret hs hround)

/-- **In every run** of its loop the parent accepts, forks and closes in turn. -/
theorem inServe_standing (h : InServe N C B m q q') (hs : Standing .idle q) : ∃ ph, Standing ph q' := by
  obtain ⟨k, q₁, r, hrounds, hresult⟩ := h
  have hidle := rounds_standing hrounds hs
  cases hlast : serveRound N C B m () q₁ with
  | ret a q₂ =>
      rw [hlast] at hresult
      cases hresult
      exact ⟨.idle, serveRound_standing.ret hidle hlast⟩
  | thrown e q₂ =>
      rw [hlast] at hresult
      cases hresult
      cases e with
      | exception e => exact serveRound_standing.exception hidle hlast
      | terminate => exact serveRound_standing.terminated hidle hlast
  | spin =>
      rw [hlast] at hresult
      cases hresult

end Parent

/-- The deeds that a run of the parent begins with, as long as it reads no record that has been deleted. -/
def Begins (w : List (Deed Syscall)) : Prop :=
  ∃ (κ : Type) (N : NetKernel κ) (C : Children κ) (B : ℕ+) (m : Alloc) (q q' : Proc EchoParent κ),
    q.obj.deeds = [] ∧ q.sys.trace = [] ∧ InServe N C B m q q' ∧ q'.obj.stray = false ∧ w <+: q'.obj.deeds

theorem Begins.inTurn {w : List (Deed Syscall)} (h : Begins w) : ∃ ph, Trail InTurn .idle w ph := by
  obtain ⟨κ, N, C, B, m, q, q', hdeeds, htrace, hrun, -, rest, hw⟩ := h
  obtain ⟨ph, hstanding⟩ := inServe_standing hrun ⟨hdeeds ▸ .nil, htrace⟩
  obtain ⟨ph', htrail, -⟩ := hstanding.turn.of_append hw.symm
  exact ⟨ph', htrail⟩

end EchoParent

/-! ### What a child does -/

namespace EchoChild
open Sockbuf

variable {κ : Type} {K : Kernel κ} {n : Nat} {rep : Sockcnt} {q q' : Proc EchoChild κ} {fd : Int}
  {w : List (Deed Syscall)}

/-- A method of `s`. -/
theorem triple_onS {α : Type} {P Q E : Proc Sockbuf κ → Prop} {p : SockM κ α} (h : Prog.Triple P p Q E) :
    Prog.Triple (fun q => P (atS q)) (onS p) (fun q => Q (atS q)) fun q => E (atS q) := by
  refine h.zoom ?_ ?_ ?_
  · exact fun _ hq => hq
  · exact fun _ _ hs => hs
  · exact fun _ _ hs => hs

/-- All calls have been made with the settings `rep`; they lead to the stage `st`. -/
def Tending (rep : Sockcnt) (st : Stage) (q : Proc EchoChild κ) : Prop := Streaming rep [] .idle st (atS q)

/-- The same, wherever they lead. -/
def Tended (rep : Sockcnt) (q : Proc EchoChild κ) : Prop := ∃ st, Tending rep st q

theorem written_idle (h : rep.stmo = -1) (len : Nat) : written rep len = .idle := by
  rw [written, Sockcnt.awaitedWrite, if_pos h, ite_self]

theorem read_tending (len : Nat) : Prog.Triple (Tending rep .idle) (read K len) (Tending rep .idle) (Tended rep) := by
  refine .bind (triple_onS (E := fun s => ∃ st, Streaming rep [] .idle st s) fun s hs => ?_) fun bs =>
    .bind (.modify fun _ h => h) fun _ => .pure _
  exact ((read_at len hs).mono (fun _ _ h => h) fun _ _ h => ⟨_, h⟩).within

theorem write_tending (h : rep.stmo = -1) (len : Int) :
    Prog.Triple (Tending rep .idle) (write K len) (Tending rep .idle) (Tended rep) := by
  refine .bind .get fun q => .bind (triple_onS (E := fun s => ∃ st, Streaming rep [] .idle st s) fun s hs => ?_)
    fun wlen => .pure _
  have hcounted := writeCounted_at (K := K) q.obj.buf len.toNat hs
  rw [Int.toNat_natCast, written_idle h, writeCounted_eq] at hcounted
  exact (hcounted.mono (fun _ _ h => h) fun _ _ h => ⟨_, h⟩).within

theorem writeRound_tending (h : rep.stmo = -1) (rcnt : Int) :
    Prog.Triple (Tending rep .idle) (writeRound K rcnt) (Tending rep .idle) (Tended rep) := by
  refine .ite (.pure _) (.bind (write_tending h rcnt) fun wcnt => .ite (.bind .get fun q => ?_) (.pure _))
  exact fun _ hq => ⟨_, hq⟩

theorem echoRound_tending (h : rep.stmo = -1) (n : Nat) (u : Unit) :
    Prog.Triple (Tending rep .idle) (echoRound K n u) (Tending rep .idle) (Tended rep) :=
  .bind (read_tending 1024) fun rcnt =>
    .ite (.bind (.loop (writeRound_tending h) n rcnt) fun _ => .pure _) (.pure _)

theorem rounds_tending (h : rep.stmo = -1) {k : Nat} {u u' : Unit}
    (hrounds : Prog.Rounds (echoRound K n) k u q u' q') (hq : Tending rep .idle q) : Tending rep .idle q' := by
  induction hrounds with
  | refl => exact hq
  | step hround _ ih =>
      have hwithin := echoRound_tending (K := K) h n () _ hq
      rw [hround] at hwithin
      exact ih hwithin

theorem inRun_tended (h : rep.stmo = -1) (hrun : InRun K n q q') (hq : Tending rep .idle q) : Tended rep q' := by
  obtain ⟨k, q₁, r, hrounds, hresult⟩ := hrun
  have hwithin := echoRound_tending (K := K) h n () _ (rounds_tending h hrounds hq)
  cases hlast : echoRound K n () q₁ with
  | ret a q₂ =>
      rw [hlast] at hwithin hresult
      cases hresult
      exact ⟨_, hwithin⟩
  | thrown e q₂ =>
      rw [hlast] at hwithin hresult
      cases hresult
      exact hwithin
  | spin =>
      rw [hlast] at hresult
      cases hresult

theorem fd_of_on {c : Syscall} (h : c.demand.On fd) : c.fd = fd := by
  cases c with
  | open_ path r => exact h.elim
  | write | read | selectRead | selectWrite | sockatmark | shutdown => exact h

/-- **All calls of the child** are on the descriptor it has been given. -/
theorem inRun_fd {B : ℕ+} {gbuf pbuf buf : Mem Byte} {k : κ} {errno : Int}
    (hrun : InRun K n (served B fd gbuf pbuf buf k errno) q') : ∀ c ∈ q'.sys.trace, c.fd = fd := by
  have hstart : Tending (Sockbuf.ofDesc B fd gbuf pbuf).rep .idle (served B fd gbuf pbuf buf k errno) :=
    ⟨trivial, rfl, .start _ _⟩
  obtain ⟨st, -, -, made, hmade, htrail⟩ := inRun_tended rfl hrun hstart
  intro c hc
  have hmem : c.demand ∈ made := by
    rw [List.nil_append] at hmade
    exact hmade ▸ List.mem_map_of_mem hc
  obtain ⟨pre, post, rfl⟩ := List.append_of_mem hmem
  obtain ⟨q₁, q₂, -, hleads, -⟩ := htrail.at_letter rfl
  exact fd_of_on (leads_settings hleads).1

/-- A call, as a deed. -/
def deed (c : Syscall) : Deed Syscall := .use c.fd c

/-- The deeds that a run of the child on `fd` begins with: its calls, and where its loops have come to their
end `exit`.  An exception leaves the block of `s`, whose destructor closes its descriptor. -/
inductive Begins (fd : Int) : List (Deed Syscall) → Prop where
  | serves {κ : Type} {K : Kernel κ} {n : Nat} {B : ℕ+} {gbuf pbuf buf : Mem Byte} {k : κ} {errno : Int}
      {q' : Proc EchoChild κ} {calls : List Syscall} (hn : 2 ≤ n)
      (hrun : InRun K n (served B fd gbuf pbuf buf k errno) q') (hcalls : calls <+: q'.sys.trace) :
      Begins fd (calls.map deed)
  | exits {κ : Type} {K : Kernel κ} {n : Nat} {B : ℕ+} {gbuf pbuf buf : Mem Byte} {k : κ} {errno v : Int}
      {q' : Proc EchoChild κ} (hn : 2 ≤ n)
      (hret : serveClient K n (served B fd gbuf pbuf buf k errno) = .ret v q') :
      Begins fd (q'.sys.trace.map deed ++ [.exit])
  | closes {κ : Type} {K : Kernel κ} {n : Nat} {B : ℕ+} {gbuf pbuf buf : Mem Byte} {k : κ} {errno : Int}
      {e : Thrown} {q' : Proc EchoChild κ} (hn : 2 ≤ n)
      (hthrown : serveClient K n (served B fd gbuf pbuf buf k errno) = .thrown e q') :
      Begins fd (q'.sys.trace.map deed ++ [.close fd])

theorem inRun_of_thrown {e : Thrown} (h : serveClient K n q = .thrown e q') : InRun K n q q' := by
  rw [serveClient, Prog.bind_apply] at h
  cases hloop : Prog.loop (echoRound K n) n () q with
  | ret u q₁ =>
      rw [hloop] at h
      cases h
  | thrown e' q₁ =>
      rw [hloop] at h
      cases h
      obtain ⟨k, u, q₂, hrounds, hlast⟩ := Prog.loop_eq_thrown hloop
      exact ⟨k, q₂, _, hrounds, congrArg Outcome.result hlast⟩
  | spin =>
      rw [hloop] at h
      cases h

theorem trail_calls {calls : List Syscall} (h : ∀ c ∈ calls, c.fd = fd) :
    Trail (OnTask fd) true (calls.map deed) true := by
  induction calls with
  | nil => exact .nil
  | cons c calls ih =>
      obtain ⟨hc, hcalls⟩ := List.forall_mem_cons.mp h
      refine .cons ?_ (ih hcalls)
      rw [deed, hc]
      exact .use c

theorem Begins.onTask (h : Begins fd w) : ∃ b, Trail (OnTask fd) true w b := by
  cases h with
  | serves hn hrun hcalls => exact ⟨true, trail_calls fun c hc => inRun_fd hrun c (hcalls.subset hc)⟩
  | exits hn hret =>
      have hrun := (serveClient_behind hn (served_behind ..) hret).1
      exact ⟨false, (trail_calls (inRun_fd hrun)).snoc .exit⟩
  | closes hn hthrown => exact ⟨false, (trail_calls (inRun_fd (inRun_of_thrown hthrown))).snoc .close⟩

theorem usesOf_deeds (calls : List Syscall) (w : List (Deed Syscall)) :
    usesOf (calls.map deed ++ w) = calls ++ usesOf w := by
  induction calls with
  | nil => rfl
  | cons c calls ih => exact congrArg (c :: ·) ih

theorem exit_notMem_deeds (calls : List Syscall) : .exit ∉ calls.map deed := by
  intro hexit
  obtain ⟨c, -, hc⟩ := List.mem_map.mp hexit
  cases hc

/-- The calls among the deeds are the first of a run, or all of them where the child exits. -/
theorem Begins.calls (h : Begins fd w) : ∃ trace, usesOf w <+: trace ∧ (∀ c ∈ trace, c.fd = fd) ∧
    Causal fd trace ∧ (.exit ∈ w → usesOf w = trace ∧ receivedOn fd trace = sentOn fd trace) := by
  cases h with
  | @serves κ K n B gbuf pbuf buf k errno q' calls hn hrun hcalls =>
      obtain ⟨rest, hbehind⟩ := inRun_causal hn (served_behind ..) hrun
      have huses : usesOf (calls.map deed) = calls := by
        have h := usesOf_deeds calls []
        rwa [List.append_nil, show usesOf ([] : List (Deed Syscall)) = [] from rfl, List.append_nil] at h
      refine ⟨q'.sys.trace, huses.symm ▸ hcalls, inRun_fd hrun, hbehind.causal, fun hexit => ?_⟩
      exact absurd hexit (exit_notMem_deeds calls)
  | @exits κ K n B gbuf pbuf buf k errno v q' hn hret =>
      obtain ⟨hrun, hbehind, -⟩ := serveClient_behind hn (served_behind ..) hret
      have huses : usesOf (q'.sys.trace.map deed ++ [.exit]) = q'.sys.trace := by
        rw [usesOf_deeds]
        exact List.append_nil _
      refine ⟨q'.sys.trace, by rw [huses], inRun_fd hrun, hbehind.causal, fun _ => ⟨huses, ?_⟩⟩
      have howed := hbehind.owed
      rwa [List.append_nil] at howed
  | @closes κ K n B gbuf pbuf buf k errno e q' hn hthrown =>
      have hrun := inRun_of_thrown hthrown
      obtain ⟨rest, hbehind⟩ := inRun_causal hn (served_behind ..) hrun
      have huses : usesOf (q'.sys.trace.map deed ++ [.close fd]) = q'.sys.trace := by
        rw [usesOf_deeds]
        exact List.append_nil _
      refine ⟨q'.sys.trace, by rw [huses], inRun_fd hrun, hbehind.causal, fun hexit => ?_⟩
      rcases List.mem_append.mp hexit with hexit | hexit
      · exact absurd hexit (exit_notMem_deeds _)
      · cases List.mem_singleton.mp hexit

theorem Begins.calls_fd (h : Begins fd w) : ∀ c ∈ usesOf w, c.fd = fd := by
  obtain ⟨trace, hle, hfd, -⟩ := h.calls
  exact fun c hc => hfd c (hle.subset hc)

/-- **What the child sends back**: a prefix of what it has received, and all of it where it exits. -/
theorem Begins.sent_received (h : Begins fd w) :
    sentOn fd (usesOf w) <+: receivedOn fd (usesOf w) ∧
      (.exit ∈ w → sentOn fd (usesOf w) = receivedOn fd (usesOf w)) := by
  obtain ⟨trace, hle, -, hcausal, hall⟩ := h.calls
  refine ⟨hcausal _ hle, fun hexit => ?_⟩
  obtain ⟨heq, hsame⟩ := hall hexit
  rw [heq, hsame]

end EchoChild

/-- **The programs of `serve_clients`** are those of a server that forks. -/
theorem forking : Forking EchoParent.Begins EchoChild.Begins :=
  ⟨fun _ h => h.inTurn, fun _ _ h => h.onTask⟩

end Socketpp
