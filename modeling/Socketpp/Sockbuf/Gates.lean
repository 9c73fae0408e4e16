import Socketpp.Lib.Trail
import Socketpp.Sockbuf.Reached
import Socketpp.Sockbuf.Send

/-!
# Sockbuf — the waits before a call

`recvtimeout`, `sendtimeout` and `oob` promise when a sockbuf asks the kernel for data or hands it some: not
before a wait with the timeout set has succeeded, and not at a mark.  `Leads rep` is that promise as a
machine which reads the calls of one method: its stages say what has been waited for, and a call that is
refused ends it (`Stage.over`).

Each stream function makes its calls in an order the machine allows, from `Stage.idle` back to it where it
returns, and to `Stage.over` where it throws.  `PutGate` and `GetGate` reduce that to `sync` and to `read`.
-/

namespace Socketpp
open Lib

/-- What a call asks the kernel for, with the answer; `none` is -1. -/
inductive Demand where
  | awaitRead (fd sec : Int) (ready : Option Nat)
  | mark (fd : Int) (atmark : Option Bool)
  /-- bytes, or a message -/
  | receive (fd : Int) (got : Option Nat)
  | awaitWrite (fd sec : Int) (ready : Option Nat)
  /-- bytes of which the kernel may take some -/
  | hand (fd : Int) (offered : Nat) (taken : Option Nat)
  /-- a message -/
  | post (fd : Int) (sent : Option Nat)
  | shut (fd : Int) (ok : Bool)
  | other
deriving DecidableEq

/-- The call fails, a wait times out, or the mark is there. -/
@[simp] def Demand.Refused : Demand → Prop
  | .awaitRead _ _ r | .awaitWrite _ _ r => r = none ∨ r = some 0
  | .mark _ r      => r ≠ some false
  | .receive _ r   => r = none
  | .hand _ _ r    => r = none
  | .post _ r      => r = none
  | .shut _ ok     => ok = false
  | .other         => False

/-- Data is handed over. -/
def Demand.Hands : Demand → Prop
  | .hand _ _ _ | .post _ _ => True
  | _ => False

/-- The call is on `fd`. -/
def Demand.On (fd : Int) : Demand → Prop
  | .awaitRead fd' _ _ | .awaitWrite fd' _ _ | .mark fd' _ | .receive fd' _ | .hand fd' _ _ | .post fd' _
  | .shut fd' _ => fd' = fd
  | .other => False

/-- The settings ask for it, if the call is a wait or a check. -/
def Demand.Wanted (rep : Sockcnt) : Demand → Prop
  | .awaitRead _ sec _  => rep.rtmo ≠ -1 ∧ sec = rep.rtmo
  | .awaitWrite _ sec _ => rep.stmo ≠ -1 ∧ sec = rep.stmo
  | .mark _ _           => rep.oob = true
  | _                   => True

/-- Some of the bytes, not all, are taken. -/
def Demand.Short : Demand → Prop
  | .hand _ offered taken => ∃ n, taken = some n ∧ n < offered
  | _ => False

@[simp] def Syscall.demand : Syscall → Demand
  | .write fd bs r        => .hand fd bs.length r
  | .read fd _ r          => .receive fd (r.map List.length)
  | .selectRead fd sec r  => .awaitRead fd sec r
  | .selectWrite fd sec r => .awaitWrite fd sec r
  | .sockatmark fd r      => .mark fd r
  | .shutdown fd _ ok     => .shut fd ok
  | .open_ _ _            => .other

/-- What has been waited for. -/
inductive Stage where
  | idle
  /-- there is something to read -/
  | readable
  /-- and it is not at a mark -/
  | unmarked
  | writable
  /-- a part has been taken -/
  | handing
  /-- a call has been refused -/
  | over
deriving DecidableEq

namespace Sockcnt

/-- The stage behind the wait for something to read. -/
def awaitedRead (rep : Sockcnt) : Stage := if rep.rtmo = -1 then .idle else .readable

/-- The stage in which data is asked for. -/
def cleared (rep : Sockcnt) : Stage := if rep.oob then .unmarked else rep.awaitedRead

/-- The stage in which data is handed over. -/
def awaitedWrite (rep : Sockcnt) : Stage := if rep.stmo = -1 then .idle else .writable

end Sockcnt

/-- The calls allowed in a stage, and where they lead if they are granted. -/
inductive Allows (rep : Sockcnt) : Stage → Demand → Stage → Prop where
  | awaitRead (h : rep.rtmo ≠ -1) (r : Option Nat) : Allows rep .idle (.awaitRead rep.sock rep.rtmo r) .readable
  | mark {q : Stage} (hq : q = rep.awaitedRead) (h : rep.oob = true) (r : Option Bool) :
      Allows rep q (.mark rep.sock r) .unmarked
  | receive {q : Stage} (hq : q = rep.cleared) (r : Option Nat) : Allows rep q (.receive rep.sock r) .idle
  | awaitWrite (h : rep.stmo ≠ -1) (r : Option Nat) :
      Allows rep .idle (.awaitWrite rep.sock rep.stmo r) .writable
  | hand {q : Stage} {offered : Nat} {taken : Option Nat} (hq : q = rep.awaitedWrite ∨ q = .handing)
      (h : ∀ n, taken = some n → offered ≤ n) : Allows rep q (.hand rep.sock offered taken) .idle
  | part {q : Stage} {offered n : Nat} (hq : q = rep.awaitedWrite ∨ q = .handing) (h : n < offered) :
      Allows rep q (.hand rep.sock offered (some n)) .handing
  | post {q : Stage} (hq : q = rep.awaitedWrite) (r : Option Nat) : Allows rep q (.post rep.sock r) .idle
  | shut (ok : Bool) : Allows rep .idle (.shut rep.sock ok) .idle

/-- The machine of the settings `rep`. -/
inductive Leads (rep : Sockcnt) : Stage → Demand → Stage → Prop where
  | granted {q q' : Stage} {c : Demand} (h : Allows rep q c q') (hc : ¬ c.Refused) : Leads rep q c q'
  | refused {q q' : Stage} {c : Demand} (h : Allows rep q c q') (hc : c.Refused) : Leads rep q c .over

namespace Sockcnt

variable (rep : Sockcnt)

theorem awaitedRead_eq : rep.awaitedRead = .idle ∨ rep.awaitedRead = .readable := by
  rw [awaitedRead]
  split
  · exact .inl rfl
  · exact .inr rfl

theorem cleared_eq : rep.cleared = .idle ∨ rep.cleared = .readable ∨ rep.cleared = .unmarked := by
  rw [cleared]
  split
  · exact .inr (.inr rfl)
  · exact rep.awaitedRead_eq.imp id .inl

theorem awaitedWrite_eq : rep.awaitedWrite = .idle ∨ rep.awaitedWrite = .writable := by
  rw [awaitedWrite]
  split
  · exact .inl rfl
  · exact .inr rfl

end Sockcnt

/-- Nothing is called behind a call that is refused. -/
theorem leads_over (rep : Sockcnt) (c : Demand) (q : Stage) : ¬ Leads rep .over c q := by
  have none_allowed : ∀ q, ¬ Allows rep .over c q := by
    intro q h
    cases h with
    | mark hq _ _ => rcases rep.awaitedRead_eq with h | h <;> rw [h] at hq <;> cases hq
    | receive hq _ => rcases rep.cleared_eq with h | h | h <;> rw [h] at hq <;> cases hq
    | hand hq _ | part hq _ =>
        obtain hq | hq := hq
        · rcases rep.awaitedWrite_eq with h | h <;> rw [h] at hq <;> cases hq
        · cases hq
    | post hq _ => rcases rep.awaitedWrite_eq with h | h <;> rw [h] at hq <;> cases hq
  rintro (⟨h, -⟩ | ⟨h, -⟩)
  · exact none_allowed _ h
  · exact none_allowed _ h

namespace Sockbuf

variable {κ : Type} {K : Kernel κ}

/-! ### What is left to `sync` and `read` -/

/-- `P` holds before and after a flush and does not see the put area. -/
structure PutGate (K : Kernel κ) (P E : Proc Sockbuf κ → Prop) : Prop where
  sync : Prog.Triple P (sync K) P E
  put : ∀ (f : PutArea → PutArea) (s : Proc Sockbuf κ), P s → P (s.onObj (onPut f))

namespace PutGate

variable {P E : Proc Sockbuf κ → Prop} (h : PutGate K P E)
include h

theorem onPut (f : PutArea → PutArea) :
    Prog.Triple P (modify (Proc.onObj (Sockbuf.onPut f)) : SockM κ PUnit) P E := .modify fun s hs => h.put f s hs

theorem overflow (c : Int) : Prog.Triple P (overflow K c) P E := by
  refine .bind .get fun s => ?_
  cases s.obj.putArea with
  | none => exact .pure _
  | some p =>
      have store : Prog.Triple P (do
          modify (Proc.onObj (Sockbuf.onPut fun p => p.putc (UInt8.ofInt c)))
          return c : SockM κ Int) P E := .bind (h.onPut _) fun _ => .pure _
      exact .ite h.sync (.ite (.bind h.sync fun _ => store) (.bind (.pure _) fun _ => store))

theorem sputc (c : Byte) : Prog.Triple P (sputc K c) P E := by
  refine .bind .get fun s => ?_
  cases s.obj.putArea with
  | none => exact h.overflow _
  | some p => exact .ite (.bind (h.onPut _) fun _ => .pure _) (h.overflow _)

theorem xsputn (bs : List Byte) : Prog.Triple P (xsputn K bs) P E := by
  have levels : ∀ (depth : Nat) (bs : List Byte), Prog.Triple P (xsputnRec K depth bs) P E := by
    intro depth
    induction depth with
    | zero => exact fun bs => .spin
    | succ depth ih =>
        intro bs
        refine .bind .get fun s => .ite (.bind (h.onPut _) fun _ => .pure _) ?_
        refine .bind (h.onPut _) fun _ => .bind (h.overflow _) fun v => ?_
        exact .ite (.bind (ih _) fun _ => .pure _) (.pure _)
  exact levels _ bs

end PutGate

/-- `P` holds before and after a refill and does not see the get area. -/
structure GetGate (K : Kernel κ) (P E : Proc Sockbuf κ → Prop) : Prop where
  read : ∀ len, Prog.Triple P (read K len) P E
  get : ∀ (f : GetArea → GetArea) (s : Proc Sockbuf κ), P s → P (s.onObj (onGet f))

theorem triple_within {α : Type} {P Q E : Proc Sockbuf κ → Prop} {p : SockM κ α} (h : Prog.Triple P p Q E) :
    Prog.Triple (fun t : Getting κ => P t.proc) (within p) (fun t => Q t.proc) fun t => E t.proc := by
  refine h.zoom ?_ ?_ ?_
  · exact fun _ ht => ht
  · exact fun _ _ hs => hs
  · exact fun _ _ hs => hs

namespace GetGate

variable {P E : Proc Sockbuf κ → Prop} (h : GetGate K P E)
include h

theorem onGet (f : GetArea → GetArea) :
    Prog.Triple P (modify (Proc.onObj (Sockbuf.onGet f)) : SockM κ PUnit) P E := .modify fun s hs => h.get f s hs

theorem underflow : Prog.Triple P (underflow K) P E := by
  refine .bind .get fun s => ?_
  cases s.obj.getArea with
  | none => exact .pure _
  | some a =>
      refine .ite (.pure _) (.bind (h.read _) fun bs => ?_)
      cases bs with
      | nil => exact .pure _
      | cons b bs => exact .bind (h.onGet _) fun _ => .pure _

theorem uflow : Prog.Triple P (uflow K) P E :=
  .bind h.underflow fun _ => .ite (.pure _) (.bind (h.onGet _) fun _ => .pure _)

theorem sgetc : Prog.Triple P (sgetc K) P E := by
  refine .bind .get fun s => ?_
  cases s.obj.getArea with
  | none => exact h.underflow
  | some a => exact .ite (.pure _) h.underflow

theorem sbumpc : Prog.Triple P (sbumpc K) P E := by
  refine .bind .get fun s => ?_
  cases s.obj.getArea with
  | none => exact h.uflow
  | some a => exact .ite (.bind (h.onGet _) fun _ => .pure _) h.uflow

theorem copyOut (n : Nat) {t : Getting κ} (ht : P t.proc) : P (copyOut n t).proc := by
  rw [Sockbuf.copyOut]
  cases t.proc.obj.getArea with
  | none => exact ht
  | some a => exact h.get _ _ ht

theorem xsgetn (n : Nat) :
    Prog.Triple (fun t : Getting κ => P t.proc) (xsgetn K n) (fun t => P t.proc) fun t => E t.proc := by
  have levels : ∀ (depth n : Nat), Prog.Triple (fun t : Getting κ => P t.proc) (xsgetnRec K depth n)
      (fun t => P t.proc) fun t => E t.proc := by
    intro depth
    induction depth with
    | zero => exact fun n => .spin
    | succ depth ih =>
        intro n
        have copy : ∀ k, Prog.Triple (fun t : Getting κ => P t.proc)
            (modify (Sockbuf.copyOut k) : Prog Thrown (Getting κ) PUnit) (fun t => P t.proc)
            fun t => E t.proc := fun k => .modify fun t ht => h.copyOut k ht
        refine .bind .get fun t => .ite (.bind (copy _) fun _ => .pure _) (.bind (copy _) fun _ => ?_)
        refine .bind (triple_within h.underflow) fun v => ?_
        exact .ite (.bind (ih _) fun _ => .pure _) (.pure _)
  exact levels _ n

end GetGate

/-! ### The waits -/

/-- The calls made, as the machine reads them. -/
def demands (s : Proc Sockbuf κ) : List Demand := s.sys.trace.map Syscall.demand

/-- `P` holds of the object, its settings are `rep`, and the calls made since `base` lead from `q₀` to `q`. -/
structure At (P : Sockbuf → Prop) (rep : Sockcnt) (base : List Demand) (q₀ q : Stage) (s : Proc Sockbuf κ) :
    Prop where
  holds    : P s.obj
  settings : s.obj.rep = rep
  left     : Left (Leads rep) demands base q₀ q s

variable {P : Sockbuf → Prop} {rep : Sockcnt} {base : List Demand} {q₀ q q' : Stage} {s : Proc Sockbuf κ}

theorem At.enter (h : At P rep base q₀ q s) {c : Syscall} {y : Sys κ} (hy : y.trace = s.sys.trace ++ [c])
    (hc : Leads rep q c.demand q') : At P rep base q₀ q' ⟨s.obj, y⟩ :=
  ⟨h.holds, h.settings, h.left.enter (c := c.demand) (by rw [demands, demands, hy, List.map_append]; rfl) hc⟩

/-- The wait of `read` and its kin for the socket to become readable. -/
def awaitReadFor (operation : String) (K : Kernel κ) : SockM κ Unit := do
  let s ← get
  if s.obj.rep.rtmo = -1 then return ()
  else if (← isReadready K s.obj.rep.rtmo) = 0 then
    throw (.err ETIMEDOUT operation s.obj.sockname)
  else return ()

theorem awaitReadFor_at (operation : String) (h : At P rep base q₀ .idle s) :
    (awaitReadFor operation K s).Sat (fun _ => At P rep base q₀ rep.awaitedRead) fun _ => At P rep base q₀ .over := by
  simp only [awaitReadFor, Prog.bind_apply, Prog.get_apply, Outcome.andThen_ret, Prog.ite_apply, h.settings]
  split
  · rename_i hr
    rw [Sockcnt.awaitedRead, if_pos hr]
    exact h
  · rename_i hr
    simp only [isReadready, call, Sys.selectRead, Prog.bind_apply, Prog.get_apply, Outcome.andThen_ret,
      Prog.zoom_apply, h.settings]
    rcases K.selectRead s.sys.kern rep.sock rep.rtmo with ⟨a, k⟩
    cases a with
    | error e => exact h.enter rfl (.refused (.awaitRead hr none) (.inl rfl))
    | ok n =>
        cases n with
        | zero => exact h.enter rfl (.refused (.awaitRead hr (some 0)) (.inr rfl))
        | succ n =>
            rw [Sockcnt.awaitedRead, if_neg hr]
            exact h.enter rfl (.granted (.awaitRead hr (some (n + 1))) (by simp))

theorem checkOob_at (h : At P rep base q₀ rep.awaitedRead s) :
    (checkOob K s).Sat (fun _ => At P rep base q₀ rep.cleared) fun _ => At P rep base q₀ .over := by
  simp only [checkOob, Prog.bind_apply, Prog.get_apply, Outcome.andThen_ret, Prog.ite_apply, h.settings]
  split
  · rename_i ho
    simp only [atmark, call, Sys.sockatmark, Prog.bind_apply, Prog.get_apply, Outcome.andThen_ret,
      Prog.zoom_apply, h.settings]
    rcases K.sockatmark s.sys.kern rep.sock with ⟨a, k⟩
    cases a with
    | error e => exact h.enter rfl (.refused (.mark rfl ho none) (by simp))
    | ok m =>
        cases m with
        | true => exact h.enter rfl (.refused (.mark rfl ho (some true)) (by simp))
        | false =>
            rw [Sockcnt.cleared, if_pos ho]
            exact h.enter rfl (.granted (.mark rfl ho (some false)) (by simp))
  · rename_i ho
    rw [Sockcnt.cleared, if_neg ho]
    exact h

/-- What `read` and its kin do before they ask for data. -/
def guardRead (operation : String) (K : Kernel κ) : SockM κ Unit := do
  awaitReadFor operation K
  checkOob K

theorem guardRead_at (operation : String) (h : At P rep base q₀ .idle s) :
    (guardRead operation K s).Sat (fun _ => At P rep base q₀ rep.cleared) fun _ => At P rep base q₀ .over :=
  (awaitReadFor_at operation h).andThen (fun _ _ h₁ => checkOob_at h₁) fun _ _ h => h

theorem read_at (len : Nat) (h : At P rep base q₀ .idle s) :
    (read K len s).Sat (fun _ => At P rep base q₀ .idle) fun _ => At P rep base q₀ .over := by
  refine (awaitReadFor_at "sockbuf::read" h).andThen (fun _ s₁ h₁ => ?_) fun _ _ h => h
  refine (checkOob_at h₁).andThen (fun _ s₂ h₂ => ?_) fun _ _ h => h
  simp only [Prog.bind_apply, Prog.get_apply, Outcome.andThen_ret, call, Prog.zoom_apply, Sys.read, h₂.settings]
  rcases K.read s₂.sys.kern rep.sock len with ⟨a, k⟩
  cases a with
  | data bs pos le => exact h₂.enter rfl (.granted (.receive rfl _) (by simp))
  | eof => exact h₂.enter rfl (.granted (.receive rfl _) (by simp))
  | failed e => exact h₂.enter rfl (.refused (.receive rfl _) rfl)

theorem awaitFor_at (operation : String) (h : At P rep base q₀ .idle s) :
    (awaitFor operation K s).Sat (fun _ => At P rep base q₀ rep.awaitedWrite) fun _ => At P rep base q₀ .over := by
  simp only [awaitFor, Prog.bind_apply, Prog.get_apply, Outcome.andThen_ret, Prog.ite_apply, h.settings]
  split
  · rename_i hw
    rw [Sockcnt.awaitedWrite, if_pos hw]
    exact h
  · rename_i hw
    simp only [isWriteready, call, Sys.selectWrite, Prog.bind_apply, Prog.get_apply, Outcome.andThen_ret,
      Prog.zoom_apply, h.settings]
    rcases K.selectWrite s.sys.kern rep.sock rep.stmo with ⟨a, k⟩
    cases a with
    | error e => exact h.enter rfl (.refused (.awaitWrite hw none) (.inl rfl))
    | ok n =>
        cases n with
        | zero => exact h.enter rfl (.refused (.awaitWrite hw (some 0)) (.inr rfl))
        | succ n =>
            rw [Sockcnt.awaitedWrite, if_neg hw]
            exact h.enter rfl (.granted (.awaitWrite hw (some (n + 1))) (by simp))

/-! ### The offers -/

/-- An offer, as the machine reads it. -/
def handed (fd : Int) (o : Offer Byte) : Demand := .hand fd o.offered.length o.taken

theorem offers_nil {os : List (Offer Byte)} {done : Bool} (h : Offers [] os done) : os = [] ∧ done = true := by
  cases h with
  | nil => exact ⟨rfl, rfl⟩
  | failed hne => exact absurd rfl hne
  | taken pos le _ => exact absurd (Nat.lt_of_lt_of_le pos le) (Nat.lt_irrefl 0)

/-- **The offers of one buffer.**  Only the first stands behind a wait; the others follow a part. -/
theorem offers_trail {l : List Byte} {os : List (Offer Byte)} {done : Bool} (h : Offers l os done) :
    ∀ {q : Stage}, q = rep.awaitedWrite ∨ q = .handing → l ≠ [] →
      Trail (Leads rep) q (os.map (handed rep.sock)) (if done then .idle else .over) := by
  induction h with
  | nil => exact fun _ hne => absurd rfl hne
  | failed hne => exact fun hq _ => .one (.refused (.hand hq fun n hn => by cases hn) rfl)
  | @taken l os done n pos le h ih =>
      intro q hq hne
      have hgranted : ¬ (handed rep.sock ⟨l, some n⟩).Refused := by simp [handed]
      rw [List.map_cons]
      by_cases hlt : n < l.length
      · have hleft : l.drop n ≠ [] := by rw [Ne, List.drop_eq_nil_iff]; exact Nat.not_le.mpr hlt
        exact .cons (.granted (.part hq hlt) hgranted) (ih (.inr rfl) hleft)
      · have hall : n = l.length := Nat.le_antisymm le (Nat.not_lt.mp hlt)
        have hwhole : Leads rep q (handed rep.sock ⟨l, some n⟩) .idle :=
          .granted (.hand hq fun m hm => by cases hm; exact Nat.not_lt.mp hlt) hgranted
        rw [hall, List.drop_length] at h
        obtain ⟨rfl, rfl⟩ := offers_nil h
        exact .one hwhole

/-- The stage behind a loop that has handed over `len` bytes. -/
def written (rep : Sockcnt) (len : Nat) : Stage := if len = 0 then rep.awaitedWrite else .idle

theorem offerLoop_none {τ : Type} {offer : List Byte → Prog Thrown τ (Option Nat)} {fail : Nat → Thrown}
    {buf : Mem Byte} {len : Int} {t : τ} (hlen : len ≤ 0) : offerLoop offer fail buf len t = .ret 0 t := by
  have hround : offerRound offer fail buf (len, 0) t = .ret (.inr 0) t := by
    simp only [offerRound, Int.not_lt.mpr hlen, if_false, Prog.pure_apply]
  exact Prog.loop_inr _ hround

/-- A loop of offers, over any state that keeps such a log. -/
theorem offerLoop_left {τ : Type} {offer : List Byte → Prog Thrown τ (Option Nat)} {fail : Nat → Thrown}
    {log : τ → List Demand} {I : τ → Prop} {t : τ}
    (hoffer : Answers offer fun os t' => I t' ∧ log t' = log t ++ os.map (handed rep.sock))
    (buf : Mem Byte) (len : Int) (hI : I t) (h : Left (Leads rep) log base q₀ rep.awaitedWrite t) :
    (offerLoop offer fail buf len t).Sat
      (fun _ t' => I t' ∧ Left (Leads rep) log base q₀ (written rep len.toNat) t')
      (fun _ t' => I t' ∧ Left (Leads rep) log base q₀ .over t') := by
  by_cases hlen : len ≤ 0
  · have hzero : len.toNat = 0 := Int.toNat_of_nonpos hlen
    rw [offerLoop_none hlen, hzero]
    exact ⟨hI, h⟩
  obtain ⟨len, rfl⟩ := Int.eq_ofNat_of_zero_le (Int.le_of_lt (Int.not_le.mp hlen))
  rw [Int.toNat_natCast]
  have hnil : I t ∧ log t = log t ++ ([] : List (Offer Byte)).map (handed rep.sock) :=
    ⟨hI, (List.append_nil _).symm⟩
  refine (offerLoop_sat hoffer len hnil).mono ?_ ?_
  · rintro r t' ⟨os, hos, ⟨hI', hlog⟩, -⟩
    refine ⟨hI', h.more hlog ?_⟩
    cases len with
    | zero => obtain ⟨rfl, -⟩ := offers_nil hos; exact .nil
    | succ m => exact offers_trail hos (.inl rfl) (List.cons_ne_nil _ _)
  · rintro e t' ⟨os, hos, ⟨hI', hlog⟩, -⟩
    refine ⟨hI', h.more hlog ?_⟩
    cases len with
    | zero => exact absurd (offers_nil hos).2 Bool.false_ne_true
    | succ m => exact offers_trail hos (.inl rfl) (List.cons_ne_nil _ _)

theorem writeCounted_at (buf : Mem Byte) (len : Int) (h : At P rep base q₀ .idle s) :
    (writeCounted K buf len s).Sat (fun _ => At P rep base q₀ (written rep len.toNat))
      fun _ => At P rep base q₀ .over := by
  refine (awaitFor_at "sockbuf::write" h).andThen (fun _ s₁ h₁ => ?_) fun _ _ h => h
  have hoffer : Answers (callWrite K) fun os s' => (P s'.obj ∧ s'.obj.rep = rep) ∧
      demands s' = demands s₁ ++ os.map (handed rep.sock) := by
    rintro os s₂ l hl ⟨⟨hP, hrep⟩, hlog⟩
    refine (callWrite_answers s₂ [] s₂ l hl (.refl s₂)).mono ?_ fun _ _ h => h
    rintro r s₃ ⟨hr, hobj, htrace⟩
    have hdemands : demands s₃ = demands s₂ ++ [handed rep.sock ⟨l, r⟩] := by
      rw [demands, htrace, List.map_append, ← hrep]
      rfl
    refine ⟨hr, by rw [hobj]; exact ⟨hP, hrep⟩, ?_⟩
    rw [hdemands, hlog, List.append_assoc, List.map_append]
    rfl
  exact (offerLoop_left hoffer buf len ⟨h₁.holds, h₁.settings⟩ h₁.left).mono
    (fun _ _ h => ⟨h.1.1, h.1.2, h.2⟩) fun _ _ h => ⟨h.1.1, h.1.2, h.2⟩

/-! ### The stream functions -/

/-- The settings are `rep`, and the calls made since `base` lead from `q₀` to `q`. -/
def Streaming (rep : Sockcnt) (base : List Demand) (q₀ q : Stage) (s : Proc Sockbuf κ) : Prop :=
  At (fun _ => True) rep base q₀ q s

theorem Streaming.onObj (h : Streaming rep base q₀ q s) (f : Sockbuf → Sockbuf)
    (hf : (f s.obj).rep = s.obj.rep) : Streaming rep base q₀ q (s.onObj f) :=
  ⟨trivial, hf.trans h.settings, h.left.congr rfl⟩

theorem syncCatch_streaming (e : Thrown) :
    Prog.Triple (Streaming rep base q₀ .over) (syncCatch e : SockM κ Nat) (Streaming rep base q₀ .idle) (Streaming rep base q₀ .over) := by
  cases e with
  | int wlen =>
      refine .bind (.modify fun s hs => hs.onObj _ ?_) fun _ => .bind .get fun s => .throw _
      split <;> rfl
  | err e op spec => exact .throw _
  | sockoob => exact .throw _

theorem sync_streaming : Prog.Triple (Streaming rep base q₀ .idle) (sync K) (Streaming rep base q₀ .idle) (Streaming rep base q₀ .over) := by
  refine .bind .get fun s => ?_
  cases s.obj.putArea with
  | none => exact .pure _
  | some p =>
      by_cases hflush : 0 < p.pptr ∧ p.pptr ≤ p.epptr
      · simp only [hflush, and_self, if_true]
        refine .bind (.tryCatch (fun s hs => ?_) syncCatch_streaming) fun _ =>
          .bind (.modify fun s hs => hs.onObj _ rfl) fun _ => .pure _
        rw [← writeCounted_eq]
        have hsat := (writeCounted_at (K := K) p.mem p.pptr hs).within
        rwa [Int.toNat_natCast, written, if_neg (Nat.ne_of_gt hflush.1)] at hsat
      · simp only [hflush, if_false]
        exact .pure _

theorem putGate_streaming (K : Kernel κ) (rep : Sockcnt) (base : List Demand) (q₀ : Stage) :
    PutGate K (Streaming rep base q₀ .idle) (Streaming rep base q₀ .over) where
  sync := sync_streaming
  put _ _ hs := hs.onObj _ rfl

theorem getGate_streaming (K : Kernel κ) (rep : Sockcnt) (base : List Demand) (q₀ : Stage) :
    GetGate K (Streaming rep base q₀ .idle) (Streaming rep base q₀ .over) where
  read len _ hs := (read_at len hs).within
  get _ _ hs := hs.onObj _ rfl

theorem shutdownCall_streaming (sh : Shuthow) (h : Streaming rep base q₀ .idle s) :
    (shutdownCall K sh s).Sat (fun _ => Streaming rep base q₀ .idle) fun _ => Streaming rep base q₀ .over := by
  simp only [shutdownCall, call, Sys.shutdown, Prog.bind_apply, Prog.get_apply, Outcome.andThen_ret,
    Prog.zoom_apply, h.settings]
  rcases K.shutdown s.sys.kern rep.sock sh with ⟨a, k⟩
  cases a with
  | ok u => exact h.enter rfl (.granted (.shut true) (by simp))
  | error e => exact h.enter rfl (.refused (.shut false) rfl)

theorem shutdown_streaming (sh : Shuthow) (h : Streaming rep base q₀ .idle s) :
    (shutdown K sh s).Sat (fun _ => Streaming rep base q₀ .idle) fun _ => Streaming rep base q₀ .over := by
  cases sh with
  | shut_read => exact shutdownCall_streaming .shut_read (h.onObj dropGet rfl)
  | shut_write => exact shutdownCall_streaming .shut_write (h.onObj dropPut rfl)
  | shut_readwrite =>
      refine (shutdownCall_streaming .shut_read (h.onObj dropGet rfl)).andThen (fun _ s₁ h₁ => ?_) fun _ _ h => h
      refine (shutdownCall_streaming .shut_write (h₁.onObj dropPut rfl)).andThen (fun _ s₂ h₂ => ?_) fun _ _ h => h
      exact shutdownCall_streaming .shut_readwrite h₂

end Sockbuf

end Socketpp
