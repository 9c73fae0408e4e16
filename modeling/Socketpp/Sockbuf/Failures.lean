import Socketpp.Sockbuf.Bulk

/-!
# Sockbuf — what a failure leaves

`sync` that throws leaves what it has not written where the next `sync` finds it.  Two others do not
undo what they have done before the failure.

`xsgetn` empties one area after another into its caller's buffer, and the exception does not say how
far it came.  So a failed `sgetn` leaves the input as it was exactly when it fails at its first refill,
with nothing unread before (`sgetn_failed_iff`).

`shutdown` releases an area before the system call that may fail.  So a failed `shutdown` leaves the
object as it was exactly when there was no area to release (`shutdown_failed_iff`).
-/

namespace Socketpp
open Lib

/-- The kernel of a non-blocking descriptor: a `::read` with nothing to give fails with
`EWOULDBLOCK`. -/
def Kernel.nonblocking (B : Nat) : Kernel (Peer B Unit) :=
  { Kernel.smooth B with
    read := fun k _ len =>
      match k.inbox with
      | []     => (.failed 11, k)
      | _ :: _ => k.take len }

/-- The kernel of a socket that is not connected: `::shutdown` fails with `ENOTCONN`. -/
def Kernel.unconnected (B : Nat) : Kernel (Peer B Unit) :=
  { Kernel.smooth B with shutdown := fun k _ _ => (.error 107, k) }

namespace Sockbuf

variable {κ : Type} {K : Kernel κ}

/-! ### A refill that fails -/

/-- The kernel's state behind the wait of `read`. -/
def waited (K : Kernel κ) (s : Proc Sockbuf κ) : κ :=
  if s.obj.rep.rtmo = -1 then s.sys.kern
  else (K.selectRead s.sys.kern s.obj.rep.sock s.obj.rep.rtmo).2

/-- The wait fails, or times out. -/
def WaitFails (K : Kernel κ) (s : Proc Sockbuf κ) : Prop :=
  s.obj.rep.rtmo ≠ -1 ∧
    ∀ n, (K.selectRead s.sys.kern s.obj.rep.sock s.obj.rep.rtmo).1 ≠ .ok (n + 1)

/-- The kernel's state behind the check for out-of-band data. -/
def marked (K : Kernel κ) (s : Proc Sockbuf κ) : κ :=
  if s.obj.rep.oob then (K.sockatmark (waited K s) s.obj.rep.sock).2 else waited K s

/-- The check fails, or finds the mark. -/
def MarkFails (K : Kernel κ) (s : Proc Sockbuf κ) : Prop :=
  s.obj.rep.oob = true ∧ (K.sockatmark (waited K s) s.obj.rep.sock).1 ≠ .ok false

/-- The kernel refuses a refill: the wait, the check for out-of-band data or `::read` fails. -/
def Refused (K : Kernel κ) (s : Proc Sockbuf κ) : Prop :=
  WaitFails K s ∨ MarkFails K s ∨
    ∃ e, (K.read (marked K s) s.obj.rep.sock s.obj.rep.gend).1 = .failed e

theorem awaitReadready_fails (s : Proc Sockbuf κ) :
    (awaitReadready K s).Sat
      (fun _ s₁ => s₁.obj = s.obj ∧ s₁.sys.kern = waited K s ∧ ¬ WaitFails K s)
      (fun _ _ => WaitFails K s) := by
  simp only [awaitReadready, Prog.bind_apply, Prog.get_apply, Outcome.andThen_ret, Prog.ite_apply]
  split
  · rename_i hr
    exact ⟨rfl, by rw [waited, if_pos hr], fun h => h.1 hr⟩
  · rename_i hr
    simp only [isReadready, call, Sys.selectRead, Prog.bind_apply, Prog.get_apply,
      Outcome.andThen_ret, Prog.zoom_apply]
    rcases ha : K.selectRead s.sys.kern s.obj.rep.sock s.obj.rep.rtmo with ⟨a, k⟩
    cases a with
    | ok n =>
        simp only [Sys.enterAnswer, Outcome.mapState_ret, Outcome.andThen_ret, checked,
          Prog.pure_apply, Prog.ite_apply]
        cases n with
        | zero => exact ⟨hr, fun m h => by rw [ha] at h; cases h⟩
        | succ n =>
            exact ⟨rfl, by rw [waited, if_neg hr, ha]; rfl, fun h => h.2 n (by rw [ha])⟩
    | error e => exact ⟨hr, fun m h => by rw [ha] at h; cases h⟩

theorem checkOob_fails {s s₁ : Proc Sockbuf κ} (hobj : s₁.obj = s.obj)
    (hkern : s₁.sys.kern = waited K s) :
    (checkOob K s₁).Sat
      (fun _ s₂ => s₂.obj = s.obj ∧ s₂.sys.kern = marked K s ∧ ¬ MarkFails K s)
      (fun _ _ => MarkFails K s) := by
  simp only [checkOob, Prog.bind_apply, Prog.get_apply, Outcome.andThen_ret, Prog.ite_apply, hobj]
  split
  · rename_i ho
    simp only [atmark, call, Sys.sockatmark, Prog.bind_apply, Prog.get_apply, Outcome.andThen_ret,
      Prog.zoom_apply, hobj, hkern]
    rcases ha : K.sockatmark (waited K s) s.obj.rep.sock with ⟨a, k⟩
    cases a with
    | ok m =>
        simp only [Sys.enterAnswer, Outcome.mapState_ret, Outcome.andThen_ret, checked,
          Prog.pure_apply, Prog.ite_apply]
        cases m with
        | true => exact ⟨ho, fun h => by rw [ha] at h; cases h⟩
        | false => exact ⟨rfl, by rw [marked, if_pos ho, ha]; rfl, fun h => h.2 (by rw [ha])⟩
    | error e => exact ⟨ho, fun h => by rw [ha] at h; cases h⟩
  · rename_i ho
    exact ⟨hobj, by rw [hkern, marked, if_neg ho], fun h => ho h.1⟩

/-- **A refill throws** exactly when the kernel refuses it. -/
theorem read_fails (s : Proc Sockbuf κ) :
    (read K s.obj.rep.gend s).Sat (fun _ _ => ¬ Refused K s) (fun _ _ => Refused K s) := by
  simp only [read, Prog.bind_apply]
  refine (awaitReadready_fails s).andThen ?_ fun _ _ h => .inl h
  rintro _ s₁ ⟨hobj, hkern, hwait⟩
  refine (checkOob_fails hobj hkern).andThen ?_ fun _ _ h => .inr (.inl h)
  rintro _ s₂ ⟨hobj, hkern, hmark⟩
  simp only [Prog.bind_apply, Prog.get_apply, Outcome.andThen_ret, call, Prog.zoom_apply, Sys.read,
    hobj, hkern]
  have passed : ∀ {a k}, K.read (marked K s) s.obj.rep.sock s.obj.rep.gend = (a, k) →
      (∀ e, a ≠ .failed e) → ¬ Refused K s := by
    rintro a k ha hne (h | h | ⟨e, h⟩)
    · exact hwait h
    · exact hmark h
    · rw [ha] at h
      exact hne e h
  rcases ha : K.read (marked K s) s.obj.rep.sock s.obj.rep.gend with ⟨a, k⟩
  cases a with
  | data bs pos le => exact passed ha (by simp)
  | eof => exact passed ha (by simp)
  | failed e => exact .inr (.inr ⟨e, by rw [ha]⟩)

/-- `sbumpc` throws exactly when it needs a refill and the kernel refuses it. -/
theorem sbumpc_fails (s : Proc Sockbuf κ) (hr : s.obj.Readable) :
    (sbumpc K s).Sat (fun _ _ => ¬ (s.obj.unread = [] ∧ Refused K s))
      (fun _ _ => s.obj.unread = [] ∧ Refused K s) := by
  obtain ⟨a, ha⟩ := hr
  rw [sbumpc_eq, uflow, Prog.bind_apply]
  have under : (underflow K s).Sat (fun _ _ => ¬ (s.obj.unread = [] ∧ Refused K s))
      (fun _ _ => s.obj.unread = [] ∧ Refused K s) := by
    by_cases hlt : a.gptr < a.egptr
    · rw [underflow_of_unread ha hlt]
      exact fun h => (unread_nil_iff ha).mp h.1 hlt
    · have he : s.obj.unread = [] := (unread_nil_iff ha).mpr hlt
      simp only [underflow, Prog.bind_apply, Prog.get_apply, Outcome.andThen_ret, ha, Prog.ite_apply,
        hlt, if_false]
      refine (read_fails s).andThen (fun bs s₁ h₁ => ?_) fun _ _ h => ⟨he, h⟩
      cases bs with
      | nil => exact fun h => h₁ h.2
      | cons b bs => exact fun h => h₁ h.2
  refine under.andThen (fun v s₁ h₁ => ?_) fun _ _ h => h
  rw [Prog.ite_apply]
  split
  · exact h₁
  · exact h₁

/-! ### `sgetn` -/

/-- What the gets can obtain from `s` on, where `later` is what the kernel will give. -/
def obtainable (s : Proc Sockbuf κ) (later : List Byte) : List Byte := s.obj.unread ++ later

/-- Nothing is lost between the two states: what can be obtained, counting what the kernel has given
in between and what it will give, is the same. -/
def NothingLost (s s' : Proc Sockbuf κ) : Prop :=
  ∀ given later, received s' = received s ++ given →
    obtainable s (given ++ later) = obtainable s' later

theorem nothingLost_iff {s s' : Proc Sockbuf κ} {xs : List Byte} (h : Passed s s' xs) :
    NothingLost s s' ↔ xs = [] := by
  obtain ⟨bs, hr, hu⟩ := h.bytes
  constructor
  · intro hlost
    have h₀ := hlost bs [] hr
    rw [obtainable, obtainable, List.append_nil, List.append_nil, hu] at h₀
    exact List.append_left_eq_self.mp h₀
  · rintro rfl given later hg
    obtain rfl : given = bs := List.append_cancel_left (hg.symm.trans hr)
    rw [obtainable, obtainable, ← List.append_assoc, hu, List.nil_append]

/-- What a failed `xsgetn` has copied out: nothing, exactly when its first refill was refused, with
nothing unread before. -/
theorem xsgetn_fails {t t' : Getting κ} {n : Nat} {e : Thrown} (h : xsgetn K n t = .thrown e t')
    (hr : t.proc.obj.Readable) : t'.dst = t.dst ↔ t.proc.obj.unread = [] ∧ Refused K t.proc := by
  have hb := (xsgetn_bytewise K n t).1
  cases n with
  | zero => rw [hb] at h; cases h
  | succ n =>
      have hs := sbumpc_fails (K := K) t.proc hr
      rw [h] at hb
      simp only [sbumpcs, within, Prog.bind_apply, Prog.zoom_apply] at hb
      cases hc : sbumpc K t.proc with
      | thrown e₁ s₁ =>
          rw [hc] at hb hs
          cases hb
          exact iff_of_true rfl hs
      | spin => rw [hc] at hs; exact hs.elim
      | ret v s₁ =>
          rw [hc] at hb hs
          refine iff_of_false (fun hdst => ?_) hs
          simp only [Outcome.mapState_ret, Outcome.andThen_ret, Prog.ite_apply] at hb
          split at hb
          · cases hb
          · -- the first byte is stored, and the others behind it
            simp only [Prog.bind_apply, Prog.modify_apply, Outcome.andThen_ret] at hb
            rw [← (xsgetn_bytewise K n _).1] at hb
            have hr₁ : s₁.obj.Readable := by
              rw [sbumpc_eq] at hc
              obtain ⟨_, hp, -⟩ := (uflow_sat hr).ret hc
              exact hp.readable
            have hsat := xsgetn_sat (K := K) (t := ⟨s₁, t.dst ++ [UInt8.ofInt v]⟩) hr₁ n
            cases hx : xsgetn K n ⟨s₁, t.dst ++ [UInt8.ofInt v]⟩ with
            | ret r t₂ => rw [hx] at hb; cases hb
            | spin => rw [hx] at hb; cases hb
            | thrown e₂ t₂ =>
                rw [hx] at hb hsat
                cases hb
                obtain ⟨xs, -, hcopied⟩ := hsat
                rw [hcopied.2, List.append_assoc] at hdst
                exact absurd (List.append_right_eq_self.mp hdst) (List.cons_ne_nil _ xs)

/-- **A failed `sgetn`** has lost no input exactly when nothing was unread and the kernel refused the
first refill. -/
theorem sgetn_failed_iff {t t' : Getting κ} {n : Nat} {e : Thrown} (h : xsgetn K n t = .thrown e t') :
    NothingLost t.proc t'.proc ↔ t.proc.obj.unread = [] ∧ Refused K t.proc := by
  cases ha : t.proc.obj.getArea with
  | none =>
      have hbare := GetOp.exec_bare (K := K) (.sgetn n) ha
      rw [GetOp.exec, Prog.map_apply, h] at hbare
      exact hbare.elim
  | some a =>
      have hsat := xsgetn_sat (K := K) (t := t) ⟨a, ha⟩ n
      rw [h] at hsat
      obtain ⟨xs, -, hp, hdst⟩ := hsat
      rw [nothingLost_iff hp, ← xsgetn_fails h ⟨a, ha⟩, hdst, List.append_right_eq_self]

/-- The first bytes are there, a refill finds no more: the two bytes are gone with the exception. -/
theorem sgetn_loses :
    ∃ t', xsgetn (Kernel.nonblocking 1024) 3
        ⟨⟨ofDesc 1024 3 (fun _ => 0) (fun _ => 0), ⟨⟨[⟨[104, 105], by decide⟩], ()⟩, 0, []⟩⟩, []⟩ =
          .thrown (.err 11 "sockbuf::read" "") t' ∧
      received t'.proc = [104, 105] ∧ t'.proc.obj.unread = [] :=
  ⟨_, rfl, rfl, rfl⟩

/-- A refill refused at once. -/
theorem sgetn_failed_iff_at_once :
    ∃ e t', xsgetn (Kernel.nonblocking 1024) 3
        ⟨⟨ofDesc 1024 3 (fun _ => 0) (fun _ => 0), ⟨⟨[], ()⟩, 0, []⟩⟩, []⟩ = .thrown e t' ∧
      (NothingLost ⟨ofDesc 1024 3 (fun _ => 0) (fun _ => 0), ⟨⟨[], ()⟩, 0, []⟩⟩ t'.proc ↔
        (ofDesc 1024 3 (fun _ => 0) fun _ => 0).unread = [] ∧ Refused (Kernel.nonblocking 1024)
          ⟨ofDesc 1024 3 (fun _ => 0) (fun _ => 0), ⟨⟨[], ()⟩, 0, []⟩⟩) := by
  obtain ⟨e, t', h⟩ : ∃ e t', xsgetn (Kernel.nonblocking 1024) 3
      ⟨⟨ofDesc 1024 3 (fun _ => 0) (fun _ => 0), ⟨⟨[], ()⟩, 0, []⟩⟩, []⟩ = .thrown e t' := ⟨_, _, rfl⟩
  exact ⟨e, t', h, sgetn_failed_iff h⟩

/-! ### `shutdown` -/

/-- There is no area to release before the call that fails: not the one of the direction, or, for both
directions, not the get area and, unless the first `::shutdown` fails, not the put area. -/
def NoneToRelease (K : Kernel κ) (s : Proc Sockbuf κ) : Shuthow → Prop
  | .shut_read      => s.obj.getArea = none
  | .shut_write     => s.obj.putArea = none
  | .shut_readwrite => s.obj.getArea = none ∧
      ((∃ e, (K.shutdown s.sys.kern s.obj.rep.sock .shut_read).1 = .error e) ∨ s.obj.putArea = none)

theorem dropGet_eq_iff (b : Sockbuf) : b.dropGet = b ↔ b.getArea = none := by
  constructor
  · intro h
    rw [← h]
    rfl
  · intro h
    rw [dropGet, ← h]

theorem dropPut_eq_iff (b : Sockbuf) : b.dropPut = b ↔ b.putArea = none := by
  constructor
  · intro h
    rw [← h]
    rfl
  · intro h
    rw [dropPut, ← h]

theorem dropBoth_eq_iff (b : Sockbuf) : b.dropGet.dropPut = b ↔ b.getArea = none ∧ b.putArea = none := by
  constructor
  · intro h
    rw [← h]
    exact ⟨rfl, rfl⟩
  · rintro ⟨hg, hp⟩
    rw [(dropGet_eq_iff b).mpr hg, (dropPut_eq_iff b).mpr hp]

/-- **A failed `shutdown`** has left the object as it was exactly when there was nothing to release
before the call that failed. -/
theorem shutdown_failed_iff {s s' : Proc Sockbuf κ} {sh : Shuthow} {e : Thrown}
    (h : shutdown K sh s = .thrown e s') : s'.obj = s.obj ↔ NoneToRelease K s sh := by
  suffices hs : (shutdown K sh s).Sat (fun _ _ => True)
      (fun _ s' => s'.obj = s.obj ↔ NoneToRelease K s sh) by
    rwa [h] at hs
  cases sh with
  | shut_read =>
      refine (shutdownCall_spec (K := K) .shut_read (s.onObj dropGet)).mono (fun _ _ _ => trivial) ?_
      rintro e s' ⟨hcalled, -⟩
      rw [hcalled.obj]
      exact dropGet_eq_iff s.obj
  | shut_write =>
      refine (shutdownCall_spec (K := K) .shut_write (s.onObj dropPut)).mono (fun _ _ _ => trivial) ?_
      rintro e s' ⟨hcalled, -⟩
      rw [hcalled.obj]
      exact dropPut_eq_iff s.obj
  | shut_readwrite =>
      refine (shutdownCall_spec (K := K) .shut_read (s.onObj dropGet)).andThen ?_ ?_
      · rintro _ s₁ ⟨hcalled₁, hfirst⟩
        have hboth : ∀ s' : Proc Sockbuf κ, s'.obj = (s₁.onObj dropPut).obj →
            (s'.obj = s.obj ↔ NoneToRelease K s .shut_readwrite) := by
          intro s' hs'
          have hdropped : s'.obj = s.obj.dropGet.dropPut := by
            rw [hs']
            show s₁.obj.dropPut = _
            rw [hcalled₁.obj]
            rfl
          rw [hdropped, dropBoth_eq_iff]
          exact and_congr_right fun _ => (or_iff_right hfirst).symm
        refine (shutdownCall_spec (K := K) .shut_write (s₁.onObj dropPut)).andThen ?_ ?_
        · rintro _ s₂ ⟨hcalled₂, -⟩
          refine (shutdownCall_spec (K := K) .shut_readwrite s₂).mono (fun _ _ _ => trivial) ?_
          rintro e s' ⟨hcalled, -⟩
          exact hboth s' (hcalled.obj.trans hcalled₂.obj)
        · rintro e s' ⟨hcalled, -⟩
          exact hboth s' hcalled.obj
      · rintro e s' ⟨hcalled, hfirst⟩
        rw [hcalled.obj]
        exact (dropGet_eq_iff s.obj).trans (and_iff_left (.inl hfirst)).symm

/-- The write side of a fresh socket that is not connected. -/
theorem shutdown_failed_iff_unconnected :
    ∃ e s', shutdown (Kernel.unconnected 1024) .shut_write
        ⟨ofDesc 1024 3 (fun _ => 0) (fun _ => 0), ⟨⟨[], ()⟩, 0, []⟩⟩ = .thrown e s' ∧
      (s'.obj = ofDesc 1024 3 (fun _ => 0) (fun _ => 0) ↔ NoneToRelease (Kernel.unconnected 1024)
        ⟨ofDesc 1024 3 (fun _ => 0) (fun _ => 0), ⟨⟨[], ()⟩, 0, []⟩⟩ .shut_write) := by
  obtain ⟨e, s', h⟩ : ∃ e s', shutdown (Kernel.unconnected 1024) .shut_write
      ⟨ofDesc 1024 3 (fun _ => 0) (fun _ => 0), ⟨⟨[], ()⟩, 0, []⟩⟩ = .thrown e s' := ⟨_, _, rfl⟩
  exact ⟨e, s', h, shutdown_failed_iff h⟩

/-- A pending byte goes with the area, though `::shutdown` has failed. -/
theorem shutdown_fails_losing :
    ∃ s s', sputc (Kernel.unconnected 1024) 97
        ⟨ofDesc 1024 3 (fun _ => 0) (fun _ => 0), ⟨⟨[], ()⟩, 0, []⟩⟩ = .ret 97 s ∧
      shutdown (Kernel.unconnected 1024) .shut_write s = .thrown (.err 107 "sockbuf::shutdown" "") s' ∧
      s.obj.pending = [97] ∧ s.obj.putArea.isSome = true ∧ s'.obj.putArea = none ∧ sent s' = [] :=
  ⟨_, _, rfl, rfl, rfl, rfl, rfl, rfl⟩

end Sockbuf

end Socketpp
