import Socketpp.Sig.Registry

/-!
# Sig — masks

The signals blocked while the handlers of a signal run are those in the `sa_mask` stored with `sighandler`
(`blocked`; none, where `sighandler` is not installed).  Where no system call fails they follow the history
of operations: `mask` adds one, unless it is SIGKILL or SIGSTOP, `unmask` removes one, `unbind` removes all,
and the other operations leave them alone (`exec_masks`).  So they are those masked behind the last `unbind`
and not unmasked since, without SIGKILL and SIGSTOP (`masks_history`).
-/

namespace Socketpp
open Lib

namespace Sig

variable {η κ : Type} {P : Platform} {E : Env κ} {s s' : Sig η κ} {a b : Int}

/-! ### Histories -/

/-- The operation ends the blocking of `b` in the handlers of `a`. -/
def Op.Unblocks (a b : Int) (op : Op η) : Prop := op = .unbind a ∨ op = .unmask a b

/-- A `mask` of `b` in `a` has occurred behind the last operation that ends it. -/
def Masked (ops : List (Op η)) (a b : Int) : Prop :=
  ∃ pre post, ops = pre ++ .mask a b :: post ∧ ∀ op ∈ post, ¬ op.Unblocks a b

theorem masked_concat {ops : List (Op η)} {op : Op η} :
    Masked (ops ++ [op]) a b ↔ op = .mask a b ∨ Masked ops a b ∧ ¬ op.Unblocks a b := by
  constructor
  · rintro ⟨pre, post, heq, hpost⟩
    rcases concat_eq_iff.mp heq with ⟨-, -, hop⟩ | ⟨post', rfl, hops⟩
    · exact .inl hop
    · rw [List.forall_mem_append] at hpost
      exact .inr ⟨⟨pre, post', hops, hpost.1⟩, hpost.2 op List.mem_cons_self⟩
  · rintro (rfl | ⟨⟨pre, post, rfl, hpost⟩, hop⟩)
    · exact ⟨ops, [], rfl, nofun⟩
    · refine ⟨pre, post ++ [op], by simp, List.forall_mem_append.mpr ⟨hpost, ?_⟩⟩
      simpa using hop

/-- What an operation does to the blocked signals. -/
def Op.block (m : Int → Sigset) : Op η → Int → Sigset
  | .unbind signo     => Function.update m signo fun _ => false
  | .mask siga sigb   => Function.update m siga (Function.update (m siga) sigb (blockable sigb))
  | .unmask siga sigb => Function.update m siga (Function.update (m siga) sigb false)
  | _                 => m

theorem block_iff (op : Op η) (m : Int → Sigset) (hb : blockable b = true) :
    op.block m a b = true ↔ op = .mask a b ∨ m a b = true ∧ ¬ op.Unblocks a b := by
  cases op with
  | unbind signo =>
      rcases eq_or_ne a signo with rfl | ha
      · simp [Op.block, Op.Unblocks]
      · simp [Op.block, Op.Unblocks, ha, ha.symm]
  | mask siga sigb =>
      rcases eq_or_ne a siga with rfl | ha
      · rcases eq_or_ne b sigb with rfl | hne
        · simp [Op.block, hb]
        · simp [Op.block, Op.Unblocks, hne, hne.symm]
      · simp [Op.block, Op.Unblocks, ha, ha.symm]
  | unmask siga sigb =>
      rcases eq_or_ne a siga with rfl | ha
      · rcases eq_or_ne b sigb with rfl | hne
        · simp [Op.block, Op.Unblocks]
        · simp [Op.block, Op.Unblocks, hne, hne.symm]
      · simp [Op.block, Op.Unblocks, ha, ha.symm]
  | _ => simp [Op.block, Op.Unblocks]

/-- Only signals that can be blocked are. -/
def Blockable (m : Int → Sigset) : Prop := ∀ a b, m a b = true → blockable b = true

/-- No operation blocks a signal that cannot be blocked. -/
theorem Blockable.block {m : Int → Sigset} (h : Blockable m) (op : Op η) : Blockable (op.block m) := by
  have update : ∀ {signo : Int} {x : Sigset}, (∀ b, x b = true → blockable b = true) →
      Blockable (Function.update m signo x) := by
    intro signo x hx a b hab
    rcases eq_or_ne a signo with rfl | ha
    · rw [Function.update_self] at hab
      exact hx b hab
    · rw [Function.update_of_ne ha] at hab
      exact h a b hab
  have member : ∀ {signo sigb : Int} {v : Bool}, (v = true → blockable sigb = true) →
      ∀ b, Function.update (m signo) sigb v b = true → blockable b = true := by
    intro signo sigb v hv b hb
    rcases eq_or_ne b sigb with rfl | hne
    · rw [Function.update_self] at hb
      exact hv hb
    · rw [Function.update_of_ne hne] at hb
      exact h signo b hb
  cases op with
  | unbind signo => exact update fun _ hb => absurd hb Bool.false_ne_true
  | mask siga sigb => exact update (member id)
  | unmask siga sigb => exact update (member fun hv => absurd hv Bool.false_ne_true)
  | _ => exact h

theorem Blockable.blocks {m : Int → Sigset} (h : Blockable m) (ops : List (Op η)) :
    Blockable (ops.foldl Op.block m) := by
  induction ops generalizing m with
  | nil => exact h
  | cons op ops ih => exact ih (h.block op)

theorem blockable_none : Blockable fun _ _ => false := fun _ _ h => absurd h Bool.false_ne_true

/-- **The replay of the masks.** -/
theorem masked_iff (ops : List (Op η)) :
    ops.foldl Op.block (fun _ _ => false) a b = true ↔ Masked ops a b ∧ blockable b = true := by
  by_cases hb : blockable b = true
  · rw [and_iff_left hb]
    induction ops using List.reverseRecOn with
    | nil => simp [Masked]
    | append_singleton ops op ih =>
        rw [List.foldl_append, masked_concat, ← ih]
        exact block_iff op _ hb
  · exact iff_of_false (fun h => hb (blockable_none.blocks ops a b h)) fun h => hb h.2

/-! ### Operations -/

/-- The signals blocked while the handlers of `signo` run. -/
def blocked (s : Sig η κ) (signo : Int) : Sigset :=
  if (s.action signo).sa_handler = .sighandler then (s.action signo).sa_mask else fun _ => false

/-- The action that `mask`, `unmask` and `sysresume` start from. -/
def own (s : Sig η κ) (signo : Int) : Sigaction :=
  if (s.action signo).sa_handler = .sighandler then s.action signo else Sigaction.plain .sighandler

theorem own_handler (s : Sig η κ) (signo : Int) : (s.own signo).sa_handler = .sighandler := by
  rw [own]
  split
  · assumption
  · rfl

theorem own_mask (s : Sig η κ) (signo : Int) : (s.own signo).sa_mask = s.blocked signo := by
  rw [own, blocked]
  split <;> rfl

/-- The signals blocked in the handlers of `signo` are now those of `m`, and no other action has
changed. -/
structure Sets (signo : Int) (m : Sigset) (s s' : Sig η κ) : Prop where
  blocked : s'.blocked = Function.update s.blocked signo m
  other   : ∀ t, t ≠ signo → s'.action t = s.action t

/-- `sighandler` stays where it is. -/
def Stays (s s' : Sig η κ) : Prop := ∀ t, s.Installed t → s'.Installed t

theorem blocked_update {signo : Int} (sa : Sigaction)
    (h : s'.action = Function.update s.action signo sa) :
    Sets signo (if sa.sa_handler = .sighandler then sa.sa_mask else fun _ => false) s s' := by
  refine ⟨?_, fun t ht => by rw [h, Function.update_of_ne ht]⟩
  funext t
  rw [blocked, h]
  rcases eq_or_ne t signo with rfl | ht
  · rw [Function.update_self, Function.update_self]
  · rw [Function.update_of_ne ht, Function.update_of_ne ht]
    rfl

/-- An action of ours is stored. -/
theorem sets_of_ours {signo : Int} {sa : Sigaction}
    (h : s'.action = Function.update s.action signo sa) (hsa : sa.sa_handler = .sighandler) :
    Sets signo sa.sa_mask s s' ∧ Stays s s' := by
  have hsets := blocked_update sa h
  rw [if_pos hsa] at hsets
  refine ⟨hsets, fun t ht => ?_⟩
  rw [Installed, h]
  rcases eq_or_ne t signo with rfl | hne
  · rw [Function.update_self]
    exact hsa
  · rw [Function.update_of_ne hne]
    exact ht

theorem stored_eq {sa : Sigaction} {m : Sigset} (h : sa.sa_mask = m) :
    sa.stored.sa_mask = fun b => m b && blockable b := h ▸ rfl

/-- The kernel stores no signal that cannot be blocked. -/
theorem stored_mask {m : Int → Sigset} (h : Blockable m) {signo : Int} {sa : Sigaction}
    (hsa : sa.sa_mask = m signo) : sa.stored.sa_mask = m signo := by
  rw [stored_eq hsa]
  funext b
  cases hb : m signo b with
  | false => rfl
  | true => exact h signo b hb

theorem stored_update {m : Int → Sigset} (h : Blockable m) (signo sigb : Int) (v : Bool) :
    (fun b => Function.update (m signo) sigb v b && blockable b) =
      Function.update (m signo) sigb (v && blockable sigb) := by
  funext b
  rcases eq_or_ne b sigb with rfl | hb
  · rw [Function.update_self, Function.update_self]
  · rw [Function.update_of_ne hb, Function.update_of_ne hb]
    cases hm : m signo b with
    | false => rfl
    | true => exact h signo b hm

section Succeeds

variable (hE : E.Succeeds)
include hE

theorem syscall_ret (op spec : String) (s : Sig η κ) :
    ∃ k, syscall E op spec s = .ret () { s with sys := k } := by
  rw [syscall]
  rcases h : E s.sys with ⟨_ | e, k⟩
  · exact ⟨k, rfl⟩
  · have := hE s.sys
    rw [h] at this
    cases this

theorem getAction_ret (signo : Int) (op : String) (s : Sig η κ) :
    ∃ k, getAction E signo op s = .ret (s.action signo) { s with sys := k } := by
  obtain ⟨k, hk⟩ := syscall_ret hE op "" s
  refine ⟨k, ?_⟩
  rw [getAction, Prog.bind_apply, hk]
  rfl

theorem setAction_ret (signo : Int) (sa : Sigaction) (op spec : String) (s : Sig η κ) :
    ∃ k, setAction E signo sa op spec s =
      .ret () { s with sys := k, action := Function.update s.action signo sa.stored } := by
  obtain ⟨k, hk⟩ := syscall_ret hE op spec s
  refine ⟨k, ?_⟩
  rw [setAction, Prog.bind_apply, hk]
  rfl

/-- **The installation** in `set`. -/
theorem install_ret (hP : P.haveSigaction = true) (signo : Int) (s : Sig η κ) :
    ∃ s', install P E signo s = .ret () s' ∧
      s'.action = Function.update s.action signo (s.own signo) := by
  obtain ⟨k, hk⟩ := getAction_ret hE signo "sig::set" s
  simp only [install, hP, if_true, Prog.bind_apply, hk, Outcome.andThen_ret, Prog.ite_apply]
  by_cases hours : (s.action signo).sa_handler = .sighandler
  · refine ⟨_, if_neg (not_not_intro hours), ?_⟩
    rw [own, if_pos hours, Function.update_eq_self]
  · rw [if_pos hours]
    obtain ⟨k₁, hk₁⟩ := syscall_ret hE "sig::set" "sigemptyset() call failed" { s with sys := k }
    rw [hk₁, Outcome.andThen_ret]
    obtain ⟨k₂, hk₂⟩ := setAction_ret hE signo (.plain .sighandler) "sig::set" "sigaction() call failed"
      { s with sys := k₁ }
    refine ⟨_, hk₂, ?_⟩
    rw [own, if_neg hours]
    rfl

/-- A disposition that is not ours has been replaced. -/
theorem takeOver_ret (op : String) (signo : Int) (s : Sig η κ) :
    ∃ k, takeOver E op (s.action signo) (return s.action signo) s =
      .ret (s.own signo) { s with sys := k } := by
  rw [takeOver, own, Prog.ite_apply]
  by_cases hours : (s.action signo).sa_handler = .sighandler
  · rw [if_neg (not_not_intro hours), if_pos hours]
    exact ⟨s.sys, rfl⟩
  · rw [if_pos hours, if_neg hours]
    obtain ⟨k, hk⟩ := syscall_ret hE op "" s
    refine ⟨k, ?_⟩
    rw [Prog.bind_apply, hk]
    rfl

/-- The start of `mask`, `unmask` and `sysresume`. -/
theorem begin_ret {α : Type} (op : String) (signo : Int) (f : Sigaction → SigM η κ α) (s : Sig η κ) :
    ∃ k, (getAction E signo op >>= fun sa => takeOver E op sa (return sa) >>= f) s =
      f (s.own signo) { s with sys := k } := by
  obtain ⟨k, hk⟩ := getAction_ret hE signo op s
  obtain ⟨k₁, hk₁⟩ := takeOver_ret hE op signo { s with sys := k }
  refine ⟨k₁, ?_⟩
  rw [Prog.bind_apply, hk, Outcome.andThen_ret, Prog.bind_apply]
  rw [show takeOver E op (s.action signo) (return s.action signo) { s with sys := k } = _ from hk₁]
  rfl

theorem mask_ret (siga sigb : Int) (s : Sig η κ) :
    ∃ s', mask E siga sigb s = .ret () s' ∧ s'.action = Function.update s.action siga
      (Sigaction.stored { s.own siga with sa_mask := Function.update (s.own siga).sa_mask sigb true }) := by
  obtain ⟨k, hk⟩ := begin_ret hE "sig::mask" siga (fun sa => syscall E "sig::mask" "" >>= fun _ =>
    setAction E siga { sa with sa_mask := Function.update sa.sa_mask sigb true } "sig::mask" "") s
  obtain ⟨k₁, hk₁⟩ := syscall_ret hE "sig::mask" "" { s with sys := k }
  obtain ⟨k₂, hk₂⟩ := setAction_ret hE siga
    { s.own siga with sa_mask := Function.update (s.own siga).sa_mask sigb true } "sig::mask" ""
    { s with sys := k₁ }
  exact ⟨_, hk.trans ((Prog.bind_of_ret hk₁).trans hk₂), rfl⟩

/-- Where `sighandler` is not installed, there is nothing to remove. -/
theorem unmask_takeOver (siga sigb : Int) (s : Sig η κ) :
    ∃ sa k, takeOver E "sig::unmask" (s.action siga) (do
        syscall E "sig::unmask" ""
        return { s.action siga with sa_mask := Function.update (s.action siga).sa_mask sigb false }) s =
          .ret sa { s with sys := k } ∧
      sa.sa_handler = .sighandler ∧ sa.sa_mask = Function.update (s.blocked siga) sigb false := by
  obtain ⟨k, hk⟩ := syscall_ret hE "sig::unmask" "" s
  rw [takeOver, blocked, Prog.ite_apply]
  by_cases hours : (s.action siga).sa_handler = .sighandler
  · rw [if_neg (not_not_intro hours), if_pos hours]
    exact ⟨_, k, Prog.bind_of_ret hk, hours, rfl⟩
  · rw [if_pos hours, if_neg hours]
    refine ⟨_, k, Prog.bind_of_ret hk, rfl, ?_⟩
    exact (Function.update_eq_self sigb fun _ => false).symm

theorem unmask_ret (siga sigb : Int) (s : Sig η κ) :
    ∃ s', ∃ sa : Sigaction, unmask E siga sigb s = .ret () s' ∧
      s'.action = Function.update s.action siga sa.stored ∧
      sa.sa_handler = .sighandler ∧ sa.sa_mask = Function.update (s.blocked siga) sigb false := by
  obtain ⟨k, hk⟩ := getAction_ret hE siga "sig::unmask" s
  obtain ⟨sa, k₁, htake, hsa⟩ := unmask_takeOver hE siga sigb { s with sys := k }
  obtain ⟨k₂, hk₂⟩ := setAction_ret hE siga sa "sig::unmask" "" { s with sys := k₁ }
  exact ⟨_, sa, (Prog.bind_of_ret hk).trans ((Prog.bind_of_ret htake).trans hk₂), rfl, hsa⟩

/-- Where there is no `SA_INTERRUPT`, nothing is stored. -/
theorem sysresume_ret (signo : Int) (set : Bool) (s : Sig η κ) :
    ∃ s', sysresume P E signo set s = .ret () s' ∧ (s'.action = s.action ∨
      ∃ flags, s'.action = Function.update s.action signo
        (Sigaction.stored { s.own signo with sa_flags := flags })) := by
  cases hflag : P.saInterrupt with
  | none =>
      obtain ⟨k, hk⟩ := begin_ret hE "sig::sysresume" signo (fun _ => return ()) s
      rw [sysresume, hflag]
      exact ⟨_, hk, .inl rfl⟩
  | some flag =>
      let flags (sa : Sigaction) : BitVec 32 :=
        if set = false then sa.sa_flags ||| flag else sa.sa_flags &&& ~~~flag
      obtain ⟨k, hk⟩ := begin_ret hE "sig::sysresume" signo (fun sa =>
        setAction E signo { sa with sa_flags := flags sa } "sig::sysresume" "") s
      obtain ⟨k₂, hk₂⟩ := setAction_ret hE signo { s.own signo with sa_flags := flags (s.own signo) }
        "sig::sysresume" "" { s with sys := k }
      rw [sysresume, hflag]
      exact ⟨_, hk.trans hk₂, .inr ⟨flags (s.own signo), rfl⟩⟩

/-- **`unbind`** takes `sighandler` away, with its mask. -/
theorem unbind_ret (hP : P.haveSigaction = true) (signo : Int) (s : Sig η κ) :
    ∃ s', unbind P E signo s = .ret () s' ∧ Sets signo (fun _ => false) s s' := by
  obtain ⟨k, hk⟩ := getAction_ret hE signo "sig::unbind" (s.onList signo StdList.clear)
  simp only [unbind, hP, if_true, Prog.bind_apply, Prog.modify_apply, Outcome.andThen_ret, hk,
    Prog.ite_apply]
  by_cases hours : (s.action signo).sa_handler = .sighandler
  · obtain ⟨k₁, hk₁⟩ := syscall_ret hE "sig::unbind" "" { s.onList signo StdList.clear with sys := k }
    obtain ⟨k₂, hk₂⟩ := setAction_ret hE signo (.plain .sig_dfl) "sig::unbind" ""
      { s.onList signo StdList.clear with sys := k₁ }
    refine ⟨_, (if_pos hours).trans ((Prog.bind_of_ret hk₁).trans hk₂), ?_⟩
    exact blocked_update (.plain .sig_dfl) rfl
  · refine ⟨_, if_neg hours, ?_, fun _ _ => rfl⟩
    have hempty : s.blocked signo = fun _ => false := by rw [blocked, if_neg hours]
    rw [← hempty, Function.update_eq_self]
    rfl

/-! ### Runs -/

variable [DecidableEq η]

/-- The signal whose action an operation may change. -/
def Op.signal : Op η → Option Int
  | .set signo _ | .unbind signo | .construct _ signo | .sysresume signo _ => some signo
  | .mask siga _ | .unmask siga _ => some siga
  | .unset _ _ | .destroy _ => none

/-- The operations that are not about masks. -/
def Op.KeepsMasks : Op η → Prop
  | .unbind _ | .mask _ _ | .unmask _ _ => False
  | _ => True

/-- What an operation does to the actions. -/
structure Masks (op : Op η) (s s' : Sig η κ) : Prop where
  blocked : s'.blocked = op.block s.blocked
  other   : ∀ t, op.signal ≠ some t → s'.action t = s.action t
  stays   : op.KeepsMasks → Stays s s'

omit hE [DecidableEq η] in
theorem block_keeps {op : Op η} (h : op.KeepsMasks) (m : Int → Sigset) : op.block m = m := by
  cases op with
  | unbind | mask | unmask => exact h.elim
  | _ => rfl

omit hE [DecidableEq η] in
/-- An operation that stores nothing. -/
theorem Masks.same {op : Op η} (h : op.KeepsMasks) (ha : s'.action = s.action) : Masks op s s' := by
  refine ⟨?_, fun t _ => by rw [ha], fun _ t ht => by rw [Installed, ha]; exact ht⟩
  rw [block_keeps h]
  funext t
  rw [Sig.blocked, Sig.blocked, ha]

omit hE [DecidableEq η] in
/-- An operation that stores an action of ours. -/
theorem Masks.ours {op : Op η} {signo : Int} {sa : Sigaction} (hsig : op.signal = some signo)
    (ha : s'.action = Function.update s.action signo sa) (hsa : sa.sa_handler = .sighandler)
    (hm : Function.update s.blocked signo sa.sa_mask = op.block s.blocked) : Masks op s s' := by
  obtain ⟨hsets, hstays⟩ := sets_of_ours ha hsa
  refine ⟨hsets.blocked.trans hm, fun t ht => hsets.other t fun hne => ht ?_, fun _ => hstays⟩
  rw [hsig, hne]

theorem set_ret (hP : P.haveSigaction = true) (signo : Int) (handler : Option η) (s : Sig η κ) :
    ∃ b s', set P E signo handler s = .ret b s' ∧ (s'.action = s.action ∨
      s'.action = Function.update s.action signo (s.own signo)) := by
  cases handler with
  | none => exact ⟨false, s, rfl, .inl rfl⟩
  | some h =>
      simp only [set, Prog.bind_apply, Prog.get_apply, Outcome.andThen_ret, Prog.ite_apply]
      by_cases hempty : (s.smap signo).cells.isEmpty
      · obtain ⟨s₁, hinst, ha⟩ := install_ret hE hP signo s
        rw [if_pos hempty, hinst]
        exact ⟨true, _, rfl, .inr ha⟩
      · rw [if_neg hempty]
        cases (s.smap signo).find h with
        | none => exact ⟨true, _, rfl, .inl rfl⟩
        | some c => exact ⟨false, _, rfl, .inl rfl⟩

omit hE in
theorem unset_action (signo : Int) (handler : Option η) (s : Sig η κ) :
    ∃ b s', unset signo handler s = .ret b s' ∧ s'.action = s.action := by
  cases handler with
  | none => exact ⟨false, s, rfl, rfl⟩
  | some h =>
      simp only [unset, Prog.bind_apply, Prog.get_apply, Outcome.andThen_ret]
      cases (s.smap signo).find h with
      | none => exact ⟨false, _, rfl, rfl⟩
      | some c => exact ⟨true, _, rfl, rfl⟩

/-- **One operation** and the masks. -/
theorem exec_masks (hP : P.haveSigaction = true) (op : Op η) (s : Sig η κ) (hs : Blockable s.blocked) :
    ∃ s', op.exec P E s = .ret () s' ∧ Masks op s s' := by
  have same : ∀ signo, Function.update s.blocked signo (s.blocked signo) = s.blocked :=
    fun signo => Function.update_eq_self signo s.blocked
  have own : ∀ {op : Op η} {signo} {s' : Sig η κ}, op.KeepsMasks → op.signal = some signo →
      s'.action = Function.update s.action signo (s.own signo) → Masks op s s' :=
    fun hop hsig ha => Masks.ours hsig ha (own_handler s _) (by rw [own_mask, same, block_keeps hop])
  -- a disposition that stays, its flags apart, keeps its mask
  cases op with
  | set signo handler =>
      obtain ⟨b, s', hret, ha⟩ := set_ret hE hP signo handler s
      refine ⟨s', Prog.bind_of_ret hret, ?_⟩
      rcases ha with ha | ha
      · exact .same trivial ha
      · exact own trivial rfl ha
  | unset signo handler =>
      obtain ⟨b, s', hret, ha⟩ := unset_action signo handler s
      exact ⟨s', Prog.bind_of_ret hret, .same trivial ha⟩
  | unbind signo =>
      obtain ⟨s', hret, hsets⟩ := unbind_ret hE hP signo s
      refine ⟨s', hret, hsets.blocked, fun t ht => hsets.other t fun hne => ht ?_, False.elim⟩
      rw [Op.signal, hne]
  | construct h signo =>
      obtain ⟨b, s₁, hret, ha⟩ := set_ret hE hP signo (some h) s
      refine ⟨_, Prog.bind_of_ret hret, ?_⟩
      rcases ha with ha | ha
      · exact .same trivial ha
      · exact own trivial rfl ha
  | destroy h =>
      cases hobj : s.object h with
      | none => exact ⟨s, by simp [Op.exec, destroy, hobj], .same trivial rfl⟩
      | some signo =>
          obtain ⟨b, s₁, hret, ha⟩ := unset_action signo (some h) s
          refine ⟨{ s₁ with object := Function.update s₁.object h none }, ?_, .same trivial ha⟩
          simp [Op.exec, destroy, hobj, hret]
  | mask siga sigb =>
      obtain ⟨s', hret, ha⟩ := mask_ret hE siga sigb s
      refine ⟨s', hret, .ours rfl ha (own_handler s siga) (congrArg _ ?_)⟩
      rw [own_mask]
      exact (stored_eq rfl).trans (stored_update hs siga sigb true)
  | unmask siga sigb =>
      obtain ⟨s', sa, hret, ha, hsa, hm⟩ := unmask_ret hE siga sigb s
      refine ⟨s', hret, .ours rfl ha hsa (congrArg _ ?_)⟩
      exact (stored_eq hm).trans (stored_update hs siga sigb false)
  | sysresume signo on =>
      obtain ⟨s', hret, ha⟩ := sysresume_ret hE signo on s
      refine ⟨s', hret, ?_⟩
      rcases ha with ha | ⟨flags, ha⟩
      · exact .same trivial ha
      · refine .ours rfl ha (own_handler s signo) ?_
        exact (congrArg _ (stored_mask hs (own_mask s signo))).trans (same signo)

/-- **A run** of operations and the masks. -/
theorem runOps_blocked (hP : P.haveSigaction = true) (ops : List (Op η)) (s : Sig η κ)
    (hs : Blockable s.blocked) : (runOps P E ops s).blocked = ops.foldl Op.block s.blocked := by
  induction ops generalizing s with
  | nil => rfl
  | cons op ops ih =>
      obtain ⟨s', hret, hm⟩ := exec_masks hE hP op s hs
      rw [runOps, hret, List.foldl_cons, ← hm.blocked]
      exact ih s' (hm.blocked ▸ hs.block op)

/-- **Nested masks.**  With `HAVE_SIGACTION`, every system call succeeding, and `sighandler` installed for
no signal at first: where it is installed after a run of operations, the mask stored with it holds the
signals other than SIGKILL and SIGSTOP that have been masked behind the last `unbind` and not unmasked since.
An operation changes no action of another signal, and `set`, `unset` and `sysresume` neither add a member nor
drop one. -/
theorem masks_history (hP : P.haveSigaction = true) (hnone : ∀ signo, ¬ s.Installed signo)
    (ops : List (Op η)) :
    (∀ a, (runOps P E ops s).Installed a → ∀ b,
      ((runOps P E ops s).action a).sa_mask b = true ↔ Masked ops a b ∧ b ≠ SIGKILL ∧ b ≠ SIGSTOP) ∧
    ∀ op : Op η, ∃ s', op.exec P E (runOps P E ops s) = .ret () s' ∧
      (∀ t, op.signal ≠ some t → s'.action t = (runOps P E ops s).action t) ∧
      (op.KeepsMasks → ∀ a, (runOps P E ops s).Installed a →
        s'.Installed a ∧ (s'.action a).sa_mask = ((runOps P E ops s).action a).sa_mask) := by
  have blocked_of : ∀ {s : Sig η κ} {a}, s.Installed a → s.blocked a = (s.action a).sa_mask :=
    fun ha => if_pos ha
  have hempty : s.blocked = fun _ _ => false := funext fun a => if_neg (hnone a)
  have hs : Blockable s.blocked := hempty ▸ blockable_none
  have hrun := runOps_blocked hE hP ops s hs
  refine ⟨fun a ha b => ?_, fun op => ?_⟩
  · rw [← blocked_of ha, hrun, hempty, masked_iff, blockable, Bool.and_eq_true, decide_eq_true_eq,
      decide_eq_true_eq]
  · obtain ⟨s', hret, hm⟩ := exec_masks hE hP op (runOps P E ops s) (hrun ▸ hs.blocks ops)
    refine ⟨s', hret, hm.other, fun hop a ha => ⟨hm.stays hop a ha, ?_⟩⟩
    rw [← blocked_of (hm.stays hop a ha), ← blocked_of ha, hm.blocked, block_keeps hop]

end Succeeds

/-- `mask (2, 9)` succeeds, and SIGKILL is not blocked. -/
theorem mask_sigkill : ¬ ((runOps posix obliging [.set 2 (some 7), .mask 2 9] (blank Nat)).Installed 2 →
    ∀ b, ((runOps posix obliging [.set 2 (some 7), .mask 2 9] (blank Nat)).action 2).sa_mask b = true ↔
      Masked [.set 2 (some 7), .mask 2 (9 : Int)] 2 b) := by
  intro h
  have hinstalled : (runOps posix obliging [.set 2 (some 7), .mask 2 9] (blank Nat)).Installed 2 := by
    unfold Installed
    decide
  have hmasked : Masked [.set 2 (some 7), .mask 2 (9 : Int)] 2 9 :=
    ⟨[.set 2 (some 7)], [], rfl, List.forall_mem_nil _⟩
  have hmember := (h hinstalled 9).mpr hmasked
  revert hmember
  decide

/-- Three signals are masked in the handlers of signal 2, and one of them is unmasked. -/
def maskings : List (Op Nat) := [.set 2 (some 7), .mask 2 3, .mask 2 15, .mask 2 9, .unmask 2 3]

theorem masks_history_two :
    (runOps posix obliging maskings (blank Nat)).Installed 2 ∧
    ∀ b, ((runOps posix obliging maskings (blank Nat)).action 2).sa_mask b = true ↔
      Masked maskings 2 b ∧ b ≠ SIGKILL ∧ b ≠ SIGSTOP := by
  have hinstalled : (runOps posix obliging maskings (blank Nat)).Installed 2 := by
    unfold Installed
    decide
  have hnone : ∀ signo, ¬ (blank Nat).Installed signo := fun signo h => by cases h
  exact ⟨hinstalled, (masks_history (fun _ => rfl) rfl hnone maskings).1 2 hinstalled⟩

end Sig

end Socketpp
