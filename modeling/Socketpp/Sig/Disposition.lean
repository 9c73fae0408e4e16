import Socketpp.Sig.Registry

/-!
# Sig — dispositions

A signal with a handler has `sighandler` installed (`Armed`).  Every operation keeps this, whichever
system call of it fails: `set` appends to an empty list only behind the installation, `unbind`
empties the list before it takes `sighandler` away, and what `mask`, `unmask` and `sysresume`
install is `sighandler`.
-/

namespace Socketpp
open Lib

namespace Sig

variable {η κ : Type} {P : Platform} {E : Env κ} {s s' : Sig η κ}

/-- Every signal that has a handler has `sighandler` installed. -/
def Armed (s : Sig η κ) : Prop := ∀ signo, s.members signo ≠ [] → s.Installed signo

theorem Armed.calm (hs : Armed s) (h : Calm (fun _ => True) s s') : Armed s' := by
  intro t ht
  rw [h.members] at ht
  exact h.installed t trivial (hs t ht)

/-- Lists that have only lost handlers, and dispositions that are as they were. -/
theorem Armed.fewer (hs : Armed s) (hm : ∀ t, s'.members t ≠ [] → s.members t ≠ [])
    (ha : s'.action = s.action) : Armed s' := by
  intro t ht
  rw [Installed, ha]
  exact hs t (hm t ht)

variable [DecidableEq η]

/-- **`set`** links the list and the disposition; where it throws, it has registered nothing. -/
theorem set_armed (hP : P.haveSigaction = true) (hs : Armed s) (signo : Int) (h : η) :
    (set P E signo (some h) s).Sat (fun _ s' => Armed s')
      (fun _ s' => Armed s' ∧ s'.members = s.members) := by
  refine (set_cases (fun _ => True) signo h).mono ?_ fun _ s' h => ⟨hs.calm h.1, h.1.members⟩
  rintro b s' (⟨-, -, rfl⟩ | ⟨-, -, s₁, hc, hi, rfl⟩)
  · exact hs
  · intro t ht
    show s₁.Installed t
    rcases eq_or_ne t signo with rfl | hne
    · by_cases hnil : s.members t = []
      · exact hi hP hnil
      · exact hs.calm hc t (by rwa [hc.members])
    · rw [members_onList, Function.update_of_ne hne] at ht
      exact hs.calm hc t ht

theorem unset_armed (hs : Armed s) (signo : Int) (h : η) (hn : (s.members signo).Nodup) :
    (unset signo (some h) s).Sat (fun _ s' => Armed s') (fun _ _ => False) := by
  obtain ⟨b, s', hret, -, hm, -, ha⟩ := unset_ret signo h hn
  rw [hret]
  refine hs.fewer (fun t ht hnil => ht ?_) ha
  rw [hm]
  rcases eq_or_ne t signo with rfl | hne
  · rw [apply_unset, hnil, List.filter_nil]
  · rw [Call.apply, Function.update_of_ne hne, hnil]

/-- `unbind` takes `sighandler` from a signal that has lost its handlers. -/
theorem unbind_armed (hs : Armed s) (signo : Int) :
    (unbind P E signo s).Sat (fun _ s' => Armed s') (fun _ s' => Armed s') := by
  have key : ∀ s', s'.members = (Call.unbind signo).apply s.members ∧
      Calm (fun t => t ≠ signo) (s.onList signo StdList.clear) s' → Armed s' := by
    rintro s' ⟨hm, hc⟩ t ht
    rw [hm] at ht
    rcases eq_or_ne t signo with rfl | hne
    · exact absurd (apply_unbind _ _) ht
    · rw [Call.apply, Function.update_of_ne hne] at ht
      exact hc.installed t hne (hs t ht)
  exact (unbind_sat signo).mono (fun _ s' h => key s' h) fun _ s' h => key s' h

/-- One operation, returned or thrown. -/
theorem exec_armed (hP : P.haveSigaction = true) (hs : Armed s)
    (hn : ∀ signo, (s.members signo).Nodup) (op : Op η) :
    (op.exec P E s).Sat (fun _ s' => Armed s') (fun _ s' => Armed s') := by
  have hrule := exec_sat (P := P) (E := E) (s := s) (Q := fun _ s' => Armed s') (fun _ _ _ h => h)
    (fun _ h => hs.calm h) (fun signo h => ?_) (fun signo h => unset_armed hs signo h (hn signo))
    (fun signo => unbind_armed hs signo) op
  · exact hrule.mono (fun _ _ h => h) fun _ _ h => h.1
  · exact (set_armed hP hs signo h).mono (fun _ _ h => h) fun _ _ h => h.1

/-- **A registered handler never misses its signal.**  With `HAVE_SIGACTION`, in every run from an
empty registry and whichever calls fail: after every operation, returned or thrown, each signal
that has a handler has `sighandler` installed; and a `set` that throws changes no list. -/
theorem registered_installed (hP : P.haveSigaction = true) {l : List (Call η)}
    (h : Reaches P E l s) :
    Armed s ∧ ∀ signo handler, (set P E signo handler s).Sat (fun _ s' => Armed s')
      (fun _ s' => Armed s' ∧ s'.members = s.members) := by
  have harmed : Armed s := by
    induction h with
    | start s he =>
        intro signo hne
        rw [members, he] at hne
        exact absurd rfl hne
    | returned op run hret ih =>
        have hn := fun signo => (congrFun (members_eq_replay run) signo) ▸ replay_nodup signo _
        exact (exec_armed hP ih hn op).ret hret
    | thrown op run hthrown ih =>
        have hn := fun signo => (congrFun (members_eq_replay run) signo) ▸ replay_nodup signo _
        have := exec_armed (E := E) hP ih hn op
        rwa [hthrown] at this
  refine ⟨harmed, fun signo handler => ?_⟩
  cases handler with
  | none => exact harmed
  | some h => exact set_armed hP harmed signo h

theorem registered_installed_tries :
    ∃ l s, Reaches posix (failsAt 5) l s ∧ s.members 2 = [8, 7] ∧ s.members 15 = [7] ∧ s.Installed 2 ∧
      s.Installed 15 := by
  have hs : Reaches posix (failsAt 5) (history posix (failsAt 5) tries [] started)
      (runOps posix (failsAt 5) tries started) := Reaches.runOps (.start started fun _ => rfl)
  have harmed := (registered_installed rfl hs).1
  exact ⟨_, _, hs, rfl, rfl, harmed 2 (List.cons_ne_nil 8 [7]), harmed 15 (List.cons_ne_nil 7 [])⟩

end Sig

end Socketpp
