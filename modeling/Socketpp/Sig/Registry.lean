import Mathlib.Data.List.Induction
import Socketpp.Sig.Model

/-!
# Sig — the registry

The list of a signal replays the history of calls (`members_eq_replay`): `set` appends a handler
that is not there, `unset` removes it, `unbind` removes all.  What the list holds is then read off
the history.  A handler is there if a `set` of it has come behind the last call that removes it,
and the order is that of the calls that made the registrations (`registry_history`).
-/

namespace Socketpp
open Lib

namespace Sig

/-! ### Histories -/

/-- A call that changes a list; the constructor and the destructor of a handler make one too. -/
inductive Call (η : Type) where
  | set (signo : Int) (h : η)
  | unset (signo : Int) (h : η)
  | unbind (signo : Int)
deriving DecidableEq

variable {η κ : Type}

/-- The call ends a registration of `h` for `signo`. -/
def Call.Removes (signo : Int) (h : η) (c : Call η) : Prop := c = .unset signo h ∨ c = .unbind signo

/-- A `set` of `h` for `signo` has occurred behind the last call that removes it. -/
def Registered (l : List (Call η)) (signo : Int) (h : η) : Prop :=
  ∃ pre post, l = pre ++ .set signo h :: post ∧ ∀ c ∈ post, ¬ c.Removes signo h

/-- The call number `i` has made the registration of `h` for `signo` that is in force: it is a
`set` that found `h` not registered, and no call behind it removes `h`. -/
def RegisteredBy (l : List (Call η)) (signo : Int) (h : η) (i : Nat) : Prop :=
  ∃ pre post, l = pre ++ .set signo h :: post ∧ pre.length = i ∧ ¬ Registered pre signo h ∧
    ∀ c ∈ post, ¬ c.Removes signo h

/-- Where an item stands in a history with one more call. -/
theorem concat_eq_iff {α : Type} {l pre post : List α} {c d : α} :
    l ++ [c] = pre ++ d :: post ↔
      (post = [] ∧ l = pre ∧ c = d) ∨ ∃ post', post = post' ++ [c] ∧ l = pre ++ d :: post' := by
  constructor
  · intro h
    rcases List.eq_nil_or_concat post with rfl | ⟨post', e, rfl⟩
    · obtain ⟨hl, hc⟩ := List.append_inj' h rfl
      exact Or.inl ⟨rfl, hl, List.singleton_inj.mp hc⟩
    · rw [List.concat_eq_append, ← List.cons_append, ← List.append_assoc] at h
      obtain ⟨hl, hc⟩ := List.append_inj' h rfl
      rw [List.singleton_inj.mp hc, List.concat_eq_append]
      exact Or.inr ⟨post', rfl, hl⟩
  · rintro (⟨rfl, rfl, rfl⟩ | ⟨post', rfl, rfl⟩)
    · rfl
    · simp

theorem registered_concat {l : List (Call η)} {c : Call η} {signo : Int} {h : η} :
    Registered (l ++ [c]) signo h ↔
      c = .set signo h ∨ Registered l signo h ∧ ¬ c.Removes signo h := by
  constructor
  · rintro ⟨pre, post, heq, hpost⟩
    rcases concat_eq_iff.mp heq with ⟨-, -, hc⟩ | ⟨post', rfl, hl⟩
    · exact Or.inl hc
    · rw [List.forall_mem_append] at hpost
      exact Or.inr ⟨⟨pre, post', hl, hpost.1⟩, hpost.2 c List.mem_cons_self⟩
  · rintro (rfl | ⟨⟨pre, post, rfl, hpost⟩, hc⟩)
    · exact ⟨l, [], rfl, nofun⟩
    · refine ⟨pre, post ++ [c], by simp, List.forall_mem_append.mpr ⟨hpost, ?_⟩⟩
      simpa using hc

theorem registeredBy_concat {l : List (Call η)} {c : Call η} {signo : Int} {h : η} {i : Nat} :
    RegisteredBy (l ++ [c]) signo h i ↔
      (c = .set signo h ∧ i = l.length ∧ ¬ Registered l signo h) ∨
        RegisteredBy l signo h i ∧ ¬ c.Removes signo h := by
  constructor
  · rintro ⟨pre, post, heq, hi, hpre, hpost⟩
    rcases concat_eq_iff.mp heq with ⟨-, rfl, hc⟩ | ⟨post', rfl, hl⟩
    · exact Or.inl ⟨hc, hi.symm, hpre⟩
    · rw [List.forall_mem_append] at hpost
      exact Or.inr ⟨⟨pre, post', hl, hi, hpre, hpost.1⟩, hpost.2 c List.mem_cons_self⟩
  · rintro (⟨rfl, rfl, hl⟩ | ⟨⟨pre, post, rfl, hi, hpre, hpost⟩, hc⟩)
    · exact ⟨l, [], rfl, rfl, hl, nofun⟩
    · refine ⟨pre, post ++ [c], by simp, hi, hpre, List.forall_mem_append.mpr ⟨hpost, ?_⟩⟩
      simpa using hc

theorem RegisteredBy.lt {l : List (Call η)} {signo : Int} {h : η} {i : Nat}
    (hi : RegisteredBy l signo h i) : i < l.length := by
  obtain ⟨pre, post, rfl, rfl, -⟩ := hi
  simp

theorem RegisteredBy.registered {l : List (Call η)} {signo : Int} {h : η} {i : Nat}
    (hi : RegisteredBy l signo h i) : Registered l signo h := by
  obtain ⟨pre, post, hl, -, -, hpost⟩ := hi
  exact ⟨pre, post, hl, hpost⟩

/-- A registration in force has been made by exactly one call. -/
theorem existsUnique_registeredBy {l : List (Call η)} {signo : Int} {h : η}
    (hl : Registered l signo h) : ∃! i, RegisteredBy l signo h i := by
  induction l using List.reverseRecOn with
  | nil =>
      obtain ⟨pre, post, hl, -⟩ := hl
      simp at hl
  | append_singleton l c ih =>
      by_cases hold : Registered l signo h
      · have hc : ¬ c.Removes signo h := by
          rcases registered_concat.mp hl with rfl | ⟨-, hc⟩
          · simp [Call.Removes]
          · exact hc
        obtain ⟨i, hi, huniq⟩ := ih hold
        refine ⟨i, registeredBy_concat.mpr (Or.inr ⟨hi, hc⟩), fun j hj => ?_⟩
        rcases registeredBy_concat.mp hj with ⟨-, -, hnew⟩ | ⟨hj, -⟩
        · exact absurd hold hnew
        · exact huniq j hj
      · have hc : c = .set signo h := (registered_concat.mp hl).resolve_right fun h' => hold h'.1
        refine ⟨l.length, registeredBy_concat.mpr (Or.inl ⟨hc, rfl, hold⟩), fun j hj => ?_⟩
        rcases registeredBy_concat.mp hj with ⟨-, rfl, -⟩ | ⟨hj, -⟩
        · rfl
        · exact absurd hj.registered hold

/-! ### The replay of a history -/

variable [DecidableEq η]

/-- What a call does to the lists. -/
def Call.apply (m : Int → List η) : Call η → Int → List η
  | .set signo h   => Function.update m signo (if h ∈ m signo then m signo else m signo ++ [h])
  | .unset signo h => Function.update m signo ((m signo).filter fun b => b ≠ h)
  | .unbind signo  => Function.update m signo []

/-- The lists after a history of calls. -/
def replay (l : List (Call η)) : Int → List η := l.foldl Call.apply fun _ => []

theorem replay_concat (l : List (Call η)) (c : Call η) : replay (l ++ [c]) = c.apply (replay l) := by
  rw [replay, List.foldl_append]
  rfl

/-- A call is about another signal, or it is one of the three. -/
theorem call_cases (signo : Int) (c : Call η) :
    ((∀ m, c.apply m signo = m signo) ∧ ∀ h, c ≠ .set signo h ∧ ¬ c.Removes signo h) ∨
    (∃ h, c = .set signo h) ∨ (∃ h, c = .unset signo h) ∨ c = .unbind signo := by
  cases c with
  | set t h =>
      rcases eq_or_ne signo t with rfl | hs
      · exact Or.inr (Or.inl ⟨h, rfl⟩)
      · exact Or.inl ⟨fun m => Function.update_of_ne hs _ _, by simp [Call.Removes, hs.symm]⟩
  | unset t h =>
      rcases eq_or_ne signo t with rfl | hs
      · exact Or.inr (Or.inr (Or.inl ⟨h, rfl⟩))
      · exact Or.inl ⟨fun m => Function.update_of_ne hs _ _, by simp [Call.Removes, hs.symm]⟩
  | unbind t =>
      rcases eq_or_ne signo t with rfl | hs
      · exact Or.inr (Or.inr (Or.inr rfl))
      · exact Or.inl ⟨fun m => Function.update_of_ne hs _ _, by simp [Call.Removes, hs.symm]⟩

theorem apply_set (m : Int → List η) (signo : Int) (h : η) :
    (Call.set signo h).apply m signo = if h ∈ m signo then m signo else m signo ++ [h] :=
  Function.update_self ..

theorem apply_unset (m : Int → List η) (signo : Int) (h : η) :
    (Call.unset signo h).apply m signo = (m signo).filter fun b => b ≠ h :=
  Function.update_self ..

theorem apply_unbind (m : Int → List η) (signo : Int) :
    (Call.unbind signo : Call η).apply m signo = [] := Function.update_self ..

/-- No handler is twice in a list. -/
theorem replay_nodup (signo : Int) (l : List (Call η)) : (replay l signo).Nodup := by
  induction l using List.reverseRecOn with
  | nil => exact List.nodup_nil
  | append_singleton l c ih =>
      rw [replay_concat]
      rcases call_cases signo c with ⟨hsame, -⟩ | ⟨h, rfl⟩ | ⟨h, rfl⟩ | rfl
      · rw [hsame]
        exact ih
      · rw [apply_set]
        split
        · exact ih
        · rename_i hh
          refine List.nodup_append.mpr ⟨ih, List.nodup_singleton h, fun a ha b hb hab => hh ?_⟩
          rw [← List.mem_singleton.mp hb, ← hab]
          exact ha
      · rw [apply_unset]
        exact ih.filter _
      · rw [apply_unbind]
        exact List.nodup_nil

/-- **The members** are the handlers that the history registers. -/
theorem mem_replay {signo : Int} {l : List (Call η)} {a : η} :
    a ∈ replay l signo ↔ Registered l signo a := by
  induction l using List.reverseRecOn with
  | nil => simp [replay, Registered]
  | append_singleton l c ih =>
      rw [replay_concat, registered_concat, ← ih]
      rcases call_cases signo c with ⟨hsame, hc⟩ | ⟨h, rfl⟩ | ⟨h, rfl⟩ | rfl
      · simp [hsame, hc a]
      · rw [apply_set]
        have hr : ¬ (Call.set signo h).Removes signo a := by simp [Call.Removes]
        by_cases hh : h ∈ replay l signo
        · rw [if_pos hh]
          simp only [hr, not_false_iff, and_true, Call.set.injEq, true_and]
          exact ⟨Or.inr, fun h' => h'.elim (fun e => e ▸ hh) id⟩
        · rw [if_neg hh]
          simp only [hr, not_false_iff, and_true, Call.set.injEq, true_and, List.mem_append,
            List.mem_singleton]
          exact ⟨fun h' => h'.elim Or.inr fun e => Or.inl e.symm,
            fun h' => h'.elim (fun e => Or.inr e.symm) Or.inl⟩
      · have hr : (Call.unset signo h).Removes signo a ↔ a = h := by
          simp only [Call.Removes, Call.unset.injEq, true_and, reduceCtorEq, or_false]
          exact eq_comm
        rw [apply_unset, List.mem_filter, hr]
        simp
      · rw [apply_unbind]
        simp [Call.Removes]

/-- **The order** of the members is that of the calls that made the registrations. -/
theorem replay_order (signo : Int) (l : List (Call η)) :
    (replay l signo).Pairwise fun a b => ∀ i j, RegisteredBy l signo a i → RegisteredBy l signo b j →
      i < j := by
  induction l using List.reverseRecOn with
  | nil => exact List.Pairwise.nil
  | append_singleton l c ih =>
      rw [replay_concat]
      -- registrations that a call neither makes nor ends keep their numbers
      have keep : ∀ a i, c ≠ .set signo a ∨ Registered l signo a →
          RegisteredBy (l ++ [c]) signo a i → RegisteredBy l signo a i := by
        intro a i ha hi
        rcases registeredBy_concat.mp hi with ⟨hc, -, hl⟩ | ⟨hi, -⟩
        · exact absurd ha (by rw [not_or]; exact ⟨not_not_intro hc, hl⟩)
        · exact hi
      have old : (replay l signo).Pairwise fun a b => ∀ i j, RegisteredBy (l ++ [c]) signo a i →
          RegisteredBy (l ++ [c]) signo b j → i < j :=
        ih.imp_of_mem fun ha hb hab i j hi hj =>
          hab i j (keep _ _ (Or.inr (mem_replay.mp ha)) hi) (keep _ _ (Or.inr (mem_replay.mp hb)) hj)
      rcases call_cases signo c with ⟨hsame, -⟩ | ⟨h, rfl⟩ | ⟨h, rfl⟩ | rfl
      · rw [hsame]
        exact old
      · rw [apply_set]
        split
        · exact old
        · rename_i hh
          refine List.pairwise_append.mpr ⟨old, List.pairwise_singleton _ _, ?_⟩
          intro a ha b hb i j hi hj
          obtain rfl := List.mem_singleton.mp hb
          -- the new registration is the last call of all
          rcases registeredBy_concat.mp hj with ⟨-, rfl, -⟩ | ⟨hj, -⟩
          · exact (keep a i (Or.inr (mem_replay.mp ha)) hi).lt
          · exact absurd (mem_replay.mpr hj.registered) hh
      · rw [apply_unset]
        exact old.filter _
      · rw [apply_unbind]
        exact List.Pairwise.nil

/-! ### System calls -/

section Calls

omit [DecidableEq η]

/-- `sighandler` is installed for `signo`. -/
def Installed (s : Sig η κ) (signo : Int) : Prop := (s.action signo).sa_handler = .sighandler

/-- The lists and the handlers are as they were, and `sighandler` is still installed for the
signals in `X` for which it was. -/
structure Calm (X : Int → Prop) (s s' : Sig η κ) : Prop where
  smap      : s'.smap = s.smap
  object    : s'.object = s.object
  installed : ∀ t, X t → s.Installed t → s'.Installed t

variable {X : Int → Prop} {α β : Type} {P : Platform} {E : Env κ}

theorem Calm.refl (s : Sig η κ) : Calm X s s := ⟨rfl, rfl, fun _ _ h => h⟩

theorem Calm.trans {s s₁ s' : Sig η κ} (h₁ : Calm X s s₁) (h₂ : Calm X s₁ s') : Calm X s s' :=
  ⟨h₂.smap.trans h₁.smap, h₂.object.trans h₁.object,
    fun t ht h => h₂.installed t ht (h₁.installed t ht h)⟩

theorem Calm.members {s s' : Sig η κ} (h : Calm X s s') : s'.members = s.members := by
  funext signo
  rw [Sig.members, Sig.members, h.smap]

/-- The run that ended in `o` has been calm; if it returned, `Q` holds, and it has thrown only
because a call has failed. -/
def Meets (E : Env κ) (X : Int → Prop) (s : Sig η κ) (o : Outcome Thrown (Sig η κ) α)
    (Q : α → Sig η κ → Prop) : Prop :=
  o.Sat (fun a s' => Q a s' ∧ Calm X s s') fun _ s' => Calm X s s' ∧ ¬ E.Succeeds

theorem Meets.bind {p : SigM η κ α} {f : α → SigM η κ β} {s : Sig η κ} {Q : α → Sig η κ → Prop}
    {Q' : β → Sig η κ → Prop} (hp : Meets E X s (p s) Q)
    (hf : ∀ a s₁, Q a s₁ → Meets E X s₁ (f a s₁) Q') : Meets E X s ((p >>= f) s) Q' := by
  refine hp.andThen ?_ fun _ _ h => h
  rintro a s₁ ⟨hq, h₁⟩
  exact (hf a s₁ hq).mono (fun _ _ h => ⟨h.1, h₁.trans h.2⟩) fun _ _ h => ⟨h₁.trans h.1, h.2⟩

theorem Meets.pure {s : Sig η κ} {Q : α → Sig η κ → Prop} {a : α} (h : Q a s) :
    Meets E X s ((pure a : SigM η κ α) s) Q := ⟨h, .refl s⟩

theorem Meets.any {s : Sig η κ} {o : Outcome Thrown (Sig η κ) α} {Q : α → Sig η κ → Prop}
    (h : Meets E X s o Q) : Meets E X s o fun _ _ => True :=
  h.mono (fun _ _ h => ⟨trivial, h.2⟩) fun _ _ h => h

theorem syscall_meets (op spec : String) (s : Sig η κ) :
    Meets E X s (syscall E op spec s) fun _ s' => s'.action = s.action := by
  rw [syscall]
  rcases hE : E s.sys with ⟨_ | e, k⟩
  · exact ⟨rfl, rfl, rfl, fun _ _ h => h⟩
  · refine ⟨⟨rfl, rfl, fun _ _ h => h⟩, fun hs => ?_⟩
    have := hs s.sys
    rw [hE] at this
    cases this

theorem getAction_meets (signo : Int) (op : String) (s : Sig η κ) :
    Meets E X s (getAction E signo op s) fun sa s' => sa = s'.action signo :=
  (syscall_meets op "" s).bind fun _ _ _ => .pure rfl

theorem setAction_meets {signo : Int} {sa : Sigaction}
    (h : X signo → sa.sa_handler = .sighandler) (op spec : String) (s : Sig η κ) :
    Meets E X s (setAction E signo sa op spec s) fun _ s' => s'.action signo = sa.stored := by
  refine (syscall_meets op spec s).bind fun _ s₁ _ => ?_
  refine ⟨Function.update_self .., rfl, rfl, fun t ht hi => ?_⟩
  rcases eq_or_ne t signo with rfl | hne
  · exact (congrArg _ (Function.update_self ..)).trans (h ht)
  · exact (congrArg _ (Function.update_of_ne hne ..)).trans hi

theorem signal_meets {signo : Int} {d : Disposition} (h : X signo → d = .sighandler)
    (s : Sig η κ) : Meets E X s (signal E signo d s) fun _ _ => True := by
  rw [signal]
  rcases E s.sys with ⟨_ | e, k⟩
  · refine ⟨trivial, rfl, rfl, fun t ht hi => ?_⟩
    rcases eq_or_ne t signo with rfl | hne
    · exact (congrArg _ (Function.update_self ..)).trans (h ht)
    · exact (congrArg _ (Function.update_of_ne hne ..)).trans hi
  · exact ⟨trivial, rfl, rfl, fun _ _ h => h⟩

/-- **The installation** in `set`: it throws, or `sighandler` is installed. -/
theorem install_meets (signo : Int) (s : Sig η κ) :
    Meets E X s (install P E signo s) fun _ s' => P.haveSigaction = true → s'.Installed signo := by
  rw [install]
  by_cases hP : P.haveSigaction = true
  · simp only [hP, if_true, forall_true_left]
    refine (getAction_meets signo _ s).bind fun sa s₁ hsa => ?_
    rw [Prog.ite_apply]
    split
    · refine (syscall_meets _ _ s₁).bind fun _ s₂ _ => ?_
      exact (setAction_meets (fun _ => rfl) _ _ s₂).mono
        (fun _ _ h => ⟨congrArg Sigaction.sa_handler h.1, h.2⟩) fun _ _ h => h
    · rename_i hh
      refine .pure ?_
      rw [not_not, hsa] at hh
      exact hh
  · simp only [hP]
    exact (signal_meets (fun _ => rfl) s).mono (fun _ _ h => ⟨nofun, h.2⟩) fun _ _ h => h

/-- What is going to be installed is `sighandler`. -/
theorem takeOver_meets {op : String} {sa : Sigaction} {ours : SigM η κ Sigaction}
    (hours : ∀ s, sa.sa_handler = .sighandler →
      Meets E X s (ours s) fun sa' _ => sa'.sa_handler = .sighandler) (s : Sig η κ) :
    Meets E X s (takeOver E op sa ours s) fun sa' _ => sa'.sa_handler = .sighandler := by
  rw [takeOver, Prog.ite_apply]
  split
  · exact (syscall_meets _ _ s).bind fun _ _ _ => .pure rfl
  · rename_i hh
    exact hours s (not_not.mp hh)

theorem mask_meets (siga sigb : Int) (s : Sig η κ) :
    Meets E X s (mask E siga sigb s) fun _ _ => True := by
  refine (getAction_meets siga _ s).bind fun sa s₁ _ => ?_
  refine (takeOver_meets (fun s hsa => .pure hsa) s₁).bind fun sa' s₂ hsa' => ?_
  refine (syscall_meets _ _ s₂).bind fun _ s₃ _ => ?_
  refine (setAction_meets (fun _ => ?_) _ _ s₃).any
  exact hsa'

theorem unmask_meets (siga sigb : Int) (s : Sig η κ) :
    Meets E X s (unmask E siga sigb s) fun _ _ => True := by
  refine (getAction_meets siga _ s).bind fun sa s₁ _ => ?_
  refine (takeOver_meets (fun s hsa => ?_) s₁).bind fun sa' s₂ hsa' => ?_
  · exact (syscall_meets _ _ s).bind fun _ _ _ => .pure hsa
  · exact (setAction_meets (fun _ => hsa') _ _ s₂).any

theorem sysresume_meets (signo : Int) (set : Bool) (s : Sig η κ) :
    Meets E X s (sysresume P E signo set s) fun _ _ => True := by
  refine (getAction_meets signo _ s).bind fun sa s₁ _ => ?_
  refine (takeOver_meets (fun s hsa => .pure hsa) s₁).bind fun sa' s₂ hsa' => ?_
  cases P.saInterrupt with
  | none => exact .pure trivial
  | some flag =>
      refine (setAction_meets (fun _ => ?_) _ _ s₂).any
      exact hsa'

end Calls

/-! ### The operations replay their calls -/

section Ops

variable {P : Platform} {E : Env κ} {s : Sig η κ}

omit [DecidableEq η] in
theorem members_onList (signo : Int) (f : StdList η → StdList η) :
    (s.onList signo f).members = Function.update s.members signo (f (s.smap signo)).vals := by
  funext t
  rcases eq_or_ne t signo with rfl | hne
  · simp [members, onList]
  · simp [members, onList, hne]

/-- **What `set` can do.**  It throws and changes no list; it finds the handler registered; or it
appends the handler, with `sighandler` installed if the list was empty. -/
theorem set_cases (X : Int → Prop) (signo : Int) (h : η) :
    (set P E signo (some h) s).Sat
      (fun b s' => (b = false ∧ h ∈ s.members signo ∧ s' = s) ∨
        (b = true ∧ h ∉ s.members signo ∧ ∃ s₁, Calm X s s₁ ∧
          (P.haveSigaction = true → s.members signo = [] → s₁.Installed signo) ∧
          s' = s₁.onList signo fun v => v.pushBack h))
      (fun _ s' => Calm X s s' ∧ ¬ E.Succeeds) := by
  simp only [set, Prog.bind_apply, Prog.get_apply, Outcome.andThen_ret, Prog.ite_apply]
  split
  · rename_i he
    have hnil : s.members signo = [] := by
      rw [members, StdList.vals, List.isEmpty_iff.mp he]
      rfl
    refine (install_meets (X := X) signo s).andThen ?_ fun _ _ h => h
    rintro _ s₁ ⟨hi, hc⟩
    exact Or.inr ⟨rfl, by rw [hnil]; exact List.not_mem_nil, s₁, hc, fun hP _ => hi hP, rfl⟩
  · rename_i he
    have hne : s.members signo ≠ [] := by
      rw [members, StdList.vals, Ne, List.map_eq_nil_iff, ← List.isEmpty_iff]
      exact he
    cases hf : (s.smap signo).find h with
    | none =>
        exact Or.inr ⟨rfl, StdList.find_eq_none.mp hf, s, .refl s, fun _ hnil => absurd hnil hne, rfl⟩
    | some c =>
        obtain ⟨hc, hv⟩ := StdList.find_eq_some hf
        exact Or.inl ⟨rfl, StdList.mem_vals.mpr ⟨c, hc, hv⟩, rfl⟩

/-- **`set`** adds the handler, if it is not there, and says whether it was not. -/
theorem set_sat (signo : Int) (h : η) :
    (set P E signo (some h) s).Sat
      (fun b s' => (b = true ↔ h ∉ s.members signo) ∧
        s'.members = (Call.set signo h).apply s.members ∧ s'.object = s.object)
      (fun _ s' => s'.members = s.members ∧ s'.object = s.object ∧ ¬ E.Succeeds) := by
  refine (set_cases (fun _ => True) signo h).mono ?_ fun _ _ h => ⟨h.1.members, h.1.object, h.2⟩
  rintro b s' (⟨rfl, hh, rfl⟩ | ⟨rfl, hh, s₁, hc, -, rfl⟩)
  · refine ⟨by simp [hh], ?_, rfl⟩
    rw [Call.apply, if_pos hh, Function.update_eq_self]
  · refine ⟨by simp [hh], ?_, hc.object⟩
    rw [members_onList, hc.members, Call.apply, if_neg hh, StdList.vals_pushBack, hc.smap]
    rfl

/-- **`unset`** removes the handler, and says whether it was there. -/
theorem unset_ret (signo : Int) (h : η) (hn : (s.members signo).Nodup) :
    ∃ b s', unset signo (some h) s = .ret b s' ∧ (b = true ↔ h ∈ s.members signo) ∧
      s'.members = (Call.unset signo h).apply s.members ∧ s'.object = s.object ∧
      s'.action = s.action := by
  simp only [unset, Prog.bind_apply, Prog.get_apply, Outcome.andThen_ret]
  cases hf : (s.smap signo).find h with
  | none =>
      have hh : h ∉ s.members signo := StdList.find_eq_none.mp hf
      refine ⟨false, s, rfl, by simp [hh], ?_, rfl, rfl⟩
      rw [Call.apply, List.filter_eq_self.mpr, Function.update_eq_self]
      intro b hb
      simpa using ne_of_mem_of_not_mem hb hh
  | some c =>
      obtain ⟨hc, hv⟩ := StdList.find_eq_some hf
      have hh : h ∈ s.members signo := StdList.mem_vals.mpr ⟨c, hc, hv⟩
      refine ⟨true, _, rfl, by simp [hh], ?_, rfl, rfl⟩
      rw [members_onList, StdList.vals_erase hn hf]
      rfl

/-- **`unbind`** empties the list, whether it throws or not; only its own signal may lose
`sighandler`. -/
theorem unbind_sat (signo : Int) :
    (unbind P E signo s).Sat
      (fun _ s' => s'.members = (Call.unbind signo).apply s.members ∧
        Calm (fun t => t ≠ signo) (s.onList signo StdList.clear) s')
      (fun _ s' => s'.members = (Call.unbind signo).apply s.members ∧
        Calm (fun t => t ≠ signo) (s.onList signo StdList.clear) s') := by
  have hm : (s.onList signo StdList.clear).members = (Call.unbind signo).apply s.members := by
    rw [members_onList, StdList.vals_clear]
    rfl
  have huninstall : Meets E (fun t => t ≠ signo) (s.onList signo StdList.clear)
      (unbind P E signo s) fun _ _ => True := by
    simp only [unbind, Prog.bind_apply, Prog.modify_apply, Outcome.andThen_ret, Prog.ite_apply]
    split
    · refine (getAction_meets signo _ _).bind fun sa s₁ _ => ?_
      rw [Prog.ite_apply]
      split
      · refine (syscall_meets _ _ s₁).bind fun _ s₂ _ => ?_
        exact (setAction_meets (fun h => absurd rfl h) _ _ s₂).any
      · exact .pure trivial
    · exact signal_meets (fun h => absurd rfl h) _
  exact huninstall.mono (fun _ _ h => ⟨h.2.members.trans hm, h.2⟩)
    fun _ _ h => ⟨h.1.members.trans hm, h.1⟩

/-! ### Runs -/

/-- The calls an operation makes. -/
def Op.calls (s : Sig η κ) : Op η → List (Call η)
  | .set signo handler   => handler.toList.map (.set signo)
  | .unset signo handler => handler.toList.map (.unset signo)
  | .unbind signo        => [.unbind signo]
  | .construct h signo   => [.set signo h]
  | .destroy h           => (s.object h).toList.map fun signo => .unset signo h
  | .mask _ _ | .unmask _ _ | .sysresume _ _ => []

/-- Those that count where the operation throws: `unbind` has emptied the list by then, a `set`
has registered nothing. -/
def Op.callsThrown : Op η → List (Call η)
  | .unbind signo => [.unbind signo]
  | _             => []

omit [DecidableEq η] in
theorem Op.callsThrown_subset (op : Op η) (s : Sig η κ) : op.callsThrown ⊆ op.calls s := by
  cases op with
  | unbind signo => exact List.Subset.refl _
  | _ => exact List.nil_subset _

/-- A run of operations from an empty registry has made the calls `l`, and led to `s`. -/
inductive Reaches (P : Platform) (E : Env κ) : List (Call η) → Sig η κ → Prop where
  | start (s : Sig η κ) (empty : ∀ signo, s.smap signo = .empty) : Reaches P E [] s
  | returned {l : List (Call η)} {s s' : Sig η κ} (op : Op η) (run : Reaches P E l s)
      (ret : op.exec P E s = .ret () s') : Reaches P E (l ++ op.calls s) s'
  | thrown {l : List (Call η)} {s s' : Sig η κ} {e : Thrown} (op : Op η) (run : Reaches P E l s)
      (ret : op.exec P E s = .thrown e s') : Reaches P E (l ++ op.callsThrown) s'

/-- **One operation**, for a property of the lists and the dispositions it leaves: nothing happens to
the lists, or one `set`, `unset` or `unbind`.  Where it throws, all its calls count but a `set`. -/
theorem exec_sat {Q : List (Call η) → Sig η κ → Prop}
    (hobject : ∀ cs s' f, Q cs s' → Q cs { s' with object := f })
    (hcalm : ∀ s', Calm (fun _ => True) s s' → Q [] s')
    (hset : ∀ signo h, (set P E signo (some h) s).Sat (fun _ s' => Q [.set signo h] s')
      (fun _ s' => Q [] s'))
    (hunset : ∀ signo h, (unset signo (some h) s).Sat (fun _ s' => Q [.unset signo h] s')
      (fun _ _ => False))
    (hunbind : ∀ signo, (unbind P E signo s).Sat (fun _ s' => Q [.unbind signo] s')
      (fun _ s' => Q [.unbind signo] s')) (op : Op η) :
    (op.exec P E s).Sat (fun _ s' => Q (op.calls s) s')
      (fun _ s' => Q op.callsThrown s' ∧
        ∀ c ∈ op.calls s, c ∈ op.callsThrown ∨ ∃ signo h, c = .set signo h) := by
  have calm : ∀ {o : Outcome Thrown (Sig η κ) Unit}, Meets E (fun _ => True) s o (fun _ _ => True) →
      o.Sat (fun _ s' => Q [] s') (fun _ s' => Q [] s' ∧
        ∀ c ∈ ([] : List (Call η)), c ∈ ([] : List (Call η)) ∨ ∃ signo h, c = .set signo h) :=
    fun h => h.mono (fun _ s' h => hcalm s' h.2) fun _ s' h => ⟨hcalm s' h.1, nofun⟩
  have hsets : ∀ signo h, ∀ c ∈ [Call.set signo h], c ∈ ([] : List (Call η)) ∨
      ∃ signo h, c = .set signo h := fun signo h c hc => .inr ⟨signo, h, List.mem_singleton.mp hc⟩
  cases op with
  | set signo handler =>
      cases handler with
      | none => exact calm (.pure trivial)
      | some h => exact (hset signo h).andThen (fun _ _ h => h) fun _ _ hq => ⟨hq, hsets signo h⟩
  | unset signo handler =>
      cases handler with
      | none => exact calm (.pure trivial)
      | some h => exact (hunset signo h).andThen (fun _ _ h => h) fun _ _ h => h.elim
  | unbind signo => exact (hunbind signo).mono (fun _ _ h => h) fun _ _ h => ⟨h, fun _ hc => .inl hc⟩
  | construct h signo =>
      exact (hset signo h).andThen (fun _ s' hq => hobject _ s' _ hq) fun _ _ hq => ⟨hq, hsets signo h⟩
  | destroy h =>
      simp only [Op.exec, destroy, Op.calls, Prog.bind_apply, Prog.get_apply, Outcome.andThen_ret]
      cases s.object h with
      | none => exact calm (.pure trivial)
      | some signo =>
          exact (hunset signo h).andThen (fun _ s' hq => hobject _ s' _ hq) fun _ _ h => h.elim
  | mask siga sigb => exact calm (mask_meets siga sigb s)
  | unmask siga sigb => exact calm (unmask_meets siga sigb s)
  | sysresume signo set => exact calm (sysresume_meets signo set s)

theorem exec_replays {l : List (Call η)} (hs : s.members = replay l) (op : Op η) :
    (op.exec P E s).Sat (fun _ s' => s'.members = replay (l ++ op.calls s))
      (fun _ s' => s'.members = replay (l ++ op.callsThrown)) := by
  have hrule := exec_sat (P := P) (E := E) (s := s) (Q := fun cs s' => s'.members = replay (l ++ cs))
    (fun _ _ _ h => h) ?_ ?_ ?_ ?_ op
  · exact hrule.mono (fun _ _ h => h) fun _ _ h => h.1
  · intro s' h
    rw [List.append_nil, ← hs]
    exact h.members
  · intro signo h
    rw [replay_concat, List.append_nil, ← hs]
    exact (set_sat signo h).mono (fun _ _ h => h.2.1) fun _ _ h => h.1
  · intro signo h
    obtain ⟨b, s', hret, -, hm, -⟩ := unset_ret (s := s) signo h (by rw [hs]; exact replay_nodup _ _)
    rw [hret, replay_concat, ← hs]
    exact hm
  · intro signo
    rw [replay_concat, ← hs]
    exact (unbind_sat signo).mono (fun _ _ h => h.1) fun _ _ h => h.1

/-- **The lists replay the history.** -/
theorem members_eq_replay {l : List (Call η)} (h : Reaches P E l s) : s.members = replay l := by
  induction h with
  | start s he =>
      funext signo
      rw [members, he]
      rfl
  | returned op _ hret ih => exact (exec_replays ih op).ret hret
  | thrown op _ hthrown ih =>
      have := exec_replays (P := P) (E := E) ih op
      rwa [hthrown] at this

/-- The calls of a run that goes on with these operations, each of which returns or throws. -/
def history (P : Platform) (E : Env κ) : List (Op η) → List (Call η) → Sig η κ → List (Call η)
  | [],        l, _ => l
  | op :: ops, l, s =>
    match op.exec P E s with
    | .ret _ s'    => history P E ops (l ++ op.calls s) s'
    | .thrown _ s' => history P E ops (l ++ op.callsThrown) s'
    | .spin        => l

theorem Reaches.runOps : ∀ {ops : List (Op η)} {l : List (Call η)} {s : Sig η κ}, Reaches P E l s →
    Reaches P E (history P E ops l s) (runOps P E ops s) := by
  intro ops
  induction ops with
  | nil => exact fun hs => hs
  | cons op ops ih =>
      intro l s hs
      rw [history, Sig.runOps]
      cases hop : op.exec P E s with
      | ret _ s' => exact ih (.returned op hs hop)
      | thrown e s' => exact ih (.thrown op hs hop)
      | spin => exact hs

end Ops

/-! ### Delivery to handlers that leave the registry alone -/

section Quiet

variable {υ : Type} {P : Platform} {E : Env κ} {B : Behaviour η κ υ}

/-- No handler touches the registry. -/
def Quiet (B : Behaviour η κ υ) : Prop := ∀ u r h signo, (B u r h signo).1 = []

/-- The calls through the members, in their order. -/
def callsTo (s : Sig η κ) (hs : List η) : List (Invocation η) :=
  hs.map fun h => ⟨h, true, (s.object h).isSome⟩

theorem killLoop_quiet (hB : Quiet B) (signo : Int) : ∀ (post pre : List (Cell η))
    (d : Delivery η κ υ), (d.reg.smap signo).cells = pre ++ post →
    ∃ d', Prog.loop (killBody P E B signo) (post.length + 1) post.head? d = .ret () d' ∧
      d'.reg = d.reg ∧ d'.log = d.log ++ callsTo d.reg (post.map Cell.val) := by
  intro post
  induction post with
  | nil =>
      intro pre d _
      exact ⟨d, rfl, rfl, (List.append_nil _).symm⟩
  | cons c post ih =>
      intro pre d hd
      have hreg : (d.invoke P E B signo c.val).reg = d.reg := by
        rw [Delivery.invoke, hB]
        rfl
      have hmem : c.val ∈ d.reg.members signo := StdList.mem_vals.mpr ⟨c, by rw [hd]; simp, rfl⟩
      have hbody : killBody P E B signo (some c) d =
          .ret (.inl post.head?) (d.invoke P E B signo c.val) := by
        simp only [killBody, Prog.bind_apply, Prog.modify_apply, Prog.get_apply,
          Outcome.andThen_ret, hreg, StdList.next_of_cells hd]
        rfl
      obtain ⟨d', hret, hreg', hlog⟩ := ih (pre ++ [c]) (d.invoke P E B signo c.val)
        (by rw [hreg, hd]; simp)
      refine ⟨d', ?_, hreg'.trans hreg, ?_⟩
      · rw [List.head?_cons, List.length_cons, Prog.loop_inl _ hbody]
        exact hret
      · rw [hlog, hreg, Delivery.invoke]
        simp [callsTo, hmem]

/-- **`kill`** calls the members, each once and in their order. -/
theorem kill_quiet (hB : Quiet B) (signo : Int) (d : Delivery η κ υ) {n : Nat}
    (hn : (d.reg.members signo).length < n) :
    ∃ d', kill P E B n signo d = .ret () d' ∧ d'.reg = d.reg ∧
      d'.log = d.log ++ callsTo d.reg (d.reg.members signo) := by
  obtain ⟨d', hret, hreg, hlog⟩ := killLoop_quiet (P := P) (E := E) hB signo _ [] d rfl
  have hlen : (d.reg.smap signo).cells.length + 1 ≤ n := by
    rwa [members, StdList.vals, List.length_map] at hn
  refine ⟨d', ?_, hreg, hlog⟩
  show Prog.loop (killBody P E B signo) n (d.reg.smap signo).begin d = _
  rw [Prog.loop_mono hlen (by rw [StdList.begin, hret]; intro h; cases h), StdList.begin, hret]

end Quiet

/-- The value `b` is true exactly when the membership of `h` for `signo` has changed. -/
def Tells (signo : Int) (h : Option η) (s : Sig η κ) (b : Bool) (s' : Sig η κ) : Prop :=
  b = true ↔ ∃ a, h = some a ∧ ¬ (a ∈ s'.members signo ↔ a ∈ s.members signo)

/-- **The registry and its history.**  After every run from an empty registry: no handler is
twice in the list of a signal; a handler is there exactly when the history registers it; the order
is that of the calls that made the registrations; `set` and `unset` return true exactly when they
change the membership, and `set` throws only because a system call has failed; `kill` calls the
members, each once and in their order, and no other handlers. -/
theorem registry_history {P : Platform} {E : Env κ} {l : List (Call η)} {s : Sig η κ}
    (hs : Reaches P E l s) (signo : Int) :
    (s.members signo).Nodup ∧
    (∀ h, h ∈ s.members signo ↔ Registered l signo h) ∧
    (∀ h ∈ s.members signo, ∃! i, RegisteredBy l signo h i) ∧
    ((s.members signo).Pairwise fun a b => ∀ i j, RegisteredBy l signo a i →
      RegisteredBy l signo b j → i < j) ∧
    (∀ h, (set P E signo h s).Sat (Tells signo h s)
      (fun _ s' => s'.members = s.members ∧ ¬ E.Succeeds)) ∧
    (∀ h, (unset signo h s).Sat (Tells signo h s) (fun _ _ => False)) ∧
    ∀ (υ : Type) (B : Behaviour η κ υ) (u : υ), Quiet B → ∀ n, (s.members signo).length < n →
      ∃ d, kill P E B n signo ⟨s, u, []⟩ = .ret () d ∧ d.reg = s ∧
        d.log = callsTo s (s.members signo) := by
  have hrep := members_eq_replay hs
  have hmem : ∀ h, h ∈ s.members signo ↔ Registered l signo h := fun h => by
    rw [hrep]
    exact mem_replay
  have hn : (s.members signo).Nodup := by
    rw [hrep]
    exact replay_nodup signo l
  have hnull : Tells signo none s false s := by simp [Tells]
  refine ⟨hn, hmem, fun h hh => existsUnique_registeredBy ((hmem h).mp hh),
    by rw [hrep]; exact replay_order signo l, fun h => ?_, fun h => ?_,
    fun υ B u hB n hlen => kill_quiet hB signo ⟨s, u, []⟩ hlen⟩
  · cases h with
    | none => exact hnull
    | some h =>
        refine (set_sat signo h).mono ?_ fun _ _ h => ⟨h.1, h.2.2⟩
        rintro b s' ⟨hb, hm, -⟩
        rw [Tells, hb, hm, apply_set]
        by_cases hh : h ∈ s.members signo
        · simp [hh]
        · simp [hh]
  · cases h with
    | none => exact hnull
    | some h =>
        obtain ⟨b, s', hret, hb, hm, -⟩ := unset_ret (s := s) signo h hn
        rw [hret, Outcome.sat_ret, Tells, hb, hm, apply_unset]
        simp

/-- No handlers, and every disposition the default one. -/
def blank (η : Type) : Sig η Unit :=
  ⟨fun _ => .empty, fun _ => none, fun _ => Sigaction.plain .sig_dfl, ()⟩

def posix : Platform := ⟨true, none⟩

/-- Every system call succeeds. -/
def obliging : Env Unit := fun k => (none, k)

/-- No calls have been made, and no handlers registered. -/
def started : Sig Nat Nat :=
  ⟨fun _ => .empty, fun _ => none, fun _ => Sigaction.plain .sig_dfl, 0⟩

/-- The call number `n` fails, with `EINVAL`. -/
def failsAt (n : Nat) : Env Nat := fun k => (if k = n then some 22 else none, k + 1)

/-- Handlers for two signals.  The first `set` for 15 fails at `sigaction`, a second `set` of 7 for 2 changes
nothing, and one after `unset` puts it at the end; `unbind` takes all handlers from 15. -/
def tries : List (Op Nat) := [.construct 7 2, .set 2 (some 8), .set 15 (some 9), .set 15 (some 6),
  .set 2 (some 7), .unset 2 (some 7), .set 2 (some 7), .mask 2 15, .set 15 (some 8), .unbind 15,
  .set 15 (some 7), .set 15 none]

theorem registry_history_tries :
    ∃ s, Reaches posix (failsAt 5) [.set 2 7, .set 2 8, .set 15 6, .set 2 7, .unset 2 7, .set 2 7, .set 15 8,
        .unbind 15, .set 15 7] s ∧ s.members 2 = [8, 7] ∧ s.members 15 = [7] ∧
      (∃! i, RegisteredBy [.set 2 7, .set 2 8, .set 15 6, .set 2 7, .unset 2 7, .set 2 7, .set 15 8,
        .unbind 15, .set 15 7] 2 7 i) ∧
      ¬ Registered [.set 2 7, .set 2 8, .set 15 6, .set 2 7, .unset 2 7, .set 2 7, .set 15 8,
        .unbind 15, .set 15 7] 15 8 := by
  have hs : Reaches posix (failsAt 5) (history posix (failsAt 5) tries [] started)
      (runOps posix (failsAt 5) tries started) := Reaches.runOps (.start started fun _ => rfl)
  have h₂ := registry_history hs 2
  have h₁₅ := registry_history hs 15
  refine ⟨_, hs, rfl, rfl, h₂.2.2.1 7 (by decide), fun h => ?_⟩
  exact absurd ((h₁₅.2.1 8).mpr h) (by decide)

end Sig

end Socketpp
