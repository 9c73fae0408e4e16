import Socketpp.Sig.Registry

/-!
# Sig — delivery to handlers that change the registry

`kill` goes along the list while the handlers it calls change it.  Elements are only appended and
erased, and the iterator only moves to greater numbers, so an element that stays is passed exactly
once (`killLoop_counts`).  What goes wrong is `++` on the iterator of an element that the handler
called from it has erased: `kill` delivers as it should exactly when no handler it comes to takes
itself off the list (`kill_delivers_iff`).
-/

namespace Socketpp
open Lib

namespace Sig

variable {η κ υ : Type} [DecidableEq η] {P : Platform} {E : Env κ}

/-! ### What a handler can do to a list -/

/-- Every list has changed by pushes and erasures only. -/
def Grown (s s' : Sig η κ) : Prop := ∀ t, (s.smap t).Evolves (s'.smap t)

omit [DecidableEq η] in
theorem Grown.refl (s : Sig η κ) : Grown s s := fun t => .refl (s.smap t)

omit [DecidableEq η] in
theorem Grown.trans {s s₁ s' : Sig η κ} (h₁ : Grown s s₁) (h₂ : Grown s₁ s') : Grown s s' :=
  fun t => (h₁ t).trans (h₂ t)

omit [DecidableEq η] in
theorem Calm.grown {X : Int → Prop} {s s' : Sig η κ} (h : Calm X s s') : Grown s s' := by
  intro t
  rw [h.smap]
  exact .refl _

omit [DecidableEq η] in
theorem grown_onList {s : Sig η κ} (signo : Int) {f : StdList η → StdList η}
    (hf : ∀ v : StdList η, v.Evolves (f v)) : Grown s (s.onList signo f) := by
  intro t
  rcases eq_or_ne t signo with rfl | hne
  · simpa [onList] using hf (s.smap t)
  · simpa [onList, hne] using StdList.Evolves.refl (s.smap t)

theorem exec_grown (op : Op η) (s : Sig η κ) :
    (op.exec P E s).Sat (fun _ s' => Grown s s') (fun _ s' => Grown s s') := by
  have hrule := exec_sat (P := P) (E := E) (s := s) (Q := fun _ s' => Grown s s') (fun _ _ _ h => h)
    (fun _ h => h.grown) ?_ ?_ ?_ op
  · exact hrule.mono (fun _ _ h => h) fun _ _ h => h.1
  · intro signo h
    refine (set_cases (fun _ => True) signo h).mono ?_ fun _ _ h => h.1.grown
    rintro b s' (⟨-, -, rfl⟩ | ⟨-, -, s₁, hc, -, rfl⟩)
    · exact .refl s'
    · exact hc.grown.trans (grown_onList signo fun v => .pushBack v h)
  · intro signo h
    simp only [unset, Prog.bind_apply, Prog.get_apply, Outcome.andThen_ret]
    cases (s.smap signo).find h with
    | none => exact Grown.refl s
    | some c => exact grown_onList signo fun v => .keep v _
  · intro signo
    have hclear : Grown s (s.onList signo StdList.clear) := grown_onList signo fun v => .keep v _
    exact (unbind_sat signo).mono (fun _ _ h => hclear.trans h.2.grown)
      fun _ _ h => hclear.trans h.2.grown

/-! ### What takes an element off its list -/

/-- The state an operation leaves, whether it returns or throws. -/
def Op.after (P : Platform) (E : Env κ) (op : Op η) (s : Sig η κ) : Sig η κ :=
  match op.exec P E s with
  | .ret _ s'    => s'
  | .thrown _ s' => s'
  | .spin        => s

/-- The operation takes `h` off the list of `signo`: `unset` of it, `unbind`, or its destruction,
if it has been constructed for that signal. -/
def Op.TakesOff (signo : Int) (h : η) (s : Sig η κ) : Op η → Prop
  | .unset t handler => t = signo ∧ handler = some h
  | .unbind t        => t = signo
  | .destroy g       => g = h ∧ s.object h = some signo
  | .set _ _ | .construct _ _ | .mask _ _ | .unmask _ _ | .sysresume _ _ => False

/-- One of the operations takes `h` off the list of `signo`. -/
def TakenOff (P : Platform) (E : Env κ) (signo : Int) (h : η) : List (Op η) → Sig η κ → Prop
  | [],        _ => False
  | op :: ops, s => op.TakesOff signo h s ∨ TakenOff P E signo h ops (op.after P E s)

/-- `unset` erases an element exactly when it is the one of that handler. -/
theorem unset_stays {s : Sig η κ} {signo : Int} (hn : (s.members signo).Nodup) {c : Cell η}
    (hc : c ∈ (s.smap signo).cells) (t : Int) (g : η) :
    (unset t (some g) s).Sat
      (fun _ s' => c ∈ (s'.smap signo).cells ↔ ¬ (t = signo ∧ g = c.val)) (fun _ _ => False) := by
  simp only [unset, Prog.bind_apply, Prog.get_apply, Outcome.andThen_ret]
  cases hf : (s.smap t).find g with
  | none =>
      show c ∈ (s.smap signo).cells ↔ _
      refine iff_of_true hc ?_
      rintro ⟨rfl, rfl⟩
      exact StdList.find_eq_none.mp hf (StdList.mem_vals.mpr ⟨c, hc, rfl⟩)
  | some j =>
      obtain ⟨hj, rfl⟩ := StdList.find_eq_some hf
      show c ∈ ((s.onList t fun v => v.erase j.id).smap signo).cells ↔ _
      rcases eq_or_ne signo t with rfl | hne
      · have hiff : c.id = j.id ↔ j.val = c.val :=
          ⟨fun h => by rw [StdList.eq_of_id_eq hc hj h],
            fun h => by rw [List.inj_on_of_nodup_map hn hj hc h]⟩
        simp [onList, StdList.mem_erase, hc, hiff]
      · simp [onList, hne, hne.symm, hc]

omit [DecidableEq η] in
/-- Taking `h` off is making a call that removes it. -/
theorem takesOff_iff {op : Op η} {s : Sig η κ} {signo : Int} {h : η} :
    op.TakesOff signo h s ↔ ∃ c ∈ op.calls s, c.Removes signo h := by
  cases op with
  | set t handler => cases handler <;> simp [Op.TakesOff, Op.calls, Call.Removes]
  | unset t handler => cases handler <;> simp [Op.TakesOff, Op.calls, Call.Removes]
  | unbind t => simp [Op.TakesOff, Op.calls, Call.Removes]
  | construct g t => simp [Op.TakesOff, Op.calls, Call.Removes]
  | destroy g =>
      constructor
      · rintro ⟨rfl, ho⟩
        exact ⟨.unset signo g, by simp [Op.calls, ho], .inl rfl⟩
      · rintro ⟨d, hd, hr⟩
        obtain ⟨t, ht, rfl⟩ := List.mem_map.mp hd
        rcases hr with hr | hr
        · cases hr
          exact ⟨rfl, Option.mem_toList.mp ht⟩
        · cases hr
  | mask t u => simp [Op.TakesOff, Op.calls]
  | unmask t u => simp [Op.TakesOff, Op.calls]
  | sysresume t set => simp [Op.TakesOff, Op.calls]

/-- **One operation** leaves an element where it is, or takes its handler off the list. -/
theorem exec_stays {s : Sig η κ} {signo : Int} (hn : (s.members signo).Nodup) {c : Cell η}
    (hc : c ∈ (s.smap signo).cells) (op : Op η) :
    (op.exec P E s).Sat
      (fun _ s' => c ∈ (s'.smap signo).cells ↔ ¬ op.TakesOff signo c.val s)
      (fun _ s' => c ∈ (s'.smap signo).cells ↔ ¬ op.TakesOff signo c.val s) := by
  have hnil : ¬ ∃ d ∈ ([] : List (Call η)), d.Removes signo c.val := by simp
  have hrule := exec_sat (P := P) (E := E) (s := s)
    (Q := fun cs s' => c ∈ (s'.smap signo).cells ↔ ¬ ∃ d ∈ cs, d.Removes signo c.val)
    (fun _ _ _ h => h) ?_ ?_ ?_ ?_ op
  · rw [takesOff_iff]
    refine hrule.mono (fun _ _ h => h) ?_
    rintro e s' ⟨hstays, hcalls⟩
    refine hstays.trans (not_congr ⟨?_, ?_⟩)
    · rintro ⟨d, hd, hr⟩
      exact ⟨d, op.callsThrown_subset s hd, hr⟩
    · rintro ⟨d, hd, hr⟩
      rcases hcalls d hd with hd | ⟨t, h, rfl⟩
      · exact ⟨d, hd, hr⟩
      · simp [Call.Removes] at hr
  · intro s' h
    rw [h.smap]
    exact iff_of_true hc hnil
  · intro t h
    have hset : ¬ ∃ d ∈ [Call.set t h], d.Removes signo c.val := by simp [Call.Removes]
    refine (set_cases (fun _ => True) t h).mono ?_ fun _ _ h => by
      rw [h.1.smap]
      exact iff_of_true hc hnil
    rintro b s' (⟨-, -, rfl⟩ | ⟨-, -, s₁, hs₁, -, rfl⟩)
    · exact iff_of_true hc hset
    · refine iff_of_true ?_ hset
      rcases eq_or_ne signo t with rfl | hne
      · simp [onList, StdList.pushBack, hs₁.smap, hc]
      · simp [onList, hne, hs₁.smap, hc]
  · intro t g
    refine (unset_stays hn hc t g).mono (fun _ _ h => ?_) fun _ _ h => h
    simpa [Call.Removes] using h
  · intro t
    have key : ∀ s' : Sig η κ, s'.smap = (s.onList t StdList.clear).smap →
        (c ∈ (s'.smap signo).cells ↔ ¬ ∃ d ∈ [Call.unbind t], d.Removes signo c.val) := by
      intro s' h
      rw [h]
      rcases eq_or_ne signo t with rfl | hne
      · simp [onList, StdList.clear, StdList.keep, Call.Removes]
      · simp [onList, hne, hne.symm, hc, Call.Removes]
    exact (unbind_sat t).mono (fun _ s' h => key s' h.2.smap) fun _ s' h => key s' h.2.smap

/-- **What a handler does** is more of the run, and pushes and erasures for every list. -/
theorem runOps_grown (ops : List (Op η)) : ∀ s : Sig η κ, Grown s (runOps P E ops s) := by
  induction ops with
  | nil => exact Grown.refl
  | cons op ops ih =>
      intro s
      have hg := exec_grown (P := P) (E := E) op s
      rw [runOps]
      cases hop : op.exec P E s with
      | ret _ s₁ =>
          rw [hop] at hg
          exact Grown.trans hg (ih s₁)
      | thrown e s₁ =>
          rw [hop] at hg
          exact Grown.trans hg (ih s₁)
      | spin =>
          rw [hop] at hg
          exact hg.elim

theorem runOps_stays {signo : Int} {c : Cell η} (ops : List (Op η)) : ∀ {l : List (Call η)}
    {s : Sig η κ}, Reaches P E l s → c ∈ (s.smap signo).cells →
    (c ∈ ((runOps P E ops s).smap signo).cells ↔ ¬ TakenOff P E signo c.val ops s) := by
  induction ops with
  | nil => exact fun _ hc => iff_of_true hc id
  | cons op ops ih =>
      intro l s hs hc
      have hn : (s.members signo).Nodup := by
        rw [members_eq_replay hs]
        exact replay_nodup signo l
      -- the operation ends in `s₁`, one way or the other
      have rest : ∀ {s₁ : Sig η κ}, (∃ l₁, Reaches P E l₁ s₁) → Grown s s₁ →
          (c ∈ (s₁.smap signo).cells ↔ ¬ op.TakesOff signo c.val s) →
          (c ∈ ((runOps P E ops s₁).smap signo).cells ↔
            ¬ (op.TakesOff signo c.val s ∨ TakenOff P E signo c.val ops s₁)) := by
        rintro s₁ ⟨l₁, hs₁⟩ hg hstays
        by_cases hoff : op.TakesOff signo c.val s
        · refine iff_of_false (fun hend => hstays.mp ?_ hoff) (by simp [hoff])
          exact (runOps_grown ops _ signo).mem c hend
            (Nat.lt_of_lt_of_le ((s.smap signo).below c hc) (hg signo).fresh)
        · rw [ih hs₁ (hstays.mpr hoff)]
          simp [hoff]
      have hstays := exec_stays (P := P) (E := E) hn hc op
      have hg := exec_grown (P := P) (E := E) op s
      rw [runOps, TakenOff, Op.after]
      cases hop : op.exec P E s with
      | ret _ s₁ =>
          rw [hop] at hstays hg
          exact rest ⟨_, .returned op hs hop⟩ hg hstays
      | thrown e s₁ =>
          rw [hop] at hstays hg
          exact rest ⟨_, .thrown op hs hop⟩ hg hstays
      | spin =>
          rw [hop] at hg
          exact hg.elim

/-! ### The traversal -/

variable (P E) (B : Behaviour η κ υ) (signo : Int)

/-- The list that `kill` goes along. -/
def Delivery.list (d : Delivery η κ υ) : StdList η := d.reg.smap signo

/-- `kill`, started in `d₀`, comes to the element `c` in the state `d`. -/
inductive Comes (d₀ : Delivery η κ υ) : Delivery η κ υ → Cell η → Prop where
  | first {c : Cell η} (begins : (d₀.list signo).begin = some c) : Comes d₀ d₀ c
  | next {d : Delivery η κ υ} {c c' : Cell η} (before : Comes d₀ d c)
      (moves : ((d.invoke P E B signo c.val).list signo).next c.id = some (some c')) :
      Comes d₀ (d.invoke P E B signo c.val) c'

/-- No handler that `kill` comes to takes itself off the list. -/
def StayPut (d₀ : Delivery η κ υ) : Prop :=
  ∀ d c, Comes P E B signo d₀ d c →
    ¬ TakenOff P E signo c.val (B d.user d.reg c.val signo).1 d.reg

/-- Every handler that `kill` comes to exists: none has been destroyed that is still registered for
this signal by a `set` of its own. -/
def AllExist (d₀ : Delivery η κ υ) : Prop :=
  ∀ d c, Comes P E B signo d₀ d c → (d.reg.object c.val).isSome = true

/-- The handlers push finitely often during the call. -/
def FinitelyOften (d₀ : Delivery η κ υ) : Prop :=
  ∃ N, ∀ d c, Comes P E B signo d₀ d c → ((d.invoke P E B signo c.val).list signo).fresh ≤ N

/-- The handler `h` has been registered from `d` to `d'`: an element of it is there before and
after, and so at all times between, as no number is given twice. -/
def StaysRegistered (h : η) (d d' : Delivery η κ υ) : Prop :=
  ∃ c ∈ (d.list signo).cells, c ∈ (d'.list signo).cells ∧ c.val = h

/-- **A delivery as it should be.**  `kill` ends, and never uses the iterator of an erased
element; the calls it makes are `Fine`; and it calls each handler that stays registered exactly
once. -/
def Delivers (Fine : Invocation η → Prop) (d₀ : Delivery η κ υ) : Prop :=
  ∃ n d' calls, kill P E B n signo d₀ = .ret () d' ∧ d'.log = d₀.log ++ calls ∧
    (∀ e ∈ calls, Fine e) ∧
    ∀ h, StaysRegistered signo h d₀ d' → (calls.map Invocation.handler).count h = 1

variable {P E B signo}

/-- One round. -/
theorem killLoop_some (n : Nat) (c : Cell η) (d : Delivery η κ υ) :
    Prog.loop (killBody P E B signo) (n + 1) (some c) d =
      match ((d.invoke P E B signo c.val).list signo).next c.id with
      | none   => .thrown .erased (d.invoke P E B signo c.val)
      | some i => Prog.loop (killBody P E B signo) n i (d.invoke P E B signo c.val) := by
  cases hn : ((d.invoke P E B signo c.val).list signo).next c.id with
  | none =>
      refine Prog.loop_thrown n ?_
      simp only [Delivery.list] at hn
      simp only [killBody, Prog.bind_apply, Prog.modify_apply, Prog.get_apply, Outcome.andThen_ret, hn]
      rfl
  | some i =>
      refine Prog.loop_inl n ?_
      simp only [Delivery.list] at hn
      simp only [killBody, Prog.bind_apply, Prog.modify_apply, Prog.get_apply, Outcome.andThen_ret, hn]
      rfl

/-- A round of a call that returns. -/
theorem killLoop_returned {n : Nat} {c : Cell η} {d d' : Delivery η κ υ}
    (h : Prog.loop (killBody P E B signo) n (some c) d = .ret () d') :
    ∃ m i, n = m + 1 ∧ ((d.invoke P E B signo c.val).list signo).next c.id = some i ∧
      Prog.loop (killBody P E B signo) m i (d.invoke P E B signo c.val) = .ret () d' := by
  cases n with
  | zero => cases h
  | succ n =>
      rw [killLoop_some] at h
      cases hn : ((d.invoke P E B signo c.val).list signo).next c.id with
      | none => rw [hn] at h; cases h
      | some i =>
          rw [hn] at h
          exact ⟨n, i, rfl, rfl, h⟩

/-- The call of `h` in the state `d`, as it is entered in the log. -/
def Delivery.calling (signo : Int) (h : η) (d : Delivery η κ υ) : Invocation η :=
  ⟨h, h ∈ d.reg.members signo, (d.reg.object h).isSome⟩

theorem Delivery.log_invoke (h : η) (d : Delivery η κ υ) :
    (d.invoke P E B signo h).log = d.log ++ [d.calling signo h] := rfl

/-- The registry of `d` has come about by calls. -/
def Delivery.Reached (P : Platform) (E : Env κ) (d : Delivery η κ υ) : Prop :=
  ∃ l, Reaches P E l d.reg

theorem Delivery.Reached.invoke {d : Delivery η κ υ} (hd : d.Reached P E) (B : Behaviour η κ υ)
    (signo : Int) (h : η) :
    (d.invoke P E B signo h).Reached P E ∧
      (d.list signo).Evolves ((d.invoke P E B signo h).list signo) := by
  obtain ⟨l, hl⟩ := hd
  exact ⟨⟨_, hl.runOps⟩, runOps_grown (B d.user d.reg h signo).1 d.reg signo⟩

theorem Delivery.Reached.eq_of_val {d : Delivery η κ υ} (hd : d.Reached P E) {b c : Cell η}
    (hb : b ∈ (d.list signo).cells) (hc : c ∈ (d.list signo).cells) (h : b.val = c.val) : b = c := by
  obtain ⟨l, hl⟩ := hd
  have hn : (d.reg.members signo).Nodup := by
    rw [members_eq_replay hl]
    exact replay_nodup signo l
  exact List.inj_on_of_nodup_map hn hb hc h

/-- How often a call from the iterator `i` on passes an element that stays: once, if the iterator
has not passed it yet. -/
def due (i : Option (Cell η)) (c : Cell η) : Nat :=
  match i with
  | none   => 0
  | some b => if b.id ≤ c.id then 1 else 0

omit [DecidableEq η] in
/-- `++` from an element. -/
theorem due_next {v : StdList η} {b c : Cell η} {i : Option (Cell η)} (h : v.next b.id = some i)
    (hc : c ∈ v.cells) : due i c = if b.id < c.id then 1 else 0 := by
  split
  · rename_i hlt
    obtain ⟨b', rfl, hle⟩ := StdList.next_le h hc hlt
    exact if_pos hle
  · rename_i hge
    cases i with
    | none => rfl
    | some b' =>
        have := (StdList.next_mem h).2
        exact if_neg (by omega)

/-- **The traversal**, run to its end, passes the elements that stay as often as they are due. -/
theorem killLoop_counts : ∀ (n : Nat) {i : Option (Cell η)} {d d' : Delivery η κ υ},
    d.Reached P E → (∀ b, i = some b → b ∈ (d.list signo).cells) →
    Prog.loop (killBody P E B signo) n i d = .ret () d' →
    (d.list signo).Evolves (d'.list signo) ∧ ∃ calls, d'.log = d.log ++ calls ∧
      ∀ c ∈ (d.list signo).cells, c ∈ (d'.list signo).cells →
        (calls.map Invocation.handler).count c.val = due i c := by
  intro n
  induction n with
  | zero => nofun
  | succ n ih =>
      intro i d d' hd hi hret
      cases i with
      | none =>
          cases hret
          exact ⟨.refl _, [], (List.append_nil _).symm, fun _ _ _ => rfl⟩
      | some b =>
          obtain ⟨m, i, hm, hnext, hret⟩ := killLoop_returned hret
          obtain rfl : n = m := by omega
          obtain ⟨hd₁, hev⟩ := hd.invoke B signo b.val
          obtain ⟨hev', calls, hlog, hcounts⟩ := ih hd₁
            (fun b' hb' => (StdList.next_mem (hb' ▸ hnext)).1) hret
          refine ⟨hev.trans hev', d.calling signo b.val :: calls, ?_, fun c hc hc' => ?_⟩
          · rw [hlog, Delivery.log_invoke, List.append_assoc, List.singleton_append]
          · -- an element that stays is still there when the handler has returned
            have hc₁ := hev.between hev' hc hc'
            rw [List.map_cons, List.count_cons, hcounts c hc₁ hc', due_next hnext hc₁, due,
              Delivery.calling]
            by_cases hbc : b = c
            · simp [hbc]
            · have hval : b.val ≠ c.val := fun h => hbc (hd.eq_of_val (hi b rfl) hc h)
              have hid : b.id ≠ c.id := fun h => hbc (StdList.eq_of_id_eq (hi b rfl) hc h)
              have : b.id < c.id ↔ b.id ≤ c.id := by omega
              simp [hval, this]

/-! ### When `kill` delivers -/

variable {d₀ : Delivery η κ υ}

/-- Where `kill` comes to, the element is on the list. -/
theorem Comes.mem (h₀ : d₀.Reached P E) {d : Delivery η κ υ} {c : Cell η}
    (h : Comes P E B signo d₀ d c) : d.Reached P E ∧ c ∈ (d.list signo).cells := by
  induction h with
  | first hb => exact ⟨h₀, StdList.begin_mem hb⟩
  | next _ hn ih => exact ⟨(ih.1.invoke B signo _).1, (StdList.next_mem hn).1⟩

/-- The iterator stays valid exactly when the handler does not take itself off the list. -/
theorem Comes.next_eq_none (h₀ : d₀.Reached P E) {d : Delivery η κ υ} {c : Cell η}
    (h : Comes P E B signo d₀ d c) :
    ((d.invoke P E B signo c.val).list signo).next c.id = none ↔
      TakenOff P E signo c.val (B d.user d.reg c.val signo).1 d.reg := by
  obtain ⟨⟨l, hl⟩, hmem⟩ := h.mem h₀
  have hev := ((h.mem h₀).1.invoke B signo c.val).2
  have hstays := runOps_stays (B d.user d.reg c.val signo).1 hl hmem
  rw [StdList.next_eq_none, ← not_iff_not, ← hstays]
  constructor
  · intro hex
    push Not at hex
    obtain ⟨b, hb, hid⟩ := hex
    have hlt : b.id < (d.list signo).fresh := hid ▸ (d.list signo).below c hmem
    obtain rfl := StdList.eq_of_id_eq (hev.mem b hb hlt) hmem hid
    exact hb
  · exact fun hc hno => hno c hc rfl

/-- Handlers that stay put and push finitely often let the traversal end. -/
theorem killLoop_ends (h₀ : d₀.Reached P E) (hput : StayPut P E B signo d₀) {N : Nat}
    (hN : ∀ d c, Comes P E B signo d₀ d c → ((d.invoke P E B signo c.val).list signo).fresh ≤ N)
    {Fine : Invocation η → Prop}
    (hfine : ∀ d c, Comes P E B signo d₀ d c → Fine (d.calling signo c.val)) :
    ∀ (k : Nat) {d : Delivery η κ υ} {c : Cell η}, Comes P E B signo d₀ d c → N ≤ c.id + k →
      ∃ n d' calls, Prog.loop (killBody P E B signo) n (some c) d = .ret () d' ∧
        d'.log = d.log ++ calls ∧ ∀ e ∈ calls, Fine e := by
  intro k
  induction k with
  | zero =>
      intro d c hc hle
      -- the number of an element is below the bound
      obtain ⟨hd, hmem⟩ := hc.mem h₀
      have := (d.list signo).below c hmem
      have := (hd.invoke B signo c.val).2.fresh
      have := hN d c hc
      omega
  | succ k ih =>
      intro d c hc hle
      obtain ⟨hd, hmem⟩ := hc.mem h₀
      have hstays := hput d c hc
      have hcall := hfine d c hc
      cases hn : ((d.invoke P E B signo c.val).list signo).next c.id with
      | none => exact absurd ((hc.next_eq_none h₀).mp hn) hstays
      | some i =>
          cases i with
          | none =>
              refine ⟨2, d.invoke P E B signo c.val, [d.calling signo c.val], ?_, rfl,
                by simpa using hcall⟩
              rw [killLoop_some, hn]
              rfl
          | some c' =>
              have hlt := (StdList.next_mem hn).2
              obtain ⟨n, d', calls, hret, hlog, hcalls⟩ := ih (hc.next hn) (by omega)
              refine ⟨n + 1, d', d.calling signo c.val :: calls, ?_, ?_, ?_⟩
              · rw [killLoop_some, hn]
                exact hret
              · rw [hlog, Delivery.log_invoke, List.append_assoc, List.singleton_append]
              · intro e he
                rcases List.mem_cons.mp he with rfl | he
                · exact hcall
                · exact hcalls e he

/-- What a call that returns still has to do where it comes to an element. -/
theorem Comes.rest {n : Nat} {d' : Delivery η κ υ} (hret : kill P E B n signo d₀ = .ret () d')
    {d : Delivery η κ υ} {c : Cell η} (h : Comes P E B signo d₀ d c) :
    ∃ m, Prog.loop (killBody P E B signo) m (some c) d = .ret () d' ∧
      ∃ calls, d.log = d₀.log ++ calls := by
  induction h with
  | first hb =>
      rename_i c
      have hbegin : (d₀.reg.smap signo).begin = some c := hb
      rw [kill, Prog.bind_apply, Prog.get_apply, Outcome.andThen_ret, hbegin] at hret
      exact ⟨n, hret, [], (List.append_nil _).symm⟩
  | @next d c c' _ hn ih =>
      obtain ⟨m, hm, calls, hlog⟩ := ih
      obtain ⟨m', i, -, hnext, hm'⟩ := killLoop_returned hm
      rw [hn] at hnext
      cases hnext
      exact ⟨m', hm', calls ++ [d.calling signo c.val], by
        rw [Delivery.log_invoke, hlog, List.append_assoc]⟩

/-- `kill` makes a call of every element it comes to. -/
theorem delivers_iff (h₀ : d₀.Reached P E) (hfin : FinitelyOften P E B signo d₀)
    {Fine : Invocation η → Prop} :
    Delivers P E B signo Fine d₀ ↔
      StayPut P E B signo d₀ ∧ ∀ d c, Comes P E B signo d₀ d c → Fine (d.calling signo c.val) := by
  constructor
  · rintro ⟨n, d', calls, hret, hlog, hcalls, -⟩
    -- a call of `c` is logged, and is followed by another step, since the run goes on to its end
    have step : ∀ d c, Comes P E B signo d₀ d c → d.calling signo c.val ∈ calls ∧
        ((d.invoke P E B signo c.val).list signo).next c.id ≠ none := by
      intro d c hc
      obtain ⟨m, hm, before, hbefore⟩ := hc.rest hret
      obtain ⟨m', i, -, hnext, hm'⟩ := killLoop_returned hm
      obtain ⟨hd, hmem⟩ := hc.mem h₀
      obtain ⟨-, behind, hbehind, -⟩ := killLoop_counts m' (hd.invoke B signo c.val).1
        (fun b hb => (StdList.next_mem (hb ▸ hnext)).1) hm'
      refine ⟨?_, by simp [hnext]⟩
      rw [hbehind, Delivery.log_invoke, hbefore, List.append_assoc, List.append_assoc,
        List.append_cancel_left_eq] at hlog
      simp [← hlog]
    exact ⟨fun d c hc hoff => (step d c hc).2 ((hc.next_eq_none h₀).mpr hoff),
      fun d c hc => hcalls _ (step d c hc).1⟩
  · rintro ⟨hput, hfine⟩
    obtain ⟨N, hN⟩ := hfin
    have hmain : ∃ n d' calls, kill P E B n signo d₀ = .ret () d' ∧ d'.log = d₀.log ++ calls ∧
        ∀ e ∈ calls, Fine e := by
      cases hb : (d₀.reg.smap signo).begin with
      | none =>
          refine ⟨1, d₀, [], ?_, (List.append_nil _).symm, nofun⟩
          rw [kill, Prog.bind_apply, Prog.get_apply, Outcome.andThen_ret, hb]
          rfl
      | some c =>
          obtain ⟨n, d', calls, hret, hlog, hcalls⟩ := killLoop_ends h₀ hput hN hfine N
            (.first hb) (Nat.le_add_left _ _)
          refine ⟨n, d', calls, ?_, hlog, hcalls⟩
          rw [kill, Prog.bind_apply, Prog.get_apply, Outcome.andThen_ret, hb]
          exact hret
    obtain ⟨n, d', calls, hret, hlog, hcalls⟩ := hmain
    refine ⟨n, d', calls, hret, hlog, hcalls, ?_⟩
    rintro h ⟨c, hc, hc', rfl⟩
    obtain ⟨-, calls', hlog', hcounts⟩ :=
      killLoop_counts n h₀ (fun b hb => StdList.begin_mem hb) hret
    -- both are what has been logged since `d₀`
    obtain rfl : calls = calls' := by
      rw [hlog] at hlog'
      exact List.append_cancel_left hlog'
    rw [hcounts c hc hc']
    obtain ⟨b, hb, hle⟩ := StdList.begin_le hc
    rw [hb]
    exact if_pos hle

/-- **`kill` delivers as it should**, to registered handlers only, exactly when no handler it comes
to takes itself off the list by `unset`, `unbind` or its own destruction.  It calls existing
handlers only exactly when, besides, all it comes to exist. -/
theorem kill_delivers_iff {l : List (Call η)} {s : Sig η κ} (hs : Reaches P E l s) (u : υ)
    (hfin : FinitelyOften P E B signo ⟨s, u, []⟩) :
    (Delivers P E B signo (fun e => e.registered = true) ⟨s, u, []⟩ ↔
      StayPut P E B signo ⟨s, u, []⟩) ∧
    (Delivers P E B signo (fun e => e.registered = true ∧ e.alive = true) ⟨s, u, []⟩ ↔
      StayPut P E B signo ⟨s, u, []⟩ ∧ AllExist P E B signo ⟨s, u, []⟩) := by
  have h₀ : Delivery.Reached P E (⟨s, u, []⟩ : Delivery η κ υ) := ⟨l, hs⟩
  have hreg : ∀ d c, Comes P E B signo ⟨s, u, []⟩ d c → (d.calling signo c.val).registered = true :=
    fun d c hc => decide_eq_true (StdList.mem_vals.mpr ⟨c, (hc.mem h₀).2, rfl⟩)
  rw [delivers_iff h₀ hfin, delivers_iff h₀ hfin]
  exact ⟨and_iff_left hreg, and_congr_right fun _ =>
    ⟨fun h d c hc => (h d c hc).2, fun h d c hc => ⟨hreg d c hc, h d c hc⟩⟩⟩

/-- Handlers at 7, 8 and 9 for the signal 2. -/
def threeHandlers : Sig Nat Unit :=
  runOps posix obliging [.construct 7 2, .construct 8 2, .construct 9 2] (blank Nat)

/-- The handler at 7 takes the next one off the list and constructs another at 10, and the one at 9 destroys
that at 7. -/
def meddling : Behaviour Nat Unit Unit := fun u _ h _ =>
  (if h = 7 then [.unset 2 (some 8), .construct 10 2] else if h = 9 then [.destroy 7] else [], u)

/-- The state in which the given handlers have been called. -/
def meddled (hs : List Nat) : Delivery Nat Unit Unit :=
  hs.foldl (fun d h => d.invoke posix obliging meddling 2 h) ⟨threeHandlers, (), []⟩

/-- `kill` calls 7, 9 and 10. -/
theorem comes_meddled {d : Delivery Nat Unit Unit} {c : Cell Nat}
    (hc : Comes posix obliging meddling 2 ⟨threeHandlers, (), []⟩ d c) :
    (d = meddled [] ∧ c = ⟨0, 7⟩) ∨ (d = meddled [7] ∧ c = ⟨2, 9⟩) ∨ (d = meddled [7, 9] ∧ c = ⟨3, 10⟩) := by
  induction hc with
  | first hb =>
      have hfirst : ((meddled []).list 2).begin = some ⟨0, 7⟩ := rfl
      exact .inl ⟨rfl, Option.some.inj (hb.symm.trans hfirst)⟩
  | next _ hn ih =>
      rcases ih with ⟨rfl, rfl⟩ | ⟨rfl, rfl⟩ | ⟨rfl, rfl⟩
      · have hnext : ((meddled [7]).list 2).next 0 = some (some ⟨2, 9⟩) := rfl
        exact .inr (.inl ⟨rfl, Option.some.inj (Option.some.inj (hn.symm.trans hnext))⟩)
      · have hnext : ((meddled [7, 9]).list 2).next 2 = some (some ⟨3, 10⟩) := rfl
        exact .inr (.inr ⟨rfl, Option.some.inj (Option.some.inj (hn.symm.trans hnext))⟩)
      · have hnext : ((meddled [7, 9, 10]).list 2).next 3 = some none := rfl
        cases Option.some.inj (hn.symm.trans hnext)

theorem kill_delivers_iff_meddling :
    Delivers posix obliging meddling 2 (fun e => e.registered = true ∧ e.alive = true)
      ⟨threeHandlers, (), []⟩ := by
  have hs : Reaches posix obliging _ threeHandlers := Reaches.runOps (.start (blank Nat) fun _ => rfl)
  have hfin : FinitelyOften posix obliging meddling 2 ⟨threeHandlers, (), []⟩ := by
    refine ⟨4, fun d c hc => ?_⟩
    rcases comes_meddled hc with ⟨rfl, rfl⟩ | ⟨rfl, rfl⟩ | ⟨rfl, rfl⟩
    · exact (by decide : 4 ≤ 4)
    · exact (by decide : 4 ≤ 4)
    · exact (by decide : 4 ≤ 4)
  refine (kill_delivers_iff hs () hfin).2.mpr ⟨fun d c hc => ?_, fun d c hc => ?_⟩
  · rcases comes_meddled hc with ⟨rfl, rfl⟩ | ⟨rfl, rfl⟩ | ⟨rfl, rfl⟩ <;>
      simp [meddling, TakenOff, Op.TakesOff]
  · rcases comes_meddled hc with ⟨rfl, rfl⟩ | ⟨rfl, rfl⟩ | ⟨rfl, rfl⟩ <;> rfl

/-- A handler at 7, constructed for the signal 2, and no others. -/
def oneHandler : Sig Nat Unit where
  smap   := Function.update (fun _ => .empty) 2 (StdList.empty.pushBack 7)
  object := Function.update (fun _ => none) 7 (some 2)
  action := Function.update (fun _ => Sigaction.plain .sig_dfl) 2 (Sigaction.plain .sighandler)
  sys    := ()

theorem oneHandler_reached : Reaches posix obliging [.set 2 7] oneHandler :=
  .returned (.construct 7 2) (.start (blank Nat) fun _ => rfl) rfl

/-- Its `operator()` destroys the handler it is called for. -/
def onceOnly : Behaviour Nat Unit Unit := fun u _ h _ => ([.destroy h], u)

/-- **A handler that destroys itself.**  `kill` goes on from the element that its destructor has
erased. -/
theorem kill_erased :
    Reaches posix obliging [.set 2 7] oneHandler ∧
    FinitelyOften posix obliging onceOnly 2 ⟨oneHandler, (), []⟩ ∧
    (∀ n, ∃ d, kill posix obliging onceOnly (n + 1) 2 ⟨oneHandler, (), []⟩ = .thrown .erased d) ∧
    ¬ Delivers posix obliging onceOnly 2 (fun e => e.registered = true) ⟨oneHandler, (), []⟩ := by
  have hkill : ∀ n, ∃ d, kill posix obliging onceOnly (n + 1) 2 ⟨oneHandler, (), []⟩ =
      .thrown .erased d := fun n => ⟨_, rfl⟩
  refine ⟨oneHandler_reached, ⟨1, fun d c hc => ?_⟩, hkill, ?_⟩
  · have hfirst : d = ⟨oneHandler, (), []⟩ ∧ c = ⟨0, 7⟩ := by
      induction hc with
      | first hb =>
          cases hb
          exact ⟨rfl, rfl⟩
      | next _ hn ih =>
          obtain ⟨rfl, rfl⟩ := ih
          cases hn
    obtain ⟨rfl, rfl⟩ := hfirst
    exact Nat.le_refl 1
  · rintro ⟨n, d', calls, hret, -⟩
    cases n with
    | zero => cases hret
    | succ n =>
        obtain ⟨d, hd⟩ := hkill n
        rw [hd] at hret
        cases hret

end Sig

end Socketpp
