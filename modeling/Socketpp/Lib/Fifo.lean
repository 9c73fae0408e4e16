import Socketpp.Lib.Prog

/-!
# Lib — Queues and sessions

* `Fifo`: a queue together with what has gone in and what has come out; that nothing is lost,
  duplicated or reordered is its field `law`.  `Moves` is its runs.
* `session`: a list of operations run one after another, each on the state the one before it
  left, whether that one returned or threw.
* `Booked`: a session in balance.  `Bal s D` says that the state `s` accounts for the items `D`;
  each operation posts some items to the account, `Post` says which ones it may post, and the
  balance holds after every operation.  `booked_session` derives it from one operation.
* `Each`: a session whose operations each do what `Post` says.  `each_session` derives it with an
  invariant that may depend on the operations still to come.
* `Audited`: a session whose operations may also take items off the account.  `audited_iff` says in
  which sessions they only take off what they may, from the same for one operation.
-/

namespace Lib

variable {ε σ α β Op : Type}

/-- A queue with its history. -/
structure Fifo (β : Type) where
  pushed : List β
  popped : List β
  held   : List β
  law    : pushed = popped ++ held

namespace Fifo

/-- Put `xs` in. -/
def push (q : Fifo β) (xs : List β) : Fifo β :=
  ⟨q.pushed ++ xs, q.popped, q.held ++ xs, by rw [q.law, List.append_assoc]⟩

/-- Take `k` items out. -/
def pop (q : Fifo β) (k : Nat) : Fifo β :=
  ⟨q.pushed, q.popped ++ q.held.take k, q.held.drop k, by
    rw [List.append_assoc, List.take_append_drop, q.law]⟩

@[simp] theorem pushed_push (q : Fifo β) (xs : List β) : (q.push xs).pushed = q.pushed ++ xs := rfl
@[simp] theorem popped_push (q : Fifo β) (xs : List β) : (q.push xs).popped = q.popped := rfl
@[simp] theorem held_push (q : Fifo β) (xs : List β) : (q.push xs).held = q.held ++ xs := rfl
@[simp] theorem pushed_pop (q : Fifo β) (k : Nat) : (q.pop k).pushed = q.pushed := rfl
@[simp] theorem popped_pop (q : Fifo β) (k : Nat) :
    (q.pop k).popped = q.popped ++ q.held.take k := rfl
@[simp] theorem held_pop (q : Fifo β) (k : Nat) : (q.pop k).held = q.held.drop k := rfl

/-- Two queues with the same outlet and contents are the same queue. -/
theorem eq_of_popped_held {q q' : Fifo β} (h₁ : q.popped = q'.popped) (h₂ : q.held = q'.held) :
    q = q' := by
  obtain ⟨_, _, _, hl⟩ := q
  obtain ⟨_, _, _, hl'⟩ := q'
  subst h₁ h₂ hl hl'
  rfl

/-- `q'` is `q` after pushes of `xs` in all, with any pops before, between and after them. -/
inductive Moves (q : Fifo β) : List β → Fifo β → Prop where
  | refl : Moves q [] q
  | push {xs : List β} {q' : Fifo β} (h : Moves q xs q') (ys : List β) :
      Moves q (xs ++ ys) (q'.push ys)
  | pop {xs : List β} {q' : Fifo β} (h : Moves q xs q') (k : Nat) : Moves q xs (q'.pop k)

namespace Moves

variable {q q₁ q' : Fifo β} {xs ys : List β}

theorem trans (h₁ : Moves q xs q₁) (h₂ : Moves q₁ ys q') : Moves q (xs ++ ys) q' := by
  induction h₂ with
  | refl => rw [List.append_nil]; exact h₁
  | push _ zs ih => rw [← List.append_assoc]; exact ih.push zs
  | pop _ k ih => exact ih.pop k

/-- **Nothing is lost, duplicated or reordered.** -/
theorem pushed_eq (h : Moves q xs q') : q'.pushed = q.pushed ++ xs := by
  induction h with
  | refl => rw [List.append_nil]
  | push _ zs ih => rw [pushed_push, ih, List.append_assoc]
  | pop _ k ih => rw [pushed_pop, ih]

end Moves

end Fifo

/-! ### Sessions -/

/-- Run the operations in turn; the record of each is what it came to and the state it left. -/
def session (exec : Op → Prog ε σ α) : List Op → σ → List (Except ε α × σ)
  | [],        _ => []
  | op :: ops, s =>
    match exec op s with
    | .ret a s'    => (.ok a, s') :: session exec ops s'
    | .thrown e s' => (.error e, s') :: session exec ops s'
    | .spin        => []

/-- The record `l` of the operations from the state `s`, which accounts for `D`, stays in
balance: each operation runs to its end, posts items that `Post` allows, and leaves a state that
accounts for all items posted so far. -/
inductive Booked (Bal : σ → List β → Prop)
    (Post : Op → σ → Except ε α → σ → List β → Prop) :
    σ → List β → List Op → List (Except ε α × σ) → Prop where
  | nil (s : σ) (D : List β) : Booked Bal Post s D [] []
  | cons {s s' : σ} {D xs : List β} {op : Op} {ops : List Op} {r : Except ε α}
      {l : List (Except ε α × σ)} (post : Post op s r s' xs) (bal : Bal s' (D ++ xs))
      (rest : Booked Bal Post s' (D ++ xs) ops l) : Booked Bal Post s D (op :: ops) ((r, s') :: l)

/-- What one operation must do for sessions to stay in balance. -/
def Posts (Bal : σ → List β → Prop) (Post : Op → σ → Except ε α → σ → List β → Prop)
    (exec : Op → Prog ε σ α) : Prop :=
  ∀ op s D, Bal s D → (exec op s).Sat
    (fun a s' => ∃ xs, Post op s (.ok a) s' xs ∧ Bal s' (D ++ xs))
    (fun e s' => ∃ xs, Post op s (.error e) s' xs ∧ Bal s' (D ++ xs))

/-- **The run rule of sessions.** -/
theorem booked_session {Bal : σ → List β → Prop} {Post : Op → σ → Except ε α → σ → List β → Prop}
    {exec : Op → Prog ε σ α} (hexec : Posts Bal Post exec) :
    ∀ ops s D, Bal s D → Booked Bal Post s D ops (session exec ops s) := by
  intro ops
  induction ops with
  | nil => intro s D _; exact .nil s D
  | cons op ops ih =>
      intro s D hs
      have h := hexec op s D hs
      unfold session
      cases hop : exec op s with
      | ret a s' =>
          rw [hop] at h
          obtain ⟨xs, hp, hb⟩ := h
          exact .cons hp hb (ih s' _ hb)
      | thrown e s' =>
          rw [hop] at h
          obtain ⟨xs, hp, hb⟩ := h
          exact .cons hp hb (ih s' _ hb)
      | spin => rw [hop] at h; exact h.elim

/-- The record `l` of the operations from the state `s`: each operation runs to its end, as `Post` says. -/
inductive Each (Post : Op → σ → Except ε α → σ → Prop) : σ → List Op → List (Except ε α × σ) → Prop where
  | nil (s : σ) : Each Post s [] []
  | cons {s s' : σ} {op : Op} {ops : List Op} {r : Except ε α} {l : List (Except ε α × σ)}
      (post : Post op s r s') (rest : Each Post s' ops l) : Each Post s (op :: ops) ((r, s') :: l)

/-- **The run rule with what is still to come.**  The invariant may depend on the operations left. -/
theorem each_session {Post : Op → σ → Except ε α → σ → Prop} {I : List Op → σ → Prop}
    {exec : Op → Prog ε σ α} (hstep : ∀ op ops s, I (op :: ops) s → (exec op s).Sat
      (fun a s' => Post op s (.ok a) s' ∧ I ops s') (fun e s' => Post op s (.error e) s' ∧ I ops s')) :
    ∀ ops s, I ops s → Each Post s ops (session exec ops s) := by
  intro ops
  induction ops with
  | nil => exact fun s _ => .nil s
  | cons op ops ih =>
      intro s hs
      have h := hstep op ops s hs
      unfold session
      cases hop : exec op s with
      | ret a s' =>
          rw [hop] at h
          exact .cons h.1 (ih s' h.2)
      | thrown e s' =>
          rw [hop] at h
          exact .cons h.1 (ih s' h.2)
      | spin =>
          rw [hop] at h
          exact h.elim

/-- The record `l` of the operations from the state `s`, which accounts for `D`: each operation runs to
its end, turns the account into one that `Entry` allows, and leaves a state that accounts for that. -/
inductive Audited (Bal : σ → List β → Prop)
    (Entry : Op → σ → Except ε α → σ → List β → List β → Prop) :
    σ → List β → List Op → List (Except ε α × σ) → Prop where
  | nil (s : σ) (D : List β) : Audited Bal Entry s D [] []
  | cons {s s' : σ} {D D' : List β} {op : Op} {ops : List Op} {r : Except ε α}
      {l : List (Except ε α × σ)} (entry : Entry op s r s' D D') (bal : Bal s' D')
      (rest : Audited Bal Entry s' D' ops l) : Audited Bal Entry s D (op :: ops) ((r, s') :: l)

/-- Every operation of a session starts in a state that `C` allows it in. -/
def Allowed (exec : Op → Prog ε σ α) (C : Op → σ → Prop) : List Op → σ → Prop
  | [],        _ => True
  | op :: ops, s => C op s ∧
    match exec op s with
    | .ret _ s'    => Allowed exec C ops s'
    | .thrown _ s' => Allowed exec C ops s'
    | .spin        => True

/-- An allowed operation, and the session after it. -/
theorem allowed_cons {exec : Op → Prog ε σ α} {C : Op → σ → Prop} {op : Op} {ops : List Op} {s s' : σ}
    {r : Except ε α} (h : (exec op s).result = some (r, s')) :
    Allowed exec C (op :: ops) s ↔ C op s ∧ Allowed exec C ops s' := by
  rw [Allowed]
  cases hx : exec op s with
  | ret a s₁ => rw [hx] at h; cases h; rfl
  | thrown e s₁ => rw [hx] at h; cases h; rfl
  | spin => rw [hx] at h; cases h

theorem session_cons {exec : Op → Prog ε σ α} {op : Op} {ops : List Op} {s s' : σ} {r : Except ε α}
    (h : (exec op s).result = some (r, s')) :
    session exec (op :: ops) s = (r, s') :: session exec ops s' := by
  rw [session]
  cases hx : exec op s with
  | ret a s₁ => rw [hx] at h; cases h; rfl
  | thrown e s₁ => rw [hx] at h; cases h; rfl
  | spin => rw [hx] at h; cases h

/-- **The run rule of audits.**  `J` is the invariant of the sessions whose operations are allowed; a
state accounts for one list only, so an audit that goes well has kept it. -/
theorem audited_iff {Bal : σ → List β → Prop}
    {Entry : Op → σ → Except ε α → σ → List β → List β → Prop} {exec : Op → Prog ε σ α}
    {J : σ → List β → Prop} {C : Op → σ → Prop} {A : Op → Prop}
    (hbal : ∀ s D, J s D → Bal s D) (huniq : ∀ s D D', Bal s D → Bal s D' → D = D')
    (hstep : ∀ op s D, A op → J s D → ∃ r s', (exec op s).result = some (r, s') ∧
      (C op s → ∃ D', Entry op s r s' D D' ∧ J s' D') ∧ (∀ D', Entry op s r s' D D' → C op s)) :
    ∀ ops s D, (∀ op ∈ ops, A op) → J s D →
      (Audited Bal Entry s D ops (session exec ops s) ↔ Allowed exec C ops s) := by
  intro ops
  induction ops with
  | nil => exact fun s D _ _ => iff_of_true (.nil s D) trivial
  | cons op ops ih =>
      intro s D hA hJ
      obtain ⟨r, s', hres, hsuff, hnec⟩ := hstep op s D (hA op List.mem_cons_self) hJ
      have hA' : ∀ op ∈ ops, A op := fun op hop => hA op (List.mem_cons_of_mem _ hop)
      rw [session_cons hres, allowed_cons hres]
      constructor
      · rintro (_ | ⟨entry, bal, rest⟩)
        rename_i D'
        have hC := hnec D' entry
        obtain ⟨D₁, -, hJ'⟩ := hsuff hC
        obtain rfl := huniq s' D₁ D' (hbal s' D₁ hJ') bal
        exact ⟨hC, (ih s' D₁ hA' hJ').mp rest⟩
      · rintro ⟨hC, hrest⟩
        obtain ⟨D', entry, hJ'⟩ := hsuff hC
        exact .cons entry (hbal s' D' hJ') ((ih s' D' hA' hJ').mpr hrest)

end Lib
