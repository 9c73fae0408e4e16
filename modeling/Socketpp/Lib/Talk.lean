import Socketpp.Lib.Triple

/-!
# Lib — Talks

A client talks with a server that answers.  The server is a function from what it has received to the
replies it has given, and takes no reply back (`Answerer`).  Between the two lies a queue: the replies
that have been given and not been read.  `Desk` is what has been received, read and left unread.

A `Talk` is what a client does on that queue, which may depend on the replies it reads.  `Talk.run` runs
it; it comes to nothing where the client would wait for a reply that nothing brings.  `Plays` says that
a program does what a talk does, on the states that stand for a desk.
-/

namespace Lib

/-- A server: the replies given to what has been received. -/
structure Answerer (α ρ : Type) where
  replies : List α → List ρ
  mono    : ∀ a b, replies a <+: replies (a ++ b)

namespace Answerer

variable {α ρ : Type} (V : Answerer α ρ)

/-- The replies that `b` brings, behind `a`. -/
def more (a b : List α) : List ρ := (V.replies (a ++ b)).drop (V.replies a).length

theorem replies_append (a b : List α) : V.replies (a ++ b) = V.replies a ++ V.more a b := by
  obtain ⟨t, ht⟩ := V.mono a b
  rw [more, ← ht, List.drop_left]

@[simp] theorem more_nil (a : List α) : V.more a [] = [] := by
  rw [more, List.append_nil, List.drop_length]

theorem more_append (a b c : List α) : V.more a (b ++ c) = V.more a b ++ V.more (a ++ b) c := by
  have h : V.replies a ++ V.more a (b ++ c) = V.replies a ++ (V.more a b ++ V.more (a ++ b) c) := by
    rw [← V.replies_append a (b ++ c), ← List.append_assoc (V.replies a), ← V.replies_append a b,
      ← V.replies_append (a ++ b) c, List.append_assoc a b c]
  exact List.append_cancel_left h

/-- A server that gives its replies in parts. -/
def flat (U : Answerer α (List ρ)) : Answerer α ρ where
  replies a := (U.replies a).flatten
  mono a b := by
    rw [U.replies_append, List.flatten_append]
    exact List.prefix_append _ _

theorem more_flat (U : Answerer α (List ρ)) (a b : List α) : U.flat.more a b = (U.more a b).flatten := by
  have h := U.flat.replies_append a b
  simp only [flat, U.replies_append, List.flatten_append] at h
  exact (List.append_cancel_left h).symm

/-! ### One reply to each request -/

variable {q : Type}

/-- The replies to requests, each given with the requests before it in view. -/
def answers (answer : List q → q → ρ) : List q → List q → List ρ
  | _,    []      => []
  | hist, x :: xs => answer hist x :: answers answer (hist ++ [x]) xs

theorem answers_append (answer : List q → q → ρ) (hist xs ys : List q) :
    answers answer hist (xs ++ ys) = answers answer hist xs ++ answers answer (hist ++ xs) ys := by
  induction xs generalizing hist with
  | nil => simp [answers]
  | cons x xs ih => simp [answers, ih, List.append_assoc]

/-- A server that finds requests in what it receives and answers each of them once. -/
def each (requests : List α → List q) (mono : ∀ a b, requests a <+: requests (a ++ b))
    (answer : List q → q → ρ) : Answerer α ρ where
  replies a := answers answer [] (requests a)
  mono a b := by
    obtain ⟨t, ht⟩ := mono a b
    rw [← ht, answers_append]
    exact List.prefix_append _ _

/-- What brings some requests brings the replies to them. -/
theorem more_each {requests : List α → List q} {mono : ∀ a b, requests a <+: requests (a ++ b)}
    {answer : List q → q → ρ} {a b : List α} (xs : List q) (h : requests (a ++ b) = requests a ++ xs) :
    (each requests mono answer).more a b = answers answer (requests a) xs := by
  have happ := (each requests mono answer).replies_append a b
  simp only [each, h, answers_append, List.nil_append] at happ
  exact (List.append_cancel_left happ).symm

end Answerer

/-- What the server has received, and its replies: those the client has read, and those it has not. -/
structure Desk (α ρ : Type) where
  heard  : List α
  read   : List ρ
  unread : List ρ

/-- The head of a queue that `a` has joined, and what is behind it. -/
def enqueue {ρ : Type} (us : List ρ) (a : ρ) : ρ × List ρ :=
  match us with
  | []      => (a, [])
  | u :: us => (u, us ++ [a])

theorem append_enqueue {ρ : Type} (us : List ρ) (a : ρ) : us ++ [a] = (enqueue us a).1 :: (enqueue us a).2 := by
  cases us with
  | nil => rfl
  | cons u us => rfl

@[simp] theorem length_enqueue {ρ : Type} (us : List ρ) (a : ρ) : (enqueue us a).2.length = us.length := by
  cases us with
  | nil => rfl
  | cons u us => simp [enqueue]

/-- What a client does. -/
inductive Talk (α ρ β : Type) where
  | done (b : β)
  | say (w : List α) (next : Talk α ρ β)
  | hear (next : ρ → Talk α ρ β)

namespace Desk

variable {α ρ : Type}

/-- The server receives `w`. -/
def say (V : Answerer α ρ) (d : Desk α ρ) (w : List α) : Desk α ρ :=
  { d with heard := d.heard ++ w, unread := d.unread ++ V.more d.heard w }

/-- The client reads `r`, in front of `rs`. -/
def hear (d : Desk α ρ) (r : ρ) (rs : List ρ) : Desk α ρ :=
  { d with read := d.read ++ [r], unread := rs }

end Desk

namespace Talk

variable {α ρ β γ : Type} {V : Answerer α ρ}

def bind : Talk α ρ β → (β → Talk α ρ γ) → Talk α ρ γ
  | done b,    f => f b
  | say w t,   f => say w (t.bind f)
  | hear next, f => hear fun r => (next r).bind f

/-- Say something, and hear a reply. -/
def exchange (w : List α) (next : ρ → Talk α ρ β) : Talk α ρ β := say w (hear next)

/-- What a talk comes to. -/
def run (V : Answerer α ρ) : Talk α ρ β → Desk α ρ → Option (β × Desk α ρ)
  | done b,    d => some (b, d)
  | say w t,   d => t.run V (d.say V w)
  | hear next, d =>
    match d.unread with
    | []      => none
    | r :: rs => (next r).run V (d.hear r rs)

theorem run_bind (t : Talk α ρ β) (f : β → Talk α ρ γ) (d : Desk α ρ) :
    (t.bind f).run V d = (t.run V d).bind fun p => (f p.1).run V p.2 := by
  induction t generalizing d with
  | done b => rfl
  | say w t ih => exact ih _
  | hear next ih =>
      rw [bind, run, run]
      cases d.unread with
      | nil => rfl
      | cons r rs => exact ih r _

/-- A talk that has come to something. -/
theorem run_bind_some {t : Talk α ρ β} {f : β → Talk α ρ γ} {d d₁ : Desk α ρ} {b : β}
    (h : t.run V d = some (b, d₁)) : (t.bind f).run V d = (f b).run V d₁ := by
  rw [run_bind, h]
  rfl

/-- **Replies are neither lost nor read twice**, whatever is said and however many are read. -/
theorem run_ledger (t : Talk α ρ β) {d d' : Desk α ρ} {b : β} (h : t.run V d = some (b, d')) :
    ∃ w, d'.heard = d.heard ++ w ∧ d'.read ++ d'.unread = d.read ++ d.unread ++ V.more d.heard w := by
  induction t generalizing d with
  | done b =>
      cases h
      exact ⟨[], (List.append_nil _).symm, by rw [V.more_nil, List.append_nil]⟩
  | say w t ih =>
      obtain ⟨w', hheard, hreplies⟩ := ih h
      refine ⟨w ++ w', ?_, ?_⟩
      · rw [hheard, Desk.say, List.append_assoc]
      · rw [hreplies, Desk.say, V.more_append]
        simp only [List.append_assoc]
  | hear next ih =>
      rw [run] at h
      cases hu : d.unread with
      | nil => rw [hu] at h; cases h
      | cons r rs =>
          rw [hu] at h
          obtain ⟨w, hheard, hreplies⟩ := ih r h
          refine ⟨w, hheard, ?_⟩
          rw [hreplies, Desk.hear, List.append_assoc d.read]
          rfl

/-- An exchange reads the first reply that is unread once the server has answered. -/
theorem run_exchange {w : List α} {next : ρ → Talk α ρ β} {d : Desk α ρ} {r : ρ} {rs : List ρ}
    (h : d.unread ++ V.more d.heard w = r :: rs) :
    (exchange w next).run V d = (next r).run V ⟨d.heard ++ w, d.read ++ [r], rs⟩ := by
  simp only [exchange, run, Desk.say, h, Desk.hear]

/-- **An exchange that is answered once** puts the answer at the end of the queue, and takes a reply from
its head. -/
theorem run_exchange_one {w : List α} (next : ρ → Talk α ρ β) {d : Desk α ρ} {a : ρ}
    (h : V.more d.heard w = [a]) :
    (exchange w next).run V d = (next (enqueue d.unread a).1).run V
      ⟨d.heard ++ w, d.read ++ [(enqueue d.unread a).1], (enqueue d.unread a).2⟩ := by
  refine run_exchange ?_
  rw [h, append_enqueue]

end Talk

/-! ### Programs that play a talk -/

section Plays

variable {ε σ α ρ β γ : Type}

/-- Given enough iterations the program returns `b` in the state `s'`. -/
def Comes (p : Nat → Prog ε σ β) (s : σ) (b : β) (s' : σ) : Prop := ∃ N, ∀ n, N ≤ n → p n s = .ret b s'

theorem Comes.bind {p : Nat → Prog ε σ β} {f : β → Nat → Prog ε σ γ} {s s₁ s' : σ} {b : β} {c : γ}
    (hp : Comes p s b s₁) (hf : Comes (f b) s₁ c s') : Comes (fun n => p n >>= fun b => f b n) s c s' := by
  obtain ⟨N, hN⟩ := hp
  obtain ⟨N', hN'⟩ := hf
  exact ⟨max N N', fun n hn => (Prog.bind_of_ret (hN n (Nat.le_trans (Nat.le_max_left N N') hn))).trans
    (hN' n (Nat.le_trans (Nat.le_max_right N N') hn))⟩

/-- From each state that stands for a desk the program comes to what the talk comes to, and to a state
that stands for the desk then. -/
def Plays (At : σ → Desk α ρ → Prop) (V : Answerer α ρ) (p : Nat → Prog ε σ β) (t : Talk α ρ β) : Prop :=
  ∀ s d b d', At s d → t.run V d = some (b, d') → ∃ s', Comes p s b s' ∧ At s' d'

variable {At : σ → Desk α ρ → Prop} {V : Answerer α ρ}

theorem Plays.done (b : β) : Plays At V (fun _ => (pure b : Prog ε σ β)) (.done b) := by
  intro s d b' d' hs h
  cases h
  exact ⟨s, ⟨0, fun _ _ => rfl⟩, hs⟩

/-- **Sequencing.** -/
theorem Plays.bind {p : Nat → Prog ε σ β} {t : Talk α ρ β} {f : β → Nat → Prog ε σ γ} {u : β → Talk α ρ γ}
    (hp : Plays At V p t) (hf : ∀ b, Plays At V (f b) (u b)) :
    Plays At V (fun n => p n >>= fun b => f b n) (t.bind u) := by
  intro s d c d' hs h
  rw [Talk.run_bind] at h
  obtain ⟨⟨b, d₁⟩, h₁, h₂⟩ := Option.bind_eq_some_iff.mp h
  obtain ⟨s₁, hp₁, hs₁⟩ := hp s d b d₁ hs h₁
  obtain ⟨s', hf', hs'⟩ := hf b s₁ d₁ c d' hs₁ h₂
  exact ⟨s', hp₁.bind hf', hs'⟩

/-- Something said, and what follows it. -/
theorem Plays.say {p : Prog ε σ β} {w : List α} {f : β → Nat → Prog ε σ γ} {t : Talk α ρ γ}
    (hp : ∀ s d, At s d → ∃ b s', p s = .ret b s' ∧ At s' (d.say V w)) (hf : ∀ b, Plays At V (f b) t) :
    Plays At V (fun n => p >>= fun b => f b n) (.say w t) := by
  intro s d c d' hs h
  obtain ⟨b, s₁, hret, hs₁⟩ := hp s d hs
  obtain ⟨s', hf', hs'⟩ := hf b s₁ _ c d' hs₁ h
  exact ⟨s', Comes.bind (p := fun _ => p) ⟨0, fun _ _ => hret⟩ hf', hs'⟩

/-- A program that reads a reply. -/
theorem Plays.hear {p : Nat → Prog ε σ β} {f : ρ → β}
    (hp : ∀ s d r rs, At s d → d.unread = r :: rs → ∃ s', Comes p s (f r) s' ∧ At s' (d.hear r rs)) :
    Plays At V p (.hear fun r => .done (f r)) := by
  intro s d b d' hs h
  rw [Talk.run] at h
  cases hu : d.unread with
  | nil => rw [hu] at h; cases h
  | cons r rs =>
      rw [hu] at h
      cases h
      exact hp s d r rs hs hu

end Plays

end Lib
