import Socketpp.Lib.Lines

/-!
# Lib — Dialogues

A receiver reads a stream line by line.  A line is a command, or it is part of a body that a command
has opened, up to the lone mark that ends it.  Which commands open a body is the receiver's affair: a
`Policy` decides from what has been received so far and from the line.

The sender's side is a list of `Parcel`s: the items the sender means and the lines it sends for them.
`received_iff`: at each border between two parcels the receiver has received what the sender means, and
waits for a command, exactly when it opens a body at those lines where the sender means one (`Opens`).
-/

namespace Lib

/-- What a receiver receives. -/
inductive Item (α : Type) where
  | command (line : List α)
  | message (text : List α)
deriving DecidableEq

/-- Whether a command opens a body, after the items received so far. -/
abbrev Policy (α : Type) := List (Item α) → List α → Bool

/-- The items received, and the text so far of a body that is open. -/
structure Receiver (α : Type) where
  items : List (Item α)
  body  : Option (List α)
deriving DecidableEq

namespace Eol

variable {α : Type} [DecidableEq α] {E : Eol α}

/-- Where the last line is complete, what follows begins a line. -/
theorem split_append : ∀ {a : List α}, (E.split a).2 = [] → ∀ b,
    E.split (a ++ b) = ((E.split a).1 ++ (E.split b).1, (E.split b).2)
  | [],          _, _ => rfl
  | [c],         h, _ => by cases h
  | c :: d :: l, h, b => by
      rw [split_cons_cons] at h
      rw [List.cons_append, List.cons_append, split_cons_cons, split_cons_cons]
      by_cases hc : c = E.cr ∧ d = E.lf
      · rw [if_pos hc] at h
        rw [if_pos hc, if_pos hc, split_append h b]
        rfl
      · rw [if_neg hc] at h
        rw [if_neg hc, if_neg hc, ← List.cons_append]
        cases hs : E.split (d :: l) with
        | mk ts r =>
            rw [hs] at h
            cases ts with
            | nil => cases h
            | cons t ts =>
                have ih := split_append (a := d :: l) (by rw [hs]; exact h) b
                rw [hs] at ih
                rw [ih]
                rfl

/-- Lines once complete stay. -/
theorem split_prefix : ∀ a b, (E.split a).1 <+: (E.split (a ++ b)).1
  | [],          _ => List.nil_prefix
  | [_],         _ => List.nil_prefix
  | c :: d :: l, b => by
      rw [List.cons_append, List.cons_append, split_cons_cons, split_cons_cons]
      by_cases hc : c = E.cr ∧ d = E.lf
      · rw [if_pos hc, if_pos hc]
        exact List.cons_prefix_cons.mpr ⟨rfl, split_prefix l b⟩
      · rw [if_neg hc, if_neg hc, ← List.cons_append]
        have ih := split_prefix (d :: l) b
        cases hs : E.split (d :: l) with
        | mk ts r =>
            rw [hs] at ih
            cases ts with
            | nil => exact List.nil_prefix
            | cons t ts =>
                obtain ⟨us, hus⟩ := ih
                cases hs' : E.split (d :: l ++ b) with
                | mk ts' r' =>
                    rw [hs'] at hus
                    subst hus
                    exact ⟨us, rfl⟩

end Eol

namespace Receiver

variable {α : Type} [DecidableEq α] (M : Marks α) (P : Policy α)

/-- The receiver at the start. -/
def start : Receiver α := ⟨[], none⟩

/-- One line. -/
def line (r : Receiver α) (l : List α) : Receiver α :=
  match r.body with
  | none   => ⟨r.items ++ [.command l], if P r.items l then some [] else none⟩
  | some t => if l = [M.dot] then ⟨r.items ++ [.message t], none⟩
    else ⟨r.items, some (t ++ (M.unstuff l ++ [M.lf]))⟩

def lines (r : Receiver α) (ls : List (List α)) : Receiver α := ls.foldl (line M P) r

/-- What a receiver makes of the bytes, and the unfinished line behind them. -/
def receive (w : List α) : Receiver α × List α := (lines M P start (M.split w).1, (M.split w).2)

variable {M P} {r : Receiver α} {ls ls' : List (List α)}

theorem lines_append : lines M P r (ls ++ ls') = lines M P (lines M P r ls) ls' := List.foldl_append

/-- A body up to the lone mark is a message. -/
theorem lines_body : ∀ {ls : List (List α)} {t text : List α} {rest : List (List α)},
    M.text ls = some (text, rest) → ∀ items,
    lines M P ⟨items, some t⟩ ls = lines M P ⟨items ++ [.message (t ++ text)], none⟩ rest
  | [],      _, _,    _,    h, _     => by cases h
  | l :: ls, t, text, rest, h, items => by
      rw [Marks.text] at h
      by_cases hdot : l = [M.dot]
      · rw [if_pos hdot] at h
        cases h
        simp [lines, line, hdot]
      · rw [if_neg hdot] at h
        obtain ⟨⟨u, rest'⟩, hu, heq⟩ := Option.map_eq_some_iff.mp h
        cases heq
        have ih := lines_body (t := t ++ (M.unstuff l ++ [M.lf])) hu items
        rw [lines, List.foldl_cons, line]
        simp only [hdot, if_false]
        rw [← lines, ih]
        simp

/-- Nothing received is taken back. -/
theorem items_prefix (r : Receiver α) (ls : List (List α)) : r.items <+: (lines M P r ls).items := by
  induction ls generalizing r with
  | nil => exact List.prefix_rfl
  | cons l ls ih =>
      refine List.IsPrefix.trans ?_ (ih (line M P r l))
      cases hb : r.body with
      | none => simp [line, hb]
      | some t =>
          by_cases hdot : l = [M.dot]
          · simp [line, hb, hdot]
          · simp [line, hb, hdot]

/-- Behind complete lines. -/
theorem receive_append {a : List α} (h : (M.split a).2 = []) (b : List α) :
    receive M P (a ++ b) = (lines M P (receive M P a).1 (M.split b).1, (M.split b).2) := by
  rw [receive, receive, Eol.split_append h, lines_append]

/-- More bytes, more items. -/
theorem receive_prefix (a b : List α) : (receive M P a).1.items <+: (receive M P (a ++ b)).1.items := by
  obtain ⟨t, ht⟩ := Eol.split_prefix (E := M.toEol) a b
  rw [receive, receive, ← ht, lines_append]
  exact items_prefix _ t

end Receiver

/-! ### The sender -/

/-- What a sender means, and the lines it sends for it: nothing, a command, or a command with a body. -/
inductive Parcel (α : Type) where
  | nothing
  | command (line : List α)
  | body (line text : List α) (ls : List (List α))

namespace Parcel

variable {α : Type} [DecidableEq α]

def items : Parcel α → List (Item α)
  | nothing          => []
  | command l        => [.command l]
  | body l text _    => [.command l, .message text]

def lines : Parcel α → List (List α)
  | nothing     => []
  | command l   => [l]
  | body l _ ls => l :: ls

/-- The lines of a body are those of its text, the lone mark behind them. -/
def Sound (M : Marks α) : Parcel α → Prop
  | body _ text ls => M.text ls = some (text, [])
  | _              => True

/-- The receiver opens a body where the sender means one. -/
def Opened (P : Policy α) (hist : List (Item α)) : Parcel α → Prop
  | nothing    => True
  | command l  => P hist l = false
  | body l _ _ => P hist l = true

/-- It does so in the whole list. -/
def Opens (P : Policy α) : List (Item α) → List (Parcel α) → Prop
  | _,    []      => True
  | hist, p :: ps => p.Opened P hist ∧ Opens P (hist ++ p.items) ps

variable {M : Marks α} {P : Policy α} {hist : List (Item α)}

/-- **One parcel.**  Where a body is meant and none opened, its first line is taken for a command. -/
theorem received_one {p : Parcel α} (h : p.Sound M) :
    Receiver.lines M P ⟨hist, none⟩ p.lines = ⟨hist ++ p.items, none⟩ ↔ p.Opened P hist := by
  cases p with
  | nothing => simp [lines, items, Receiver.lines, Opened]
  | command l =>
      cases hP : P hist l <;> simp [lines, items, Receiver.lines, Receiver.line, Opened, hP]
  | body l text ls =>
      have hfirst : Receiver.lines M P ⟨hist, none⟩ (body l text ls).lines =
          Receiver.lines M P ⟨hist ++ [.command l], if P hist l then some [] else none⟩ ls := rfl
      rw [hfirst]
      cases hP : P hist l with
      | true =>
          rw [if_pos rfl, Receiver.lines_body h]
          simp [Receiver.lines, items, Opened, hP]
      | false =>
          refine iff_of_false (fun heq => ?_) (by simp [Opened, hP])
          cases ls with
          | nil => cases h
          | cons l' ls =>
              have hnext := Receiver.items_prefix (M := M) (P := P)
                ⟨hist ++ [.command l] ++ [.command l'], if P (hist ++ [.command l]) l' then some [] else none⟩ ls
              have hlines : Receiver.lines M P ⟨hist ++ [.command l], none⟩ (l' :: ls) = Receiver.lines M P
                  ⟨hist ++ [.command l] ++ [.command l'], if P (hist ++ [.command l]) l' then some [] else none⟩ ls := rfl
              rw [if_neg Bool.false_ne_true, hlines] at heq
              rw [heq] at hnext
              simp [items] at hnext

/-- **All parcels.** -/
theorem received_iff {ps : List (Parcel α)} (h : ∀ p ∈ ps, p.Sound M) :
    (∀ done, done <+: ps → Receiver.lines M P ⟨hist, none⟩ (done.flatMap lines) =
      ⟨hist ++ done.flatMap items, none⟩) ↔ Opens P hist ps := by
  induction ps generalizing hist with
  | nil =>
      refine iff_of_true (fun done hdone => ?_) trivial
      rw [List.prefix_nil.mp hdone]
      simp [Receiver.lines]
  | cons p ps ih =>
      have hp : Receiver.lines M P ⟨hist, none⟩ p.lines = ⟨hist ++ p.items, none⟩ ↔ p.Opened P hist :=
        received_one (h p List.mem_cons_self)
      have hps := @ih (hist ++ p.items) fun q hq => h q (List.mem_cons_of_mem p hq)
      have hcons : ∀ done, Opened P hist p →
          Receiver.lines M P ⟨hist, none⟩ ((p :: done).flatMap lines) =
            Receiver.lines M P ⟨hist ++ p.items, none⟩ (done.flatMap lines) := by
        intro done hopened
        rw [List.flatMap_cons, Receiver.lines_append, hp.mpr hopened]
      constructor
      · intro hall
        have hopened : Opened P hist p := by
          rw [← hp]
          have hone := hall [p] (List.prefix_append [p] ps)
          simpa only [List.flatMap_singleton] using hone
        refine ⟨hopened, hps.mp fun done hdone => ?_⟩
        have hmore := hall (p :: done) (List.cons_prefix_cons.mpr ⟨rfl, hdone⟩)
        rw [hcons done hopened, List.flatMap_cons, ← List.append_assoc] at hmore
        exact hmore
      · rintro ⟨hopened, hrest⟩ done hdone
        cases done with
        | nil => simp [Receiver.lines]
        | cons q done =>
            obtain ⟨rfl, htail⟩ := List.cons_prefix_cons.mp hdone
            rw [hcons done hopened, hps.mpr hrest done htail, List.flatMap_cons, List.append_assoc]

end Parcel

end Lib
