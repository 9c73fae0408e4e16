import Mathlib.Data.List.Basic
import Mathlib.Data.List.Infix
import Mathlib.Tactic.Cases

/-!
# Lib — Lines

Text in lines that end with a two-item mark, such as CR LF, over any type of items.

* `lineEnd l`: the length of the first line of `l`, its end included.
* `looks l`: what a reader sees who takes `l` line by line, that is `l` itself and what is left
  behind each line end, as long as anything is left.
* `split l`: the lines of `l` without their ends, and the unfinished rest.

The second half is about bodies with a lone mark as their last line (dot-stuffing).  `stuff`
doubles that mark at line starts, and expands line feeds; `receive` undoes both and stops at the
mark (`receive_stuff`).  An encoder that stuffs piece by piece, and looks one item behind each
piece, differs from `stuff` on the whole at the borders of the pieces only
(`wires_eq_wire_iff`).
-/

namespace Lib

/-- The two items of a line end. -/
structure Eol (α : Type) where
  cr : α
  lf : α
  ne : cr ≠ lf

namespace Eol

variable {α : Type} [DecidableEq α] (E : Eol α)

/-- The length of the first line, its end included. -/
def lineEnd : List α → Option Nat
  | c :: d :: l => if c = E.cr ∧ d = E.lf then some 2 else (lineEnd (d :: l)).map (· + 1)
  | _ => none

/-- What is left behind each line end, as long as anything is left. -/
def behind : List α → List (List α)
  | c :: d :: l =>
    if c = E.cr ∧ d = E.lf then (if l.isEmpty then [] else l :: behind l) else behind (d :: l)
  | _ => []

/-- What a reader sees who takes the list line by line. -/
def looks (l : List α) : List (List α) := if l.isEmpty then [] else l :: E.behind l

/-- The lines, without their ends, and the unfinished rest. -/
def split : List α → List (List α) × List α
  | c :: d :: l =>
    if c = E.cr ∧ d = E.lf then ([] :: (split l).1, (split l).2)
    else
      match split (d :: l) with
      | ([], r)      => ([], c :: r)
      | (t :: ts, r) => ((c :: t) :: ts, r)
  | l => ([], l)

variable {E} {l t r : List α} {e : Nat}

theorem lineEnd_cons_cons (c d : α) (l : List α) :
    E.lineEnd (c :: d :: l) =
      if c = E.cr ∧ d = E.lf then some 2 else (E.lineEnd (d :: l)).map (· + 1) := rfl

/-- A line end is inside the list. -/
theorem lineEnd_bounds : ∀ {l : List α} {e : Nat}, E.lineEnd l = some e → 2 ≤ e ∧ e ≤ l.length
  | [],          _, h => nomatch h
  | [_],         _, h => nomatch h
  | c :: d :: l, e, h => by
      rw [lineEnd_cons_cons] at h
      split at h
      · cases h
        exact ⟨Nat.le_refl 2, by simp⟩
      · obtain ⟨e', h', rfl⟩ := Option.map_eq_some_iff.mp h
        have hb := lineEnd_bounds h'
        simp only [List.length_cons] at hb ⊢
        omega

/-- Items behind the first line do not matter. -/
theorem lineEnd_append : ∀ {l : List α} {e : Nat}, E.lineEnd l = some e → ∀ r,
    E.lineEnd (l ++ r) = some e
  | [],          _, h, _ => nomatch h
  | [_],         _, h, _ => nomatch h
  | c :: d :: l, e, h, r => by
      rw [List.cons_append, List.cons_append, lineEnd_cons_cons]
      rw [lineEnd_cons_cons] at h
      split at h
      · rename_i hc
        rw [if_pos hc]
        exact h
      · rename_i hc
        obtain ⟨e', h', rfl⟩ := Option.map_eq_some_iff.mp h
        have ih := lineEnd_append h' r
        rw [List.cons_append] at ih
        rw [if_neg hc, ih]
        rfl

/-- A text without a line end in it, and its line end. -/
theorem lineEnd_line : ∀ {t : List α}, E.lineEnd t = none → ∀ r,
    E.lineEnd (t ++ E.cr :: E.lf :: r) = some (t.length + 2)
  | [],          _, _ => by simp [lineEnd_cons_cons]
  | [c],         _, r => by
      simp [lineEnd_cons_cons, E.ne]
  | c :: d :: t, h, r => by
      rw [lineEnd_cons_cons] at h
      split at h
      · cases h
      · rename_i hc
        have ih := lineEnd_line (Option.map_eq_none_iff.mp h) r
        rw [List.cons_append] at ih
        rw [List.cons_append, List.cons_append, lineEnd_cons_cons, if_neg hc, ih]
        rfl

/-- Without a line feed there is no line end. -/
theorem lineEnd_of_notMem : ∀ {l : List α}, E.lf ∉ l → E.lineEnd l = none
  | [],          _ => rfl
  | [_],         _ => rfl
  | c :: d :: l, h => by
      have hd : d ≠ E.lf := fun hd => h (by simp [hd])
      rw [lineEnd_cons_cons, if_neg fun hc => hd hc.2,
        lineEnd_of_notMem fun hm => h (List.mem_cons_of_mem c hm)]
      rfl

theorem lineEnd_cons {c : α} (hc : c ≠ E.cr) {l : List α} (h : E.lineEnd l = none) :
    E.lineEnd (c :: l) = none := by
  cases l with
  | nil => rfl
  | cons d l => rw [lineEnd_cons_cons, if_neg fun h' => hc h'.1, h, Option.map_none]

/-- Items in front that do not start a line end. -/
theorem lineEnd_append_iff : ∀ {v : List α}, E.cr ∉ v → ∀ l,
    E.lineEnd (v ++ l) = none ↔ E.lineEnd l = none
  | [],     _, l => by rw [List.nil_append]
  | c :: v, h, l => by
      have hc : c ≠ E.cr := fun hc => h (by simp [hc])
      rw [List.cons_append, ← lineEnd_append_iff (fun hm => h (List.mem_cons_of_mem c hm)) l]
      cases hv : v ++ l with
      | nil => exact Iff.rfl
      | cons d t => rw [lineEnd_cons_cons, if_neg fun h' => hc h'.1, Option.map_eq_none_iff]

/-- An item behind that does not finish a line end. -/
theorem lineEnd_concat_iff {g : α} (hg : g ≠ E.lf) : ∀ {l : List α},
    E.lineEnd (l ++ [g]) = none ↔ E.lineEnd l = none
  | []          => Iff.rfl
  | [c]         => by
      rw [List.singleton_append, lineEnd_cons_cons, if_neg fun h => hg h.2]
      exact Iff.rfl
  | c :: d :: l => by
      rw [List.cons_append, List.cons_append, lineEnd_cons_cons, lineEnd_cons_cons]
      split
      · exact Iff.rfl
      · rw [Option.map_eq_none_iff, Option.map_eq_none_iff, ← List.cons_append]
        exact lineEnd_concat_iff hg

/-! ### Looks -/

@[simp] theorem looks_nil : E.looks [] = [] := rfl

theorem behind_cons_cons (c d : α) (l : List α) :
    E.behind (c :: d :: l) =
      if c = E.cr ∧ d = E.lf then E.looks l else E.behind (d :: l) := rfl

theorem behind_of_lineEnd : ∀ {l : List α} {e : Nat}, E.lineEnd l = some e →
    E.behind l = E.looks (l.drop e)
  | [],          _, h => nomatch h
  | [_],         _, h => nomatch h
  | c :: d :: l, e, h => by
      rw [lineEnd_cons_cons] at h
      rw [behind_cons_cons]
      split at h
      · rename_i hc
        cases h
        rw [if_pos hc]
        rfl
      · rename_i hc
        obtain ⟨e', h', rfl⟩ := Option.map_eq_some_iff.mp h
        rw [if_neg hc, behind_of_lineEnd h', List.drop_succ_cons]

/-- A look at a first line, and the looks at what is left behind it. -/
theorem looks_of_lineEnd (h : E.lineEnd l = some e) : E.looks l = l :: E.looks (l.drop e) := by
  have hl : l.isEmpty = false := by
    have := lineEnd_bounds h
    cases l with
    | nil => simp at this; omega
    | cons => rfl
  rw [looks, hl, behind_of_lineEnd h]
  rfl

/-- A look at an unfinished line. -/
theorem looks_of_none : ∀ {l : List α}, l ≠ [] → E.lineEnd l = none → E.looks l = [l] := by
  have hb : ∀ {l : List α}, E.lineEnd l = none → E.behind l = [] := by
    intro l
    induction l with
    | nil => intro _; rfl
    | cons c l ih =>
        cases l with
        | nil => intro _; rfl
        | cons d l =>
            intro h
            rw [lineEnd_cons_cons] at h
            rw [behind_cons_cons]
            split at h
            · cases h
            · rename_i hc
              rw [if_neg hc]
              exact ih (Option.map_eq_none_iff.mp h)
  intro l hl h
  rw [looks, hb h, if_neg]
  rwa [List.isEmpty_iff]

/-! ### Splitting -/

theorem split_cons_cons (c d : α) (l : List α) :
    E.split (c :: d :: l) =
      if c = E.cr ∧ d = E.lf then ([] :: (E.split l).1, (E.split l).2)
      else
        match E.split (d :: l) with
        | ([], r)      => ([], c :: r)
        | (t :: ts, r) => ((c :: t) :: ts, r) := rfl

theorem split_line : ∀ {t : List α}, E.lineEnd t = none → ∀ r,
    E.split (t ++ E.cr :: E.lf :: r) = (t :: (E.split r).1, (E.split r).2)
  | [],          _, r => by simp [split_cons_cons]
  | [c],         _, r => by simp [split_cons_cons, E.ne]
  | c :: d :: t, h, r => by
      rw [lineEnd_cons_cons] at h
      split at h
      · cases h
      · rename_i hc
        have ih := split_line (Option.map_eq_none_iff.mp h) r
        rw [List.cons_append] at ih
        rw [List.cons_append, List.cons_append, split_cons_cons, if_neg hc, ih]

theorem lineEnd_of_split : ∀ {t : List α}, E.split (t ++ [E.cr, E.lf]) = ([t], []) →
    E.lineEnd t = none
  | [],          _ => rfl
  | [_],         _ => rfl
  | c :: d :: t, h => by
      rw [List.cons_append, List.cons_append, split_cons_cons] at h
      rw [lineEnd_cons_cons]
      split at h
      · cases h
      · rename_i hc
        rw [if_neg hc, Option.map_eq_none_iff]
        -- without its first item the line is the only one behind it
        split at h
        · cases h
        · rename_i u us r hs
          simp only [Prod.mk.injEq, List.cons.injEq, true_and] at h
          obtain ⟨⟨rfl, rfl⟩, rfl⟩ := h
          exact lineEnd_of_split hs

/-- A text in front of a line end is the only line exactly when there is no line end in it. -/
theorem split_line_iff {t : List α} :
    E.split (t ++ [E.cr, E.lf]) = ([t], []) ↔ E.lineEnd t = none :=
  ⟨lineEnd_of_split, fun h => split_line h []⟩

/-- What stands in front of the first line end, and what behind it. -/
theorem eq_of_lineEnd : ∀ {l : List α}, E.lineEnd l ≠ none →
    ∃ t r, l = t ++ E.cr :: E.lf :: r ∧ E.lineEnd t = none
  | [],          h => absurd rfl h
  | [_],         h => absurd rfl h
  | c :: d :: l, h => by
      rw [lineEnd_cons_cons] at h
      split at h
      · rename_i hc
        obtain ⟨rfl, rfl⟩ := hc
        exact ⟨[], l, rfl, rfl⟩
      · rename_i hc
        rw [Ne, Option.map_eq_none_iff] at h
        obtain ⟨t, r, heq, ht⟩ := eq_of_lineEnd h
        refine ⟨c :: t, r, by rw [heq, List.cons_append], ?_⟩
        cases t with
        | nil => rfl
        | cons d' t =>
            obtain ⟨rfl, -⟩ := List.cons.inj heq
            rw [lineEnd_cons_cons, if_neg hc, ht, Option.map_none]

theorem split_line_ne_nil (t : List α) : (E.split (t ++ [E.cr, E.lf])).1 ≠ [] := by
  cases h : E.lineEnd t with
  | none =>
      rw [split_line h]
      exact List.cons_ne_nil _ _
  | some e =>
      obtain ⟨u, r, rfl, hu⟩ := eq_of_lineEnd (E := E) (l := t) (by rw [h]; exact Option.some_ne_none e)
      rw [List.append_assoc, List.cons_append, List.cons_append, split_line hu]
      exact List.cons_ne_nil _ _

/-- With a line end in the text there are several lines. -/
theorem two_le_split {t : List α} (h : E.lineEnd t ≠ none) :
    2 ≤ (E.split (t ++ [E.cr, E.lf])).1.length := by
  obtain ⟨u, r, rfl, hu⟩ := eq_of_lineEnd h
  have hrest := List.length_pos_iff.mpr (split_line_ne_nil (E := E) r)
  rw [List.append_assoc, List.cons_append, List.cons_append, split_line hu, List.length_cons]
  omega

end Eol

/-! ### Dot-stuffing -/

/-- A line end and the mark that ends a body when it stands alone on a line. -/
structure Marks (α : Type) extends Eol α where
  dot : α
  dot_ne_cr : dot ≠ cr
  dot_ne_lf : dot ≠ lf

/-- Pieces of a list, each with the item found behind it. -/
abbrev Pieces (α : Type) := List (List α × α)

namespace Pieces

variable {α : Type}

/-- The list the pieces have been cut from. -/
def whole (ps : Pieces α) : List α := ps.flatMap Prod.fst

theorem whole_cons (p : List α × α) (ps : Pieces α) : whole (p :: ps) = p.1 ++ whole ps := rfl

theorem whole_singleton (p : List α × α) : whole [p] = p.1 := by simp [whole]

theorem whole_ne_nil {p : List α × α} {ps : Pieces α} (hp : p.1 ≠ []) : whole (p :: ps) ≠ [] := by
  rw [whole_cons]
  exact List.append_ne_nil_of_left_ne_nil hp _

end Pieces

namespace Marks
open Pieces

variable {α : Type} [DecidableEq α] (M : Marks α)

/-- The encoder: a line feed becomes a line end, and a mark at a line start is doubled.  `bol`
says whether the first item is at a line start. -/
def stuff : Bool → List α → List α
  | _,   []     => []
  | bol, b :: t =>
    (if bol = true ∧ b = M.dot then [M.dot] else []) ++
      if b = M.lf then M.cr :: M.lf :: stuff true t else b :: stuff false t

/-- Whether what follows the list is at a line start. -/
def atStart : Bool → List α → Bool
  | bol, []     => bol
  | _,   b :: t => atStart (b = M.lf) t

/-- The decoder of one line. -/
def unstuff : List α → List α
  | []     => []
  | b :: t => if b = M.dot then t else b :: t

/-- The text of the lines before the first lone mark, and the lines behind it. -/
def text : List (List α) → Option (List α × List (List α))
  | []      => none
  | l :: ls =>
    if l = [M.dot] then some ([], ls)
    else (text ls).map fun r => (M.unstuff l ++ M.lf :: r.1, r.2)

/-- The decoder: the text, and what is behind the lone mark (lines, and an unfinished rest). -/
def receive (w : List α) : Option (List α × List (List α) × List α) :=
  (M.text (M.split w).1).map fun r => (r.1, r.2, (M.split w).2)

variable {M} {bol : Bool} {b c t : List α}

theorem stuff_cons (b : α) (t : List α) :
    M.stuff bol (b :: t) = (if bol = true ∧ b = M.dot then [M.dot] else []) ++
      if b = M.lf then M.cr :: M.lf :: M.stuff true t else b :: M.stuff false t := rfl

/-- Stuffing carries over a border the line start only. -/
theorem stuff_append : ∀ (a : List α) (bol : Bool) (b : List α),
    M.stuff bol (a ++ b) = M.stuff bol a ++ M.stuff (M.atStart bol a) b
  | [],     _,   _ => rfl
  | c :: a, bol, b => by
      rw [List.cons_append, stuff_cons, stuff_cons, List.append_assoc]
      congr 1
      by_cases hc : c = M.lf
      · simp [hc, atStart, stuff_append a true b]
      · simp [hc, atStart, stuff_append a false b]

theorem atStart_append : ∀ (a : List α) (bol : Bool) (b : List α),
    M.atStart bol (a ++ b) = M.atStart (M.atStart bol a) b
  | [],     _, _ => rfl
  | _ :: a, _, b => atStart_append a _ b

/-- Within a line, and where no mark comes first, the line start does not matter. -/
theorem stuff_true_of_head (h : c.head? ≠ some M.dot) : M.stuff true c = M.stuff false c := by
  cases c with
  | nil => rfl
  | cons b t =>
      have hb : b ≠ M.dot := fun hb => h (by rw [hb]; rfl)
      simp [stuff_cons, hb]

theorem stuff_true_dot (t : List α) : M.stuff true (M.dot :: t) = M.dot :: M.stuff false (M.dot :: t) := by
  simp [stuff_cons]

/-- Inside a line nothing is stuffed. -/
theorem stuff_false_line : ∀ {t : List α}, M.lf ∉ t → M.stuff false t = t
  | [],     _ => rfl
  | b :: t, h => by
      have hb : b ≠ M.lf := fun hb => h (by simp [hb])
      rw [stuff_cons, stuff_false_line fun hm => h (List.mem_cons_of_mem b hm)]
      simp [hb]

/-- A stuffed line is not the lone mark, has no line end inside, and decodes. -/
theorem stuff_true_line (h : M.lf ∉ t) :
    M.stuff true t ≠ [M.dot] ∧ M.lf ∉ M.stuff true t ∧ M.unstuff (M.stuff true t) = t := by
  by_cases hd : t.head? = some M.dot
  · obtain ⟨u, rfl⟩ : ∃ u, t = M.dot :: u := by
      cases t with
      | nil => cases hd
      | cons b u => exact ⟨u, by rw [Option.some.inj hd]⟩
    rw [stuff_true_dot, stuff_false_line h]
    refine ⟨by simp, ?_, by simp [unstuff]⟩
    intro hm
    rcases List.mem_cons.mp hm with he | hm
    · exact M.dot_ne_lf he.symm
    · exact h hm
  · rw [stuff_true_of_head hd, stuff_false_line h]
    refine ⟨fun he => hd (by rw [he]; rfl), h, ?_⟩
    cases t with
    | nil => rfl
    | cons b u =>
        have hb : b ≠ M.dot := fun hb => hd (by rw [hb]; rfl)
        simp [unstuff, hb]

/-- One stuffed line is received as it was. -/
theorem receive_line (h : M.lf ∉ t) (r : List α) :
    M.receive (M.stuff true t ++ M.cr :: M.lf :: r) =
      (M.receive r).map fun x => (t ++ M.lf :: x.1, x.2) := by
  obtain ⟨hne, hlf, hun⟩ := stuff_true_line h
  rw [receive, Eol.split_line (Eol.lineEnd_of_notMem hlf), text, if_neg hne, hun, receive,
    Option.map_map, Option.map_map]
  rfl

/-- **The round trip.**  A stuffed body and a line end are received as the body and a line feed,
whatever comes behind them. -/
theorem receive_stuff (c r : List α) :
    M.receive (M.stuff true c ++ M.cr :: M.lf :: r) =
      (M.receive r).map fun x => (c ++ M.lf :: x.1, x.2) := by
  -- by the lines of the body
  induction hn : c.length using Nat.strong_induction_on generalizing c with
  | _ n ih =>
      by_cases hm : M.lf ∈ c
      · obtain ⟨t, u, rfl, ht⟩ := List.eq_append_cons_of_mem hm
        have hs : M.stuff true (t ++ M.lf :: u) = M.stuff true t ++ M.cr :: M.lf :: M.stuff true u := by
          rw [stuff_append]
          simp [stuff_cons, M.dot_ne_lf.symm]
        rw [hs, List.append_assoc, List.cons_append, List.cons_append, receive_line ht,
          ih u.length (by rw [← hn]; simp; omega) u rfl, Option.map_map]
        simp [Function.comp_def]
      · exact receive_line hm r

/-! ### Pieces -/

variable (M)

/-- What an encoder puts on the wire for `c` that doubles the mark by looking at the item behind
each line feed, the item `x` behind the list included. -/
def wire (c : List α) (x : α) : List α :=
  M.stuff true c ++ if M.atStart true c = true ∧ x = M.dot then [M.dot] else []

/-- The pieces, encoded one by one. -/
def wires (ps : Pieces α) : List α := ps.flatMap fun p => M.wire p.1 p.2

/-- At each border, and at the end, the piecewise encoder sees what it would see in the whole:
behind a line feed no mark that is not there, and no mark at the head of a piece that does not
start a line. -/
def Seamless (y : α) : Pieces α → Prop
  | []                    => True
  | [p]                   => M.atStart true p.1 = true → (p.2 = M.dot ↔ y = M.dot)
  | p :: q :: ps          =>
    (if M.atStart true p.1 = true then p.2 ≠ M.dot else q.1.head? ≠ some M.dot) ∧
      Seamless y (q :: ps)

variable {M} {x y : α} {p : List α × α} {ps : Pieces α}

@[simp] theorem wires_nil : M.wires ([] : Pieces α) = [] := rfl

theorem wires_cons (p : List α × α) (ps : Pieces α) :
    M.wires (p :: ps) = M.wire p.1 p.2 ++ M.wires ps := rfl

theorem wires_singleton (p : List α × α) : M.wires [p] = M.wire p.1 p.2 := by simp [wires]

/-- Behind a non-empty list only its last item counts. -/
theorem atStart_of_ne_nil (h : c ≠ []) (bol : Bool) : M.atStart bol c = M.atStart true c := by
  cases c with
  | nil => exact absurd rfl h
  | cons b t => rfl

theorem length_stuff_le (c : List α) (bol : Bool) :
    (M.stuff bol c).length ≤ (M.stuff true c).length := by
  cases bol with
  | true => exact Nat.le_refl _
  | false =>
      cases c with
      | nil => exact Nat.le_refl _
      | cons b t => simp [stuff_cons]

theorem stuff_ne_nil (h : c ≠ []) : M.stuff bol c ≠ [] := by
  cases c with
  | nil => exact absurd rfl h
  | cons b t =>
      rw [stuff_cons]
      refine List.append_ne_nil_of_right_ne_nil _ ?_
      split <;> simp

/-- A stuffed list that ends at a line start ends with a line feed. -/
theorem getLast?_stuff : ∀ {c : List α} (bol : Bool), c ≠ [] → M.atStart true c = true →
    (M.stuff bol c).getLast? = some M.lf
  | [],          _,   h, _ => absurd rfl h
  | [b],         bol, _, h => by
      have hb : b = M.lf := by simpa [atStart] using h
      simp [stuff, hb]
  | b :: d :: t, bol, _, h => by
      have h' : M.atStart true (d :: t) = true := h
      have ih := getLast?_stuff (decide (b = M.lf)) (List.cons_ne_nil d t) h'
      have hs : M.stuff bol ([b] ++ d :: t) =
          M.stuff bol [b] ++ M.stuff (M.atStart bol [b]) (d :: t) := stuff_append [b] bol (d :: t)
      rw [List.singleton_append] at hs
      rw [hs, List.getLast?_append_of_ne_nil _ (stuff_ne_nil (List.cons_ne_nil d t))]
      exact ih

/-- The pieces take at least the room of the whole; where they take no more and end at a line
start, they end with a line feed. -/
theorem wires_room (hp : ∀ q ∈ p :: ps, q.1 ≠ []) :
    (M.stuff true (whole (p :: ps))).length ≤ (M.wires (p :: ps)).length ∧
      (M.atStart true (whole (p :: ps)) = true →
        (M.wires (p :: ps)).length = (M.stuff true (whole (p :: ps))).length →
        (M.wires (p :: ps)).getLast? = some M.lf) := by
  induction ps generalizing p with
  | nil =>
      have hne : p.1 ≠ [] := hp p (List.mem_cons_self)
      simp only [wires_singleton, whole_singleton, wire, List.length_append]
      refine ⟨Nat.le_add_right _ _, fun ha hl => ?_⟩
      have h0 : (if M.atStart true p.1 = true ∧ p.2 = M.dot then [M.dot] else []) = [] :=
        List.length_eq_zero_iff.mp (by omega)
      rw [h0, List.append_nil]
      exact getLast?_stuff true hne ha
  | cons q ps ih =>
      obtain ⟨ih₁, ih₂⟩ := ih fun r hr => hp r (List.mem_cons_of_mem p hr)
      have hq : whole (q :: ps) ≠ [] := whole_ne_nil (hp q (by simp))
      have hle := length_stuff_le (M := M) (whole (q :: ps)) (M.atStart true p.1)
      rw [whole_cons p, wires_cons p, stuff_append, wire, atStart_append, atStart_of_ne_nil hq]
      simp only [List.length_append]
      refine ⟨by omega, fun ha hl => ?_⟩
      have hl' := ih₂ ha (by omega)
      rw [List.getLast?_append, hl']
      rfl

/-- One mark too many shows. -/
theorem dot_wires_ne (hp : ∀ q ∈ p :: ps, q.1 ≠ []) :
    M.dot :: M.wires (p :: ps) ≠ M.wire (whole (p :: ps)) y := by
  intro h
  obtain ⟨hle, hlast⟩ := wires_room (M := M) hp
  have hl := congrArg List.length h
  rw [wire] at h hl
  split at h
  · rename_i hc
    rw [if_pos hc, List.length_cons, List.length_append, List.length_singleton] at hl
    have h₁ := hlast hc.1 (by omega)
    -- the whole ends with the mark, the pieces with a line feed
    have h₂ := congrArg List.getLast? h
    rw [List.getLast?_cons, h₁, List.getLast?_concat] at h₂
    exact M.dot_ne_lf (Option.some.inj h₂).symm
  · rename_i hc
    rw [if_neg hc, List.length_cons, List.append_nil] at hl
    omega

theorem wire_append_of_ne_nil (a : List α) (hb : b ≠ []) (x : α) :
    M.wire (a ++ b) x = M.stuff true a ++ (M.stuff (M.atStart true a) b ++
      if M.atStart true b = true ∧ x = M.dot then [M.dot] else []) := by
  rw [wire, stuff_append, atStart_append, atStart_of_ne_nil hb, List.append_assoc]

/-- **Piecewise encoding.**  The pieces put on the wire what the whole does exactly where they
are seamless. -/
theorem wires_eq_wire_iff (hp : ∀ q ∈ p :: ps, q.1 ≠ []) :
    M.wires (p :: ps) = M.wire (whole (p :: ps)) y ↔ M.Seamless y (p :: ps) := by
  induction ps generalizing p with
  | nil =>
      simp only [wires_singleton, whole_singleton, wire, Seamless, List.append_cancel_left_eq]
      by_cases ha : M.atStart true p.1 = true
      · by_cases hx : p.2 = M.dot <;> by_cases hy : y = M.dot <;> simp [ha, hx, hy]
      · simp [ha]
  | cons q ps ih =>
      have hq : whole (q :: ps) ≠ [] := whole_ne_nil (hp q (by simp))
      have hrest : ∀ r ∈ q :: ps, r.1 ≠ [] := fun r hr => hp r (List.mem_cons_of_mem p hr)
      have hhead : (whole (q :: ps)).head? = q.1.head? := by
        rw [whole_cons, List.head?_append_of_ne_nil _ (hp q (by simp))]
      rw [whole_cons p, wires_cons p, wire_append_of_ne_nil _ hq, wire, List.append_assoc,
        List.append_cancel_left_eq, Seamless, ← ih hrest]
      by_cases ha : M.atStart true p.1 = true
      · rw [ha, if_pos rfl]
        by_cases hx : p.2 = M.dot
        · simp only [hx, ne_eq, not_true_eq_false, false_and, iff_false]
          exact dot_wires_ne hrest
        · simp only [hx, and_false, if_false, List.nil_append, ne_eq, not_false_eq_true, true_and]
          rfl
      · rw [Bool.not_eq_true] at ha
        simp only [ha, Bool.false_eq_true, false_and, if_false, List.nil_append]
        by_cases hd : q.1.head? = some M.dot
        · simp only [hd, ne_eq, not_true_eq_false, false_and, iff_false]
          intro h
          refine dot_wires_ne (M := M) (y := y) hrest ?_
          obtain ⟨w, hw⟩ : ∃ w, whole (q :: ps) = M.dot :: w := by
            rw [← hhead] at hd
            exact List.head?_eq_some_iff.mp hd
          rw [h, wire, hw, stuff_true_dot, List.cons_append]
        · rw [← hhead] at hd
          rw [wire, stuff_true_of_head hd]
          simp [hhead ▸ hd]

end Marks

end Lib
