import Mathlib.Data.List.Basic
import Mathlib.Data.List.Nodup
import Mathlib.Tactic.Cases

/-!
# Lib — Lists with iterators

`std::list`, as far as iterators are concerned.  Each element has a number of its own, and an
iterator is the number of its element.  A number is never given again, so an iterator to an erased
element stays invalid whatever is pushed later; erasing an element leaves all other iterators
valid.

Elements are pushed at the back with rising numbers, so every list is sorted by them.  The element
behind an iterator is then the first with a greater number (`next_eq`).
-/

namespace Lib

/-- An element and its number. -/
structure Cell (α : Type) where
  id  : Nat
  val : α

/-- The elements in their order, and the number of the next one. -/
structure StdList (α : Type) where
  cells  : List (Cell α)
  fresh  : Nat
  sorted : cells.Pairwise fun a b => a.id < b.id
  below  : ∀ c ∈ cells, c.id < fresh

namespace StdList

variable {α : Type}

/-- The values. -/
def vals (v : StdList α) : List α := v.cells.map Cell.val

/-- The list without elements. -/
def empty : StdList α := ⟨[], 0, .nil, nofun⟩

def pushBack (v : StdList α) (a : α) : StdList α where
  cells := v.cells ++ [⟨v.fresh, a⟩]
  fresh := v.fresh + 1
  sorted := by
    refine List.pairwise_append.mpr ⟨v.sorted, List.pairwise_singleton _ _, fun c hc d hd => ?_⟩
    rw [List.mem_singleton.mp hd]
    exact v.below c hc
  below c hc := by
    rcases List.mem_append.mp hc with h | h
    · exact Nat.lt_succ_of_lt (v.below c h)
    · rw [List.mem_singleton.mp h]
      exact Nat.lt_succ_self _

/-- Keep the elements that `p` holds of. -/
def keep (v : StdList α) (p : Cell α → Bool) : StdList α where
  cells := v.cells.filter p
  fresh := v.fresh
  sorted := v.sorted.filter p
  below c hc := v.below c (List.mem_of_mem_filter hc)

/-- `erase (j)`, for the iterator with the number `i`. -/
def erase (v : StdList α) (i : Nat) : StdList α := v.keep fun c => c.id ≠ i

/-- `erase (begin (), end ())`. -/
def clear (v : StdList α) : StdList α := v.keep fun _ => false

/-- `std::find (begin (), end (), a)`. -/
def find [DecidableEq α] (v : StdList α) (a : α) : Option (Cell α) :=
  v.cells.find? fun c => c.val = a

/-- `begin ()`; `none` is `end ()`. -/
def begin (v : StdList α) : Option (Cell α) := v.cells.head?

/-- What stands behind the element numbered `i`. -/
def behindIn (i : Nat) : List (Cell α) → Option (Option (Cell α))
  | []     => none
  | c :: v => if c.id = i then some v.head? else behindIn i v

/-- `++` on the iterator with the number `i`; `none` where its element has been erased. -/
def next (v : StdList α) (i : Nat) : Option (Option (Cell α)) := behindIn i v.cells

/-! ### Values -/

@[simp] theorem vals_empty : (empty : StdList α).vals = [] := rfl

@[simp] theorem vals_pushBack (v : StdList α) (a : α) : (v.pushBack a).vals = v.vals ++ [a] :=
  List.map_append

@[simp] theorem vals_clear (v : StdList α) : v.clear.vals = [] := by
  simp [vals, clear, keep]

theorem mem_vals {v : StdList α} {a : α} : a ∈ v.vals ↔ ∃ c ∈ v.cells, c.val = a := List.mem_map

/-- Two elements with one number are the same. -/
theorem eq_of_id_eq {v : StdList α} {c d : Cell α} (hc : c ∈ v.cells) (hd : d ∈ v.cells)
    (h : c.id = d.id) : c = d := by
  have hn : (v.cells.map Cell.id).Nodup := List.pairwise_map.mpr (v.sorted.imp Nat.ne_of_lt)
  exact List.inj_on_of_nodup_map hn hc hd h

section Find

variable [DecidableEq α]

theorem find_eq_none {v : StdList α} {a : α} : v.find a = none ↔ a ∉ v.vals := by
  simp [find, mem_vals]

theorem find_eq_some {v : StdList α} {a : α} {c : Cell α} (h : v.find a = some c) :
    c ∈ v.cells ∧ c.val = a :=
  ⟨List.mem_of_find?_eq_some h, by simpa using List.find?_some h⟩

/-- Where no value is there twice, erasing the element found erases its value. -/
theorem vals_erase {v : StdList α} {a : α} {c : Cell α} (hn : v.vals.Nodup)
    (h : v.find a = some c) : (v.erase c.id).vals = v.vals.filter fun b => b ≠ a := by
  obtain ⟨hc, rfl⟩ := find_eq_some h
  have hiff : ∀ d ∈ v.cells, d.id = c.id ↔ d.val = c.val := by
    intro d hd
    refine ⟨fun he => by rw [eq_of_id_eq hd hc he], fun he => ?_⟩
    rw [List.inj_on_of_nodup_map hn hd hc he]
  simp only [vals, erase, keep, List.filter_map]
  refine congrArg (List.map Cell.val) (List.filter_congr fun d hd => ?_)
  simp [hiff d hd]

end Find

/-! ### Iterators -/

theorem mem_erase {v : StdList α} {i : Nat} {c : Cell α} :
    c ∈ (v.erase i).cells ↔ c ∈ v.cells ∧ c.id ≠ i := by
  simp [erase, keep]

theorem behindIn_eq_none {i : Nat} : ∀ {l : List (Cell α)},
    behindIn i l = none ↔ ∀ c ∈ l, c.id ≠ i := by
  intro l
  induction l with
  | nil => simp [behindIn]
  | cons c l ih =>
      by_cases h : c.id = i
      · simp [behindIn, h]
      · simp [behindIn, h, ih]

/-- An iterator is invalid once its element is not in the list. -/
theorem next_eq_none {v : StdList α} {i : Nat} : v.next i = none ↔ ∀ c ∈ v.cells, c.id ≠ i :=
  behindIn_eq_none

theorem behindIn_eq {i : Nat} : ∀ {l : List (Cell α)}, (l.Pairwise fun a b => a.id < b.id) →
    ∀ {r}, behindIn i l = some r → r = l.find? fun c => i < c.id := by
  intro l
  induction l with
  | nil => nofun
  | cons c l ih =>
      intro hs r h
      obtain ⟨hc, hl⟩ := List.pairwise_cons.mp hs
      by_cases hi : c.id = i
      · simp only [behindIn, hi, if_true, Option.some.injEq] at h
        rw [List.find?_cons_of_neg (by simp [hi]), ← h]
        cases l with
        | nil => rfl
        | cons d l =>
            have hd : i < d.id := hi ▸ hc d List.mem_cons_self
            rw [List.find?_cons_of_pos (by simpa using hd)]
            rfl
      · simp only [behindIn, hi, if_false] at h
        have hlt : ¬ i < c.id := by
          -- the element numbered `i` is behind `c`
          have hex : ¬ ∀ d ∈ l, d.id ≠ i := fun hn => by
            rw [behindIn_eq_none.mpr hn] at h
            cases h
          push Not at hex
          obtain ⟨d, hd, rfl⟩ := hex
          exact Nat.lt_asymm (hc d hd)
        rw [List.find?_cons_of_neg (by simpa using hlt)]
        exact ih hl h

/-- **`++`** on a valid iterator gives the first element with a greater number. -/
theorem next_eq {v : StdList α} {i : Nat} {r : Option (Cell α)} (h : v.next i = some r) :
    r = v.cells.find? fun c => i < c.id := behindIn_eq v.sorted h

/-- `++` on an iterator, where its element stands. -/
theorem next_of_cells {v : StdList α} {pre post : List (Cell α)} {c : Cell α}
    (h : v.cells = pre ++ c :: post) : v.next c.id = some post.head? := by
  have hs := v.sorted
  rw [next]
  rw [h] at hs ⊢
  clear h
  induction pre with
  | nil => simp [behindIn]
  | cons d pre ih =>
      rw [List.cons_append, List.pairwise_cons] at hs
      have hne : d.id ≠ c.id := Nat.ne_of_lt (hs.1 c (by simp))
      simp only [List.cons_append, behindIn, hne, if_false]
      exact ih hs.2

/-- `++` gives an element of the list, with a greater number. -/
theorem next_mem {v : StdList α} {i : Nat} {b : Cell α} (h : v.next i = some (some b)) :
    b ∈ v.cells ∧ i < b.id := by
  have hb : v.cells.find? (fun c => i < c.id) = some b := (next_eq h).symm
  exact ⟨List.mem_of_find?_eq_some hb, by simpa using List.find?_some hb⟩

/-- In a sorted list the first element that `p` holds of has the least number of them. -/
theorem find_least {p : Cell α → Bool} {c : Cell α} : ∀ {l : List (Cell α)},
    (l.Pairwise fun a b => a.id < b.id) → c ∈ l → p c = true →
    ∃ b, l.find? p = some b ∧ b.id ≤ c.id := by
  intro l
  induction l with
  | nil => nofun
  | cons d l ih =>
      intro hs hc hp
      obtain ⟨hd, hl⟩ := List.pairwise_cons.mp hs
      by_cases hpd : p d = true
      · refine ⟨d, List.find?_cons_of_pos hpd, ?_⟩
        rcases List.mem_cons.mp hc with rfl | hc
        · exact Nat.le_refl _
        · exact Nat.le_of_lt (hd c hc)
      · rw [List.find?_cons_of_neg hpd]
        rcases List.mem_cons.mp hc with rfl | hc
        · exact absurd hp hpd
        · exact ih hl hc hp

/-- `++` skips nothing. -/
theorem next_le {v : StdList α} {i : Nat} {r : Option (Cell α)} {c : Cell α}
    (h : v.next i = some r) (hc : c ∈ v.cells) (hi : i < c.id) : ∃ b, r = some b ∧ b.id ≤ c.id := by
  rw [next_eq h]
  exact find_least v.sorted hc (by simpa using hi)

/-- `begin ()` is the element with the least number. -/
theorem begin_le {v : StdList α} {c : Cell α} (hc : c ∈ v.cells) :
    ∃ b, v.begin = some b ∧ b.id ≤ c.id := by
  obtain ⟨b, hb, hle⟩ := find_least (p := fun _ => true) v.sorted hc rfl
  refine ⟨b, ?_, hle⟩
  rw [begin, ← hb]
  cases v.cells <;> rfl

theorem begin_mem {v : StdList α} {b : Cell α} (h : v.begin = some b) : b ∈ v.cells :=
  List.mem_of_mem_head? h

/-! ### Change -/

/-- `w` is `v` after any pushes and erasures: the elements it has of `v`'s time are `v`'s. -/
structure Evolves (v w : StdList α) : Prop where
  fresh : v.fresh ≤ w.fresh
  mem   : ∀ c ∈ w.cells, c.id < v.fresh → c ∈ v.cells

namespace Evolves

variable {u v w : StdList α}

theorem refl (v : StdList α) : Evolves v v := ⟨Nat.le_refl _, fun _ h _ => h⟩

theorem trans (h₁ : Evolves u v) (h₂ : Evolves v w) : Evolves u w :=
  ⟨Nat.le_trans h₁.fresh h₂.fresh,
    fun c hc hlt => h₁.mem c (h₂.mem c hc (Nat.lt_of_lt_of_le hlt h₁.fresh)) hlt⟩

theorem pushBack (v : StdList α) (a : α) : Evolves v (v.pushBack a) := by
  refine ⟨Nat.le_succ _, fun c hc hlt => ?_⟩
  rcases List.mem_append.mp hc with h | h
  · exact h
  · rw [List.mem_singleton.mp h] at hlt
    exact absurd hlt (Nat.lt_irrefl _)

theorem keep (v : StdList α) (p : Cell α → Bool) : Evolves v (v.keep p) :=
  ⟨Nat.le_refl _, fun _ hc _ => List.mem_of_mem_filter hc⟩

/-- An element that is there before and after has been there all the time. -/
theorem between (h₁ : Evolves u v) (h₂ : Evolves v w) {c : Cell α} (hu : c ∈ u.cells)
    (hw : c ∈ w.cells) : c ∈ v.cells :=
  h₂.mem c hw (Nat.lt_of_lt_of_le (u.below c hu) h₁.fresh)

end Evolves

end StdList

end Lib
