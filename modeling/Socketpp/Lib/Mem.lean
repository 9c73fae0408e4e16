import Mathlib.Data.List.Basic
import Mathlib.Data.List.TakeDrop
import Mathlib.Tactic.Cases

/-!
# Lib — Memories

A memory is a function from addresses to cells, total, so that a read outside an allocation has
some value too.  `slice m a n` is the `n` cells from `a` on; `store m a xs` writes `xs` from `a`
on; `moveDown` is the loop that copies cells one by one to lower addresses.

A slice of a store is the stored list where the two coincide, and the old slice where they are
disjoint; copying down reads every cell before it is overwritten (`slice_moveDown`).  `SameFrom B`
is the frame of stores that end below `B`.
-/

namespace Lib

/-- A memory with cells in `β`. -/
def Mem (β : Type) : Type := Nat → β

namespace Mem

variable {β : Type}

/-- The `n` cells from `a` on. -/
def slice (m : Mem β) : Nat → Nat → List β
  | _, 0     => []
  | a, n + 1 => m a :: slice m (a + 1) n

/-- Write one cell. -/
def write (m : Mem β) (a : Nat) (x : β) : Mem β := fun i => if i = a then x else m i

/-- Write `xs` from `a` on. -/
def store (m : Mem β) : Nat → List β → Mem β
  | _, []      => m
  | a, x :: xs => store (m.write a x) (a + 1) xs

/-- `while (n--) *dst++ = *src++`. -/
def moveDown (m : Mem β) : Nat → Nat → Nat → Mem β
  | _,   _,   0     => m
  | dst, src, n + 1 => moveDown (m.write dst (m src)) (dst + 1) (src + 1) n

@[simp] theorem slice_zero (m : Mem β) (a : Nat) : m.slice a 0 = [] := rfl

theorem slice_succ (m : Mem β) (a n : Nat) : m.slice a (n + 1) = m a :: m.slice (a + 1) n := rfl

@[simp] theorem length_slice (m : Mem β) (a n : Nat) : (m.slice a n).length = n := by
  induction n generalizing a with
  | zero => rfl
  | succ n ih => simp [slice_succ, ih]

theorem slice_add (m : Mem β) (a n k : Nat) :
    m.slice a (n + k) = m.slice a n ++ m.slice (a + n) k := by
  induction n generalizing a with
  | zero => simp
  | succ n ih =>
      rw [Nat.add_right_comm, slice_succ, slice_succ, ih, Nat.add_right_comm a 1 n]
      rfl

theorem take_slice (m : Mem β) (a : Nat) {n k : Nat} (h : k ≤ n) :
    (m.slice a n).take k = m.slice a k := by
  obtain ⟨d, rfl⟩ := Nat.exists_eq_add_of_le h
  rw [slice_add, List.take_append_of_le_length (by simp), List.take_of_length_le (by simp)]

theorem drop_slice (m : Mem β) (a : Nat) {n k : Nat} (h : k ≤ n) :
    (m.slice a n).drop k = m.slice (a + k) (n - k) := by
  obtain ⟨d, rfl⟩ := Nat.exists_eq_add_of_le h
  rw [slice_add, List.drop_append_of_le_length (by simp), List.drop_of_length_le (by simp)]
  simp

theorem getElem?_slice (m : Mem β) (a : Nat) {n i : Nat} (h : i < n) :
    (m.slice a n)[i]? = some (m (a + i)) := by
  induction n generalizing a i with
  | zero => exact absurd h (Nat.not_lt_zero i)
  | succ n ih =>
      cases i with
      | zero => rfl
      | succ i =>
          rw [slice_succ, List.getElem?_cons_succ, ih (a + 1) (Nat.lt_of_succ_lt_succ h)]
          congr 2
          omega

/-- Slices depend on their own cells only. -/
theorem slice_congr {m m' : Mem β} {a n : Nat} (h : ∀ i, a ≤ i → i < a + n → m i = m' i) :
    m.slice a n = m'.slice a n := by
  induction n generalizing a with
  | zero => rfl
  | succ n ih =>
      rw [slice_succ, slice_succ, h a (Nat.le_refl a) (by omega),
        ih fun i h₁ h₂ => h i (by omega) (by omega)]

@[simp] theorem write_same (m : Mem β) (a : Nat) (x : β) : m.write a x a = x := if_pos rfl

theorem write_other (m : Mem β) {a i : Nat} (x : β) (h : i ≠ a) : m.write a x i = m i := if_neg h

/-- Cells outside the stored range are unchanged. -/
theorem store_other (m : Mem β) {a i : Nat} {xs : List β} (h : i < a ∨ a + xs.length ≤ i) :
    m.store a xs i = m i := by
  induction xs generalizing m a with
  | nil => rfl
  | cons x xs ih =>
      simp only [List.length_cons] at h
      rw [store, ih (m.write a x) (by omega), write_other m x (by omega)]

/-- What was stored is read back. -/
theorem slice_store (m : Mem β) (a : Nat) (xs : List β) :
    (m.store a xs).slice a xs.length = xs := by
  induction xs generalizing m a with
  | nil => rfl
  | cons x xs ih =>
      rw [store, List.length_cons, slice_succ, ih, store_other _ (Or.inl (by omega)), write_same]

theorem slice_store_before (m : Mem β) {a b n : Nat} (xs : List β) (h : b + n ≤ a) :
    (m.store a xs).slice b n = m.slice b n :=
  slice_congr fun i _ h₂ => store_other m (Or.inl (by omega))

/-- Storing behind a slice extends it. -/
theorem slice_store_append (m : Mem β) (b n : Nat) (xs : List β) :
    (m.store (b + n) xs).slice b (n + xs.length) = m.slice b n ++ xs := by
  rw [slice_add, slice_store_before m xs (Nat.le_refl _), slice_store]

theorem slice_write_append (m : Mem β) (b n : Nat) (x : β) :
    (m.write (b + n) x).slice b (n + 1) = m.slice b n ++ [x] :=
  slice_store_append m b n [x]

theorem moveDown_before (m : Mem β) {dst src n i : Nat} (h : i < dst) :
    m.moveDown dst src n i = m i := by
  induction n generalizing m dst src with
  | zero => rfl
  | succ n ih => rw [moveDown, ih _ (by omega), write_other m _ (by omega)]

/-- **Copying down.**  The cells end up at `dst` as they were at `src`: every cell is read
before the loop overwrites it. -/
theorem slice_moveDown (m : Mem β) {dst src n : Nat} (h : dst ≤ src) :
    (m.moveDown dst src n).slice dst n = m.slice src n := by
  induction n generalizing m dst src with
  | zero => rfl
  | succ n ih =>
      rw [moveDown, slice_succ, slice_succ, moveDown_before _ (by omega), write_same,
        ih _ (by omega)]
      congr 1
      exact slice_congr fun i h₁ _ => write_other m _ (by omega)

/-! ### Frames -/

/-- The cells from `B` on are the same. -/
def SameFrom (B : Nat) (m m' : Mem β) : Prop := ∀ i, B ≤ i → m' i = m i

variable {B : Nat} {m m₁ m' : Mem β}

theorem SameFrom.refl (m : Mem β) : SameFrom B m m := fun _ _ => rfl

theorem SameFrom.trans (h : SameFrom B m m₁) (h' : SameFrom B m₁ m') : SameFrom B m m' :=
  fun i hi => (h' i hi).trans (h i hi)

theorem sameFrom_store (m : Mem β) {a : Nat} {xs : List β} (h : a + xs.length ≤ B) :
    SameFrom B m (m.store a xs) := fun _ hi => store_other m (.inr (Nat.le_trans h hi))

theorem sameFrom_write (m : Mem β) {a : Nat} (x : β) (h : a < B) : SameFrom B m (m.write a x) :=
  fun _ hi => write_other m x (Nat.ne_of_gt (Nat.lt_of_lt_of_le h hi))

theorem sameFrom_moveDown : ∀ (n : Nat) (m : Mem β) {dst src : Nat}, dst + n ≤ B →
    SameFrom B m (m.moveDown dst src n) := by
  intro n
  induction n with
  | zero => intro m _ _ _; exact .refl m
  | succ n ih =>
      intro m dst src h
      exact (sameFrom_write m (m src) (by omega)).trans (ih _ (by omega))

end Mem

end Lib
