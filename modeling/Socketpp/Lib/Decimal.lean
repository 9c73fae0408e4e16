import Mathlib.Algebra.Group.Nat.Defs
import Mathlib.Data.List.Basic

/-!
# Lib — Decimal

Decimal numerals as bytes.  `print n` is the numeral of `n`, without leading zeros.  `value` is the number
that digits show, and `parse` reads a list of bytes that is a numeral from its first byte to its last.
-/

namespace Lib.Decimal

variable {l : List UInt8} {b : UInt8} {n m k : Nat}

/-- One of `0` to `9`. -/
def IsDigit (b : UInt8) : Prop := 48 ≤ b.toNat ∧ b.toNat ≤ 57

instance : DecidablePred IsDigit := fun _ => inferInstanceAs (Decidable (_ ∧ _))

/-- Digits, and at least one. -/
def Numeral (l : List UInt8) : Prop := l ≠ [] ∧ ∀ b ∈ l, IsDigit b

instance : DecidablePred Numeral := fun _ => inferInstanceAs (Decidable (_ ∧ _))

/-- The number that digits show. -/
def value (l : List UInt8) : Nat := l.foldl (fun v b => 10 * v + (b.toNat - 48)) 0

def parse (l : List UInt8) : Option Nat := if Numeral l then some (value l) else none

/-- The numeral of `n`. -/
def print (n : Nat) : List UInt8 := (Nat.toDigits 10 n).map fun c => UInt8.ofNat c.toNat

theorem parse_eq_some : parse l = some n ↔ Numeral l ∧ value l = n := by
  unfold parse
  split <;> simp [*]

/-- A digit as a character and as a byte. -/
theorem toNat_of_isDigit {c : Char} (h : c.isDigit) :
    (UInt8.ofNat c.toNat).toNat = c.toNat ∧ 48 ≤ c.toNat ∧ c.toNat ≤ 57 := by
  have hc : 48 ≤ c.toNat ∧ c.toNat ≤ 57 := by
    simp only [Char.isDigit, Bool.and_eq_true, decide_eq_true_eq] at h
    exact h
  refine ⟨?_, hc⟩
  rw [UInt8.toNat_ofNat']
  omega

theorem numeral_print (n : Nat) : Numeral (print n) := by
  refine ⟨by simp [print], fun b hb => ?_⟩
  obtain ⟨c, hc, rfl⟩ := List.mem_map.mp hb
  obtain ⟨heq, hle⟩ := toNat_of_isDigit (Nat.isDigit_of_mem_toDigits (by decide) (by decide) hc)
  rw [IsDigit, heq]
  exact hle

theorem value_map {cs : List Char} (h : ∀ c ∈ cs, c.isDigit) (v : Nat) :
    (cs.map fun c => UInt8.ofNat c.toNat).foldl (fun v b => 10 * v + (b.toNat - 48)) v =
      Nat.ofDigitChars 10 cs v := by
  induction cs generalizing v with
  | nil => simp
  | cons c cs ih =>
      rw [List.map_cons, List.foldl_cons, (toNat_of_isDigit (h c List.mem_cons_self)).1,
        Nat.ofDigitChars_cons]
      exact ih (fun d hd => h d (List.mem_cons_of_mem c hd)) _

theorem value_print (n : Nat) : value (print n) = n := by
  rw [value, print, value_map fun c hc => Nat.isDigit_of_mem_toDigits (by decide) (by decide) hc]
  exact Nat.ofDigitChars_ten_toDigits

/-- What has been printed is read back. -/
@[simp] theorem parse_print (n : Nat) : parse (print n) = some n :=
  parse_eq_some.mpr ⟨numeral_print n, value_print n⟩

theorem length_print_le (hk : 0 < k) : (print n).length ≤ k ↔ n < 10 ^ k := by
  rw [print, List.length_map]
  exact Nat.length_toDigits_le_iff (by decide) hk

/-- Only digits are in a numeral. -/
theorem notMem_print (hb : ¬ IsDigit b) : b ∉ print n := fun h => hb ((numeral_print n).2 b h)

end Lib.Decimal
