import Socketpp.Protocol.Derived

/-!
# Protocol — replies

The parts that the replies of a server are made of: a code of three digits, and texts, which have
no line end in them.
-/

namespace Socketpp
open Lib

abbrev Digit := { c : Byte // 48 ≤ c ∧ c ≤ 57 }

/-- A reply code, `ddd`. -/
structure Code where
  first  : Digit
  second : Digit
  third  : Digit

/-- The last digit of a number. -/
def digitOf (n : Nat) : Digit :=
  ⟨UInt8.ofNat (48 + n % 10), by
    have h : 48 + n % 10 < 256 := by omega
    rw [UInt8.le_iff_toNat_le, UInt8.le_iff_toNat_le, UInt8.toNat_ofNat_of_lt' h]
    exact ⟨Nat.le_add_right 48 _, by show 48 + n % 10 ≤ 57; omega⟩⟩

/-- The code of a number, `230` for instance. -/
def codeOfNat (n : Nat) : Code := ⟨digitOf (n / 100), digitOf (n / 10), digitOf n⟩

/-- A text without a line end in it. -/
abbrev Text := { t : List Byte // eol.lineEnd t = none }

namespace Text

/-- The text and a line end. -/
def line (t : Text) : List Byte := t.1 ++ [13, 10]

theorem lineEnd_line_append (t : Text) (l : List Byte) :
    eol.lineEnd (t.line ++ l) = some t.line.length := by
  have h := Eol.lineEnd_line t.2 l
  have hl : t.line ++ l = t.1 ++ eol.cr :: eol.lf :: l := by
    rw [line, List.append_assoc]
    rfl
  rw [hl, h, line, List.length_append]
  rfl

end Text

namespace Code

def digits (c : Code) : List Byte := [c.first.1, c.second.1, c.third.1]

theorem mem_digits {c : Code} {b : Byte} (h : b ∈ c.digits) : 48 ≤ b ∧ b ≤ 57 := by
  simp only [digits, List.mem_cons, List.not_mem_nil, or_false] at h
  rcases h with rfl | rfl | rfl
  · exact c.first.2
  · exact c.second.2
  · exact c.third.2

theorem ne_of_lt_digit {d : Digit} {b : Byte} (hb : b < 48) : d.1 ≠ b := by
  intro h
  exact absurd (h ▸ d.2.1) (UInt8.not_le.mpr hb)

/-- The code, a separator and a text; the separator is a space or a dash. -/
def text (c : Code) (sep : Byte) (hsep : sep ≠ 13) (t : Text) : Text :=
  ⟨c.digits ++ sep :: t.1, by
    have h13 : ∀ d : Digit, d.1 ≠ eol.cr := fun d => ne_of_lt_digit (by decide)
    exact Eol.lineEnd_cons (h13 _) (Eol.lineEnd_cons (h13 _) (Eol.lineEnd_cons (h13 _)
      (Eol.lineEnd_cons hsep t.2)))⟩

/-- `ddd SP text`, the last line of a reply. -/
def last (c : Code) (t : Text) : Text := c.text 32 (by decide) t

/-- `ddd-text`, a line with more to come. -/
def more (c : Code) (t : Text) : Text := c.text 45 (by decide) t

/-- `ddd` alone. -/
def bare (c : Code) : Text :=
  ⟨c.digits, by
    have h13 : ∀ d : Digit, d.1 ≠ eol.cr := fun d => ne_of_lt_digit (by decide)
    exact Eol.lineEnd_cons (h13 _) (Eol.lineEnd_cons (h13 _) (Eol.lineEnd_cons (h13 _) rfl))⟩

end Code

end Socketpp
