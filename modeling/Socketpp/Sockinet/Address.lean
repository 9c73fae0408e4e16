import Mathlib.Data.List.TakeWhile
import Socketpp.Lib.Decimal
import Socketpp.Sockinet.Model

/-!
# Sockinet — the port of an address

The constructors of sockinetaddr with `setport`, `setaddr` and `getport`, function by function.  `atoi` is
that of a C library with a 64 bit `long`, which converts what `strtol` returns to an `int`.

`htons` takes the lower 16 bits of its argument, and `atoi` stops in front of the first character that is
no digit.  So an address holds the port asked for, or the constructor throws `err`, exactly if what is
asked for is a port (`honest_iff`).
-/

namespace Socketpp
open Lib

/-- What `gethostbyname` finds. -/
structure Hostent where
  h_addrtype : Int
  h_addr     : InAddr

/-- The lookups of the C library. -/
structure Resolver (κ : Type) where
  inet_addr     : (host_name : List Byte) → InAddr
  gethostbyname : κ → (host_name : List Byte) → Option Hostent × κ
  getservbyname : κ → (sn pn : List Byte) → Option NetPort × κ

/-- `INADDR_NONE`. -/
def INADDR_NONE : InAddr := ⟨255, 255, 255, 255⟩

/-- Look something up; `none` is a null pointer. -/
def lookup {β κ α : Type} (c : κ → Option α × κ) : Prog Thrown (Proc β κ) (Option α) :=
  call fun y => .ret (c y.kern).1 { y with kern := (c y.kern).2 }

@[simp] theorem lookup_apply {β κ α : Type} (c : κ → Option α × κ) (s : Proc β κ) :
    lookup c s = .ret (c s.sys.kern).1 { s with sys := { s.sys with kern := (c s.sys.kern).2 } } := rfl

/-! ### Numbers -/

/-- `LONG_MAX`. -/
def LONG_MAX : Int := 2 ^ 63 - 1

/-- `LONG_MIN`. -/
def LONG_MIN : Int := -2 ^ 63

def isspace (c : Byte) : Bool := c = 32 || (9 ≤ c && c ≤ 13)

/-- The number at the front of a text. -/
def leading (s : List Byte) : Int := Decimal.value (s.takeWhile fun c => Decimal.IsDigit c)

/-- `strtol (s, 0, 10)`. -/
def strtol (s : List Byte) : Int :=
  match s.dropWhile isspace with
  | []     => 0
  | c :: s => if c = 45 then max LONG_MIN (-leading s)
    else if c = 43 then min LONG_MAX (leading s) else min LONG_MAX (leading (c :: s))

def atoi (s : List Byte) : Int := Int.bmod (strtol s) (2 ^ 32)

namespace Sockinetaddr

variable {κ : Type}

/-- The methods of a sockinetaddr. -/
abbrev M (κ : Type) := Prog Thrown (Proc Sockinetaddr κ)

/-! ### Methods -/

def getport (sa : Sockinetaddr) : Int := ntohs sa.sin_port

def setaddr (R : Resolver κ) (host_name : List Byte) : M κ Unit := do
  modify (Proc.onObj fun sa => { sa with sin_addr := R.inet_addr host_name })
  let s ← get
  if s.obj.sin_addr = INADDR_NONE then do
    match ← lookup fun k => R.gethostbyname k host_name with
    | none    => throw (.err EADDRNOTAVAIL "sockinetaddr::setaddr" "")
    | some hp =>
      modify (Proc.onObj fun sa => { sa with sin_addr := hp.h_addr, sin_family := hp.h_addrtype })
  else modify (Proc.onObj fun sa => { sa with sin_family := af_inet })

def setport (R : Resolver κ) (sn pn : List Byte) : M κ Unit :=
  if Decimal.IsDigit (sn.headD 0) then
    modify (Proc.onObj fun sa => { sa with sin_port := htons (atoi sn) })
  else do
    match ← lookup fun k => R.getservbyname k sn pn with
    | none    => throw (.err EADDRNOTAVAIL "sockinetaddr::setport" "")
    | some sp => modify (Proc.onObj fun sa => { sa with sin_port := sp })

/-! ### Constructors -/

/-- `sockinetaddr (addr, port_no)`. -/
def ofPort (addr : Nat) (port_no : Int) : M κ Unit :=
  modify (Proc.onObj fun _ => sockinetaddr addr port_no)

/-- `sockinetaddr (addr, sn, pn)`. -/
def ofService (R : Resolver κ) (addr : Nat) (sn pn : List Byte) : M κ Unit := do
  modify (Proc.onObj fun sa => { sa with sin_family := af_inet, sin_addr := htonl addr })
  setport R sn pn

/-- `sockinetaddr (host_name, port_no)`. -/
def ofHostPort (R : Resolver κ) (host_name : List Byte) (port_no : Int) : M κ Unit := do
  setaddr R host_name
  modify (Proc.onObj fun sa => { sa with sin_port := htons port_no })

/-- `sockinetaddr (hn, sn, pn)`. -/
def ofHostService (R : Resolver κ) (hn sn pn : List Byte) : M κ Unit := do
  setaddr R hn
  setport R sn pn

/-! ### The port asked for -/

/-- The port that a text asks for, where it is a number from end to end. -/
def requested (sn : List Byte) : Option Int := (Decimal.parse sn).map Int.ofNat

/-- What is asked for is a port. -/
def Fits (port : Option Int) : Prop := ∃ p, port = some p ∧ 0 ≤ p ∧ p ≤ 65535

/-- The address holds the port asked for, or `err` has been thrown. -/
def Honest (port : Option Int) (o : Outcome Thrown (Proc Sockinetaddr κ) Unit) : Prop :=
  o.Sat (fun _ s' => port = some s'.obj.getport) fun e _ => ∃ n op spec, e = .err n op spec

/-- The host is a number, or has one. -/
def Known (R : Resolver κ) (k : κ) (host_name : List Byte) : Prop :=
  R.inet_addr host_name = INADDR_NONE → (R.gethostbyname k host_name).1 ≠ none

variable {R : Resolver κ} {sn host_name : List Byte} {port : Option Int} {port_no : Int}
  {s : Proc Sockinetaddr κ}

theorem fits_some : Fits (some port_no) ↔ 0 ≤ port_no ∧ port_no ≤ 65535 := by
  simp [Fits]

/-- A port kept as it is. -/
theorem eq_ntohs_htons_iff : port_no = ntohs (htons port_no) ↔ Fits (some port_no) := by
  rw [ntohs_htons, fits_some]
  omega

/-- **`atoi`** of a number that is a port. -/
theorem atoi_eq (hs : Decimal.Numeral sn) (hv : Decimal.value sn ≤ 65535) :
    atoi sn = Decimal.value sn := by
  have htake : sn.takeWhile (fun c => Decimal.IsDigit c) = sn :=
    List.takeWhile_eq_self_iff.mpr fun c hc => decide_eq_true (hs.2 c hc)
  cases sn with
  | nil => exact absurd rfl hs.1
  | cons c l =>
      have hc := hs.2 c List.mem_cons_self
      have hspace : isspace c = false := by
        simp only [Decimal.IsDigit, isspace, UInt8.le_iff_toNat_le, Bool.or_eq_false_iff,
          Bool.and_eq_false_iff, decide_eq_false_iff_not, ← UInt8.toNat_inj] at hc ⊢
        simp only [UInt8.reduceToNat]
        omega
      have hsign : c ≠ 45 ∧ c ≠ 43 := by
        simp only [Decimal.IsDigit, ne_eq, ← UInt8.toNat_inj, UInt8.reduceToNat] at hc ⊢
        omega
      have hmax : min LONG_MAX (Decimal.value (c :: l) : Int) = Decimal.value (c :: l) := by
        rw [LONG_MAX]
        omega
      rw [atoi, strtol, List.dropWhile_cons_of_neg (by simp [hspace])]
      simp only [hsign.1, hsign.2, if_false]
      rw [leading, htake, hmax]
      exact Int.bmod_eq_of_le (by omega) (by omega)

/-- **`setport`** of a text that begins with a digit. -/
theorem honest_setport (hs : Decimal.IsDigit (sn.headD 0)) (pn : List Byte) :
    Honest (requested sn) (setport R sn pn s) ↔ Fits (requested sn) := by
  have hport : Honest (requested sn) (setport R sn pn s) ↔
      requested sn = some (ntohs (htons (atoi sn)) : Int) := by
    rw [setport, if_pos hs]
    exact Iff.rfl
  rw [hport]
  unfold requested
  cases hp : Decimal.parse sn with
  | none => simp [Fits]
  | some n =>
      obtain ⟨hnum, rfl⟩ := Decimal.parse_eq_some.mp hp
      rw [Option.map_some, Int.ofNat_eq_natCast, fits_some, Option.some.injEq]
      refine ⟨fun h => ?_, fun h => ?_⟩
      · rw [ntohs_htons] at h
        omega
      · rw [atoi_eq hnum (by omega)]
        exact eq_ntohs_htons_iff.mpr (fits_some.mpr h)

/-- **`setaddr`** ends early exactly if the host is not known. -/
theorem setaddr_run (R : Resolver κ) (host_name : List Byte) (s : Proc Sockinetaddr κ) :
    (Known R s.sys.kern host_name ∧ ∃ s', setaddr R host_name s = .ret () s') ∨
    (¬ Known R s.sys.kern host_name ∧
      ∃ s', setaddr R host_name s = .thrown (.err EADDRNOTAVAIL "sockinetaddr::setaddr" "") s') := by
  by_cases hnone : R.inet_addr host_name = INADDR_NONE
  · cases hp : (R.gethostbyname s.sys.kern host_name).1 with
    | none =>
        refine .inr ⟨fun h => h hnone hp, ?_⟩
        simp [setaddr, Proc.onObj, hnone, hp]
    | some host =>
        refine .inl ⟨fun _ => by rw [hp]; exact Option.some_ne_none host, ?_⟩
        simp [setaddr, Proc.onObj, hnone, hp]
  · refine .inl ⟨fun h => absurd h hnone, ?_⟩
    simp [setaddr, Proc.onObj, hnone]

/-- A constructor that begins with `setaddr`. -/
theorem honest_host {p : M κ Unit} (h : ∀ s', Honest port (p s') ↔ Fits port) :
    Honest port ((setaddr R host_name >>= fun _ => p) s) ↔
      ¬ Known R s.sys.kern host_name ∨ Fits port := by
  rw [Prog.bind_apply]
  rcases setaddr_run R host_name s with ⟨hk, s', hrun⟩ | ⟨hk, s', hrun⟩
  · rw [hrun, Outcome.andThen_ret, h s']
    simp [hk]
  · rw [hrun, Outcome.andThen_thrown]
    exact ⟨fun _ => .inl hk, fun _ => ⟨_, _, _, rfl⟩⟩

/-- A constructor with a number for the port. -/
theorem honest_htons : ∀ s : Proc Sockinetaddr κ,
    Honest (some port_no) ((modify (Proc.onObj fun sa => { sa with sin_port := htons port_no }) :
      M κ Unit) s) ↔ Fits (some port_no) := by
  intro s
  rw [← eq_ntohs_htons_iff]
  exact Option.some_inj

/-- **Honest addresses.**  The address holds the port asked for, or `err` has been thrown, exactly if the
number asked for is one of 0 to 65535, a text being the number it is from end to end.  Otherwise only a
host that is not known keeps the constructor from making an address with another port. -/
theorem honest_iff (R : Resolver κ) (s : Proc Sockinetaddr κ) :
    (∀ port_no,
      (∀ addr, Honest (some port_no) (ofPort addr port_no s) ↔ Fits (some port_no)) ∧
      ∀ host_name, Honest (some port_no) (ofHostPort R host_name port_no s) ↔
        ¬ Known R s.sys.kern host_name ∨ Fits (some port_no)) ∧
    ∀ sn pn, Decimal.IsDigit (sn.headD 0) →
      (Honest (requested sn) (setport R sn pn s) ↔ Fits (requested sn)) ∧
      (∀ addr, Honest (requested sn) (ofService R addr sn pn s) ↔ Fits (requested sn)) ∧
      ∀ hn, Honest (requested sn) (ofHostService R hn sn pn s) ↔
        ¬ Known R s.sys.kern hn ∨ Fits (requested sn) := by
  refine ⟨fun port_no => ⟨fun addr => ?_, fun host_name => honest_host honest_htons⟩,
    fun sn pn hs => ⟨honest_setport hs pn, fun addr => ?_, fun hn => ?_⟩⟩
  · rw [← eq_ntohs_htons_iff]
    exact Option.some_inj
  · exact honest_setport hs pn
  · exact honest_host fun _ => honest_setport hs pn

/-- No host is known by name. -/
def noNames : Resolver Unit where
  inet_addr _         := INADDR_NONE
  gethostbyname _ _   := (none, ())
  getservbyname _ _ _ := (none, ())

/-- An address that is not set yet. -/
def unset : Proc Sockinetaddr Unit := ⟨⟨0, ⟨0, 0, 0, 0⟩, ⟨0, 0⟩⟩, ⟨(), 0, []⟩⟩

/-- A text that asks for a port. -/
theorem honest_iff_www :
    Honest (requested (Decimal.print 80)) (setport noNames (Decimal.print 80) [] unset) :=
  (((honest_iff noNames unset).2 (Decimal.print 80) [] (by decide)).1).mpr
    ⟨80, by decide +kernel, by decide, by decide⟩

/-- **Another port than asked for.**  A number that is too large, a text with something behind the number,
and a text with too many digits. -/
theorem port_of_another :
    ((ofPort INADDR_ANY 65536 unset).result.map fun r => (r.1.toOption, r.2.obj.getport)) =
      some (some (), 0) ∧
    ((setport noNames (Decimal.print 80 ++ [120]) [] unset).result.map fun r =>
      (r.1.toOption, r.2.obj.getport)) = some (some (), 80) ∧ requested (Decimal.print 80 ++ [120]) = none ∧
    ((setport noNames (Decimal.print (10 ^ 20)) [] unset).result.map fun r =>
      (r.1.toOption, r.2.obj.getport)) = some (some (), 65535) := by
  refine ⟨?_, ?_, ?_, ?_⟩ <;> decide +kernel

end Sockinetaddr

end Socketpp
