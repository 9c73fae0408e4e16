import Mathlib.Data.List.Basic
import Socketpp.Lib.Mem
import Socketpp.Lib.Prog

/-!
# Lib — Input streams

`std::istream::getline (s, n)` over any buffer, given by its `sgetc` and `sbumpc`, with characters of any
type.  It is an unformatted input function: it does nothing on a stream that is not good, and an exception
of the buffer becomes `badbit`.

* A line shorter than `n` is taken with its end, and the stream stays good (`getline_fits`).
* Of any other line `n - 1` characters are taken, and the stream has failed (`getline_long`).
* A stream that is not good gives an empty string (`getline_failed`).
-/

namespace Lib

/-- `std::ios_base::iostate`. -/
structure Iostate where
  eofbit  : Bool
  failbit : Bool
  badbit  : Bool
  deriving DecidableEq

namespace Iostate

def goodbit : Iostate := ⟨false, false, false⟩

/-- `good ()`. -/
def Good (r : Iostate) : Prop := r = goodbit

instance (r : Iostate) : Decidable r.Good := inferInstanceAs (Decidable (r = goodbit))

end Iostate

/-- A stream over the buffer `rdbuf`, and the array that `getline` stores in. -/
structure Istream (τ α : Type) where
  rdbuf   : τ
  rdstate : Iostate
  gcount  : Nat
  s       : Mem α

namespace Istream

variable {ε τ α β : Type} [DecidableEq α]

/-- Run a function of the buffer. -/
def onBuf (p : Prog ε τ β) : Prog ε (Istream τ α) β :=
  Prog.zoom Istream.rdbuf (fun t r => { r with rdbuf := t }) p

/-- `setstate (eofbit)`. -/
def setEof (r : Istream τ α) : Istream τ α := { r with rdstate := { r.rdstate with eofbit := true } }

/-- `setstate (failbit)`. -/
def setFail (r : Istream τ α) : Istream τ α := { r with rdstate := { r.rdstate with failbit := true } }

/-- `setstate (badbit)`. -/
def setBad (r : Istream τ α) : Istream τ α := { r with rdstate := { r.rdstate with badbit := true } }

/-- Store a character, and count it. -/
def store (c : α) (r : Istream τ α) : Istream τ α :=
  { r with s := r.s.write r.gcount c, gcount := r.gcount + 1 }

/-- The string ends at the cell `i`, where the array has room for an end. -/
def endString (nul : α) (n i : Nat) (r : Istream τ α) : Istream τ α :=
  if 0 < n then { r with s := r.s.write i nul } else r

variable (sgetc sbumpc : Prog ε τ (Option α)) (delim nul : α) (n : Nat)

/-- One character; `inr` is the number of characters stored, at the end.  The tests come in this order. -/
def getlineRound (_ : Unit) : Prog ε (Istream τ α) (Unit ⊕ Nat) := do
  let i := (← get).gcount
  match ← onBuf sgetc with
  | none   =>
    modify setEof
    return .inr i
  | some c =>
    if c = delim then do
      let _ ← onBuf sbumpc
      modify fun r => { r with gcount := r.gcount + 1 }
      return .inr i
    else if n ≤ i + 1 then do
      modify setFail
      return .inr i
    else do
      let _ ← onBuf sbumpc
      modify (store c)
      return .inl ()

/-- `getline (s, n, delim)`. -/
def getline : Prog ε (Istream τ α) Unit := do
  modify fun r => { r with gcount := 0 }
  let r ← get
  if r.rdstate.Good then do
    let i ← tryCatch (Prog.loop (getlineRound sgetc sbumpc delim n) (n + 1) ()) fun _ => do
      modify setBad
      return (← get).gcount
    modify (endString nul n i)
  else do
    modify setFail
    modify (endString nul n 0)
  modify fun r => if r.gcount = 0 then setFail r else r

/-! ### Lines -/

variable {sgetc sbumpc delim nul n}

/-- In the states `At l` the buffer gives the characters `l` next. -/
structure Source (sgetc sbumpc : Prog ε τ (Option α)) (At : List α → τ → Prop) : Prop where
  peek : ∀ {c l t}, At (c :: l) t → ∃ t', sgetc t = .ret (some c) t' ∧ At (c :: l) t'
  take : ∀ {c l t}, At (c :: l) t → ∃ t', sbumpc t = .ret (some c) t' ∧ At l t'

variable {At : List α → τ → Prop} (hsrc : Source sgetc sbumpc At)
include hsrc

/-- A character that is stored. -/
theorem round_stores {r : Istream τ α} {c : α} {l : List α} (h : At (c :: l) r.rdbuf) (hc : c ≠ delim)
    (hn : ¬ n ≤ r.gcount + 1) :
    ∃ t', getlineRound sgetc sbumpc delim n () r = .ret (.inl ()) (store c { r with rdbuf := t' }) ∧
      At l t' := by
  obtain ⟨t₁, hpeek, h₁⟩ := hsrc.peek h
  obtain ⟨t', htake, h'⟩ := hsrc.take h₁
  refine ⟨t', ?_, h'⟩
  simp only [getlineRound, onBuf, Prog.bind_apply, Prog.get_apply, Outcome.andThen_ret, Prog.zoom_apply,
    hpeek, Outcome.mapState_ret, Prog.ite_apply, hc, if_false, hn, htake, Prog.modify_apply,
    Prog.pure_apply]

/-- The end of the line. -/
theorem round_ends {r : Istream τ α} {l : List α} (h : At (delim :: l) r.rdbuf) :
    ∃ t', getlineRound sgetc sbumpc delim n () r = .ret (.inr r.gcount)
        { r with rdbuf := t', gcount := r.gcount + 1 } ∧ At l t' := by
  obtain ⟨t₁, hpeek, h₁⟩ := hsrc.peek h
  obtain ⟨t', htake, h'⟩ := hsrc.take h₁
  refine ⟨t', ?_, h'⟩
  simp only [getlineRound, onBuf, Prog.bind_apply, Prog.get_apply, Outcome.andThen_ret, Prog.zoom_apply,
    hpeek, Outcome.mapState_ret, Prog.ite_apply, if_true, htake, Prog.modify_apply, Prog.pure_apply]

/-- No room for another character. -/
theorem round_fails {r : Istream τ α} {c : α} {l : List α} (h : At (c :: l) r.rdbuf) (hc : c ≠ delim)
    (hn : n ≤ r.gcount + 1) :
    ∃ t', getlineRound sgetc sbumpc delim n () r = .ret (.inr r.gcount)
        (setFail { r with rdbuf := t' }) ∧ At (c :: l) t' := by
  obtain ⟨t', hpeek, h'⟩ := hsrc.peek h
  refine ⟨t', ?_, h'⟩
  simp only [getlineRound, onBuf, Prog.bind_apply, Prog.get_apply, Outcome.andThen_ret, Prog.zoom_apply,
    hpeek, Outcome.mapState_ret, Prog.ite_apply, hc, if_false, hn, if_true, Prog.modify_apply,
    Prog.pure_apply]

/-- The loop, on a line that fits. -/
theorem rounds_fit : ∀ (line : List α) {rest : List α} (r : Istream τ α) (k : Nat),
    At (line ++ delim :: rest) r.rdbuf → delim ∉ line → r.gcount + line.length < n → line.length < k →
    ∃ t', Prog.loop (getlineRound sgetc sbumpc delim n) k () r = .ret (r.gcount + line.length)
        ⟨t', r.rdstate, r.gcount + line.length + 1, r.s.store r.gcount line⟩ ∧ At rest t' := by
  intro line
  induction line with
  | nil =>
      intro rest r k h _ _ hk
      obtain ⟨k, rfl⟩ : ∃ m, k = m + 1 := ⟨k - 1, by omega⟩
      obtain ⟨t', hround, h'⟩ := round_ends (n := n) hsrc h
      exact ⟨t', Prog.loop_inr k hround, h'⟩
  | cons c line ih =>
      intro rest r k h hd hn hk
      rw [List.length_cons] at hn hk
      obtain ⟨k, rfl⟩ : ∃ m, k = m + 1 := ⟨k - 1, by omega⟩
      have hc : c ≠ delim := fun he => hd (he ▸ List.mem_cons_self)
      obtain ⟨t₁, hround, h₁⟩ := round_stores (n := n) hsrc h hc (by omega)
      have hd₁ : delim ∉ line := fun hmem => hd (List.mem_cons_of_mem c hmem)
      obtain ⟨t', hloop, h'⟩ := ih (store c { r with rdbuf := t₁ }) k h₁ hd₁
        (by simp only [store]; omega) (by omega)
      have hcount : r.gcount + 1 + line.length = r.gcount + (c :: line).length := by
        rw [List.length_cons]
        omega
      refine ⟨t', ?_, h'⟩
      rw [Prog.loop_inl k hround, hloop]
      simp only [store, hcount]
      rfl

/-- The loop, on a line that does not fit. -/
theorem rounds_fail : ∀ (line : List α) {rest : List α} (r : Istream τ α) (k : Nat),
    At (line ++ rest) r.rdbuf → delim ∉ line → r.gcount < n → n ≤ r.gcount + line.length →
    n ≤ r.gcount + k →
    ∃ t', Prog.loop (getlineRound sgetc sbumpc delim n) k () r = .ret (n - 1)
      (setFail ⟨t', r.rdstate, n - 1, r.s.store r.gcount (line.take (n - 1 - r.gcount))⟩) := by
  intro line
  induction line with
  | nil =>
      intro rest r k _ _ hn hle _
      rw [List.length_nil] at hle
      omega
  | cons c line ih =>
      intro rest r k h hd hn hle hk
      rw [List.length_cons] at hle
      obtain ⟨k, rfl⟩ : ∃ m, k = m + 1 := ⟨k - 1, by omega⟩
      have hc : c ≠ delim := fun he => hd (he ▸ List.mem_cons_self)
      by_cases hfull : n ≤ r.gcount + 1
      · have hcount : n - 1 = r.gcount := by omega
        obtain ⟨t', hround, -⟩ := round_fails hsrc h hc hfull
        refine ⟨t', ?_⟩
        rw [Prog.loop_inr k hround, hcount, Nat.sub_self]
        rfl
      · obtain ⟨t₁, hround, h₁⟩ := round_stores hsrc h hc hfull
        have hd₁ : delim ∉ line := fun hmem => hd (List.mem_cons_of_mem c hmem)
        obtain ⟨t', hloop⟩ := ih (store c { r with rdbuf := t₁ }) k h₁ hd₁
          (by simp only [store]; omega) (by simp only [store]; omega) (by simp only [store]; omega)
        have hcount : n - 1 - r.gcount = (n - 1 - (r.gcount + 1)) + 1 := by omega
        refine ⟨t', ?_⟩
        rw [Prog.loop_inl k hround, hloop, hcount, List.take_succ_cons]
        rfl

/-- **A line that fits** is stored, and taken with its end. -/
theorem getline_fits {line rest : List α} {r : Istream τ α} (hgood : r.rdstate.Good)
    (h : At (line ++ delim :: rest) r.rdbuf) (hd : delim ∉ line) (hn : line.length < n) :
    ∃ t', getline sgetc sbumpc delim nul n r = .ret ()
        ⟨t', r.rdstate, line.length + 1, (r.s.store 0 line).write line.length nul⟩ ∧ At rest t' := by
  obtain ⟨t', hloop, h'⟩ := rounds_fit (n := n) hsrc line { r with gcount := 0 } (n + 1) h hd
    (by simp only; omega) (by omega)
  refine ⟨t', ?_, h'⟩
  simp only [Nat.zero_add] at hloop
  have hpos : 0 < n := by omega
  simp only [getline, Prog.bind_apply, Prog.modify_apply, Prog.get_apply, Outcome.andThen_ret,
    Prog.ite_apply, hgood, if_true, Prog.tryCatch_apply, hloop, Outcome.handle_ret, endString, hpos,
    Nat.succ_ne_zero, if_false]

/-- **A line that does not fit** is cut off, and the stream fails. -/
theorem getline_long {line rest : List α} {r : Istream τ α} (hgood : r.rdstate.Good)
    (h : At (line ++ rest) r.rdbuf) (hd : delim ∉ line) (hn : n ≤ line.length) (h0 : 0 < n) :
    ∃ t', getline sgetc sbumpc delim nul n r = .ret () (setFail
      ⟨t', r.rdstate, n - 1, (r.s.store 0 (line.take (n - 1))).write (n - 1) nul⟩) := by
  obtain ⟨t', hloop⟩ := rounds_fail hsrc line { r with gcount := 0 } (n + 1) h hd h0
    (by simp only; omega) (by simp only; omega)
  refine ⟨t', ?_⟩
  simp only [Nat.sub_zero] at hloop
  simp only [getline, Prog.bind_apply, Prog.modify_apply, Prog.get_apply, Outcome.andThen_ret,
    Prog.ite_apply, hgood, if_true, Prog.tryCatch_apply, hloop, Outcome.handle_ret, endString, h0]
  by_cases h1 : n - 1 = 0
  · simp only [setFail, h1, if_true]
  · simp only [setFail, h1, if_false]

omit hsrc in
/-- **A stream that is not good** gives the empty string. -/
theorem getline_failed {r : Istream τ α} (hbad : ¬ r.rdstate.Good) (h0 : 0 < n) :
    getline sgetc sbumpc delim nul n r =
      .ret () (setFail { r with gcount := 0, s := r.s.write 0 nul }) := by
  simp only [getline, Prog.bind_apply, Prog.modify_apply, Prog.get_apply, Outcome.andThen_ret,
    Prog.ite_apply, hbad, if_false, endString, h0, if_true]
  rfl

end Istream

end Lib
