import Mathlib.Logic.Function.Basic
import Socketpp.Lib.Trail

/-!
# Lib — Servers that fork

A process accepts connections and forks a child for each; a child has the descriptors its parent had when
it was made.  `Site` is the system of all of them: the descriptor tables, what each process has done
(`Deed`), and every call that was made on a descriptor, with the file it reached.

The programs are parameters: `parent` and `child fd` are the lists of deeds that a run of either begins
with.  Any process may be the next to go on, and any may be killed at any time (`Site.Step`).  `Forking`
says what is asked of the programs: the parent accepts, forks and closes in turn, and a child keeps to its
descriptor.  Then each connection is one child's (`Apart`): `apart_of_reachable`.
-/

namespace Lib

/-- What a process does with its descriptors.  `fork false` is a fork that fails, and `use` any other
call. -/
inductive Deed (ι : Type) where
  | accept (fd : Int)
  | fork (made : Bool)
  | use (fd : Int) (c : ι)
  | close (fd : Int)
  | exit

/-- The parent between two deeds. -/
inductive Phase where
  | idle
  /-- a connection is accepted -/
  | hand (fd : Int)
  /-- and it has forked, or tried to -/
  | forked (fd : Int)

/-- The deeds of a parent, in turn. -/
inductive InTurn {ι : Type} : Phase → Deed ι → Phase → Prop where
  | accept (fd : Int) : InTurn .idle (.accept fd) (.hand fd)
  | fork (fd : Int) (made : Bool) : InTurn (.hand fd) (.fork made) (.forked fd)
  | close (fd : Int) : InTurn (.forked fd) (.close fd) .idle

/-- The deeds of a child with a connection on `fd`; `true` is as long as it has it. -/
inductive OnTask {ι : Type} (fd : Int) : Bool → Deed ι → Bool → Prop where
  | use (c : ι) : OnTask fd true (.use fd c) true
  | close : OnTask fd true (.close fd) false
  | exit : OnTask fd true .exit false

variable {φ ι : Type}

/-- The descriptor of the connection accepted last. -/
def inHand (made : List (Deed ι)) : Int :=
  made.foldl (fun fd d => match d with
    | .accept fd' => fd'
    | _ => fd) 0

/-- The calls among the deeds. -/
def usesOf (made : List (Deed ι)) : List ι :=
  made.filterMap fun d => match d with
    | .use _ c => some c
    | _ => none

theorem inTurn_unique (q : Phase) (d : Deed ι) (q₁ q₂ : Phase) (h₁ : InTurn q d q₁) (h₂ : InTurn q d q₂) :
    q₁ = q₂ := by
  cases h₁ <;> cases h₂ <;> rfl

theorem onTask_unique (fd : Int) (b : Bool) (d : Deed ι) (b₁ b₂ : Bool) (h₁ : OnTask fd b d b₁)
    (h₂ : OnTask fd b d b₂) : b₁ = b₂ := by
  cases h₁ <;> cases h₂ <;> rfl

theorem inHand_of_hand {w : List (Deed ι)} {fd : Int} (h : Trail InTurn .idle w (.hand fd)) :
    inHand w = fd := by
  obtain ⟨-, hq⟩ | ⟨pre, d, q, rfl, -, hd⟩ := h.last
  · cases hq
  · cases hd
    rw [inHand, List.foldl_append]
    rfl

@[simp] theorem usesOf_append (w w' : List (Deed ι)) : usesOf (w ++ w') = usesOf w ++ usesOf w' :=
  List.filterMap_append ..

/-- What is asked of the programs. -/
structure Forking (parent : List (Deed ι) → Prop) (child : Int → List (Deed ι) → Prop) : Prop where
  parent : ∀ w, parent w → ∃ q, Trail InTurn .idle w q
  child  : ∀ fd w, child fd w → ∃ b, Trail (OnTask fd) true w b

/-- The processes, numbered in the order they are made, with their descriptors.  A file is one of `φ`, open
from the start, or a connection; connections are numbered in the order they are accepted.  `serves` is the
descriptor a child has been made for. -/
structure Site (φ ι : Type) where
  table       : Nat → Int → Option (φ ⊕ Nat)
  alive       : Nat → Bool
  processes   : Nat
  connections : Nat
  made        : Nat → List (Deed ι)
  serves      : Nat → Int
  log         : List (Nat × (φ ⊕ Nat) × ι)

namespace Site

/-- The descriptors open at the start. -/
def given (base : Int → Option φ) : Int → Option (φ ⊕ Nat) := fun fd => (base fd).map .inl

/-- With the connection `n` on `fd`. -/
def holding (base : Int → Option φ) (fd : Int) (n : Nat) : Int → Option (φ ⊕ Nat) :=
  Function.update (given base) fd (some (.inr n))

/-- One process, with the descriptors of `base`. -/
def start (base : Int → Option φ) : Site φ ι where
  table       := fun p => if p = 0 then given base else fun _ => none
  alive       := fun p => p = 0
  processes   := 1
  connections := 0
  made        := fun _ => []
  serves      := fun _ => 0
  log         := []

def did (x : Site φ ι) (p : Nat) (d : Deed ι) : Site φ ι :=
  { x with made := Function.update x.made p (x.made p ++ [d]) }

/-- Put a file on a descriptor, or take it off. -/
def set (x : Site φ ι) (p : Nat) (fd : Int) (f : Option (φ ⊕ Nat)) : Site φ ι :=
  { x with table := Function.update x.table p (Function.update (x.table p) fd f) }

/-- The process ends, and all its descriptors are closed. -/
def gone (x : Site φ ι) (p : Nat) : Site φ ι :=
  { x with table := Function.update x.table p fun _ => none, alive := Function.update x.alive p false }

/-- A copy of the process is made. -/
def copied (x : Site φ ι) (p : Nat) : Site φ ι :=
  { x with
    table     := Function.update x.table x.processes (x.table p)
    alive     := Function.update x.alive x.processes true
    serves    := Function.update x.serves x.processes (inHand (x.made p))
    processes := x.processes + 1 }

section Steps

variable (parent : List (Deed ι) → Prop) (child : Int → List (Deed ι) → Prop)

/-- The process may do `d` next: a run of its program does. -/
def May (x : Site φ ι) (p : Nat) (d : Deed ι) : Prop :=
  x.alive p = true ∧ if p = 0 then parent (x.made p ++ [d]) else child (x.serves p) (x.made p ++ [d])

/-- One deed of one process, or its end. -/
inductive Step : Site φ ι → Site φ ι → Prop where
  | accept {x : Site φ ι} {p : Nat} {fd : Int} (h : x.May parent child p (.accept fd))
      (hfree : x.table p fd = none) :
      Step x { (x.set p fd (some (.inr x.connections))).did p (.accept fd) with
        connections := x.connections + 1 }
  | fork {x : Site φ ι} {p : Nat} (h : x.May parent child p (.fork true)) :
      Step x ((x.copied p).did p (.fork true))
  | unforked {x : Site φ ι} {p : Nat} (h : x.May parent child p (.fork false)) :
      Step x (x.did p (.fork false))
  | use {x : Site φ ι} {p : Nat} {fd : Int} {c : ι} {f : φ ⊕ Nat} (h : x.May parent child p (.use fd c))
      (hopen : x.table p fd = some f) :
      Step x { x.did p (.use fd c) with log := x.log ++ [(p, f, c)] }
  | close {x : Site φ ι} {p : Nat} {fd : Int} (h : x.May parent child p (.close fd)) :
      Step x ((x.set p fd none).did p (.close fd))
  | exit {x : Site φ ι} {p : Nat} (h : x.May parent child p .exit) : Step x ((x.gone p).did p .exit)
  | killed {x : Site φ ι} {p : Nat} (h : x.alive p = true) : Step x (x.gone p)

/-- What the system can come to. -/
inductive Reachable (base : Int → Option φ) : Site φ ι → Prop where
  | start : Reachable base (start base)
  | step {x x' : Site φ ι} (h : Reachable base x) (hs : Step parent child x x') : Reachable base x'

end Steps

/-- The children. -/
def Child (x : Site φ ι) (j : Nat) : Prop := 0 < j ∧ j < x.processes

/-- A call that has reached the connection `n`, with the process that made it. -/
def reaching (n : Nat) : Nat × (φ ⊕ Nat) × ι → Option (Nat × ι)
  | (_, .inl _, _) => none
  | (p, .inr m, c) => if m = n then some (p, c) else none

def callsOn (x : Site φ ι) (n : Nat) : List (Nat × ι) := x.log.filterMap (reaching n)

/-- What the parent holds: from `accept` to `close` the connection accepted last, which no child has before
it forks. -/
def Hands (base : Int → Option φ) (conn : Nat → Nat) (x : Site φ ι) : Phase → Prop
  | .idle      => x.table 0 = given base
  | .hand fd   => ∃ n, x.connections = n + 1 ∧ base fd = none ∧ x.table 0 = holding base fd n ∧
    ∀ j, x.Child j → conn j ≠ n
  | .forked fd => ∃ n, x.connections = n + 1 ∧ base fd = none ∧ x.table 0 = holding base fd n

/-- What a child holds: its connection, until it closes it. -/
def Serves (base : Int → Option φ) (n : Nat) (x : Site φ ι) (j : Nat) : Prop :=
  ∃ b, Trail (OnTask (x.serves j)) true (x.made j) b ∧ base (x.serves j) = none ∧
    x.table j = if b then holding base (x.serves j) n else given base

/-- **Each connection is one child's**: `conn j` is that of the child `j`, which alone has used it. -/
structure Apart (base : Int → Option φ) (conn : Nat → Nat) (x : Site φ ι) : Prop where
  born     : 0 < x.processes
  unborn   : ∀ p, x.processes ≤ p → x.alive p = false ∧ x.made p = []
  dead     : ∀ p, x.alive p = false → x.table p = fun _ => none
  parent   : x.alive 0 = true → ∃ q, Trail InTurn .idle (x.made 0) q ∧ x.Hands base conn q
  children : ∀ j, x.Child j → x.alive j = true → x.Serves base (conn j) j
  accepted : ∀ j, x.Child j → conn j < x.connections
  distinct : ∀ i j, x.Child i → x.Child j → conn i = conn j → i = j
  logged   : ∀ j, x.Child j → x.callsOn (conn j) = (usesOf (x.made j)).map fun c => (j, c)
  nobody   : ∀ n, (∀ j, x.Child j → conn j ≠ n) → x.callsOn n = []

variable {parent : List (Deed ι) → Prop} {child : Int → List (Deed ι) → Prop} {base : Int → Option φ}
  {conn : Nat → Nat} {x x' : Site φ ι} {p j n : Nat} {d : Deed ι} {fd : Int}

/-- What the parent does next comes next. -/
theorem May.turn (h : x.May parent child 0 d) (hF : Forking parent child) {q : Phase}
    (ht : Trail InTurn .idle (x.made 0) q) : ∃ q', InTurn q d q' ∧ Trail InTurn .idle (x.made 0 ++ [d]) q' := by
  obtain ⟨q', ht'⟩ := hF.parent _ (by simpa using h.2)
  exact ⟨q', ht.step_of_snoc inTurn_unique ht', ht'⟩

/-- What a child does next belongs to its task. -/
theorem May.task (h : x.May parent child p d) (hp : p ≠ 0) (hF : Forking parent child) {b : Bool}
    (ht : Trail (OnTask (x.serves p)) true (x.made p) b) :
    ∃ b', OnTask (x.serves p) b d b' ∧ Trail (OnTask (x.serves p)) true (x.made p ++ [d]) b' := by
  obtain ⟨b', ht'⟩ := hF.child _ _ (by simpa only [if_neg hp] using h.2)
  exact ⟨b', ht.step_of_snoc (onTask_unique _) ht', ht'⟩

/-! ### One process at a time -/

/-- Only `p` has done something. -/
structure Only (p : Nat) (x x' : Site φ ι) : Prop where
  processes : x'.processes = x.processes
  serves    : x'.serves = x.serves
  table     : ∀ q, q ≠ p → x'.table q = x.table q
  alive     : ∀ q, q ≠ p → x'.alive q = x.alive q
  made      : ∀ q, q ≠ p → x'.made q = x.made q

/-- The log is as it was, and so are the calls of `p`. -/
theorem Apart.quiet (h : Apart base conn x) (ho : Only p x x') (hlog : x'.log = x.log)
    (huses : usesOf (x'.made p) = usesOf (x.made p)) :
    (∀ j, x'.Child j → x'.callsOn (conn j) = (usesOf (x'.made j)).map fun c => (j, c)) ∧
      ∀ n, (∀ j, x'.Child j → conn j ≠ n) → x'.callsOn n = [] := by
  have hchild : ∀ j, x'.Child j ↔ x.Child j := fun j => by rw [Child, Child, ho.processes]
  have hcalls : ∀ n, x'.callsOn n = x.callsOn n := fun n => by rw [callsOn, callsOn, hlog]
  refine ⟨fun j hj => ?_, fun n hn => ?_⟩
  · rw [hcalls, h.logged j ((hchild j).mp hj)]
    by_cases hjp : j = p
    · rw [hjp, huses]
    · rw [ho.made j hjp]
  · rw [hcalls]
    exact h.nobody n fun j hj => hn j ((hchild j).mpr hj)

/-- **What `p` does** keeps the connections apart, if it keeps what it holds itself. -/
theorem Apart.of_only (h : Apart base conn x) (hp : x.alive p = true) (ho : Only p x x')
    (hconn : x.connections ≤ x'.connections) (hdead : x'.alive p = false → x'.table p = fun _ => none)
    (hparent : p = 0 → x'.alive 0 = true → ∃ q, Trail InTurn .idle (x'.made 0) q ∧ x'.Hands base conn q)
    (hchild : p ≠ 0 → x'.connections = x.connections ∧ (x'.alive p = true → x'.Serves base (conn p) p))
    (hlog : (∀ j, x'.Child j → x'.callsOn (conn j) = (usesOf (x'.made j)).map fun c => (j, c)) ∧
      ∀ n, (∀ j, x'.Child j → conn j ≠ n) → x'.callsOn n = []) : Apart base conn x' := by
  have hiff : ∀ j, x'.Child j ↔ x.Child j := fun j => by rw [Child, Child, ho.processes]
  refine ⟨ho.processes ▸ h.born, fun q hq => ?_, fun q hq => ?_, fun h0 => ?_, fun j hj halive => ?_,
    fun j hj => Nat.lt_of_lt_of_le (h.accepted j ((hiff j).mp hj)) hconn,
    fun i j hi hj => h.distinct i j ((hiff i).mp hi) ((hiff j).mp hj), hlog.1, hlog.2⟩
  · rw [ho.processes] at hq
    have hne : q ≠ p := by
      rintro rfl
      rw [(h.unborn q hq).1] at hp
      cases hp
    rw [ho.alive q hne, ho.made q hne]
    exact h.unborn q hq
  · by_cases hqp : q = p
    · subst hqp
      exact hdead hq
    · rw [ho.alive q hqp] at hq
      rw [ho.table q hqp]
      exact h.dead q hq
  · by_cases hp0 : p = 0
    · exact hparent hp0 h0
    · -- the parent has done nothing
      have h0p : 0 ≠ p := Ne.symm hp0
      rw [ho.alive 0 h0p] at h0
      obtain ⟨q, ht, hq⟩ := h.parent h0
      refine ⟨q, by rw [ho.made 0 h0p]; exact ht, ?_⟩
      cases q with
      | idle => exact (ho.table 0 h0p).trans hq
      | hand fd =>
          obtain ⟨n, hn, hfree, htable, hfresh⟩ := hq
          exact ⟨n, (hchild hp0).1.trans hn, hfree, (ho.table 0 h0p).trans htable,
            fun j hj => hfresh j ((hiff j).mp hj)⟩
      | forked fd =>
          obtain ⟨n, hn, hfree, htable⟩ := hq
          exact ⟨n, (hchild hp0).1.trans hn, hfree, (ho.table 0 h0p).trans htable⟩
  · by_cases hjp : j = p
    · subst hjp
      exact (hchild (Nat.ne_of_gt hj.1)).2 halive
    · rw [ho.alive j hjp] at halive
      obtain ⟨b, ht, hfree, htable⟩ := h.children j ((hiff j).mp hj) halive
      refine ⟨b, ?_, ?_, ?_⟩
      · rw [ho.serves, ho.made j hjp]
        exact ht
      · rw [ho.serves]
        exact hfree
      · rw [ho.table j hjp, ho.serves]
        exact htable

theorem only_did (x : Site φ ι) (p : Nat) (d : Deed ι) : Only p x (x.did p d) :=
  ⟨rfl, rfl, fun _ _ => rfl, fun _ _ => rfl, fun _ hq => Function.update_of_ne hq _ _⟩

theorem only_set (x : Site φ ι) (p : Nat) (fd : Int) (f : Option (φ ⊕ Nat)) : Only p x (x.set p fd f) :=
  ⟨rfl, rfl, fun _ hq => Function.update_of_ne hq _ _, fun _ _ => rfl, fun _ _ => rfl⟩

theorem only_gone (x : Site φ ι) (p : Nat) : Only p x (x.gone p) :=
  ⟨rfl, rfl, fun _ hq => Function.update_of_ne hq _ _, fun _ hq => Function.update_of_ne hq _ _,
    fun _ _ => rfl⟩

theorem Only.refl (p : Nat) (x : Site φ ι) : Only p x x :=
  ⟨rfl, rfl, fun _ _ => rfl, fun _ _ => rfl, fun _ _ => rfl⟩

theorem Only.trans {x₁ : Site φ ι} (h : Only p x x₁) (h' : Only p x₁ x') : Only p x x' :=
  ⟨h'.processes.trans h.processes, h'.serves.trans h.serves, fun q hq => (h'.table q hq).trans (h.table q hq),
    fun q hq => (h'.alive q hq).trans (h.alive q hq), fun q hq => (h'.made q hq).trans (h.made q hq)⟩

@[simp] theorem made_did (x : Site φ ι) (p : Nat) (d : Deed ι) : (x.did p d).made p = x.made p ++ [d] :=
  Function.update_self ..

@[simp] theorem table_set (x : Site φ ι) (p : Nat) (fd : Int) (f : Option (φ ⊕ Nat)) :
    (x.set p fd f).table p = Function.update (x.table p) fd f := Function.update_self ..

@[simp] theorem table_gone (x : Site φ ι) (p : Nat) : (x.gone p).table p = fun _ => none :=
  Function.update_self ..

@[simp] theorem alive_gone (x : Site φ ι) (p : Nat) : (x.gone p).alive p = false := Function.update_self ..

theorem holding_close (hfree : base fd = none) (n : Nat) :
    Function.update (holding base fd n) fd none = given base := by
  rw [holding, Function.update_idem, Function.update_eq_self_iff, given, hfree]
  rfl

/-- A process that does something, other than the first, is a child. -/
theorem Apart.child_of_alive (h : Apart base conn x) (hp : x.alive p = true) (h0 : p ≠ 0) : x.Child p := by
  refine ⟨Nat.pos_of_ne_zero h0, Nat.lt_of_not_le fun hle => ?_⟩
  rw [(h.unborn p hle).1] at hp
  cases hp

/-! ### The deeds -/

section Deeds

variable (h : Apart base conn x) (hF : Forking parent child)
include h hF

theorem Apart.accept (hm : x.May parent child p (.accept fd)) (hfree : x.table p fd = none) :
    Apart base conn { (x.set p fd (some (.inr x.connections))).did p (.accept fd) with
      connections := x.connections + 1 } := by
  by_cases h0 : p = 0
  · subst h0
    obtain ⟨q, ht, hq⟩ := h.parent hm.1
    obtain ⟨q', hturn, ht'⟩ := hm.turn hF ht
    cases hturn
    have hbase : base fd = none := by
      have hnone : given base fd = none := by rw [← hq]; exact hfree
      exact Option.map_eq_none_iff.mp hnone
    have ho := (only_set x 0 fd (some (.inr x.connections))).trans (only_did _ 0 (.accept fd))
    refine h.of_only hm.1 ⟨ho.processes, ho.serves, ho.table, ho.alive, ho.made⟩ (Nat.le_succ _)
      (fun hdead => ?_) (fun _ _ => ⟨.hand fd, ?_, x.connections, rfl, hbase, ?_, ?_⟩) (fun hne => absurd rfl hne)
      (h.quiet ⟨ho.processes, ho.serves, ho.table, ho.alive, ho.made⟩ rfl ?_)
    · exact absurd (hm.1.symm.trans hdead) (by decide)
    · exact (made_did _ 0 _).symm ▸ ht'
    · exact (table_set x 0 fd _).trans (by rw [show x.table 0 = given base from hq]; rfl)
    · exact fun j hj => Nat.ne_of_lt (h.accepted j hj)
    · rw [show _ = _ from made_did _ 0 _, usesOf_append]
      exact List.append_nil _
  · have hj := h.child_of_alive hm.1 h0
    obtain ⟨b, ht, -⟩ := h.children p hj hm.1
    obtain ⟨b', htask, -⟩ := hm.task h0 hF ht
    cases htask

theorem Apart.unforked (hm : x.May parent child p (.fork false)) : Apart base conn (x.did p (.fork false)) := by
  by_cases h0 : p = 0
  · subst h0
    obtain ⟨q, ht, hq⟩ := h.parent hm.1
    obtain ⟨q', hturn, ht'⟩ := hm.turn hF ht
    cases hturn with
    | fork fd =>
        obtain ⟨n, hn, hfree, htable, -⟩ := hq
        have ho := only_did x 0 (.fork false)
        refine h.of_only hm.1 ho (Nat.le_refl _) (fun hdead => ?_)
          (fun _ _ => ⟨.forked fd, by rwa [made_did], n, hn, hfree, htable⟩) (fun hne => absurd rfl hne)
          (h.quiet ho rfl ?_)
        · exact absurd (hm.1.symm.trans hdead) (by decide)
        · rw [made_did, usesOf_append]
          exact List.append_nil _
  · have hj := h.child_of_alive hm.1 h0
    obtain ⟨b, ht, -⟩ := h.children p hj hm.1
    obtain ⟨b', htask, -⟩ := hm.task h0 hF ht
    cases htask

theorem Apart.close (hm : x.May parent child p (.close fd)) :
    Apart base conn ((x.set p fd none).did p (.close fd)) := by
  have ho := (only_set x p fd none).trans (only_did _ p (.close fd))
  have halive : ((x.set p fd none).did p (.close fd)).alive p = true := hm.1
  have htable : ((x.set p fd none).did p (.close fd)).table p = Function.update (x.table p) fd none :=
    table_set x p fd none
  have hmade : ((x.set p fd none).did p (.close fd)).made p = x.made p ++ [.close fd] := made_did _ p _
  refine h.of_only hm.1 ho (Nat.le_refl _) (fun hdead => ?_) (fun h0 _ => ?_) (fun h0 => ⟨rfl, fun _ => ?_⟩)
    (h.quiet ho rfl ?_)
  · exact absurd (halive.symm.trans hdead) (by decide)
  · subst h0
    obtain ⟨q, ht, hq⟩ := h.parent hm.1
    obtain ⟨q', hturn, ht'⟩ := hm.turn hF ht
    cases hturn
    obtain ⟨n, -, hfree, htable₀⟩ := hq
    refine ⟨.idle, hmade ▸ ht', htable.trans ?_⟩
    rw [htable₀, holding_close hfree]
  · have hj := h.child_of_alive hm.1 h0
    obtain ⟨b, ht, hfree, htable₀⟩ := h.children p hj hm.1
    obtain ⟨b', htask, ht'⟩ := hm.task h0 hF ht
    cases htask
    refine ⟨false, hmade ▸ ht', hfree, htable.trans ?_⟩
    rw [htable₀, if_pos rfl, holding_close hfree]
    rfl
  · rw [hmade, usesOf_append]
    exact List.append_nil _

theorem Apart.use {c : ι} {f : φ ⊕ Nat} (hm : x.May parent child p (.use fd c)) (hopen : x.table p fd = some f) :
    Apart base conn { x.did p (.use fd c) with log := x.log ++ [(p, f, c)] } := by
  by_cases h0 : p = 0
  · subst h0
    obtain ⟨q, ht, hq⟩ := h.parent hm.1
    obtain ⟨q', hturn, -⟩ := hm.turn hF ht
    cases hturn
  · have hj := h.child_of_alive hm.1 h0
    obtain ⟨b, ht, hfree, htable⟩ := h.children p hj hm.1
    obtain ⟨b', htask, ht'⟩ := hm.task h0 hF ht
    cases htask
    -- the descriptor leads to the connection of the child
    obtain rfl : f = .inr (conn p) := by
      rw [htable, if_pos rfl, holding, Function.update_self] at hopen
      exact (Option.some.inj hopen).symm
    have ho := only_did x p (.use (x.serves p) c)
    have hlog : ∀ n, ({ x.did p (.use (x.serves p) c) with log := x.log ++ [(p, .inr (conn p), c)] } :
        Site φ ι).callsOn n = x.callsOn n ++ if conn p = n then [(p, c)] else [] := by
      intro n
      rw [callsOn, callsOn, List.filterMap_append]
      by_cases hn : conn p = n <;> simp [reaching, hn]
    refine h.of_only hm.1 ⟨ho.processes, ho.serves, ho.table, ho.alive, ho.made⟩ (Nat.le_refl _)
      (fun hdead => ?_) (fun hp => absurd hp h0) (fun _ => ⟨rfl, fun _ => ⟨true, ?_, hfree, htable⟩⟩)
      ⟨fun j hj' => ?_, fun n hn => ?_⟩
    · exact absurd (hm.1.symm.trans hdead) (by decide)
    · exact (made_did x p _).symm ▸ ht'
    · rw [hlog]
      by_cases hjp : j = p
      · subst hjp
        rw [if_pos rfl, h.logged j hj, show _ = _ from made_did x j _, usesOf_append, List.map_append]
        rfl
      · rw [if_neg fun heq => hjp (h.distinct p j hj hj' heq).symm, List.append_nil, h.logged j hj',
          show _ = _ from ho.made j hjp]
    · rw [hlog, if_neg (hn p hj), List.append_nil]
      exact h.nobody n hn

end Deeds

/-! ### A fork -/

/-- What a fork of the parent leaves. -/
def forked (x : Site φ ι) : Site φ ι := (x.copied 0).did 0 (.fork true)

theorem forked_table (hp : p ≠ x.processes) : x.forked.table p = x.table p := Function.update_of_ne hp _ _

theorem forked_alive (hp : p ≠ x.processes) : x.forked.alive p = x.alive p := Function.update_of_ne hp _ _

theorem forked_serves (hp : p ≠ x.processes) : x.forked.serves p = x.serves p := Function.update_of_ne hp _ _

theorem forked_made (hp : p ≠ 0) : x.forked.made p = x.made p := Function.update_of_ne hp _ _

/-- A child is the new one, or was there before. -/
theorem forked_child (hj : x.forked.Child j) : j = x.processes ∨ x.Child j ∧ j ≠ x.processes :=
  (Nat.lt_succ_iff_lt_or_eq.mp hj.2).symm.imp id fun hlt => ⟨⟨hj.1, hlt⟩, Nat.ne_of_lt hlt⟩

section Fork

variable (h : Apart base conn x) (ht : Trail InTurn .idle (x.made 0) (.hand fd))
  (hn : x.connections = n + 1) (hfree : base fd = none) (htable : x.table 0 = holding base fd n)
  (hfresh : ∀ j, x.Child j → conn j ≠ n)
include h

theorem Apart.new_made : x.forked.made x.processes = [] := by
  rw [forked_made (Nat.ne_of_gt h.born)]
  exact (h.unborn _ (Nat.le_refl _)).2

include ht hfree htable in
/-- The new child has the connection that the parent has in hand. -/
theorem Apart.new_serves : x.forked.Serves base n x.processes := by
  have hserves : x.forked.serves x.processes = fd := (Function.update_self ..).trans (inHand_of_hand ht)
  refine ⟨true, ?_, hserves ▸ hfree, ?_⟩
  · rw [h.new_made]
    exact .nil
  · rw [hserves, if_pos rfl, ← htable]
    exact Function.update_self ..

theorem Apart.old_serves (hj : x.Child j) (hne : j ≠ x.processes) (halive : x.forked.alive j = true) :
    x.forked.Serves base (conn j) j := by
  obtain ⟨b, ht, hfree, htable⟩ := h.children j hj (forked_alive hne ▸ halive)
  refine ⟨b, ?_, ?_, ?_⟩
  · rw [forked_serves hne, forked_made (Nat.ne_of_gt hj.1)]
    exact ht
  · rw [forked_serves hne]
    exact hfree
  · rw [forked_serves hne, forked_table hne]
    exact htable

include hfresh in
theorem Apart.new_distinct {i j : Nat} (hi : x.forked.Child i) (hj : x.forked.Child j)
    (heq : Function.update conn x.processes n i = Function.update conn x.processes n j) : i = j := by
  rcases forked_child hi with rfl | ⟨hi, hik⟩ <;> rcases forked_child hj with rfl | ⟨hj, hjk⟩
  · rfl
  · rw [Function.update_self, Function.update_of_ne hjk] at heq
    exact absurd heq.symm (hfresh j hj)
  · rw [Function.update_self, Function.update_of_ne hik] at heq
    exact absurd heq (hfresh i hi)
  · rw [Function.update_of_ne hik, Function.update_of_ne hjk] at heq
    exact h.distinct i j hi hj heq

include ht hn hfree htable hfresh in
/-- **A fork**, with a connection in hand. -/
theorem Apart.forked (ht' : Trail InTurn .idle (x.made 0 ++ [.fork true]) (.forked fd)) :
    Apart base (Function.update conn x.processes n) x.forked := by
  have hborn : 0 ≠ x.processes := Nat.ne_of_lt h.born
  refine ⟨Nat.succ_pos _, fun p hp => ?_, fun p hp => ?_, fun _ => ⟨.forked fd, ?_, n, hn, hfree, ?_⟩,
    fun j hj halive => ?_, fun j hj => ?_, fun i j hi hj => h.new_distinct hfresh hi hj, fun j hj => ?_,
    fun m hm => ?_⟩
  · have hlt : x.processes < p := hp
    rw [forked_alive (Nat.ne_of_gt hlt), forked_made (Nat.ne_of_gt (Nat.lt_of_le_of_lt (Nat.zero_le _) hlt))]
    exact h.unborn p (Nat.le_of_lt hlt)
  · by_cases hpk : p = x.processes
    · subst hpk
      exact absurd ((Function.update_self (β := fun _ => Bool) _ _ _).symm.trans hp) (by decide)
    · rw [forked_table hpk]
      exact h.dead p (forked_alive hpk ▸ hp)
  · exact (made_did _ 0 _).symm ▸ ht'
  · exact (forked_table hborn).trans htable
  · rcases forked_child hj with rfl | ⟨hj, hne⟩
    · rw [Function.update_self]
      exact h.new_serves ht hfree htable
    · rw [Function.update_of_ne hne]
      exact h.old_serves hj hne halive
  · rcases forked_child hj with rfl | ⟨hj, hne⟩
    · rw [Function.update_self]
      exact Nat.lt_of_lt_of_eq (Nat.lt_succ_self n) hn.symm
    · rw [Function.update_of_ne hne]
      exact h.accepted j hj
  · rcases forked_child hj with rfl | ⟨hj, hne⟩
    · rw [Function.update_self, h.new_made]
      exact h.nobody n hfresh
    · rw [Function.update_of_ne hne, forked_made (Nat.ne_of_gt hj.1)]
      exact h.logged j hj
  · refine h.nobody m fun j hj => ?_
    have hj' := hm j ⟨hj.1, Nat.lt_succ_of_lt hj.2⟩
    rwa [Function.update_of_ne (Nat.ne_of_lt hj.2)] at hj'

end Fork

theorem Apart.fork (h : Apart base conn x) (hF : Forking parent child) (hm : x.May parent child p (.fork true)) :
    ∃ n, Apart base (Function.update conn x.processes n) ((x.copied p).did p (.fork true)) := by
  by_cases h0 : p = 0
  · subst h0
    obtain ⟨q, ht, hq⟩ := h.parent hm.1
    obtain ⟨q', hturn, ht'⟩ := hm.turn hF ht
    cases hturn with
    | fork fd =>
        obtain ⟨n, hn, hfree, htable, hfresh⟩ := hq
        exact ⟨n, h.forked ht hn hfree htable hfresh ht'⟩
  · have hj := h.child_of_alive hm.1 h0
    obtain ⟨b, ht, -⟩ := h.children p hj hm.1
    obtain ⟨b', htask, -⟩ := hm.task h0 hF ht
    cases htask

/-- A process that ends. -/
theorem Apart.gone (h : Apart base conn x) (hp : x.alive p = true) {y : Site φ ι} (ho : Only p (x.gone p) y)
    (hconn : y.connections = x.connections) (hlog : y.log = x.log) (halive : y.alive p = false)
    (htable : y.table p = fun _ => none) (huses : usesOf (y.made p) = usesOf (x.made p)) : Apart base conn y := by
  have ho' := (only_gone x p).trans ho
  refine h.of_only hp ho' (Nat.le_of_eq hconn.symm) (fun _ => htable) (fun h0 h0' => ?_)
    (fun _ => ⟨hconn, fun hp' => ?_⟩) (h.quiet ho' hlog huses)
  · subst h0
    exact absurd (halive.symm.trans h0') (by decide)
  · exact absurd (halive.symm.trans hp') (by decide)

/-- **One step** keeps the connections apart. -/
theorem Apart.step (h : Apart base conn x) (hF : Forking parent child) (hs : Step parent child x x') :
    ∃ conn', Apart base conn' x' := by
  cases hs with
  | accept hm hfree => exact ⟨conn, h.accept hF hm hfree⟩
  | fork hm =>
      obtain ⟨n, h'⟩ := h.fork hF hm
      exact ⟨_, h'⟩
  | unforked hm => exact ⟨conn, h.unforked hF hm⟩
  | use hm hopen => exact ⟨conn, h.use hF hm hopen⟩
  | close hm => exact ⟨conn, h.close hF hm⟩
  | @exit p hm =>
      refine ⟨conn, h.gone hm.1 (only_did _ p .exit) rfl rfl (alive_gone x p) (table_gone x p) ?_⟩
      rw [made_did, usesOf_append]
      exact List.append_nil _
  | @killed p hp => exact ⟨conn, h.gone hp (.refl _ _) rfl rfl (alive_gone x p) (table_gone x p) rfl⟩

theorem start_apart (base : Int → Option φ) : Apart base conn (start base : Site φ ι) := by
  have nochild : ∀ j, ¬ (start base : Site φ ι).Child j := fun j hj =>
    Nat.lt_irrefl 0 (Nat.lt_of_lt_of_le hj.1 (Nat.lt_succ_iff.mp hj.2))
  refine ⟨Nat.one_pos, fun p hp => ⟨?_, rfl⟩, fun p hp => ?_, fun _ => ⟨.idle, .nil, rfl⟩,
    fun j hj => absurd hj (nochild j), fun j hj => absurd hj (nochild j), fun i _ hi => absurd hi (nochild i),
    fun j hj => absurd hj (nochild j), fun _ _ => rfl⟩
  · exact decide_eq_false (Nat.ne_of_gt hp)
  · exact if_neg (of_decide_eq_false hp)

/-- **In every order of steps** each connection is one child's. -/
theorem apart_of_reachable (hF : Forking parent child) (h : Reachable parent child base x) :
    ∃ conn, Apart base conn x := by
  induction h with
  | start => exact ⟨fun _ => 0, start_apart base⟩
  | step _ hs ih =>
      obtain ⟨conn, h⟩ := ih
      exact h.step hF hs

/-- A connection is held by its child, and by the parent from `accept` to `close`. -/
theorem Apart.holder (h : Apart base conn x) (hopen : x.table p fd = some (.inr n)) :
    (p = 0 ∧ n + 1 = x.connections) ∨ (x.Child p ∧ fd = x.serves p ∧ n = conn p) := by
  have hgiven : ∀ fd, given base fd ≠ some (.inr n) := fun fd heq => by
    rw [given] at heq
    cases hb : base fd <;> rw [hb] at heq <;> cases heq
  have hheld : ∀ fd' m, holding base fd' m fd = some (.inr n) → fd = fd' ∧ n = m := by
    intro fd' m heq
    by_cases hfd : fd = fd'
    · subst hfd
      rw [holding, Function.update_self] at heq
      exact ⟨rfl, (Sum.inr.inj (Option.some.inj heq)).symm⟩
    · rw [holding, Function.update_of_ne hfd] at heq
      exact absurd heq (hgiven fd)
  have halive : x.alive p = true := by
    cases ha : x.alive p with
    | true => rfl
    | false =>
        rw [h.dead p ha] at hopen
        cases hopen
  by_cases h0 : p = 0
  · subst h0
    obtain ⟨q, -, hq⟩ := h.parent halive
    cases q with
    | idle => exact absurd (hq ▸ hopen) (hgiven fd)
    | hand fd' =>
        obtain ⟨m, hm, -, htable, -⟩ := hq
        exact .inl ⟨rfl, by rw [(hheld fd' m (htable ▸ hopen)).2, hm]⟩
    | forked fd' =>
        obtain ⟨m, hm, -, htable⟩ := hq
        exact .inl ⟨rfl, by rw [(hheld fd' m (htable ▸ hopen)).2, hm]⟩
  · have hj := h.child_of_alive halive h0
    obtain ⟨b, -, -, htable⟩ := h.children p hj halive
    rw [htable] at hopen
    cases b with
    | true => exact .inr ⟨hj, hheld _ _ hopen⟩
    | false => exact absurd hopen (hgiven fd)

/-- A process that is alive has the files of the start. -/
theorem Apart.keeps_given (h : Apart base conn x) (hp : x.alive p = true) {f : φ} (hf : base fd = some f) :
    x.table p fd = some (.inl f) := by
  have hgiven : given base fd = some (.inl f) := by rw [given, hf]; rfl
  have hheld : ∀ fd' m, base fd' = none → holding base fd' m fd = some (.inl f) := by
    intro fd' m hfree
    have hne : fd ≠ fd' := by
      rintro rfl
      rw [hfree] at hf
      cases hf
    rw [holding, Function.update_of_ne hne, hgiven]
  by_cases h0 : p = 0
  · subst h0
    obtain ⟨q, -, hq⟩ := h.parent hp
    cases q with
    | idle => exact (congrFun hq fd).trans hgiven
    | hand fd' =>
        obtain ⟨m, -, hfree, htable, -⟩ := hq
        exact (congrFun htable fd).trans (hheld fd' m hfree)
    | forked fd' =>
        obtain ⟨m, -, hfree, htable⟩ := hq
        exact (congrFun htable fd).trans (hheld fd' m hfree)
  · obtain ⟨b, -, hfree, htable⟩ := h.children p (h.child_of_alive hp h0) hp
    rw [htable]
    cases b with
    | true => exact hheld _ _ hfree
    | false => exact hgiven

/-- What a child has done, a run of its program begins with. -/
theorem made_of_reachable (hF : Forking parent child) (h : Reachable parent child base x) :
    ∀ j, j ≠ 0 → x.made j = [] ∨ child (x.serves j) (x.made j) := by
  induction h with
  | start => exact fun _ _ => .inl rfl
  | @step x x' hx hs ih =>
      intro j hj
      -- a deed of `p` is one that its program does next
      have did : ∀ {p : Nat} {d : Deed ι}, x.May parent child p d →
          (x.did p d).made j = [] ∨ child (x.serves j) ((x.did p d).made j) := by
        intro p d hm
        by_cases hjp : j = p
        · subst hjp
          rw [made_did]
          exact .inr (by simpa only [if_neg hj] using hm.2)
        · rw [(only_did x p d).made j hjp]
          exact ih j hj
      cases hs with
      | accept hm _ | unforked hm | use hm _ | close hm | exit hm => exact did hm
      | killed _ => exact ih j hj
      | @fork p hm =>
          obtain ⟨conn, h⟩ := apart_of_reachable hF hx
          by_cases hjk : j = x.processes
          · subst hjk
            have hp : x.processes ≠ p := by
              rintro rfl
              exact absurd (hm.1.symm.trans (h.unborn _ (Nat.le_refl _)).1) (by decide)
            exact .inl (((only_did (x.copied p) p (.fork true)).made _ hp).trans (h.unborn _ (Nat.le_refl _)).2)
          · rw [show ((x.copied p).did p (.fork true)).serves j = x.serves j from Function.update_of_ne hjk _ _]
            exact did hm

end Site

end Lib
