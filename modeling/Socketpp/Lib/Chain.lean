import Mathlib.Data.List.Basic
import Mathlib.Data.List.Nodup
import Mathlib.Data.List.Perm.Subperm
import Mathlib.Logic.Function.Basic
import Mathlib.Tactic.Cases

/-!
# Lib — Chains

Singly linked lists in a memory.  `link a` is what a walker sees at the address `a`: `none` where
there is no record, and the link of the record otherwise.  `Chain link p l` says that from the
pointer `p` the links go through the addresses `l`, in turn, and come to their end.

A chain has no address twice (`Chain.nodup`), so it can be walked with as many rounds as there are
addresses (`Chain.walk_eq`), and taking an element out of it is one store (`Chain.bypass`).
-/

namespace Lib

/-- From the pointer `p` the links go through the addresses `l` to their end. -/
inductive Chain (link : Nat → Option (Option Nat)) : Option Nat → List Nat → Prop where
  | nil : Chain link none []
  | cons {a : Nat} {p : Option Nat} {l : List Nat} (here : link a = some p) (rest : Chain link p l) :
      Chain link (some a) (a :: l)

/-- The addresses on the way from `p`, at most `n` of them. -/
def walk (link : Nat → Option (Option Nat)) : Nat → Option Nat → List Nat
  | _,     none   => []
  | 0,     some _ => []
  | n + 1, some a =>
    match link a with
    | none   => [a]
    | some p => a :: walk link n p

namespace Chain

variable {link link' : Nat → Option (Option Nat)} {p : Option Nat} {l l' : List Nat} {a b : Nat}

theorem nil_inv (h : Chain link none l) : l = [] := by
  cases h
  rfl

theorem cons_inv (h : Chain link (some a) l) :
    ∃ p l', link a = some p ∧ l = a :: l' ∧ Chain link p l' := by
  cases h with
  | cons here rest => exact ⟨_, _, here, rfl, rest⟩

theorem head_inv (h : Chain link p (a :: l)) : p = some a ∧ ∃ q, link a = some q ∧ Chain link q l := by
  cases h with
  | cons here rest => exact ⟨rfl, _, here, rest⟩

theorem head?_eq (h : Chain link p l) : l.head? = p := by
  cases h <;> rfl

theorem unique (h : Chain link p l) : ∀ {l'}, Chain link p l' → l = l' := by
  induction h with
  | nil =>
      intro l' h'
      exact h'.nil_inv.symm
  | @cons a p l here _ ih =>
      intro l' h'
      obtain ⟨p', l₁, here', rfl, rest'⟩ := h'.cons_inv
      rw [here] at here'
      cases here'
      rw [ih rest']

theorem live (h : Chain link p l) : ∀ b ∈ l, (link b).isSome = true := by
  induction h with
  | nil => nofun
  | cons here _ ih =>
      intro b hb
      rcases List.mem_cons.mp hb with rfl | hb
      · rw [here]
        rfl
      · exact ih b hb

/-- The part of a chain that starts at one of its addresses. -/
theorem suffix (h : Chain link p l) : ∀ {pre post}, l = pre ++ a :: post →
    Chain link (some a) (a :: post) := by
  induction h with
  | nil =>
      intro pre post hl
      simp at hl
  | cons here rest ih =>
      intro pre post hl
      cases pre with
      | nil =>
          cases hl
          exact .cons here rest
      | cons b pre =>
          cases hl
          exact ih rfl

/-- A chain that ends does not come to an address twice. -/
theorem nodup (h : Chain link p l) : l.Nodup := by
  induction h with
  | nil => exact List.nodup_nil
  | @cons a p l here rest ih =>
      refine List.nodup_cons.mpr ⟨fun hmem => ?_, ih⟩
      -- from `a` on there would be two chains of different lengths
      obtain ⟨pre, post, rfl⟩ := List.append_of_mem hmem
      have hlen := congrArg List.length ((Chain.cons here rest).unique (rest.suffix rfl))
      simp at hlen
      omega

/-- What an element leads to is the element behind it. -/
theorem link_next {pre post : List Nat} (h : Chain link p (pre ++ b :: post)) :
    link b = some post.head? := by
  obtain ⟨-, q, hb, rest⟩ := (h.suffix rfl).head_inv
  rw [hb]
  cases rest <;> rfl

/-- An element leads to an element. -/
theorem link_mem (h : Chain link p l) (hb : b ∈ l) (ha : link b = some (some a)) : a ∈ l := by
  obtain ⟨pre, post, rfl⟩ := List.append_of_mem hb
  rw [h.link_next] at ha
  cases post with
  | nil => cases ha
  | cons c post =>
      cases ha
      simp

/-- A chain sees only the links of its addresses. -/
theorem congr (h : Chain link p l) : (∀ b ∈ l, link' b = link b) → Chain link' p l := by
  induction h with
  | nil => exact fun _ => .nil
  | @cons a p l here rest ih =>
      intro hsame
      refine .cons ?_ (ih fun b hb => hsame b (List.mem_cons_of_mem _ hb))
      rw [hsame a List.mem_cons_self, here]

/-- A store elsewhere. -/
theorem update (h : Chain link p l) (ha : a ∉ l) (q : Option (Option Nat)) :
    Chain (Function.update link a q) p l :=
  by
  refine h.congr fun b hb => Function.update_of_ne ?_ _ _
  rintro rfl
  exact ha hb

/-- A new first element. -/
theorem push (h : Chain link p l) (ha : a ∉ l) :
    Chain (Function.update link a (some p)) (some a) (a :: l) :=
  .cons (Function.update_self ..) (h.update ha _)

/-- The element behind `b` is taken out by giving `b` its link. -/
theorem bypass {p' : Option Nat} {pre post : List Nat} (h : Chain link p (pre ++ b :: a :: post))
    (ha : link a = some p') :
    Chain (Function.update link b (some p')) p (pre ++ b :: post) := by
  have hn := h.nodup
  induction pre generalizing p with
  | nil =>
      obtain ⟨rfl, q, -, rest⟩ := h.head_inv
      obtain ⟨rfl, q', ha', rest'⟩ := rest.head_inv
      rw [ha] at ha'
      cases ha'
      refine .cons (Function.update_self ..) (rest'.update ?_ _)
      simp only [List.nil_append, List.nodup_cons, List.mem_cons, not_or] at hn
      exact hn.1.2
  | cons c pre ih =>
      obtain ⟨rfl, q, hc, rest⟩ := h.head_inv
      simp only [List.cons_append, List.nodup_cons, List.mem_append, List.mem_cons, not_or] at hn
      refine .cons ?_ (ih rest hn.2)
      rw [Function.update_of_ne hn.1.2.1]
      exact hc

/-- With enough rounds, a walk gives the addresses of the chain. -/
theorem walk_eq (h : Chain link p l) : ∀ {n}, l.length ≤ n → walk link n p = l := by
  induction h with
  | nil =>
      intro n _
      cases n <;> rfl
  | cons here rest ih =>
      intro n hn
      cases n with
      | zero => simp at hn
      | succ n =>
          simp only [List.length_cons, Nat.add_le_add_iff_right] at hn
          simp only [walk, here, ih hn]

/-- Addresses below `n` are at most `n`. -/
theorem length_le (h : Chain link p l) {n : Nat} (hn : ∀ b ∈ l, b < n) : l.length ≤ n := by
  have hsub : l ⊆ List.range n := fun b hb => List.mem_range.mpr (hn b hb)
  have := (List.subperm_of_subset h.nodup hsub).length_le
  rwa [List.length_range] at this

end Chain

end Lib
