import Socketpp.Fork.Steps

/-!
# Fork — the list and the pointers into it

`ForkProcess::list` is a chain of records with positive pids, newest first (`Tidy`); what the program
has taken from it and will still use is on it, and what a constructor, a destructor or a loop has read of
it is still so (`Linked`).  Here is what keeps that: a record is put in front of the list, leaves it, or
is stored to off it.
-/

namespace Socketpp
open Lib

namespace Fork

variable {m m' m₁ : Process} {a b v : Nat}

/-! ### The memory -/

/-- The list is a chain of records with positive pids, newest first. -/
structure Tidy (m : Process) : Prop where
  listed   : Listed m
  sorted   : m.records.Pairwise (· > ·)
  positive : ∀ a ∈ m.records, ∀ r, m.heap a = some r → 0 < r.pid

/-- A pointer to a record that is on the list if it has a positive pid. -/
def Process.Knows (m : Process) (a : Nat) : Prop :=
  a < m.fresh ∧ ∀ r, m.heap a = some r → 0 < r.pid → a ∈ m.records

/-- To delete the record at `a` kills no child. -/
def Process.Mild (m : Process) (a : Nat) : Prop := ∀ r, m.heap a = some r → r.kill_child = false

/-- The record at `a` comes behind the one at `p`. -/
def Process.Behind (m : Process) (a p : Nat) : Prop :=
  ∃ pre post, m.records = pre ++ p :: post ∧ a ∈ post

theorem records_congr (hheap : m'.heap = m.heap) (hfresh : m'.fresh = m.fresh)
    (hlist : m'.list = m.list) : m'.records = m.records := by
  have hlink : m'.link = m.link := by
    funext b
    rw [Process.link, Process.link, hheap]
  rw [Process.records, Process.records, hlink, hfresh, hlist]

theorem Tidy.same (h : Tidy m) (hheap : m'.heap = m.heap) (hfresh : m'.fresh = m.fresh)
    (hlist : m'.list = m.list) : Tidy m' := by
  have hrec := records_congr hheap hfresh hlist
  have hlink : m'.link = m.link := by
    funext b
    rw [Process.link, Process.link, hheap]
  refine ⟨⟨?_, ?_⟩, ?_, ?_⟩
  · rw [hlink, hlist, hrec]
    exact h.listed.chain
  · rw [hheap, hfresh]
    exact h.listed.below
  · rw [hrec]
    exact h.sorted
  · rw [hrec, hheap]
    exact h.positive

theorem knows_congr (hheap : m'.heap = m.heap) (hfresh : m'.fresh = m.fresh)
    (hlist : m'.list = m.list) : m'.Knows a ↔ m.Knows a := by
  rw [Process.Knows, Process.Knows, hheap, hfresh, records_congr hheap hfresh hlist]

theorem Tidy.knows (h : Tidy m) (ha : a ∈ m.records) : m.Knows a := by
  obtain ⟨r, hr⟩ := h.listed.heap_of_mem ha
  exact ⟨h.listed.below a r hr, fun _ _ _ => ha⟩

/-- What `list` points to is on the list. -/
theorem Tidy.list_mem (h : Tidy m) (ha : m.list = some a) : a ∈ m.records := by
  have := h.listed.chain.head?_eq
  rw [ha] at this
  exact List.mem_of_mem_head? this

/-- What a record on the list leads to is on the list. -/
theorem Tidy.next_mem (h : Tidy m) {r : ForkProcess} (hr : m.heap a = some r) (ha : a ∈ m.records)
    (hb : r.next = some b) : b ∈ m.records :=
  h.listed.chain.link_mem ha (link_eq_some.mpr ⟨r, hr, hb⟩)

/-- The list goes from newer to older records. -/
theorem Tidy.next_lt (h : Tidy m) (ha : a ∈ m.records) (hlink : m.link a = some (some b)) : b < a := by
  obtain ⟨pre, post, hl⟩ := List.append_of_mem ha
  have hchain := h.listed.chain
  have hsorted := h.sorted
  rw [hl] at hchain hsorted
  rw [hchain.link_next, Option.some.injEq] at hlink
  obtain ⟨-, hsorted, -⟩ := List.pairwise_append.mp hsorted
  exact (List.pairwise_cons.mp hsorted).1 b (List.mem_of_mem_head? hlink)

/-- A record that is not the first of the list comes behind the first. -/
theorem Tidy.behind_list (h : Tidy m) (ha : a ∈ m.records) (hlist : m.list ≠ some a) :
    ∃ p, m.list = some p ∧ m.Behind a p := by
  have hhead := h.listed.chain.head?_eq
  cases hl : m.records with
  | nil =>
      rw [hl] at ha
      cases ha
  | cons p post =>
      rw [hl] at ha hhead
      refine ⟨p, hhead.symm, [], post, hl, (List.mem_cons.mp ha).resolve_left ?_⟩
      rintro rfl
      exact hlist hhead.symm

/-- One that comes behind `p` comes next, or behind the next. -/
theorem Tidy.behind_next (h : Tidy m) {p : Nat} {r : ForkProcess} (hr : m.heap p = some r)
    (hbehind : m.Behind a p) (hnext : r.next ≠ some a) : ∃ q, r.next = some q ∧ m.Behind a q := by
  obtain ⟨pre, post, hl, ha⟩ := hbehind
  have hchain := h.listed.chain
  rw [hl] at hchain
  have hhead : r.next = post.head? := by
    obtain ⟨r', hr', hq⟩ := link_eq_some.mp hchain.link_next
    rwa [Option.some.inj (hr'.symm.trans hr)] at hq
  cases post with
  | nil => cases ha
  | cons q post =>
      refine ⟨q, hhead, pre ++ [p], post, by rw [hl, List.append_assoc]; rfl, ?_⟩
      refine (List.mem_cons.mp ha).resolve_left ?_
      rintro rfl
      exact hnext hhead

/-! ### A record leaves the list -/

theorem Unlinked.fresh (h : Unlinked m v m') : m'.fresh = m.fresh := by
  obtain ⟨_, _, _, rfl⟩ := h.rest
  rfl

theorem Unlinked.forks (h : Unlinked m v m') : m'.forks = m.forks := by
  obtain ⟨_, _, _, rfl⟩ := h.rest
  rfl

theorem Unlinked.objects (h : Unlinked m v m') : m'.objects = m.objects := by
  obtain ⟨_, _, _, rfl⟩ := h.rest
  rfl

theorem Unlinked.pc (h : Unlinked m v m') : m'.pc = m.pc := by
  obtain ⟨_, _, _, rfl⟩ := h.rest
  rfl

/-- The records that are left are those of before, but for their links. -/
theorem Unlinked.heap (h : Unlinked m v m') {r : ForkProcess} (hr : m'.heap b = some r) :
    b ≠ v ∧ ∃ r₀, m.heap b = some r₀ ∧ r.pid = r₀.pid := by
  have hb : b ≠ v := by
    rintro rfl
    rw [h.gone] at hr
    cases hr
  obtain ⟨q, hq⟩ := h.kept b hb
  rw [hq, Option.map_eq_some_iff] at hr
  obtain ⟨r₀, hr₀, rfl⟩ := hr
  exact ⟨hb, r₀, hr₀, rfl⟩

theorem Unlinked.records (h : Unlinked m v m') (hm : Tidy m) :
    Listed m' ∧ m'.records = m.records.erase v := by
  refine Listed.of_chain (fun b r hr => ?_) h.chain
  obtain ⟨-, r₀, hr₀, -⟩ := h.heap hr
  rw [h.fresh]
  exact hm.listed.below b r₀ hr₀

theorem Unlinked.mem_records (h : Unlinked m v m') (hm : Tidy m) :
    b ∈ m'.records ↔ b ≠ v ∧ b ∈ m.records := by
  rw [(h.records hm).2, hm.listed.chain.nodup.mem_erase_iff]

theorem Unlinked.tidy (h : Unlinked m v m') (hm : Tidy m) : Tidy m' := by
  refine ⟨(h.records hm).1, ?_, fun b hb r hr => ?_⟩
  · rw [(h.records hm).2]
    exact hm.sorted.sublist List.erase_sublist
  · obtain ⟨-, r₀, hr₀, hpid⟩ := h.heap hr
    rw [hpid]
    exact hm.positive b ((h.mem_records hm).mp hb).2 r₀ hr₀

theorem Unlinked.knows (h : Unlinked m v m') (hm : Tidy m) (hb : m.Knows b) : m'.Knows b := by
  refine ⟨h.fresh ▸ hb.1, fun r hr hpos => ?_⟩
  obtain ⟨hne, r₀, hr₀, hpid⟩ := h.heap hr
  exact (h.mem_records hm).mpr ⟨hne, hb.2 r₀ hr₀ (hpid ▸ hpos)⟩

/-- The head of the list stays, if it is another record that leaves. -/
theorem Unlinked.list (h : Unlinked m v m') (hm : Tidy m) (hv : m.list ≠ some v) :
    m'.list = m.list := by
  have hhead := hm.listed.chain.head?_eq
  have hhead' := h.chain.head?_eq
  rw [← hhead', ← hhead]
  cases hl : m.records with
  | nil => rfl
  | cons a l =>
      rw [hl] at hhead
      have hne : a ≠ v := by
        rintro rfl
        exact hv hhead.symm
      rw [List.erase_cons_tail (by simpa using hne)]
      rfl

theorem Unlinked.link_eq (h : Unlinked m v m') (hb : b ≠ v) (hlink : m.link b ≠ some (some v)) :
    m'.link b = m.link b := by
  rw [Process.link, Process.link, h.front b hb hlink]

theorem Process.Behind.unlinked {p : Nat} (h : m.Behind a p) (hoff : Unlinked m v m') (hm : Tidy m)
    (hp : p ≠ v) (ha : a ≠ v) : m'.Behind a p := by
  obtain ⟨pre, post, hl, hmem⟩ := h
  rw [Process.Behind, (hoff.records hm).2, hl]
  by_cases hv : v ∈ pre
  · exact ⟨pre.erase v, post, List.erase_append_left _ hv, hmem⟩
  · refine ⟨pre, post.erase v, ?_, (List.mem_erase_of_ne ha).mpr hmem⟩
    rw [List.erase_append_right _ hv, List.erase_cons_tail (by simpa using hp)]

/-! ### A store off the list -/

/-- `m'` is `m` with a store at `a`, which is not on the list. -/
structure Stored (m : Process) (a : Nat) (q : Option ForkProcess) (m' : Process) : Prop where
  heap  : m'.heap = Function.update m.heap a q
  list  : m'.list = m.list
  fresh : m.fresh ≤ m'.fresh
  off   : a ∉ m.records
  below : a < m'.fresh

section Stored

variable {q : Option ForkProcess}

theorem Stored.records (h : Stored m a q m') (hm : Tidy m) :
    Listed m' ∧ m'.records = m.records := by
  refine Listed.of_chain (fun b r hr => ?_) ?_
  · rw [h.heap] at hr
    rcases eq_or_ne b a with rfl | hne
    · exact h.below
    · rw [Function.update_of_ne hne] at hr
      exact Nat.lt_of_lt_of_le (hm.listed.below b r hr) h.fresh
  · rw [h.list]
    refine hm.listed.chain.congr fun b hb => ?_
    have hne : b ≠ a := fun hba => h.off (hba ▸ hb)
    rw [Process.link, Process.link, h.heap, Function.update_of_ne hne]

theorem Stored.tidy (h : Stored m a q m') (hm : Tidy m) : Tidy m' := by
  obtain ⟨hlisted, hrec⟩ := h.records hm
  refine ⟨hlisted, hrec ▸ hm.sorted, fun b hb r hr => ?_⟩
  rw [hrec] at hb
  have hne : b ≠ a := fun hba => h.off (hba ▸ hb)
  rw [h.heap, Function.update_of_ne hne] at hr
  exact hm.positive b hb r hr

theorem Stored.knows (h : Stored m a q m') (hm : Tidy m) (hb : m.Knows b)
    (ha : b = a → ∀ r, q = some r → r.pid ≤ 0) : m'.Knows b := by
  refine ⟨Nat.lt_of_lt_of_le hb.1 h.fresh, fun r hr hpos => ?_⟩
  rw [(h.records hm).2]
  rw [h.heap] at hr
  rcases eq_or_ne b a with rfl | hne
  · rw [Function.update_self] at hr
    have := ha rfl r hr
    omega
  · rw [Function.update_of_ne hne] at hr
    exact hb.2 r hr hpos

end Stored

/-- A record comes in front of the list. -/
theorem Tidy.pushed {r : ForkProcess} (h : Tidy m) (hnewest : ∀ b ∈ m.records, b < a)
    (hr : m'.heap a = some r) (hpos : 0 < r.pid) (hnext : r.next = m.list)
    (hkept : ∀ b ∈ m.records, m'.heap b = m.heap b) (hbelow : ∀ b q, m'.heap b = some q → b < m'.fresh)
    (hlist : m'.list = some a) : Tidy m' ∧ m'.records = a :: m.records := by
  have hchain : Chain m'.link m'.list (a :: m.records) := by
    rw [hlist]
    refine .cons (link_eq_some.mpr ⟨r, hr, hnext⟩) (h.listed.chain.congr fun b hb => ?_)
    rw [Process.link, Process.link, hkept b hb]
  obtain ⟨hlisted, hrec⟩ := Listed.of_chain hbelow hchain
  refine ⟨⟨hlisted, ?_, ?_⟩, hrec⟩
  · rw [hrec]
    exact List.pairwise_cons.mpr ⟨hnewest, h.sorted⟩
  · rw [hrec]
    refine List.forall_mem_cons.mpr ⟨fun q hq => ?_, fun b hb q hq => ?_⟩
    · obtain rfl := Option.some.inj (hr.symm.trans hq)
      exact hpos
    · exact h.positive b hb q (hkept b hb ▸ hq)

/-! ### What the program holds -/

/-- The list's elements that a deletion has still to come back to. -/
def Return.walks : Return → List Nat
  | .main                => []
  | .commit_suicide next => next.toList
  | .killForks cur       => [cur]

def Caller.walks : Caller → List Nat
  | .dtor k       => k.walks
  | .kill_process => []

/-- The pointers at a point that have been taken from the list. -/
def Point.walks : Point → List Nat
  | .dtor _ k       => k.walks
  | .kill a _ c | .reap_child a c | .waitpid a _ c => a :: c.walks
  | .unlink a k | .unlinkHead a k | .searchList a k => a :: k.walks
  | .setList a k q | .search a k q => a :: (q.toList ++ k.walks)
  | .advance a k p | .found a k p  => a :: p :: k.walks
  | .setNext a k p q => a :: p :: (q.toList ++ k.walks)
  | .suicide p      => p.toList
  | .suicideKill p _ q => p :: q.toList
  | .killForks cur  => cur.toList
  | .killNext cur   => [cur]
  | _               => []

/-- The pointers at a point that have come from an object. -/
def Point.uses : Point → List Nat
  | .dropFork a | .dtor a _ | .kill_process a => [a]
  | _                                         => []

/-- An object or the program holds the pointer. -/
def Process.Held (m : Process) (a : Nat) : Prop := a ∈ m.forks ∨ a ∈ m.objects ∨ a ∈ m.pc.uses

/-- The record `r` at `a` is under construction: newer than the list, and in nobody's hands. -/
structure Process.Builds (m : Process) (a : Nat) (r : ForkProcess) : Prop where
  here    : m.heap a = some r
  newest  : ∀ b ∈ m.records, b < a
  forks   : a ∉ m.forks
  objects : a ∉ m.objects

/-- What holds where the program stands: what a constructor has built, and what a destructor or a loop
knows of the list. -/
def Point.Stands (m : Process) : Point → Prop
  | .install a _ | .fork a _ => ∃ r, m.Builds a r ∧ r.pid ≤ 0
  | .next a _                => ∃ r, m.Builds a r ∧ 0 < r.pid
  | .link a _                => ∃ r, m.Builds a r ∧ 0 < r.pid ∧ r.next = m.list
  | .clear a _               => ∃ r, m.Builds a r ∧ r.pid = 0
  | .made a _                => m.Knows a ∧ a ∉ m.forks ∧ a ∉ m.objects
  | .dtor a k | .unlink a k | .searchList a k => a ∉ k.walks
  | .kill a _ c | .reap_child a c | .waitpid a _ c => a ∉ c.walks
  | .unlinkHead a k          => a ∉ k.walks ∧ m.list = some a
  | .setList a k q           => a ∉ k.walks ∧ m.list = some a ∧ m.link a = some q
  | .search a k q            => a ∉ k.walks ∧ ∃ p, q = some p ∧ m.Behind a p
  | .advance a k p           => a ∉ k.walks ∧ m.Behind a p
  | .found a k p             => a ∉ k.walks ∧ m.link p = some (some a)
  | .setNext a k p q         => a ∉ k.walks ∧ m.link p = some (some a) ∧ m.link a = some q
  | .suicideKill p _ q       => p ∉ q.toList
  | _                        => True

/-- The list is in order, and so are the pointers into it. -/
structure Linked (m : Process) : Prop where
  tidy   : Tidy m
  known  : ∀ a, m.Held a → m.Knows a
  walked : ∀ a ∈ m.pc.walks, a ∈ m.records
  stands : m.pc.Stands m

theorem Process.Builds.off {r : ForkProcess} (h : m.Builds a r) : a ∉ m.records :=
  fun ha => Nat.lt_irrefl a (h.newest a ha)

theorem Process.Fresh.linked (h : m.Fresh) : Linked m := by
  have hchain : Chain m.link m.list [] := by
    rw [h.list]
    exact .nil
  have hbelow : ∀ a r, m.heap a = some r → a < m.fresh := fun a r hr => by
    rw [h.heap] at hr
    cases hr
  obtain ⟨hlisted, hrec⟩ := Listed.of_chain hbelow hchain
  refine ⟨⟨hlisted, hrec ▸ .nil, ?_⟩, ?_, ?_, ?_⟩
  · rw [hrec]
    nofun
  · rintro a (ha | ha | ha)
    · simp [h.forks] at ha
    · simp [h.objects] at ha
    · simp [h.idle.1, Point.uses] at ha
  · simp [h.idle.1, Point.walks]
  · rw [h.idle.1]
    trivial

@[simp] theorem Return.walks_point (k : Return) : k.point.walks = k.walks := by
  cases k <;> rfl

@[simp] theorem Return.uses_point (k : Return) : k.point.uses = [] := by
  cases k <;> rfl

@[simp] theorem Return.stands_point (k : Return) : k.point.Stands m := by
  cases k <;> trivial

theorem Caller.walks_point (c : Caller) (ha : b ∈ (c.point a).walks) : b ∈ a :: c.walks := by
  cases c with
  | dtor k => exact ha
  | kill_process => cases ha

@[simp] theorem Caller.uses_point (c : Caller) : (c.point a).uses = [] := by
  cases c <;> rfl

theorem Caller.stands_point (c : Caller) (h : a ∉ c.walks) : (c.point a).Stands m := by
  cases c with
  | dtor k => exact h
  | kill_process => trivial

theorem builds_congr {r : ForkProcess} (hheap : m'.heap = m.heap) (hfresh : m'.fresh = m.fresh)
    (hlist : m'.list = m.list) (hforks : m'.forks = m.forks) (hobjects : m'.objects = m.objects)
    (h : m.Builds a r) : m'.Builds a r := by
  refine ⟨?_, ?_, ?_, ?_⟩
  · rw [hheap, h.here]
  · rw [records_congr hheap hfresh hlist]
    exact h.newest
  · rw [hforks]
    exact h.forks
  · rw [hobjects]
    exact h.objects

theorem Point.Stands.congr {p : Point} (hheap : m'.heap = m.heap) (hfresh : m'.fresh = m.fresh)
    (hlist : m'.list = m.list) (hforks : m'.forks = m.forks) (hobjects : m'.objects = m.objects)
    (h : p.Stands m) : p.Stands m' := by
  have key : ∀ {a r}, m.Builds a r → m'.Builds a r :=
    fun h => builds_congr hheap hfresh hlist hforks hobjects h
  have hlink : m'.link = m.link := by
    funext b
    rw [Process.link, Process.link, hheap]
  have hbehind : ∀ {a p}, m'.Behind a p ↔ m.Behind a p := by
    intro a p
    rw [Process.Behind, Process.Behind, records_congr hheap hfresh hlist]
  cases p with
  | install a o => exact h.imp fun _ h => ⟨key h.1, h.2⟩
  | fork a o => exact h.imp fun _ h => ⟨key h.1, h.2⟩
  | next a o => exact h.imp fun _ h => ⟨key h.1, h.2⟩
  | link a o =>
      obtain ⟨r, hb, hpos, hnext⟩ := h
      exact ⟨r, key hb, hpos, by rw [hnext, hlist]⟩
  | clear a o => exact h.imp fun _ h => ⟨key h.1, h.2⟩
  | made a o =>
      rw [Point.Stands, knows_congr hheap hfresh hlist, hforks, hobjects]
      exact h
  | dtor a k => exact h
  | kill a pid c => exact h
  | reap_child a c => exact h
  | waitpid a pid c => exact h
  | unlink a k => exact h
  | searchList a k => exact h
  | unlinkHead a k => exact ⟨h.1, hlist.trans h.2⟩
  | setList a k q => exact ⟨h.1, hlist.trans h.2.1, hlink ▸ h.2.2⟩
  | search a k q => exact ⟨h.1, h.2.imp fun _ h => ⟨h.1, hbehind.mpr h.2⟩⟩
  | advance a k p => exact ⟨h.1, hbehind.mpr h.2⟩
  | found a k p => exact ⟨h.1, hlink ▸ h.2⟩
  | setNext a k p q => exact ⟨h.1, hlink ▸ h.2.1, hlink ▸ h.2.2⟩
  | suicideKill p pid q => exact h
  | _ => trivial

/-- A step that leaves the list as it is. -/
theorem Linked.same (h : Linked m) (hheap : m'.heap = m.heap) (hfresh : m'.fresh = m.fresh)
    (hlist : m'.list = m.list) (hheld : ∀ a, m'.Held a → m.Knows a)
    (hwalks : ∀ a ∈ m'.pc.walks, a ∈ m.records) (hstands : m'.pc.Stands m') : Linked m' := by
  refine ⟨h.tidy.same hheap hfresh hlist,
    fun a ha => (knows_congr hheap hfresh hlist).mpr (hheld a ha), ?_, hstands⟩
  rw [records_congr hheap hfresh hlist]
  exact hwalks

/-- A step that only goes to a point which uses no more than this one. -/
theorem Linked.goes (h : Linked m) (hheap : m'.heap = m.heap) (hfresh : m'.fresh = m.fresh)
    (hlist : m'.list = m.list) (hforks : ∀ a ∈ m'.forks, a ∈ m.forks)
    (hobjects : ∀ a ∈ m'.objects, a ∈ m.objects) (huses : ∀ a ∈ m'.pc.uses, m.Knows a)
    (hwalks : ∀ a ∈ m'.pc.walks, a ∈ m.records) (hstands : m'.pc.Stands m') : Linked m' := by
  refine h.same hheap hfresh hlist ?_ hwalks hstands
  rintro a (ha | ha | ha)
  · exact h.known a (.inl (hforks a ha))
  · exact h.known a (.inr (.inl (hobjects a ha)))
  · exact huses a ha

/-- Stores to the record under construction. -/
theorem Linked.builds (h : Linked m) {r q : ForkProcess} (hb : m.Builds a r)
    (hheap : m'.heap = Function.update m.heap a (some q))
    (hfresh : m'.fresh = m.fresh) (hlist : m'.list = m.list) (hforks : m'.forks = m.forks)
    (hobjects : m'.objects = m.objects) (huses' : m'.pc.uses = []) (hwalks' : m'.pc.walks = [])
    (hstands : m'.Builds a q → m'.pc.Stands m') : Linked m' := by
  have hstored : Stored m a (some q) m' :=
    ⟨hheap, hlist, Nat.le_of_eq hfresh.symm, hb.off, by
      rw [hfresh]
      exact h.tidy.listed.below a r hb.here⟩
  have hrec := (hstored.records h.tidy).2
  refine ⟨hstored.tidy h.tidy, ?_, by rw [hwalks']; nofun, hstands ⟨?_, ?_, ?_, ?_⟩⟩
  · rintro b (hmem | hmem | hmem)
    · rw [hforks] at hmem
      exact hstored.knows h.tidy (h.known b (.inl hmem)) fun hba => absurd (hba ▸ hmem) hb.forks
    · rw [hobjects] at hmem
      exact hstored.knows h.tidy (h.known b (.inr (.inl hmem)))
        fun hba => absurd (hba ▸ hmem) hb.objects
    · rw [huses'] at hmem
      cases hmem
  · rw [hheap, Function.update_self]
  · rw [hrec]
    exact hb.newest
  · rw [hforks]
    exact hb.forks
  · rw [hobjects]
    exact hb.objects

/-- A record off the list is deleted. -/
theorem Linked.frees (h : Linked m) {r : ForkProcess} (hr : m.heap a = some r) (hoff : a ∉ m.records)
    (hheap : m'.heap = Function.update m.heap a none) (hfresh : m'.fresh = m.fresh)
    (hlist : m'.list = m.list) (hforks : m'.forks = m.forks) (hobjects : m'.objects = m.objects)
    (huses : m'.pc.uses = []) (hwalks : ∀ b ∈ m'.pc.walks, b ∈ m.records)
    (hstands : m'.pc.Stands m') : Linked m' := by
  have hstored : Stored m a none m' :=
    ⟨hheap, hlist, Nat.le_of_eq hfresh.symm, hoff, by
      rw [hfresh]
      exact h.tidy.listed.below a r hr⟩
  refine ⟨hstored.tidy h.tidy, ?_, fun b hb => (hstored.records h.tidy).2 ▸ hwalks b hb, hstands⟩
  rintro b (hmem | hmem | hmem)
  · rw [hforks] at hmem
    exact hstored.knows h.tidy (h.known b (.inl hmem)) (by simp)
  · rw [hobjects] at hmem
    exact hstored.knows h.tidy (h.known b (.inr (.inl hmem))) (by simp)
  · rw [huses] at hmem
    cases hmem

/-- A record leaves the list. -/
theorem Linked.unlinks (h : Linked m) (hoff : Unlinked m v m₁) (hheap : m'.heap = m₁.heap)
    (hfresh : m'.fresh = m₁.fresh) (hlist : m'.list = m₁.list) (hforks : ∀ a ∈ m'.forks, a ∈ m.forks)
    (hobjects : ∀ a ∈ m'.objects, a ∈ m.objects) (huses : ∀ a ∈ m'.pc.uses, m.Knows a)
    (hwalks : ∀ a ∈ m'.pc.walks, a ≠ v ∧ a ∈ m.records) (hstands : m'.pc.Stands m') : Linked m' := by
  have knows : ∀ {b}, m.Knows b → m'.Knows b := fun hb =>
    (knows_congr hheap hfresh hlist).mpr (hoff.knows h.tidy hb)
  refine ⟨(hoff.tidy h.tidy).same hheap hfresh hlist, ?_, fun b hb => ?_, hstands⟩
  swap
  · rw [records_congr hheap hfresh hlist]
    exact (hoff.mem_records h.tidy).mpr (hwalks b hb)
  rintro b (hb | hb | hb)
  · exact knows (h.known b (.inl (hforks b hb)))
  · exact knows (h.known b (.inr (.inl (hobjects b hb))))
  · exact knows (huses b hb)

theorem Unlinked.builds (hoff : Unlinked m v m') (hm : Tidy m) {r : ForkProcess}
    (hb : m.Builds a r) : m'.Builds a r := by
  have hsub : ∀ b ∈ m'.records, b ∈ m.records := fun b hmem => ((hoff.mem_records hm).mp hmem).2
  refine ⟨?_, fun b hmem => hb.newest b (hsub b hmem), ?_, ?_⟩
  · rw [hoff.other a hb.off]
    exact hb.here
  · rw [hoff.forks]
    exact hb.forks
  · rw [hoff.objects]
    exact hb.objects

/-- What holds at a point still does when a record leaves the list that is not used there. -/
theorem Point.Stands.unlinked {p : Point} (h : p.Stands m) (hm : Tidy m) (hoff : Unlinked m v m')
    (hlink : ∀ a o, p = .link a o → m.link a ≠ some (some v)) (hv : v ∉ p.walks) : p.Stands m' := by
  have hlist : ∀ {a}, a ≠ v → m.list = some a → m'.list = some a := fun hne hl => by
    rw [hoff.list hm, hl]
    rw [hl]
    exact fun h => hne (Option.some.inj h)
  have hnext : ∀ {a q}, a ≠ v → q ≠ some v → m.link a = some q → m'.link a = some q := fun hne hq hl => by
    rw [hoff.link_eq hne, hl]
    rw [hl]
    exact fun h => hq (Option.some.inj h)
  cases p with
  | install a o => exact h.imp fun _ h => ⟨hoff.builds hm h.1, h.2⟩
  | fork a o => exact h.imp fun _ h => ⟨hoff.builds hm h.1, h.2⟩
  | next a o => exact h.imp fun _ h => ⟨hoff.builds hm h.1, h.2⟩
  | link a o =>
      obtain ⟨r, hb, hpos, hnext⟩ := h
      refine ⟨r, hoff.builds hm hb, hpos, ?_⟩
      rw [hnext, hoff.list hm]
      intro hv
      exact hlink a o rfl (link_eq_some.mpr ⟨r, hb.here, hnext.trans hv⟩)
  | clear a o => exact h.imp fun _ h => ⟨hoff.builds hm h.1, h.2⟩
  | made a o =>
      refine ⟨hoff.knows hm h.1, ?_⟩
      rw [hoff.forks, hoff.objects]
      exact h.2
  | dtor a k => exact h
  | kill a pid c => exact h
  | reap_child a c => exact h
  | waitpid a pid c => exact h
  | unlink a k => exact h
  | searchList a k => exact h
  | suicideKill p pid q => exact h
  | unlinkHead a k =>
      simp only [Point.walks, List.mem_cons, not_or] at hv
      exact ⟨h.1, hlist (Ne.symm hv.1) h.2⟩
  | setList a k q =>
      simp only [Point.walks, List.mem_cons, List.mem_append, Option.mem_toList, not_or] at hv
      exact ⟨h.1, hlist (Ne.symm hv.1) h.2.1, hnext (Ne.symm hv.1) hv.2.1 h.2.2⟩
  | search a k q =>
      obtain ⟨hk, p, rfl, hbehind⟩ := h
      simp only [Point.walks, List.mem_cons, List.mem_append, Option.mem_toList, not_or] at hv
      exact ⟨hk, p, rfl, hbehind.unlinked hoff hm (fun hp => hv.2.1 (hp ▸ rfl)) (Ne.symm hv.1)⟩
  | advance a k p =>
      simp only [Point.walks, List.mem_cons, not_or] at hv
      exact ⟨h.1, h.2.unlinked hoff hm (Ne.symm hv.2.1) (Ne.symm hv.1)⟩
  | found a k p =>
      simp only [Point.walks, List.mem_cons, not_or] at hv
      exact ⟨h.1, hnext (Ne.symm hv.2.1) (fun hp => hv.1 (Option.some.inj hp).symm) h.2⟩
  | setNext a k p q =>
      simp only [Point.walks, List.mem_cons, List.mem_append, Option.mem_toList, not_or] at hv
      exact ⟨h.1, hnext (Ne.symm hv.2.1) (fun hp => hv.1 (Option.some.inj hp).symm) h.2.1,
        hnext (Ne.symm hv.1) hv.2.2.1 h.2.2⟩
  | _ => trivial

/-- The constructor puts its record in front of the list. -/
theorem Linked.pushes (h : Linked m) {r : ForkProcess} {o : Owner} (hb : m.Builds a r)
    (hpos : 0 < r.pid) (hnext : r.next = m.list) (hheap : m'.heap = m.heap)
    (hfresh : m'.fresh = m.fresh) (hlist : m'.list = some a) (hforks : m'.forks = m.forks)
    (hobjects : m'.objects = m.objects) (hpc : m'.pc = .made a o) :
    Linked m' ∧ m'.records = a :: m.records := by
  obtain ⟨htidy, hrec⟩ := h.tidy.pushed hb.newest (by rw [hheap, hb.here]) hpos hnext
    (fun b _ => by rw [hheap]) (by rw [hheap, hfresh]; exact h.tidy.listed.below) hlist
  have knows : ∀ {b}, m.Knows b → m'.Knows b := by
    intro b hb
    rw [Process.Knows, hheap, hfresh, hrec]
    exact ⟨hb.1, fun r hr hpos => List.mem_cons_of_mem _ (hb.2 r hr hpos)⟩
  refine ⟨⟨htidy, ?_, by rw [hpc]; exact List.forall_mem_nil _, ?_⟩, hrec⟩
  · rintro b (hmem | hmem | hmem)
    · exact knows (h.known b (.inl (hforks ▸ hmem)))
    · exact knows (h.known b (.inr (.inl (hobjects ▸ hmem))))
    · rw [hpc] at hmem
      cases hmem
  · rw [hpc, Point.Stands, hforks, hobjects]
    refine ⟨⟨?_, fun _ _ _ => ?_⟩, hb.forks, hb.objects⟩
    · rw [hfresh]
      exact h.tidy.listed.below a r hb.here
    · rw [hrec]
      exact List.mem_cons_self

/-- The child of a `fork` clears the list. -/
theorem Linked.clears (h : Linked m) {r : ForkProcess} {o : Owner} (hb : m.Builds a r)
    (hdead : r.pid = 0) (hheap : m'.heap = (m.without m.records).heap) (hfresh : m'.fresh = m.fresh)
    (hlist : m'.list = none) (hforks : m'.forks = m.forks) (hobjects : m'.objects = m.objects)
    (hpc : m'.pc = .made a o) :
    Linked m' ∧ m'.records = [] := by
  -- what is left was off the list
  have left : ∀ {b r}, m'.heap b = some r → m.heap b = some r ∧ b ∉ m.records := by
    intro b r hr
    rw [hheap] at hr
    by_cases hmem : b ∈ m.records
    · simp [Process.without, hmem] at hr
    · exact ⟨by simpa [Process.without, hmem] using hr, hmem⟩
  have hchain : Chain m'.link m'.list [] := by
    rw [hlist]
    exact .nil
  have hbelow : ∀ b r, m'.heap b = some r → b < m'.fresh := by
    intro b r hr
    rw [hfresh]
    exact h.tidy.listed.below b r (left hr).1
  obtain ⟨hlisted, hrec⟩ := Listed.of_chain hbelow hchain
  have knows : ∀ {b}, m.Knows b → m'.Knows b := fun {b} hb =>
    ⟨hfresh ▸ hb.1, fun r hr hpos => absurd (hb.2 r (left hr).1 hpos) (left hr).2⟩
  refine ⟨⟨⟨hlisted, by rw [hrec]; exact .nil, by rw [hrec]; exact List.forall_mem_nil _⟩, ?_,
    by rw [hpc]; exact List.forall_mem_nil _, ?_⟩, hrec⟩
  · rintro b (hmem | hmem | hmem)
    · exact knows (h.known b (.inl (hforks ▸ hmem)))
    · exact knows (h.known b (.inr (.inl (hobjects ▸ hmem))))
    · rw [hpc] at hmem
      cases hmem
  · rw [hpc, Point.Stands, hforks, hobjects]
    refine ⟨⟨?_, fun r' hr' hpos => ?_⟩, hb.forks, hb.objects⟩
    · rw [hfresh]
      exact h.tidy.listed.below a r hb.here
    · obtain rfl := Option.some.inj (hb.here.symm.trans (left hr').1)
      omega

end Fork

end Socketpp
