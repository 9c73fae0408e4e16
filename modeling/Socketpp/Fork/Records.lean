import Socketpp.Fork.Model

/-!
# Fork — walking the list

What the loops over `ForkProcess::list` in a child (`clearLoop`) and in `reaper_nohang` (`remove_ret`)
do where the list is a chain, and the stores with which the destructor takes a record off it
(`Unlinked.first`, `Unlinked.behind`).  All other records stay as they are, but for the link that led
to what is gone.
-/

namespace Socketpp
open Lib

namespace Fork

variable {m m' : Process} {a b : Nat} {l : List Nat}

/-! ### Memory -/

theorem load_of_some {r : ForkProcess} (h : m.heap a = some r) : load a m = .ret r m := by
  rw [load, h]

theorem load_of_none (h : m.heap a = none) : load a m = .thrown .freed m := by
  rw [load, h]

/-- A `load` that returns. -/
theorem load_ret {r : ForkProcess} (h : load a m = .ret r m') : m.heap a = some r ∧ m' = m := by
  cases hr : m.heap a with
  | none => rw [load_of_none hr] at h; cases h
  | some r' => rw [load_of_some hr] at h; cases h; exact ⟨rfl, rfl⟩

theorem store_of_some {r q : ForkProcess} (h : m.heap a = some r) :
    store a q m = .ret () { m with heap := Function.update m.heap a (some q) } := by
  rw [store, Prog.bind_apply, load_of_some h]
  rfl

theorem free_of_some {r : ForkProcess} (h : m.heap a = some r) :
    free a m = .ret () { m with heap := Function.update m.heap a none } := by
  rw [free, Prog.bind_apply, load_of_some h]
  rfl

theorem free_ret (h : free a m = .ret () m') :
    ∃ r, m.heap a = some r ∧ m' = { m with heap := Function.update m.heap a none } := by
  cases hr : m.heap a with
  | none => rw [free, Prog.bind_apply, load_of_none hr] at h; cases h
  | some r => rw [free_of_some hr] at h; cases h; exact ⟨r, rfl, rfl⟩

theorem infanticide_reason_ret (pid : Int) (m : Process) :
    ∃ out, infanticide_reason pid m = .ret () { m with cerr := out } := by
  rw [infanticide_reason, Prog.ite_apply]
  split
  · exact ⟨_, rfl⟩
  · exact ⟨m.cerr, rfl⟩

/-! ### The chain -/

/-- `list` is a chain, and all records are below `fresh`. -/
structure Listed (m : Process) : Prop where
  chain : Chain m.link m.list m.records
  below : ∀ a r, m.heap a = some r → a < m.fresh

theorem link_eq_some {p : Option Nat} : m.link a = some p ↔ ∃ r, m.heap a = some r ∧ r.next = p := by
  rw [Process.link, Option.map_eq_some_iff]

theorem pid_eq_some {p : Int} : m.pid a = some p ↔ ∃ r, m.heap a = some r ∧ r.pid = p := by
  rw [Process.pid, Option.map_eq_some_iff]

/-- An address of a chain has a record. -/
theorem heap_of_mem {p : Option Nat} (h : Chain m.link p l) (ha : a ∈ l) :
    ∃ r, m.heap a = some r := by
  have hlive := h.live a ha
  rw [Process.link, Option.isSome_map] at hlive
  exact Option.isSome_iff_exists.mp hlive

theorem length_le {p : Option Nat} (hb : ∀ a r, m.heap a = some r → a < m.fresh)
    (h : Chain m.link p l) : l.length ≤ m.fresh := by
  refine h.length_le fun a ha => ?_
  obtain ⟨r, hr⟩ := heap_of_mem h ha
  exact hb a r hr

/-- The records on the list are those of its chain. -/
theorem records_eq (hb : ∀ a r, m.heap a = some r → a < m.fresh) (h : Chain m.link m.list l) :
    m.records = l := h.walk_eq (length_le hb h)

theorem Listed.of_chain (hb : ∀ a r, m.heap a = some r → a < m.fresh)
    (h : Chain m.link m.list l) : Listed m ∧ m.records = l := by
  have hl := records_eq hb h
  exact ⟨⟨hl ▸ h, hb⟩, hl⟩

theorem Listed.length_le (h : Listed m) : m.records.length ≤ m.fresh :=
  Fork.length_le h.below h.chain

theorem Listed.heap_of_mem (h : Listed m) (ha : a ∈ m.records) : ∃ r, m.heap a = some r :=
  Fork.heap_of_mem h.chain ha

/-- `m'` is `m` without the record `v`; another record may have got a new link. -/
structure Unlinked (m : Process) (v : Nat) (m' : Process) : Prop where
  chain : Chain m'.link m'.list (m.records.erase v)
  gone  : m'.heap v = none
  kept  : ∀ b, b ≠ v → ∃ q : ForkProcess → Option Nat,
    m'.heap b = (m.heap b).map fun r => { r with next := q r }
  other : ∀ b, b ∉ m.records → m'.heap b = m.heap b
  front : ∀ b, b ≠ v → m.link b ≠ some (some v) → m'.heap b = m.heap b
  rest  : ∃ heap list cerr, m' = { m with heap := heap, list := list, cerr := cerr }

/-! ### The loop in a child -/

/-- The records at `l` are gone. -/
def Process.without (m : Process) (l : List Nat) : Process :=
  { m with heap := fun b => if b ∈ l then none else m.heap b }

theorem clearLoop {n : Nat} : ∀ {l : List Nat} {p : Option Nat} {m : Process},
    Chain m.link p l → l.length ≤ n → Prog.loop clearBody (n + 1) p m = .ret () (m.without l) := by
  induction n with
  | zero =>
      intro l p m h hn
      obtain rfl := List.length_eq_zero_iff.mp (Nat.le_zero.mp hn)
      cases h
      simp [Process.without, Prog.loop, clearBody]
  | succ n ih =>
      intro l p m h hn
      cases h with
      | nil => simp [Process.without, Prog.loop, clearBody]
      | @cons a q l here rest =>
          obtain ⟨r, hr, rfl⟩ := link_eq_some.mp here
          have hnd := (Chain.cons here rest).nodup
          have hbody : clearBody (some a) m =
              .ret (.inl r.next) { m with heap := Function.update m.heap a none } := by
            simp only [clearBody, Prog.bind_apply, load_of_some hr, Outcome.andThen_ret,
              store_of_some hr]
            rw [free_of_some (r := { r with pid := 0 }) (Function.update_self ..)]
            simp [Function.update_idem]
          rw [Prog.loop_inl _ hbody, ih (l := l) ?_ (by simpa using hn)]
          · simp only [Process.without, Outcome.ret.injEq, true_and]
            congr 1
            funext b
            rcases eq_or_ne b a with rfl | hne
            · simp
            · simp [hne]
          · refine rest.congr fun b hb => ?_
            have hne : b ≠ a := fun h => (List.nodup_cons.mp hnd).1 (h ▸ hb)
            simp [Process.link, hne]

/-! ### A record leaves the list -/

/-- The first element of a chain leaves it, and its memory is released. -/
theorem Unlinked.first {r : ForkProcess} (h : Listed m) (hlist : m.list = some a)
    (hr : m.heap a = some r) (out : List Int) :
    Unlinked m a { m with
      heap := Function.update m.heap a none
      list := r.next
      cerr := out } := by
  have hchain := h.chain
  have hnd := hchain.nodup
  rw [hlist] at hchain
  obtain ⟨q, l, hq, hl, hrest⟩ := hchain.cons_inv
  obtain ⟨r', hr', rfl⟩ := link_eq_some.mp hq
  rw [hr] at hr'
  cases hr'
  rw [hl] at hnd
  refine ⟨?_, Function.update_self .., fun b hb => ⟨ForkProcess.next, ?_⟩, fun b hb => ?_,
    fun b hb _ => Function.update_of_ne hb .., _, _, _, rfl⟩
  · rw [hl, List.erase_cons_head]
    refine hrest.congr fun b hb => ?_
    have hne : b ≠ a := fun h => (List.nodup_cons.mp hnd).1 (h ▸ hb)
    simp [Process.link, hne]
  · simp [Function.update_of_ne hb]
  · have hne : b ≠ a := fun h => hb (by simp [h, hl])
    exact Function.update_of_ne hne ..

/-- The element `a` leaves its chain by a store at the one in front of it. -/
theorem Unlinked.behind {r q : ForkProcess} {pre post : List Nat} (h : Listed m)
    (hl : m.records = pre ++ b :: a :: post) (hr : m.heap a = some r) (hq : m.heap b = some q)
    (out : List Int) :
    Unlinked m a { m with
      heap := Function.update (Function.update m.heap b (some { q with next := r.next })) a none
      cerr := out } := by
  have hchain := h.chain
  have hnd := hchain.nodup
  rw [hl] at hchain hnd
  obtain ⟨-, hback, hfront⟩ := List.nodup_append.mp hnd
  simp only [List.nodup_cons, List.mem_cons, not_or] at hback
  obtain ⟨⟨hba, -⟩, hpost, -⟩ := hback
  have hpre : a ∉ pre := fun ha => hfront a ha a (by simp) rfl
  refine ⟨?_, Function.update_self .., fun c hc => ⟨?_, ?_⟩, fun c hc => ?_, fun c hc hlink => ?_, _, _, _, rfl⟩
  · have herase : m.records.erase a = pre ++ b :: post := by
      rw [hl, List.erase_append_right _ hpre, List.erase_cons_tail (by simpa using hba),
        List.erase_cons_head]
    rw [herase]
    refine (hchain.bypass (link_eq_some.mpr ⟨r, hr, rfl⟩)).congr fun c hc => ?_
    have hca : c ≠ a := by
      rintro rfl
      rcases List.mem_append.mp hc with h | h
      · exact hpre h
      · rcases List.mem_cons.mp h with h | h
        · exact hba h.symm
        · exact hpost h
    rcases eq_or_ne c b with rfl | hcb
    · simp [Process.link, hca]
    · simp [Process.link, hca, hcb]
  · exact if c = b then fun _ => r.next else ForkProcess.next
  · rcases eq_or_ne c b with rfl | hcb
    · simp [hba, hq]
    · simp [hc, hcb]
  · have hca : c ≠ a := fun h => hc (by simp [h, hl])
    have hcb : c ≠ b := fun h => hc (by simp [h, hl])
    simp [hca, hcb]
  · have hcb : c ≠ b := fun h => hlink (h ▸ hchain.link_next)
    simp [hc, hcb]

/-! ### The loop of `reaper_nohang` -/

theorem removeLoop_skip {wpid : Int} (n : Nat) (rest : List Nat) :
    ∀ {pre : List Nat} (prev : Option Nat) {p : Option Nat},
    Chain m.link p (pre ++ rest) → (∀ b ∈ pre, m.pid b ≠ some wpid) →
    Prog.loop (removeBody wpid) (n + pre.length) (prev, p) m =
      Prog.loop (removeBody wpid) n (pre.getLast?.or prev, rest.head?) m := by
  intro pre
  induction pre with
  | nil =>
      intro prev p h _
      rw [List.nil_append] at h
      cases h <;> rfl
  | cons b pre ih =>
      intro prev p h hpre
      obtain ⟨rfl, q, hb, hrest⟩ := h.head_inv
      obtain ⟨r, hr, rfl⟩ := link_eq_some.mp hb
      have hne : r.pid ≠ wpid := fun h =>
        hpre b List.mem_cons_self (pid_eq_some.mpr ⟨r, hr, h⟩)
      have hbody : removeBody wpid (prev, some b) m = .ret (.inl (some b, r.next)) m := by
        simp [removeBody, load_of_some hr, hne]
      rw [List.length_cons, ← Nat.add_assoc, Prog.loop_inl _ hbody,
        ih _ hrest fun b hb => hpre b (List.mem_cons_of_mem _ hb)]
      cases pre with
      | nil => rfl
      | cons c pre =>
          rw [List.getLast?_cons_cons]
          simp [List.getLast?_cons]

/-- The end of the body, for the record that has been unlinked. -/
theorem removeBody_tail {r : ForkProcess} (wpid : Int) (h : m.heap a = some r) (reason : Bool) :
    ∃ out, (do
      if reason then infanticide_reason wpid
      free a
      return .inr () : ForkM ((Option Nat × Option Nat) ⊕ Unit)) m =
        .ret (.inr ()) { m with heap := Function.update m.heap a none, cerr := out } := by
  have hfree : ∀ out, free a { m with cerr := out } =
      .ret () { m with heap := Function.update m.heap a none, cerr := out } :=
    fun out => free_of_some (m := { m with cerr := out }) h
  cases reason with
  | false => exact ⟨m.cerr, by simp [free_of_some h]⟩
  | true =>
      obtain ⟨out, hout⟩ := infanticide_reason_ret wpid m
      exact ⟨out, by simp [hout, hfree out]⟩

theorem removeBody_first {r : ForkProcess} (hlist : m.list = some a) (hr : m.heap a = some r) :
    ∃ out, removeBody r.pid (none, some a) m = .ret (.inr ()) { m with
      heap := Function.update m.heap a none
      list := r.next
      cerr := out } := by
  have hr' : Function.update m.heap a (some { r with pid := -1 }) a = some { r with pid := -1 } :=
    Function.update_self ..
  obtain ⟨out, hout⟩ := removeBody_tail (m := { m with
    heap := Function.update m.heap a (some { r with pid := -1 })
    list := r.next }) r.pid hr' r.reason
  have hpop : popList { m with heap := Function.update m.heap a (some { r with pid := -1 }) } =
      .ret () { m with
        heap := Function.update m.heap a (some { r with pid := -1 })
        list := r.next } := by
    simp [popList, hlist, load]
  refine ⟨out, ?_⟩
  rw [Function.update_idem] at hout
  refine Eq.trans ?_ hout
  simp only [removeBody, Prog.bind_apply, load_of_some hr, Outcome.andThen_ret, if_true,
    store_of_some hr, hpop]

theorem removeBody_behind {r q : ForkProcess} (hne : b ≠ a) (hr : m.heap a = some r)
    (hq : m.heap b = some q) :
    ∃ out, removeBody r.pid (some b, some a) m = .ret (.inr ()) { m with
      heap := Function.update (Function.update m.heap b (some { q with next := r.next })) a none
      cerr := out } := by
  have hq' : Function.update m.heap a (some { r with pid := -1 }) b = some q := by
    rw [Function.update_of_ne hne, hq]
  have hload := load_of_some
    (m := { m with heap := Function.update m.heap a (some { r with pid := -1 }) }) hq'
  have hstore := store_of_some (q := { q with next := r.next })
    (m := { m with heap := Function.update m.heap a (some { r with pid := -1 }) }) hq'
  have hr' : Function.update (Function.update m.heap a (some { r with pid := -1 })) b
      (some { q with next := r.next }) a = some { r with pid := -1 } := by
    rw [Function.update_of_ne hne.symm, Function.update_self]
  obtain ⟨out, hout⟩ := removeBody_tail (m := { m with
    heap := Function.update (Function.update m.heap a (some { r with pid := -1 })) b
      (some { q with next := r.next }) }) r.pid hr' r.reason
  have hheap : Function.update (Function.update (Function.update m.heap a
      (some { r with pid := -1 })) b (some { q with next := r.next })) a none =
      Function.update (Function.update m.heap b (some { q with next := r.next })) a none := by
    rw [Function.update_comm hne, Function.update_idem, Function.update_comm hne.symm]
  refine ⟨out, Eq.trans ?_ (hout.trans (by rw [hheap]))⟩
  simp only [removeBody, Prog.bind_apply, load_of_some hr, Outcome.andThen_ret, if_true,
    store_of_some hr, hload, hstore]

/-- **`remove`**: the record found leaves the list. -/
theorem remove_ret (h : Listed m) (wpid : Int) :
    (m.victim wpid = none ∧ remove wpid m = .ret () m) ∨
    ∃ v m', m.victim wpid = some v ∧ remove wpid m = .ret () m' ∧ Unlinked m v m' := by
  have hle := h.length_le
  have hrun : remove wpid m = Prog.loop (removeBody wpid) (m.fresh + 1) (none, m.list) m := rfl
  cases hv : m.victim wpid with
  | none =>
      refine .inl ⟨rfl, ?_⟩
      obtain ⟨n, hn⟩ : ∃ n, m.fresh + 1 = n + 1 + m.records.length :=
        ⟨m.fresh - m.records.length, by omega⟩
      rw [hrun, hn, removeLoop_skip (n + 1) [] none (by rw [List.append_nil]; exact h.chain)]
      · rfl
      · intro b hb hpid
        have := List.find?_eq_none.mp hv b hb
        simp [hpid] at this
  | some v =>
      obtain ⟨hpid, pre, post, hl, hpre⟩ := List.find?_eq_some_iff_append.mp hv
      have hpre : ∀ b ∈ pre, m.pid b ≠ some wpid := fun b hb => by simpa using hpre b hb
      obtain ⟨r, hr, rfl⟩ := pid_eq_some.mp (of_decide_eq_true hpid)
      have hchain := h.chain
      rw [hl] at hchain hle
      rw [List.length_append, List.length_cons] at hle
      obtain ⟨n, hn⟩ : ∃ n, m.fresh + 1 = n + 1 + pre.length := ⟨m.fresh - pre.length, by omega⟩
      have hskip := removeLoop_skip (n + 1) (v :: post) none hchain hpre
      rw [← hn, ← hrun] at hskip
      rcases List.eq_nil_or_concat pre with rfl | ⟨pre, b, rfl⟩
      · -- the first of the list
        have hlist : m.list = some v := hchain.head_inv.1
        obtain ⟨out, hbody⟩ := removeBody_first hlist hr
        refine .inr ⟨v, _, rfl, ?_, .first h hlist hr out⟩
        rw [hskip]
        exact Prog.loop_inr n hbody
      · -- behind another
        rw [List.concat_eq_append, List.append_assoc, List.singleton_append] at hl
        obtain ⟨q, hq⟩ := h.heap_of_mem (a := b) (by simp [hl])
        have hne : b ≠ v := by
          rintro rfl
          have := (List.nodup_append.mp (hl ▸ h.chain.nodup)).2.1
          simp at this
        obtain ⟨out, hbody⟩ := removeBody_behind hne hr hq
        refine .inr ⟨v, _, rfl, ?_, .behind h hl hr hq out⟩
        rw [hskip]
        refine Prog.loop_inr n ?_
        simpa using hbody

end Fork

end Socketpp
