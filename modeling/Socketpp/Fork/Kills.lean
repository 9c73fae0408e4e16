import Socketpp.Fork.Reaping

/-!
# Fork — which processes are killed

The library kills by the pid in a record, and in three places it waits for a child and leaves the
record: `kill_process`, the final wait of `~KillForks`, and `reaper_nohang`, when the record is not
on the list yet.  A record is `Stale` once a `kill_process` has waited for its child, and while its
destructor, which has waited, has not unlinked it yet.  The pids in all other records on the list are
those of children (`Aimed`).  Every `kill` hits a child as long as no record is used that has been deleted,
no stale record is used to kill, and no child is reaped whose record is about to be linked or whose pid is
about to be killed (`kills_children`).
-/

namespace Socketpp
open Lib

namespace Fork

variable {m m' m₁ : Process} {K K' : Nat → Prop} {a b v : Nat} {ret : Int}

/-! ### Stale records -/

/-- The record on which a `kill_process` runs that has not waited yet. -/
def Point.killing : Point → Option Nat
  | .kill_process a | .kill a _ .kill_process | .reap_child a .kill_process
  | .waitpid a _ .kill_process => some a
  | _ => none

/-- The record whose destructor has waited and has still to unlink it. -/
def Point.waited : Point → Option Nat
  | .unlink a _ | .unlinkHead a _ | .setList a _ _ | .searchList a _ | .search a _ _ | .advance a _ _
  | .found a _ _ | .setNext a _ _ _ => some a
  | _ => none

/-- The record whose constructor has forked and has still to link it. -/
def Point.linking : Point → Option Nat
  | .next a _ | .link a _ => some a
  | _                     => none

/-- The pid that `kill` is about to be called with. -/
def Point.aims : Point → Option Int
  | .kill _ pid _ | .suicideKill _ pid _ => some pid
  | _                                    => none

/-- The list is not that of this process's children: in a forked child before it has cleared it, and
in the final wait. -/
def Point.detached : Point → Bool
  | .clear _ _ | .waitAll | .wait | .exited => true
  | _                                       => false

/-- The child of the record at `a` may have been waited for; `K` are the records on which
`kill_process` has been called. -/
def Stale (K : Nat → Prop) (m : Process) (a : Nat) : Prop :=
  (K a ∧ m.pc.killing ≠ some a) ∨ m.pc.waited = some a

/-- What a deletion of the record at `a` needs, and the loop it returns to. -/
def Return.Fits (K : Nat → Prop) (m : Process) (a : Nat) : Return → Prop
  | .main             => a ∈ m.records → K a → m.Mild a
  | .commit_suicide _ => ∀ b ∈ m.records, ¬ K b
  | .killForks _      => ∀ b ∈ m.records, K b → m.Mild b

def Caller.Fits (K : Nat → Prop) (m : Process) (a : Nat) : Caller → Prop
  | .dtor k       => k.Fits K m a
  | .kill_process => K a

/-- What holds where the program stands. -/
def Point.Fits (K : Nat → Prop) (m : Process) : Point → Prop
  | .next a _ | .link a _ => ∀ p, m.pid a = some p →
      p ∈ m.children ∧ ∀ b ∈ m.records, m.pid b = some p → Stale K m b
  | .clear _ _              => m.children = [] ∧ m.pending = false ∧ m.handler = none
  | .kill_process a         => K a
  | .dtor a k | .unlink a k | .unlinkHead a k | .setList a k _ | .searchList a k | .search a k _
  | .advance a k _ | .found a k _ | .setNext a k _ _ => k.Fits K m a
  | .kill a pid c           => pid ∈ m.children ∧ c.Fits K m a
  | .reap_child a c         => c.Fits K m a
  | .waitpid a pid c        => c.Fits K m a ∧ (a ∈ m.records → m.pid a = some pid)
  | .suicide _              => ∀ b ∈ m.records, ¬ K b
  | .suicideKill _ pid _    => pid ∈ m.children ∧ ∀ b ∈ m.records, ¬ K b
  | .killForks _ | .killNext _ => ∀ b ∈ m.records, K b → m.Mild b
  | _                       => True

/-- **The invariant**: every `kill` has hit a child, and the pids of the records on the list that are
not stale are those of children, each of one record. -/
structure Aimed (K : Nat → Prop) (m : Process) : Prop where
  linked : Linked m
  good   : ∀ k ∈ m.kills, k.child = true
  child  : m.pc.detached = false → ∀ a ∈ m.records, ∀ p, m.pid a = some p → ¬ Stale K m a →
    p ∈ m.children ∨ m.handler = some (.remove p)
  unique : ∀ a ∈ m.records, ∀ b ∈ m.records, a ≠ b → ∀ p, m.pid a = some p → m.pid b = some p →
    ¬ Stale K m a → Stale K m b ∧ b < a
  fits   : m.pc.Fits K m

/-- Nothing is asked of a record that there is not. -/
theorem none_eq {α : Type} {P : α → Prop} : ∀ b, none = some b → P b := by
  intro b h
  cases h

theorem Process.Fresh.aimed (h : m.Fresh) : Aimed (fun _ => False) m := by
  have hrec : m.records = [] := by
    rw [Process.records, h.list]
    cases m.fresh <;> rfl
  refine ⟨h.linked, ?_, ?_, ?_, ?_⟩
  · rw [h.kills]
    exact List.forall_mem_nil _
  · rw [hrec]
    exact fun _ => List.forall_mem_nil _
  · rw [hrec]
    exact List.forall_mem_nil _
  · rw [h.idle.1]
    trivial

/-! ### What is left of the list -/

/-- The records on the list of `m'` are on that of `m`, and the same but for their links. -/
structure Left (m m' : Process) : Prop where
  records : ∀ b ∈ m'.records, b ∈ m.records
  kept    : ∀ b ∈ m'.records, ∃ q : ForkProcess → Option Nat,
    m'.heap b = (m.heap b).map fun r => { r with next := q r }

theorem Left.of_heap (hrec : m'.records = m.records)
    (hheap : ∀ b ∈ m.records, m'.heap b = m.heap b) : Left m m' := by
  refine ⟨fun b hb => hrec ▸ hb, fun b hb => ⟨ForkProcess.next, ?_⟩⟩
  rw [hheap b (hrec ▸ hb)]
  simp

theorem Left.same (hheap : m'.heap = m.heap) (hfresh : m'.fresh = m.fresh)
    (hlist : m'.list = m.list) : Left m m' :=
  .of_heap (records_congr hheap hfresh hlist) fun _ _ => by rw [hheap]

theorem Unlinked.left (h : Unlinked m v m₁) (hm : Tidy m) (hheap : m'.heap = m₁.heap)
    (hfresh : m'.fresh = m₁.fresh) (hlist : m'.list = m₁.list) : Left m m' := by
  refine ⟨fun b hb => ?_, fun b hb => ?_⟩
  · rw [records_congr hheap hfresh hlist, h.mem_records hm] at hb
    exact hb.2
  · rw [records_congr hheap hfresh hlist, h.mem_records hm] at hb
    rw [hheap]
    exact h.kept b hb.1

theorem Stored.left {q : Option ForkProcess} (h : Stored m a q m') (hm : Tidy m) : Left m m' := by
  refine .of_heap (h.records hm).2 fun b hb => ?_
  have hne : b ≠ a := fun hba => h.off (hba ▸ hb)
  rw [h.heap, Function.update_of_ne hne]

theorem Left.pid (h : Left m m') (hb : b ∈ m'.records) : m'.pid b = m.pid b := by
  obtain ⟨q, hq⟩ := h.kept b hb
  rw [Process.pid, Process.pid, hq, Option.map_map]
  rfl

theorem Left.mild (h : Left m m') (hb : b ∈ m'.records) (hmild : m.Mild b) : m'.Mild b := by
  obtain ⟨q, hq⟩ := h.kept b hb
  intro r' hr'
  rw [hq, Option.map_eq_some_iff] at hr'
  obtain ⟨r, hr, rfl⟩ := hr'
  exact hmild r hr

theorem Return.Fits.left {k : Return} (h : k.Fits K m a) (hl : Left m m') : k.Fits K m' a := by
  cases k with
  | main => exact fun ha hK => hl.mild ha (h (hl.records a ha) hK)
  | commit_suicide q => exact fun b hb => h b (hl.records b hb)
  | killForks c => exact fun b hb hK => hl.mild hb (h b (hl.records b hb) hK)

theorem Caller.Fits.left {c : Caller} (h : c.Fits K m a) (hl : Left m m') : c.Fits K m' a := by
  cases c with
  | dtor k => exact Return.Fits.left h hl
  | kill_process => exact h

/-- Where a deletion returns to. -/
theorem Return.Fits.point {k : Return} (h : k.Fits K m a) : k.point.Fits K m := by
  cases k with
  | main => trivial
  | commit_suicide q => exact h
  | killForks c => exact h

theorem Caller.Fits.point {c : Caller} (h : c.Fits K m a) : (c.point a).Fits K m := by
  cases c with
  | dtor k => exact h
  | kill_process => trivial

/-- A deletion that kills has not been preceded by a `kill_process`. -/
theorem Return.Fits.not_called {k : Return} {r : ForkProcess} (h : k.Fits K m a)
    (ha : a ∈ m.records) (hr : m.heap a = some r) (hkill : r.kill_child = true) : ¬ K a := by
  intro hK
  have hmild : m.Mild a → False := fun h => by simpa [hkill] using h r hr
  cases k with
  | main => exact hmild (h ha hK)
  | commit_suicide q => exact h a ha hK
  | killForks c => exact hmild (h a ha hK)

@[simp] theorem Return.detached_point (k : Return) : k.point.detached = false := by
  cases k <;> rfl

@[simp] theorem Return.killing_point (k : Return) : k.point.killing = none := by
  cases k <;> rfl

@[simp] theorem Return.waited_point (k : Return) : k.point.waited = none := by
  cases k <;> rfl

@[simp] theorem Caller.detached_point (c : Caller) : (c.point a).detached = false := by
  cases c <;> rfl

@[simp] theorem Caller.killing_point (c : Caller) : (c.point a).killing = none := by
  cases c <;> rfl

/-! ### Steps -/

/-- A step after which the list has no new records. -/
theorem Aimed.of (h : Aimed K m) (hlinked : Linked m') (hleft : Left m m')
    (hgood : ∀ k ∈ m'.kills, k.child = true)
    (hstale : ∀ b ∈ m'.records, Stale K m b → Stale K' m' b)
    (hchild : m'.pc.detached = false → m.pc.detached = false ∧ ∀ b ∈ m'.records, ∀ p,
      m.pid b = some p → ¬ Stale K' m' b → p ∈ m.children ∨ m.handler = some (.remove p) →
        p ∈ m'.children ∨ m'.handler = some (.remove p))
    (hfits : m'.pc.Fits K' m') : Aimed K' m' := by
  refine ⟨hlinked, hgood, fun hd a ha p hp hs => ?_, fun a ha b hb hne p hpa hpb hs => ?_, hfits⟩
  · obtain ⟨hd', hkeep⟩ := hchild hd
    rw [hleft.pid ha] at hp
    exact hkeep a ha p hp hs
      (h.child hd' a (hleft.records a ha) p hp fun hs' => hs (hstale a ha hs'))
  · rw [hleft.pid ha] at hpa
    rw [hleft.pid hb] at hpb
    obtain ⟨hsb, hlt⟩ := h.unique a (hleft.records a ha) b (hleft.records b hb) hne p hpa hpb
      fun hs' => hs (hstale a ha hs')
    exact ⟨hstale b hb hsb, hlt⟩

/-- A step of the program that leaves the list, the children and the handler. -/
theorem Aimed.moves (h : Aimed K m) (hlinked : Linked m') (hleft : Left m m')
    (hchildren : m'.children = m.children) (hhandler : m'.handler = m.handler)
    (hgood : ∀ k ∈ m'.kills, k.child = true)
    (hstale : ∀ b ∈ m'.records, Stale K m b → Stale K' m' b)
    (hdetached : m'.pc.detached = false → m.pc.detached = false)
    (hfits : m'.pc.Fits K' m') : Aimed K' m' := by
  refine h.of hlinked hleft hgood hstale (fun hd => ⟨hdetached hd, fun b _ p _ _ hp => ?_⟩) hfits
  rw [hchildren, hhandler]
  exact hp

/-- Where no `kill_process` and no destructor has begun. -/
theorem stale_iff (hk : m.pc.killing = none) (hw : m.pc.waited = none) : Stale K m b ↔ K b := by
  simp [Stale, hk, hw]

theorem Stale.mono (hK : ∀ b, K b → K' b ∨ m.pc.killing = some b)
    (hk : ∀ b, m'.pc.killing = some b → m.pc.killing = some b)
    (hw : ∀ b, m.pc.waited = some b → m'.pc.waited = some b) (h : Stale K m b) : Stale K' m' b := by
  rcases h with ⟨hb, hne⟩ | hb
  · exact .inl ⟨(hK b hb).resolve_right hne, fun h => hne (hk b h)⟩
  · exact .inr (hw b hb)

/-- A step of the program that only goes to another point, and at most calls `kill`. -/
theorem Aimed.goes (h : Aimed K m) {pc : Point} (hpc : m.pc = pc) (hlinked : Linked m')
    (hheap : m'.heap = m.heap) (hfresh : m'.fresh = m.fresh) (hlist : m'.list = m.list)
    (hchildren : m'.children = m.children) (hhandler : m'.handler = m.handler)
    (hgood : ∀ k ∈ m'.kills, k.child = true)
    (hkilling : ∀ b, m'.pc.killing = some b → pc.killing = some b)
    (hwaited : ∀ b, pc.waited = some b → m'.pc.waited = some b)
    (hdetached : m'.pc.detached = false → pc.detached = false)
    (hfits : m'.pc.Fits K m') : Aimed K m' := by
  subst hpc
  exact h.moves hlinked (.same hheap hfresh hlist) hchildren hhandler hgood
    (fun b _ => .mono (fun _ => .inl) hkilling hwaited) hdetached hfits

/-- A store to the record under construction. -/
theorem Linked.stored (h : Linked m) {r q : ForkProcess} (hb : m.Builds a r)
    (hheap : m'.heap = Function.update m.heap a (some q)) (hfresh : m'.fresh = m.fresh)
    (hlist : m'.list = m.list) : Stored m a (some q) m' :=
  ⟨hheap, hlist, Nat.le_of_eq hfresh.symm, hb.off, by
    rw [hfresh]
    exact h.tidy.listed.below a r hb.here⟩

/-- A store to the record under construction. -/
theorem Aimed.stores (h : Aimed K m) {pc : Point} {r q : ForkProcess} (hpc : m.pc = pc)
    (hb : m.Builds a r) (hlinked : Linked m')
    (hheap : m'.heap = Function.update m.heap a (some q)) (hfresh : m'.fresh = m.fresh)
    (hlist : m'.list = m.list) (hhandler : m'.handler = m.handler) (hkills : m'.kills = m.kills)
    (hkilling : m'.pc.killing = none) (hwaited : pc.waited = none)
    (hchildren : m'.pc.detached = false →
      pc.detached = false ∧ ∀ p ∈ m.children, p ∈ m'.children)
    (hfits : m'.records = m.records → m'.pid a = some q.pid →
      (∀ b ∈ m.records, m'.pid b = m.pid b) → m'.pc.Fits K m') : Aimed K m' := by
  have hstored := h.linked.stored hb hheap hfresh hlist
  have hleft := hstored.left h.linked.tidy
  have hrec := (hstored.records h.linked.tidy).2
  subst hpc
  refine h.of hlinked hleft (hkills ▸ h.good)
    (fun b _ => .mono (fun _ => .inl) (by rw [hkilling]; nofun) (by rw [hwaited]; nofun))
    (fun hd => ⟨(hchildren hd).1, fun b _ p _ _ hp => ?_⟩)
    (hfits hrec ?_ fun b hb => hleft.pid (hrec ▸ hb))
  · rw [hhandler]
    exact hp.imp_left ((hchildren hd).2 p)
  · rw [Process.pid, hheap, Function.update_self]
    rfl

/-- The constructor has put its record in front of the list. -/
theorem Aimed.pushes (h : Aimed K m) {r : ForkProcess} {o : Owner} (hpc : m.pc = .link a o)
    (hb : m.Builds a r) (hlinked : Linked m') (hrec : m'.records = a :: m.records)
    (hheap : m'.heap = m.heap) (hchildren : m'.children = m.children)
    (hhandler : m'.handler = m.handler) (hkills : m'.kills = m.kills) (hpc' : m'.pc = .made a o) :
    Aimed K m' := by
  have hfits := h.fits
  rw [hpc] at hfits
  have hpid : ∀ b, m'.pid b = m.pid b := fun b => by rw [Process.pid, Process.pid, hheap]
  have hstale : ∀ b, Stale K m' b ↔ Stale K m b := fun b => by
    rw [stale_iff (by rw [hpc']; rfl) (by rw [hpc']; rfl),
      stale_iff (by rw [hpc]; rfl) (by rw [hpc]; rfl)]
  refine ⟨hlinked, hkills ▸ h.good, fun _ b hb p hp hs => ?_, ?_, by rw [hpc']; trivial⟩
  · rw [hpid] at hp
    rw [hstale] at hs
    rw [hchildren, hhandler]
    rw [hrec] at hb
    rcases List.mem_cons.mp hb with rfl | hb
    · exact .inl (hfits p hp).1
    · exact h.child (by rw [hpc]; rfl) b hb p hp hs
  · intro c hc d hd hne p hcp hdp hs
    rw [hpid] at hcp hdp
    rw [hstale] at hs ⊢
    rw [hrec] at hc hd
    rcases List.mem_cons.mp hc with rfl | hcm
    · have hdm := (List.mem_cons.mp hd).resolve_left hne.symm
      exact ⟨(hfits p hcp).2 d hdm hdp, hb.newest d hdm⟩
    · rcases List.mem_cons.mp hd with rfl | hdm
      · exact absurd ((hfits p hdp).2 c hcm hcp) hs
      · exact h.unique c hcm d hdm hne p hcp hdp hs

/-- A child that has cleared its list. -/
theorem Aimed.clears (h : Aimed K m) (hlinked : Linked m') (hrec : m'.records = [])
    (hkills : m'.kills = m.kills) (hfits : m'.pc.Fits K m') : Aimed K m' := by
  refine ⟨hlinked, hkills ▸ h.good, ?_, ?_, hfits⟩
  · rw [hrec]
    exact fun _ => List.forall_mem_nil _
  · rw [hrec]
    exact List.forall_mem_nil _

/-- A deletion returns. -/
theorem Aimed.returns (h : Aimed K m) {k : Return} (hd : m.pc.detached = false)
    (hwaited : ∀ b ∈ m'.records, m.pc.waited ≠ some b) (hfits : k.Fits K m a) (hlinked : Linked m')
    (hleft : Left m m') (hchildren : m'.children = m.children) (hhandler : m'.handler = m.handler)
    (hkills : m'.kills = m.kills) (hpc : m'.pc = k.point) : Aimed K m' := by
  refine h.moves hlinked hleft hchildren hhandler (hkills ▸ h.good) (fun b hb hs => ?_)
    (fun _ => hd) ?_
  · rcases hs with ⟨hK, -⟩ | hs
    · exact .inl ⟨hK, by rw [hpc, Return.killing_point]; nofun⟩
    · exact absurd hs (hwaited b hb)
  · rw [hpc]
    exact Return.Fits.point (hfits.left hleft)

/-- Only the child waited for is gone. -/
theorem mem_children_of_ne {p pid : Int} (hp : p ∈ m.children) (hne : p ≠ pid) :
    p ∈ m.running ++ m.zombies.erase pid := by
  rcases List.mem_append.mp hp with hp | hp
  · exact List.mem_append_left _ hp
  · exact List.mem_append_right _ ((List.mem_erase_of_ne hne).mpr hp)

/-- A child has been waited for, and its record is stale from there on. -/
theorem Aimed.waits (h : Aimed K m) {c : Caller} {pid : Int} {out : List Int}
    (hpc : m.pc = .waitpid a pid c) (ha : a ∈ m.records) (hnone : m.handler = none)
    (hK : ∀ k, c = .dtor k → ¬ K a) (hlinked : Linked m')
    (hm' : m' = { m with
      zombies := m.zombies.erase pid
      cerr := out
      pc := c.point a }) : Aimed K m' := by
  have hfits := h.fits
  rw [hpc] at hfits
  have hs : ¬ Stale K m a := by
    cases c with
    | dtor k => simpa [Stale, hpc, Point.killing, Point.waited] using hK k rfl
    | kill_process => simp [Stale, hpc, Point.killing, Point.waited]
  subst hm'
  have hmono : ∀ b, Stale K m b → Stale K { m with
      zombies := m.zombies.erase pid
      cerr := out
      pc := c.point a } b :=
    fun b => .mono (fun _ => .inl) (by simp) (by rw [hpc]; exact none_eq)
  have hsa : Stale K { m with
      zombies := m.zombies.erase pid
      cerr := out
      pc := c.point a } a := by
    cases c with
    | dtor k => exact .inr rfl
    | kill_process => exact .inl ⟨hfits.1, fun hk => by cases hk⟩
  refine h.of hlinked (.same rfl rfl rfl) h.good (fun b _ => hmono b)
    (fun _ => ⟨by rw [hpc]; rfl, fun b hb p hp hsb hmem => ?_⟩) ?_
  · -- no other record has the pid
    have hne : p ≠ pid := by
      rintro rfl
      rcases eq_or_ne a b with rfl | hab
      · exact hsb hsa
      · exact hsb (hmono b (h.unique a ha b hb hab p (hfits.2 ha) hp hs).1)
    rw [hnone] at hmem
    exact .inl (mem_children_of_ne (hmem.resolve_right fun hn => by cases hn) hne)
  · exact Caller.Fits.point (Caller.Fits.left hfits.1 (.same rfl rfl rfl))

section Go

variable {pc p : Point}

/-- The pid of a record that is not stale is that of a child, where no handler runs. -/
theorem Aimed.child_of (h : Aimed K m) (hnone : m.handler = none) (hd : m.pc.detached = false)
    (ha : a ∈ m.records) {r : ForkProcess} (hr : m.heap a = some r) (hs : ¬ Stale K m a) :
    r.pid ∈ m.children := by
  refine (h.child hd a ha r.pid (pid_eq_some.mpr ⟨r, hr, rfl⟩) hs).resolve_right ?_
  rw [hnone]
  nofun

/-- A constructor. -/
theorem Aimed.constructs (h : Aimed K m) (hpc : m.pc = pc) (hnone : m.handler = none)
    (hallows : pc.Allows m ret) (hgoes : Constructs ret m pc p m₁) (hlinked : Linked m')
    (hm' : m' = { m₁ with pc := p }) : Aimed K m' := by
  have hstands := h.linked.stands
  have hfits := h.fits
  rw [hpc] at hstands hfits
  subst hm'
  cases hgoes with
  | install a o =>
      exact h.goes hpc hlinked rfl rfl rfl rfl rfl h.good none_eq none_eq (fun _ => rfl) trivial
  | @fork_parent a r o hr hpos =>
      obtain ⟨r', hb, -⟩ := hstands
      have hnew : ret ∉ m.children := by
        rcases hallows with ⟨-, hnew⟩ | rfl | rfl
        · exact hnew
        · omega
        · omega
      refine h.stores hpc hb hlinked rfl rfl rfl rfl rfl rfl rfl
        (fun _ => ⟨rfl, fun p => List.mem_cons_of_mem _⟩) fun hrec hpid hkept p hp => ?_
      obtain rfl := Option.some.inj (hpid.symm.trans hp)
      refine ⟨List.mem_cons_self, fun b hb hbp => ?_⟩
      rw [hrec] at hb
      rw [hkept b hb] at hbp
      -- the pid is new, so a record that has it is stale
      obtain ⟨rb, hrb, rfl⟩ := pid_eq_some.mp hbp
      have hs := stale_iff (K := K) (m := m) (b := b) (by rw [hpc]; rfl) (by rw [hpc]; rfl)
      have hK : K b := hs.mp (by_contra fun hs' =>
        hnew (h.child_of hnone (by rw [hpc]; rfl) hb hrb hs'))
      exact .inl ⟨hK, nofun⟩
  | fork_child o hr hret =>
      obtain ⟨r', hb, -⟩ := hstands
      exact h.stores hpc hb hlinked rfl rfl rfl rfl rfl rfl rfl (fun hd => by cases hd)
        fun _ _ _ => ⟨rfl, rfl, hnone⟩
  | fork_failed o hr hneg =>
      obtain ⟨r', hb, -⟩ := hstands
      exact h.stores hpc hb hlinked rfl rfl rfl rfl rfl rfl rfl (fun _ => ⟨rfl, fun _ hp => hp⟩)
        fun _ _ _ => trivial
  | @next a r o hr =>
      obtain ⟨r', hb, -⟩ := hstands
      obtain rfl := Option.some.inj (hb.here.symm.trans hr)
      refine h.stores hpc hb hlinked rfl rfl rfl rfl rfl rfl rfl (fun _ => ⟨rfl, fun _ hp => hp⟩)
        fun hrec hpid hkept p hp => ?_
      obtain ⟨hmem, hothers⟩ := hfits p (by rw [Process.pid, hr, ← hp, hpid]; rfl)
      refine ⟨hmem, fun b hb hbp => ?_⟩
      rw [hrec] at hb
      rw [hkept b hb] at hbp
      exact (hothers b hb hbp).mono (fun _ => .inl) none_eq (by rw [hpc]; exact none_eq)
  | link a o =>
      obtain ⟨r, hb, hpos, hnext⟩ := hstands
      refine h.pushes hpc hb hlinked ?_ rfl rfl rfl rfl rfl
      refine (h.linked.pushes (o := o) hb hpos hnext ?_ ?_ ?_ ?_ ?_ ?_).2 <;> rfl
  | clear o hr hoff =>
      obtain ⟨r, hb, hdead⟩ := hstands
      refine h.clears hlinked ?_ rfl trivial
      refine (h.linked.clears (o := o) hb hdead ?_ ?_ ?_ ?_ ?_ ?_).2 <;> rfl
  | made_fork a =>
      exact h.goes hpc hlinked rfl rfl rfl rfl rfl h.good none_eq none_eq (fun _ => rfl) trivial
  | made_user a =>
      exact h.goes hpc hlinked rfl rfl rfl rfl rfl h.good none_eq none_eq (fun _ => rfl) trivial

/-- A destructor, or `kill_process`: the record is not stale whose pid is taken. -/
theorem Aimed.destroys (h : Aimed K m) (hpc : m.pc = pc) (hnone : m.handler = none)
    (hgoes : Destroys ret m pc p m₁)
    (hwaits : ∀ a pid k, pc = .waitpid a pid (.dtor k) → K a → ret ≠ pid) (hlinked : Linked m')
    (hm' : m' = { m₁ with pc := p }) : Aimed K m' := by
  have hwalked := h.linked.walked
  have hused : ∀ a ∈ m.pc.uses, m.Knows a := fun a ha => h.linked.known a (.inr (.inr ha))
  have hfits := h.fits
  rw [hpc] at hwalked hused hfits
  subst hm'
  cases hgoes with
  | @dropFork_dead a r hr hdead =>
      refine h.goes hpc hlinked rfl rfl rfl rfl rfl h.good none_eq none_eq (fun _ => rfl) fun ha => ?_
      exact absurd (h.linked.tidy.positive a ha r hr) (by omega)
  | dropFork hr hpos =>
      exact h.goes hpc hlinked rfl rfl rfl rfl rfl h.good none_eq none_eq (fun _ => rfl) trivial
  | @dtor_kill a r k hr hpos hkill =>
      have ha := (hused a (List.mem_singleton_self a)).2 r hr hpos
      have hs : ¬ Stale K m a := by
        rw [stale_iff (by rw [hpc]; rfl) (by rw [hpc]; rfl)]
        exact Return.Fits.not_called hfits ha hr hkill
      have hmem := h.child_of hnone (by rw [hpc]; rfl) ha hr hs
      exact h.goes hpc hlinked rfl rfl rfl rfl rfl h.good none_eq none_eq (fun _ => rfl) ⟨hmem, hfits⟩
  | dtor_reap k hr hpos hkill =>
      exact h.goes hpc hlinked rfl rfl rfl rfl rfl h.good none_eq none_eq (fun _ => rfl) hfits
  | @dtor_dead a r k hr hdead =>
      have hoff : a ∉ m.records := fun ha => absurd (h.linked.tidy.positive a ha r hr) (by omega)
      refine h.returns (by rw [hpc]; rfl) (by rw [hpc]; exact fun _ _ h => by cases h) hfits hlinked ?_
        rfl rfl rfl rfl
      exact Stored.left (a := a) ⟨rfl, rfl, Nat.le_refl _, hoff, h.linked.tidy.listed.below a r hr⟩
        h.linked.tidy
  | @kill_process a r hr hpos =>
      have ha := (hused a (List.mem_singleton_self a)).2 r hr hpos
      have hs : ¬ Stale K m a := by simp [Stale, hpc, Point.killing, Point.waited]
      have hmem := h.child_of hnone (by rw [hpc]; rfl) ha hr hs
      exact h.goes hpc hlinked rfl rfl rfl rfl rfl h.good (fun _ h => h) none_eq (fun _ => rfl)
        ⟨hmem, hfits⟩
  | kill_process_dead hr hdead =>
      exact h.goes hpc hlinked rfl rfl rfl rfl rfl h.good none_eq none_eq (fun _ => rfl) trivial
  | kill a pid c =>
      refine h.goes hpc hlinked rfl rfl rfl rfl rfl ?_ ?_ none_eq (fun _ => rfl) hfits.2
      · exact List.forall_mem_append.mpr ⟨h.good, List.forall_mem_singleton.mpr (by simp [hfits.1])⟩
      · cases c with
        | dtor k => exact none_eq
        | kill_process => exact fun _ h => h
  | @reap a r c hr hpos =>
      refine h.goes hpc hlinked rfl rfl rfl rfl rfl h.good ?_ none_eq (fun _ => rfl)
        ⟨hfits, fun _ => pid_eq_some.mpr ⟨r, hr, rfl⟩⟩
      cases c with
      | dtor k => exact none_eq
      | kill_process => exact fun _ h => h
  | @reap_dead a r c hr hdead =>
      -- a record on the list has a positive pid
      exact absurd (h.linked.tidy.positive a (hwalked a List.mem_cons_self) r hr) (by omega)
  | @waited a r pid c out hr hret =>
      refine h.waits hpc (hwalked a List.mem_cons_self) hnone (fun k hc hKa => ?_) hlinked rfl
      subst hc
      exact hwaits a pid k rfl hKa hret
  | not_waited a pid c hret =>
      refine h.goes hpc hlinked rfl rfl rfl rfl rfl h.good (by simp) none_eq (fun _ => rfl) ?_
      exact Caller.Fits.point (Caller.Fits.left hfits.1 (.same rfl rfl rfl))

/-- A destructor takes its record off the list. -/
theorem Aimed.removed (h : Aimed K m) {k : Return} (hd : m.pc.detached = false)
    (hwaited : m.pc.waited = some a) (hfits : k.Fits K m a) (hoff : Unlinked m a m₁) (hlinked : Linked m')
    (hm' : m' = { m₁ with pc := k.point }) : Aimed K m' := by
  subst hm'
  have hleft : Left m { m₁ with pc := k.point } := hoff.left h.linked.tidy rfl rfl rfl
  have hgone : ∀ b ∈ Process.records { m₁ with pc := k.point }, m.pc.waited ≠ some b := by
    intro b hb heq
    obtain rfl := Option.some.inj (hwaited.symm.trans heq)
    have hb' : a ∈ m₁.records := hb
    exact ((hoff.mem_records h.linked.tidy).mp hb').1 rfl
  obtain ⟨_, _, _, rfl⟩ := hoff.rest
  exact h.returns hd hgone hfits hlinked hleft rfl rfl rfl rfl

theorem Aimed.unlinking (h : Aimed K m) (hpc : m.pc = pc) (hgoes : Unlinks m pc p m₁)
    (hlinked : Linked m') (hm' : m' = { m₁ with pc := p }) : Aimed K m' := by
  have hstands := h.linked.stands
  have hfits := h.fits
  rw [hpc] at hstands hfits
  cases hgoes with
  | setList k q hr =>
      exact h.removed (by rw [hpc]; rfl) (by rw [hpc]; rfl) hfits (h.linked.setList hpc) hlinked hm'
  | search_end k hr =>
      obtain ⟨-, _, hnone, -⟩ := hstands
      cases hnone
  | setNext k q hr =>
      exact h.removed (by rw [hpc]; rfl) (by rw [hpc]; rfl) hfits (h.linked.setNext hpc hr) hlinked hm'
  | _ =>
      subst hm'
      exact h.goes hpc hlinked rfl rfl rfl rfl rfl h.good none_eq (fun _ h => h) (fun _ => rfl) hfits

/-- `commit_suicide` and `~KillForks`: no record is stale that is killed there. -/
theorem Aimed.exits (h : Aimed K m) (hpc : m.pc = pc) (hnone : m.handler = none)
    (hgoes : Exits ret m pc p m₁) (hlinked : Linked m') (hm' : m' = { m₁ with pc := p }) :
    Aimed K m' := by
  have hwalked := h.linked.walked
  have hfits := h.fits
  rw [hpc] at hwalked hfits
  subst hm'
  cases hgoes with
  | suicide_end =>
      refine h.goes hpc hlinked rfl rfl rfl rfl rfl h.good none_eq none_eq (fun _ => rfl) ?_
      exact fun b hb hK => absurd hK (hfits b hb)
  | suicide_dtor hr hkill =>
      exact h.goes hpc hlinked rfl rfl rfl rfl rfl h.good none_eq none_eq (fun _ => rfl) hfits
  | @suicide_kill p r hr hkill =>
      have hp := hwalked p (List.mem_singleton_self p)
      have hs : ¬ Stale K m p := by
        rw [stale_iff (by rw [hpc]; rfl) (by rw [hpc]; rfl)]
        exact hfits p hp
      have hmem := h.child_of hnone (by rw [hpc]; rfl) hp hr hs
      exact h.goes hpc hlinked rfl rfl rfl rfl rfl h.good none_eq none_eq (fun _ => rfl) ⟨hmem, hfits⟩
  | suicideKill p pid q =>
      refine h.goes hpc hlinked rfl rfl rfl rfl rfl ?_ none_eq none_eq (fun _ => rfl) hfits.2
      exact List.forall_mem_append.mpr ⟨h.good, List.forall_mem_singleton.mpr (by simp [hfits.1])⟩
  | killForks_end =>
      exact h.goes hpc hlinked rfl rfl rfl rfl rfl h.good none_eq none_eq (fun _ => rfl) trivial
  | killForks_dtor hr hkill =>
      exact h.goes hpc hlinked rfl rfl rfl rfl rfl h.good none_eq none_eq (fun _ => rfl) hfits
  | killForks_next hr hkill =>
      exact h.goes hpc hlinked rfl rfl rfl rfl rfl h.good none_eq none_eq (fun _ => rfl) hfits
  | killNext hr =>
      exact h.goes hpc hlinked rfl rfl rfl rfl rfl h.good none_eq none_eq (fun _ => rfl) hfits
  | wait hpos =>
      exact h.of hlinked (.same rfl rfl rfl) h.good
        (fun b _ => .mono (fun _ => .inl) none_eq (by rw [hpc]; exact none_eq)) (fun hd => by cases hd)
        trivial
  | _ =>
      exact h.goes hpc hlinked rfl rfl rfl rfl rfl h.good none_eq none_eq (fun hd => by cases hd) trivial

/-- **The program** hits children only. -/
theorem Aimed.go (h : Aimed K m) (hnone : m.handler = none) (hallows : m.pc.Allows m ret)
    (hgoes : Goes ret m m.pc p m₁) (hcalm : Undisturbed m (.go ret))
    (hwaits : ∀ a pid k, m.pc = .waitpid a pid (.dtor k) → K a → ret ≠ pid)
    (hm' : m' = { m₁ with pc := p }) : Aimed K m' := by
  have hlinked := h.linked.go hgoes hcalm hm'
  cases hgoes with
  | constructs hgoes => exact h.constructs rfl hnone hallows hgoes hlinked hm'
  | destroys hgoes => exact h.destroys rfl hnone hgoes hwaits hlinked hm'
  | unlinks hgoes => exact h.unlinking rfl hgoes hlinked hm'
  | exits hgoes => exact h.exits rfl hnone hgoes hlinked hm'

end Go

/-! ### Signals -/

/-- What holds at a point still does when the list is shorter, and the children that matter there are
still children. -/
theorem Point.Fits.left {pc : Point} (h : pc.Fits K m) (hleft : Left m m') (hpc : m.pc = pc)
    (hpc' : m'.pc = pc) (hclear : ∀ a o, pc ≠ .clear a o)
    (hlinking : ∀ a, pc.linking = some a → m'.pid a = m.pid a ∧
      ∀ p, m.pid a = some p → p ∈ m.children → p ∈ m'.children)
    (haims : ∀ p, pc.aims = some p → p ∈ m.children → p ∈ m'.children) : pc.Fits K m' := by
  have hlinks : ∀ a, pc.linking = some a →
      (∀ p, m.pid a = some p →
        p ∈ m.children ∧ ∀ b ∈ m.records, m.pid b = some p → Stale K m b) →
      ∀ p, m'.pid a = some p →
        p ∈ m'.children ∧ ∀ b ∈ m'.records, m'.pid b = some p → Stale K m' b := by
    intro a ha h p hp
    rw [(hlinking a ha).1] at hp
    refine ⟨(hlinking a ha).2 p hp (h p hp).1, fun b hb hbp => ?_⟩
    rw [hleft.pid hb] at hbp
    have := (h p hp).2 b (hleft.records b hb) hbp
    rwa [Stale, hpc', ← hpc]
  cases pc with
  | next a o => exact hlinks a rfl h
  | link a o => exact hlinks a rfl h
  | clear a o => exact absurd rfl (hclear a o)
  | kill_process a => exact h
  | dtor a k => exact Return.Fits.left h hleft
  | unlink a k => exact Return.Fits.left h hleft
  | unlinkHead a k => exact Return.Fits.left h hleft
  | setList a k q => exact Return.Fits.left h hleft
  | searchList a k => exact Return.Fits.left h hleft
  | search a k q => exact Return.Fits.left h hleft
  | advance a k q => exact Return.Fits.left h hleft
  | found a k q => exact Return.Fits.left h hleft
  | setNext a k b q => exact Return.Fits.left h hleft
  | kill a pid c => exact ⟨haims pid rfl h.1, h.2.left hleft⟩
  | reap_child a c => exact Caller.Fits.left h hleft
  | waitpid a pid c =>
      exact ⟨h.1.left hleft, fun ha => (hleft.pid ha).trans (h.2 (hleft.records a ha))⟩
  | suicide p => exact fun b hb => h b (hleft.records b hb)
  | suicideKill p pid q => exact ⟨haims pid rfl h.1, fun b hb => h.2 b (hleft.records b hb)⟩
  | killForks cur => exact fun b hb hK => hleft.mild hb (h b (hleft.records b hb) hK)
  | killNext cur => exact fun b hb hK => hleft.mild hb (h b (hleft.records b hb) hK)
  | _ => trivial

/-- A record about to be linked is not on the list. -/
theorem Linked.linking_off (h : Linked m) (ha : m.pc.linking = some a) : a ∉ m.records := by
  have hstands := h.stands
  cases hpc : m.pc with
  | next b o =>
      rw [hpc] at ha hstands
      obtain rfl := Option.some.inj ha
      obtain ⟨r, hb, -⟩ := hstands
      exact hb.off
  | link b o =>
      rw [hpc] at ha hstands
      obtain rfl := Option.some.inj ha
      obtain ⟨r, hb, -⟩ := hstands
      exact hb.off
  | _ => rw [hpc] at ha; cases ha

/-- `reaper_nohang` finds the newest record with the pid. -/
theorem le_victim {wpid : Int} (hm : Tidy m) (hv : m.victim wpid = some v) (hb : b ∈ m.records)
    (hpid : m.pid b = some wpid) : b ≤ v := by
  obtain ⟨-, pre, post, hl, hpre⟩ := List.find?_eq_some_iff_append.mp hv
  have hsorted := hm.sorted
  rw [hl] at hb hsorted
  rcases List.mem_append.mp hb with hb | hb
  · exact absurd hpid (by simpa using hpre b hb)
  · rcases List.mem_cons.mp hb with rfl | hb
    · exact Nat.le_refl _
    · exact Nat.le_of_lt ((List.pairwise_cons.mp (List.pairwise_append.mp hsorted).2.1).1 b hb)

/-- While the child of a `fork` clears the list, it has no children and nothing comes. -/
theorem Aimed.at_clear {o : Owner} (h : Aimed K m) (hpc : m.pc = .clear a o) :
    m.children = [] ∧ m.pending = false ∧ m.handler = none := by
  have hfits := h.fits
  rwa [hpc] at hfits

/-- **The handler** leaves the pids of children. -/
theorem Aimed.handle (h : Aimed K m) {hd : Handler} {h' : Option Handler}
    (hhd : m.handler = some hd) (hallows : hd.Allows m ret) (hreaps : Reaps ret m hd h' m₁)
    (hcalm : Undisturbed m (.handle ret))
    (hspares : hd = .waitpid → (∀ a, m.pc.linking = some a → m.pid a ≠ some ret) ∧
      m.pc.aims ≠ some ret)
    (hm' : m' = { m₁ with handler := h', blocked := h'.isSome }) : Aimed K m' := by
  have hlinked := h.linked.handle hhd hreaps hcalm hm'
  have hclear : ∀ a o, m.pc ≠ .clear a o := fun a o hpc => by
    have hnone := (h.at_clear hpc).2.2
    rw [hhd] at hnone
    cases hnone
  subst hm'
  cases hreaps with
  | waited hpos =>
      -- the pid waited for is remembered by the handler, and nobody else needs it
      obtain ⟨hlink, haim⟩ := hspares rfl
      refine h.of hlinked (.same rfl rfl rfl) h.good (fun b _ => .mono (fun _ => .inl)
        (fun _ h => h) (fun _ h => h)) (fun hd' => ⟨hd', fun b _ p _ _ hp => ?_⟩)
        (h.fits.left (.same rfl rfl rfl) rfl rfl hclear (fun a ha => ⟨rfl, ?_⟩) ?_)
      · rcases eq_or_ne p ret with rfl | hne
        · exact .inr rfl
        · refine .inl (mem_children_of_ne (hp.resolve_right ?_) hne)
          rw [hhd]
          nofun
      · intro p hp hmem
        refine mem_children_of_ne hmem ?_
        rintro rfl
        exact hlink a ha hp
      · intro p hp hmem
        refine mem_children_of_ne hmem ?_
        rintro rfl
        exact haim hp
  | no_zombie hret =>
      refine h.of hlinked (.same rfl rfl rfl) h.good (fun b _ => .mono (fun _ => .inl)
        (fun _ h => h) (fun _ h => h)) (fun hd' => ⟨hd', fun b _ p _ _ hp => .inl (hp.resolve_right ?_)⟩)
        (h.fits.left (.same rfl rfl rfl) rfl rfl hclear
          (fun a ha => ⟨rfl, fun _ _ h => h⟩) fun _ _ h => h)
      rw [hhd]
      nofun
  | @remove wpid v m₁ hv hoff =>
      obtain ⟨hvmem, hvpid⟩ := victim_eq_some hv
      have hleft : Left m { m₁ with
          handler := none
          blocked := (none : Option Handler).isSome } := hoff.left h.linked.tidy rfl rfl rfl
      have hoffrec : ∀ b ∈ m₁.records, b ≠ v := fun b hb => ((hoff.mem_records h.linked.tidy).mp hb).1
      have hother := hoff.other
      obtain ⟨_, _, _, rfl⟩ := hoff.rest
      refine h.of hlinked hleft h.good (fun b _ => .mono (fun _ => .inl)
        (fun _ h => h) (fun _ h => h)) (fun hd' => ⟨hd', fun b hb p hp hs hmem => .inl ?_⟩)
        (h.fits.left hleft rfl rfl hclear (fun a ha => ⟨?_, fun _ _ h => h⟩)
          fun _ _ h => h)
      · -- a record with the pid that is not stale is the newest, and gone
        refine hmem.resolve_right fun hp' => ?_
        rw [hhd] at hp'
        cases hp'
        have hbm := hleft.records b hb
        have hle := le_victim h.linked.tidy hv hbm hp
        obtain ⟨-, hlt⟩ := h.unique b hbm v hvmem (hoffrec b hb) wpid hp hvpid hs
        omega
      · rw [Process.pid, Process.pid]
        exact congrArg _ (hother a (h.linked.linking_off ha))
  | @stranger wpid hunknown =>
      refine h.of hlinked (.same rfl rfl rfl) h.good (fun b _ => .mono (fun _ => .inl)
        (fun _ h => h) (fun _ h => h)) (fun hd' => ⟨hd', fun b hb p hp _ hmem => .inl ?_⟩)
        (h.fits.left (.same rfl rfl rfl) rfl rfl hclear
          (fun a ha => ⟨rfl, fun _ _ h => h⟩) fun _ _ h => h)
      -- no record on the list has the pid that the handler has waited for
      refine hmem.resolve_right fun hp' => ?_
      rw [hhd] at hp'
      cases hp'
      have hbm : b ∈ m.records := hb
      simpa [hp] using List.find?_eq_none.mp hunknown b hbm

/-- SIGCHLD is blocked while the handler runs. -/
def Process.Masked (m : Process) : Prop := m.handler ≠ none → m.blocked = true

theorem Goes.handler {p q : Point} (h : Goes ret m p q m') : m'.handler = m.handler := by
  cases h with
  | constructs h => cases h <;> rfl
  | destroys h => cases h <;> rfl
  | unlinks h => cases h <;> rfl
  | exits h => cases h <;> rfl

theorem Process.Masked.exec (h : m.Masked) (hm : Listed m) {e : Event} (hen : e.Enabled m)
    (hret : e.exec m = .ret () m') : m'.Masked := by
  cases e with
  | is_child a =>
      obtain rfl := exec_looks (.inl rfl) hret
      exact h
  | is_parent a =>
      obtain rfl := exec_looks (.inr (.inl rfl)) hret
      exact h
  | process_id a =>
      obtain rfl := exec_looks (.inr (.inr rfl)) hret
      exact h
  | sigterm =>
      cases hret
      exact nofun
  | sigchld =>
      cases hret
      exact fun _ => rfl
  | go ret =>
      obtain ⟨p, m₁, hgoes, rfl⟩ := exec_go hm hen.2 hret
      exact fun hne => absurd (hgoes.handler.trans hen.1) hne
  | handle ret =>
      obtain ⟨hd, hhd, -⟩ := hen
      obtain ⟨h', m₁, -, hexec⟩ := exec_handle hm hhd ret
      rw [hexec] at hret
      cases hret
      cases h' with
      | none => exact nofun
      | some hd' => exact fun _ => rfl
  | _ =>
      cases hret
      exact h

/-! ### Events -/

/-- `kill_process` has been called on the record at `a`. -/
def Called (es : List Event) (a : Nat) : Prop := Event.kill_process a ∈ es

/-- No stale record is deleted by `kill`, and no pid is reaped that is about to be linked or killed. -/
def Event.Aims (es : List Event) (m : Process) : Event → Prop
  | .delete a       => a ∈ m.records → Stale (Called es) m a → m.Mild a
  | .kill_process a => a ∈ m.records → ¬ Stale (Called es) m a
  | .commit_suicide => ∀ a ∈ m.records, ¬ Stale (Called es) m a
  | .exit           => ∀ a ∈ m.records, Stale (Called es) m a → m.Mild a
  | .sigterm        => (∀ a ∈ m.records, ¬ Stale (Called es) m a) ∧
      (m.pc.detached = true → m.records = []) ∧
      ∀ wpid, m.handler = some (.remove wpid) → m.victim wpid = none
  | .go ret         => ∀ a pid k, m.pc = .waitpid a pid (.dtor k) → Stale (Called es) m a → ret ≠ pid
  | .handle ret     => m.handler = some .waitpid →
      (∀ a, m.pc.linking = some a → m.pid a ≠ some ret) ∧ m.pc.aims ≠ some ret
  | _               => True

/-- The step uses no deleted record, nor a stale one to kill. -/
structure Careful (es : List Event) (m : Process) (e : Event) : Prop extends Orderly m e where
  aims : e.Aims es m

/-- A new record is nobody's. -/
theorem Aimed.new (h : Aimed K m) {o : Owner} {kill give_reason : Bool} (hidle : m.Idle)
    (hret : Fork.new o kill give_reason m = .ret () m') : Aimed K m' := by
  have hlinked := h.linked.new hret
  have hleft := (h.linked.tidy.new hret).left h.linked.tidy
  cases hret
  exact h.moves hlinked hleft rfl rfl h.good
    (fun b _ => .mono (fun _ => .inl) nofun (by rw [hidle.1]; nofun)) (fun _ => by rw [hidle.1]; rfl)
    trivial

/-- A SIGTERM finds all children, and a record at which a `kill_process` was interrupted is as good
as new. -/
theorem Aimed.sigterm (h : Aimed K m) (hclean : ∀ a ∈ m.records, ¬ Stale K m a)
    (hdetached : m.pc.detached = true → m.records = [])
    (hhandler : ∀ wpid, m.handler = some (.remove wpid) → m.victim wpid = none)
    (hlinked : Linked m') (hm' : m' = { m with pc := .suicide m.list, handler := none }) :
    Aimed (fun a => K a ∧ m.pc.killing ≠ some a) m' := by
  have hchild : ∀ a ∈ m.records, ∀ p, m.pid a = some p → p ∈ m.children := by
    intro a ha p hp
    have hd : m.pc.detached = false := by
      rw [← Bool.not_eq_true]
      intro hd
      rw [hdetached hd] at ha
      cases ha
    refine (h.child hd a ha p hp (hclean a ha)).resolve_right fun hp' => ?_
    simpa [hp] using List.find?_eq_none.mp (hhandler p hp') a ha
  subst hm'
  -- no record is stale, so two records never share a pid
  refine ⟨hlinked, h.good, fun _ a ha p hp _ => .inl (hchild a ha p hp), ?_,
    fun a ha hK => hclean a ha (.inl hK)⟩
  intro a ha b hb hne p hpa hpb _
  exact absurd (h.unique a ha b hb hne p hpa hpb (hclean a ha)).1 (hclean b hb)

/-- A child dies, which stays a child until it is reaped. -/
theorem Aimed.dies {pid : Int} (h : Aimed K m) (hrunning : pid ∈ m.running) (hlinked : Linked m')
    (hm' : m' = { m with
      running := m.running.erase pid
      zombies := m.zombies ++ [pid]
      pending := m.pending || m.sigchld }) : Aimed K m' := by
  subst hm'
  have kept : ∀ p, p ∈ m.children → p ∈ m.running.erase pid ++ (m.zombies ++ [pid]) := by
    intro p hp
    rw [List.mem_append, List.mem_append, List.mem_singleton]
    rcases List.mem_append.mp hp with hp | hp
    · rcases eq_or_ne p pid with rfl | hne
      · exact .inr (.inr rfl)
      · exact .inl ((List.mem_erase_of_ne hne).mpr hp)
    · exact .inr (.inl hp)
  have hclear : ∀ a o, m.pc ≠ .clear a o := fun a o hpc => by
    have hmem : pid ∈ m.children := List.mem_append_left _ hrunning
    rw [(h.at_clear hpc).1] at hmem
    cases hmem
  exact h.of hlinked (.same rfl rfl rfl) h.good
    (fun b _ => .mono (fun _ => .inl) (fun _ h => h) (fun _ h => h))
    (fun hd => ⟨hd, fun b _ p _ _ hp => hp.imp_left (kept p)⟩)
    (h.fits.left (.same rfl rfl rfl) rfl rfl hclear (fun a _ => ⟨rfl, fun p _ => kept p⟩)
      fun p _ => kept p)

/-- SIGCHLD comes. -/
theorem Aimed.sigchld (h : Aimed K m) (hpending : m.pending = true) (hnone : m.handler = none)
    (hlinked : Linked m')
    (hm' : m' = { m with pending := false, blocked := true, handler := some .waitpid }) :
    Aimed K m' := by
  subst hm'
  have hclear : ∀ a o, m.pc ≠ .clear a o := fun a o hpc => by
    have hnot := (h.at_clear hpc).2.1
    rw [hpending] at hnot
    cases hnot
  exact h.of hlinked (.same rfl rfl rfl) h.good
    (fun b _ => .mono (fun _ => .inl) (fun _ h => h) (fun _ h => h))
    (fun hd => ⟨hd, fun b _ p _ _ hp => .inl (hp.resolve_right (by rw [hnone]; nofun))⟩)
    (h.fits.left (.same rfl rfl rfl) rfl rfl hclear (fun a _ => ⟨rfl, fun _ _ h => h⟩)
      fun _ _ h => h)

/-- `kill_process` is called. -/
theorem Aimed.kill_process (h : Aimed K m) (hidle : m.Idle) (hnot : a ∈ m.records → ¬ K a)
    (hlinked : Linked m') (hm' : m' = { m with pc := .kill_process a }) :
    Aimed (fun b => K b ∨ b = a) m' := by
  have hstale : ∀ {b}, Stale K m b ↔ K b := fun {b} =>
    stale_iff (by rw [hidle.1]; rfl) (by rw [hidle.1]; rfl)
  subst hm'
  refine h.moves hlinked (.same rfl rfl rfl) rfl rfl h.good (fun b hb hs => ?_)
    (fun _ => by rw [hidle.1]; rfl) ?_
  · refine .inl ⟨.inl (hstale.mp hs), fun heq => ?_⟩
    obtain rfl := Option.some.inj heq
    exact hnot hb (hstale.mp hs)
  · exact (Or.inr rfl : K a ∨ a = a)

/-- **One event.** -/
theorem Aimed.step (h : Aimed K m) (hmasked : m.Masked) {es : List Event}
    (hK : ∀ a, K a → Called es a) {e : Event} (hen : e.Enabled m) (hcare : Careful es m e)
    (hret : e.exec m = .ret () m') : ∃ K', (∀ a, K' a → Called (es ++ [e]) a) ∧ Aimed K' m' := by
  have hlinked := h.linked.exec hen hcare.calm hret
  have haims := hcare.aims
  have hK' : ∀ a, K a → Called (es ++ [e]) a := fun a ha => List.mem_append_left _ (hK a ha)
  have hcalled : ∀ {a}, Stale K m a → Stale (Called es) m a :=
    .mono (fun b hb => .inl (hK b hb)) (fun _ h => h) fun _ h => h
  have hstale : m.Idle → ∀ {a}, K a → Stale (Called es) m a := fun hidle a ha =>
    hcalled ((stale_iff (by rw [hidle.1]; rfl) (by rw [hidle.1]; rfl)).mpr ha)
  cases e with
  | newFork kill reason => exact ⟨K, hK', h.new hen hret⟩
  | newProcess kill give_reason => exact ⟨K, hK', h.new hen hret⟩
  | dropFork a =>
      cases hret
      exact ⟨K, hK', h.goes hen.1.1 hlinked rfl rfl rfl rfl rfl h.good nofun nofun (fun _ => rfl) trivial⟩
  | is_child a =>
      obtain rfl := exec_looks (.inl rfl) hret
      exact ⟨K, hK', h⟩
  | is_parent a =>
      obtain rfl := exec_looks (.inr (.inl rfl)) hret
      exact ⟨K, hK', h⟩
  | process_id a =>
      obtain rfl := exec_looks (.inr (.inr rfl)) hret
      exact ⟨K, hK', h⟩
  | delete a =>
      cases hret
      exact ⟨K, hK', h.goes hen.1.1 hlinked rfl rfl rfl rfl rfl h.good nofun nofun (fun _ => rfl)
        fun ha hKa => haims ha (hstale hen.1 hKa)⟩
  | kill_process a =>
      cases hret
      refine ⟨_, ?_, h.kill_process hen.1 (fun ha hKa => haims ha (hstale hen.1 hKa)) hlinked rfl⟩
      rintro b (hb | rfl)
      · exact hK' b hb
      · exact List.mem_append_right _ (List.mem_singleton_self _)
  | suicide_signal =>
      cases hret
      exact ⟨K, hK', h.goes rfl hlinked rfl rfl rfl rfl rfl h.good (fun _ h => h) (fun _ h => h)
        (fun h => h) (by rw [show _ = Point.idle from hen.1]; trivial)⟩
  | commit_suicide =>
      cases hret
      exact ⟨K, hK', h.goes hen.1 hlinked rfl rfl rfl rfl rfl h.good nofun nofun (fun _ => rfl)
        fun a ha hKa => haims a ha (hstale hen hKa)⟩
  | exit =>
      cases hret
      exact ⟨K, hK', h.goes hen.1 hlinked rfl rfl rfl rfl rfl h.good nofun nofun (fun _ => rfl)
        fun a ha hKa => haims a ha (hstale hen hKa)⟩
  | sigterm =>
      obtain ⟨hclean, hdetached, hhandler⟩ := haims
      cases hret
      exact ⟨_, fun a ha => hK' a ha.1, h.sigterm (fun a ha hs => hclean a ha (hcalled hs)) hdetached
        hhandler hlinked rfl⟩
  | dies pid =>
      cases hret
      exact ⟨K, hK', h.dies hen hlinked rfl⟩
  | sigchld =>
      have hnone : m.handler = none := by
        by_contra hne
        simpa [hen.2.1] using hmasked hne
      cases hret
      exact ⟨K, hK', h.sigchld hen.1 hnone hlinked rfl⟩
  | go ret =>
      obtain ⟨p, m₁, hgoes, rfl⟩ := exec_go h.linked.tidy.listed hen.2 hret
      refine ⟨K, hK', h.go hen.1 hen.2 hgoes hcare.calm (fun a pid k hpc hKa => ?_) rfl⟩
      exact haims a pid k hpc (.inl ⟨hK a hKa, by rw [hpc]; nofun⟩)
  | handle ret =>
      obtain ⟨hd, hhd, hallows⟩ := hen
      obtain ⟨h', m₁, hreaps, hexec⟩ := exec_handle h.linked.tidy.listed hhd ret
      rw [hexec] at hret
      cases hret
      exact ⟨K, hK', h.handle hhd hallows hreaps hcare.calm (fun hw => haims (hw ▸ hhd)) rfl⟩

/-- **The library kills its own children only**, in every run in which no record is used that has been
deleted, none is killed that is stale, and no child is reaped whose record is about to be linked or whose
pid is about to be killed.  Such a run does not fail: there is no step that it has to stop at. -/
theorem kills_children {m₀ : Process} (hm₀ : m₀.Fresh) {es : List Event} (hrun : Run Careful m₀ es m) :
    (∀ k ∈ m.kills, k.child = true) ∧
      ∀ e : Event, e.Enabled m → Careful es m e → ∃ m', e.exec m = .ret () m' := by
  have hsafe : m₀.Safe := by
    rw [Process.Safe, hm₀.idle.1]
    exact List.forall_mem_nil _
  obtain ⟨-, -, hexec⟩ := Run.orderly hm₀.linked hsafe (hrun.mono fun _ _ _ h => h.toOrderly)
  have haimed : m.Masked ∧ ∃ K, (∀ a, K a → Called es a) ∧ Aimed K m := by
    clear hexec
    induction hrun with
    | start =>
        refine ⟨?_, _, nofun, hm₀.aimed⟩
        intro hne
        exact absurd hm₀.idle.2 hne
    | step _ hen hcare hret ih =>
        obtain ⟨hmasked, K, hK, haimed⟩ := ih
        exact ⟨hmasked.exec haimed.linked.tidy.listed hen hret, haimed.step hmasked hK hen hcare hret⟩
  obtain ⟨-, K, -, haimed⟩ := haimed
  exact ⟨haimed.good, fun e hen hcare => hexec e hen hcare.toOrderly⟩

theorem forall_waitpid {P : Nat → Int → Prop} (p : Point) :
    (∀ a ∈ (match p with
      | .waitpid a pid (.dtor _) => some (a, pid)
      | _ => none : Option (Nat × Int)), P a.1 a.2) ↔ ∀ a pid k, p = .waitpid a pid (.dtor k) → P a pid := by
  cases p with
  | waitpid a pid c => cases c <;> simp
  | _ => simp

instance {P : Nat → Int → Prop} [∀ a pid, Decidable (P a pid)] (p : Point) :
    Decidable (∀ a pid k, p = .waitpid a pid (.dtor k) → P a pid) := decidable_of_iff _ (forall_waitpid p)

theorem forall_unknown (o : Option Handler) (f : Int → Option Nat) :
    (∀ wpid ∈ Handler.hand o, f wpid = none) ↔ ∀ wpid, o = some (.remove wpid) → f wpid = none := by
  rcases o with _ | _ | wpid <;> simp [Handler.hand]

instance (o : Option Handler) (f : Int → Option Nat) :
    Decidable (∀ wpid, o = some (.remove wpid) → f wpid = none) :=
  decidable_of_iff _ (forall_unknown o f)

instance (es : List Event) (a : Nat) : Decidable (Called es a) :=
  inferInstanceAs (Decidable (Event.kill_process a ∈ es))

instance [DecidablePred K] (m : Process) (a : Nat) : Decidable (Stale K m a) :=
  inferInstanceAs (Decidable (_ ∨ _))

instance (es : List Event) (m : Process) : (e : Event) → Decidable (e.Aims es m)
  | .handle ret => inferInstanceAs (Decidable (m.handler = some .waitpid →
      (∀ a ∈ m.pc.linking, m.pid a ≠ some ret) ∧ m.pc.aims ≠ some ret))
  | .delete _ | .kill_process _ | .commit_suicide | .exit | .sigterm | .go _ => by
      dsimp only [Event.Aims]; infer_instance
  | .newFork _ _ | .newProcess _ _ | .dropFork _ | .is_child _ | .is_parent _ | .process_id _
  | .suicide_signal | .dies _ | .sigchld => isTrue trivial

instance (es : List Event) (m : Process) (e : Event) : Decidable (Careful es m e) :=
  decidable_of_iff (Orderly m e ∧ e.Aims es m) ⟨fun h => ⟨h.1, h.2⟩, fun h => ⟨h.1, h.2⟩⟩

/-- Three children with the pids 5, 6 and 7, the first of which is to be killed. -/
def constructed : List Event := [.newProcess true false, .go 0, .go 5, .go 0, .go 0, .go 0,
  .newProcess false false, .go 0, .go 6, .go 0, .go 0, .go 0,
  .newProcess false true, .go 0, .go 7, .go 0, .go 0, .go 0]

/-- The second is killed, and its SIGCHLD comes when it has been waited for.  The first record is deleted,
behind the two others, and while the destructor searches for it the third child exits; it is reaped when the
destructor has returned. -/
def killed : List Event := [.kill_process 1, .go 0, .go 0, .go 0, .dies 6, .go 6, .sigchld, .handle 0,
  .delete 0, .go 0, .go 0, .go 0, .dies 5, .go 5, .go 0, .go 0, .go 0, .dies 7, .go 0, .go 0, .go 0, .go 0,
  .sigchld, .handle 7, .handle 0]

theorem kills_children_three :
    ∃ m, Run Careful blank (constructed ++ killed) m ∧ m.records = [1] ∧ m.cerr = [7] ∧
      m.kills.map (fun k => (k.pid, k.signo)) = [(6, .sigkill), (5, .sigterm)] ∧
      ∀ k ∈ m.kills, k.child = true := by
  have hc : check Careful [] (constructed ++ killed) blank = some _ := rfl
  have hrun := Run.of_check .start hc
  exact ⟨_, hrun, rfl, rfl, rfl, (kills_children blank_fresh hrun).1⟩

/-- **A second `kill_process`.**  The first has waited for the child, but left its pid in the record. -/
theorem killed_twice :
    ∃ m, Run (fun _ _ _ => True) blank [.newProcess false false, .go 0, .go 5, .go 0, .go 0, .go 0,
        .kill_process 0, .go 0, .go 0, .dies 5, .go 0, .go 5,
        .kill_process 0, .go 0, .go 0] m ∧
      ∃ k ∈ m.kills, k.child = false := by
  have hf : follow [.newProcess false false, .go 0, .go 5, .go 0, .go 0, .go 0,
    .kill_process 0, .go 0, .go 0, .dies 5, .go 0, .go 5,
    .kill_process 0, .go 0, .go 0] blank = some _ := rfl
  exact ⟨_, Run.of_follow hf fun _ _ _ _ => trivial, ⟨5, .sigkill, false⟩,
    List.mem_cons_of_mem _ List.mem_cons_self, rfl⟩

/-- **A deletion under `commit_suicide`.**  While it kills one child, `reaper_nohang` deletes the record that
it has saved as the next one. -/
theorem suicide_freed :
    ∃ m, Run (fun _ _ _ => True) blank (constructed ++ [.commit_suicide, .go 0, .go 0, .dies 6, .sigchld,
        .handle 6, .handle 0, .go 0, .go 0, .dies 7, .go 7, .go 0, .go 0, .go 0]) m ∧
      m.pc = .suicide (some 1) ∧ (Event.go 0).exec m = .thrown .freed m := by
  have hf : follow (constructed ++ [.commit_suicide, .go 0, .go 0, .dies 6, .sigchld,
    .handle 6, .handle 0, .go 0, .go 0, .dies 7, .go 7, .go 0, .go 0, .go 0]) blank = some _ := rfl
  exact ⟨_, Run.of_follow hf fun _ _ _ _ => trivial, rfl, rfl⟩

/-- **A deletion under the destructor.**  Between `list->next` and the store to `list`, `reaper_nohang` deletes
the record that `list` will point to. -/
theorem list_freed :
    ∃ m, Run (fun _ _ _ => True) blank (constructed ++ [.delete 2, .go 0, .go 0, .dies 7, .go 7, .go 0, .go 0,
        .dies 6, .sigchld, .handle 6, .handle 0, .go 0]) m ∧
      m.Idle ∧ m.list = some 1 ∧ m.heap 1 = none := by
  have hf : follow (constructed ++ [.delete 2, .go 0, .go 0, .dies 7, .go 7, .go 0, .go 0,
    .dies 6, .sigchld, .handle 6, .handle 0, .go 0]) blank = some _ := rfl
  exact ⟨_, Run.of_follow hf fun _ _ _ _ => trivial, ⟨rfl, rfl⟩, rfl, rfl⟩

end Fork

end Socketpp
