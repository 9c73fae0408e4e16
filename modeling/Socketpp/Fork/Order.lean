import Socketpp.Fork.Linked

/-!
# Fork — the list is always in order

In a run in which `reaper_nohang` deletes no record that the program has taken from the list and will
still use, and does not make a destructor pass over its own record (`Undisturbed`), the list is in order
in every state.  No step fails then, as long as the records are there that the program has got from objects
(`Run.orderly`).  A destructor that nothing comes into takes its record off the list (`Tidy.unlink_follow`).
-/

namespace Socketpp
open Lib

namespace Fork

variable {m m' m₁ : Process} {a b v : Nat}

/-! ### The program -/

/-- What `reaper_nohang` deletes is not used any more by the program, nor is a constructor about to link to
it; and the program does not come to what it has deleted before: a destructor to its own record in the
search for the one in front of it, and `~KillForks` to a record that it deletes under its loop. -/
def Undisturbed (m : Process) : Event → Prop
  | .handle _ => ∀ wpid v, m.handler = some (.remove wpid) → m.victim wpid = some v →
      v ∉ m.pc.walks ∧ ∀ a o, m.pc = .link a o → m.link a ≠ some (some v)
  | .go _     => (∀ a k, m.pc = .searchList a k → m.list ≠ some a) ∧
      (∀ a k p, m.pc = .advance a k p → m.link p ≠ some (some a)) ∧
      ∀ c, m.pc = .killForks (some c) → m.Mild c
  | _         => True

section Go

variable {ret : Int} {pc p : Point}

/-- A constructor. -/
theorem Linked.constructs (h : Linked m) (hpc : m.pc = pc) (hgoes : Constructs ret m pc p m₁)
    (hm' : m' = { m₁ with pc := p }) : Linked m' := by
  have hstands := h.stands
  rw [hpc] at hstands
  subst hm'
  cases hgoes with
  | install a o =>
      have hfork : (Point.fork a o).Stands m := hstands
      exact h.goes rfl rfl rfl (fun _ h => h) (fun _ h => h) nofun nofun
        (hfork.congr (m := m) rfl rfl rfl rfl rfl)
  | fork_parent o hr hpos =>
      obtain ⟨r, hb, -⟩ := hstands
      obtain rfl := Option.some.inj (hb.here.symm.trans hr)
      exact h.builds hb rfl rfl rfl rfl rfl rfl rfl fun hb' => ⟨_, hb', hpos⟩
  | fork_child o hr hret =>
      obtain ⟨r, hb, -⟩ := hstands
      obtain rfl := Option.some.inj (hb.here.symm.trans hr)
      exact h.builds hb rfl rfl rfl rfl rfl rfl rfl fun hb' => ⟨_, hb', rfl⟩
  | @fork_failed a r o hr hneg =>
      obtain ⟨r, hb, -⟩ := hstands
      obtain rfl := Option.some.inj (hb.here.symm.trans hr)
      refine h.builds hb rfl rfl rfl rfl rfl rfl rfl fun hb' => ⟨⟨?_, ?_⟩, hb'.forks, hb'.objects⟩
      · exact h.tidy.listed.below a r hr
      · intro r' hr' hpos
        obtain rfl := Option.some.inj (hb'.here.symm.trans hr')
        exact absurd hpos (by simpa using Int.le_of_lt hneg)
  | next o hr =>
      obtain ⟨r, hb, hpos⟩ := hstands
      obtain rfl := Option.some.inj (hb.here.symm.trans hr)
      exact h.builds hb rfl rfl rfl rfl rfl rfl rfl fun hb' => ⟨_, hb', hpos, rfl⟩
  | link a o =>
      obtain ⟨r, hb, hpos, hnext⟩ := hstands
      refine (h.pushes (o := o) hb hpos hnext ?_ ?_ ?_ ?_ ?_ ?_).1 <;> rfl
  | clear o hr hoff =>
      obtain ⟨r, hb, hdead⟩ := hstands
      refine (h.clears (o := o) hb hdead ?_ ?_ ?_ ?_ ?_ ?_).1 <;> rfl
  | made_fork a =>
      refine h.same rfl rfl rfl ?_ nofun trivial
      rintro b (hb | hb | hb)
      · rcases List.mem_cons.mp hb with rfl | hb
        · exact hstands.1
        · exact h.known b (.inl hb)
      · exact h.known b (.inr (.inl hb))
      · cases hb
  | made_user a =>
      refine h.same rfl rfl rfl ?_ nofun trivial
      rintro b (hb | hb | hb)
      · exact h.known b (.inl hb)
      · rcases List.mem_cons.mp hb with rfl | hb
        · exact hstands.1
        · exact h.known b (.inr (.inl hb))
      · cases hb

/-- A destructor, or `kill_process`: what it walks next has been used or walked before. -/
theorem Linked.destroys (h : Linked m) (hpc : m.pc = pc) (hgoes : Destroys ret m pc p m₁)
    (hm' : m' = { m₁ with pc := p }) : Linked m' := by
  have hstands := h.stands
  have hwalked := h.walked
  have hused : ∀ a ∈ m.pc.uses, m.Knows a := fun a ha => h.known a (.inr (.inr ha))
  rw [hpc] at hstands hwalked hused
  subst hm'
  cases hgoes with
  | dropFork_dead hr hdead =>
      exact h.goes rfl rfl rfl (fun _ => List.mem_of_mem_erase) (fun _ h => h) hused nofun nofun
  | dropFork hr hpos =>
      exact h.goes rfl rfl rfl (fun _ => List.mem_of_mem_erase) (fun _ h => h) nofun nofun trivial
  | @dtor_kill a r k hr hpos hkill =>
      refine h.goes rfl rfl rfl (fun _ h => h) (fun _ h => h) nofun ?_ hstands
      refine List.forall_mem_cons.mpr ⟨?_, hwalked⟩
      exact (hused a (List.mem_singleton_self a)).2 r hr hpos
  | @dtor_reap a r k hr hpos hkill =>
      refine h.goes rfl rfl rfl (fun _ h => h) (fun _ h => h) nofun ?_ hstands
      refine List.forall_mem_cons.mpr ⟨?_, hwalked⟩
      exact (hused a (List.mem_singleton_self a)).2 r hr hpos
  | @dtor_dead a r k hr hdead =>
      refine h.frees hr (fun ha => ?_) rfl rfl rfl rfl rfl k.uses_point ?_ k.stands_point
      · exact absurd (h.tidy.positive a ha r hr) (by omega)
      · rw [Return.walks_point]
        exact hwalked
  | @kill_process a r hr hpos =>
      refine h.goes rfl rfl rfl (fun _ h => h) (fun _ h => h) nofun ?_ nofun
      refine List.forall_mem_cons.mpr ⟨?_, nofun⟩
      exact (hused a (List.mem_singleton_self a)).2 r hr hpos
  | kill_process_dead hr hdead =>
      exact h.goes rfl rfl rfl (fun _ h => h) (fun _ h => h) nofun nofun trivial
  | kill a pid c => exact h.goes rfl rfl rfl (fun _ h => h) (fun _ h => h) nofun hwalked hstands
  | reap c hr hpos => exact h.goes rfl rfl rfl (fun _ h => h) (fun _ h => h) nofun hwalked hstands
  | reap_dead c hr hdead =>
      exact h.goes rfl rfl rfl (fun _ h => h) (fun _ h => h) (by rw [Caller.uses_point]; nofun)
        (fun b hb => hwalked b (c.walks_point hb)) (c.stands_point hstands)
  | waited pid c out hr hret =>
      exact h.goes rfl rfl rfl (fun _ h => h) (fun _ h => h) (by rw [Caller.uses_point]; nofun)
        (fun b hb => hwalked b (c.walks_point hb)) (c.stands_point hstands)
  | not_waited a pid c hret =>
      exact h.goes rfl rfl rfl (fun _ h => h) (fun _ h => h) (by rw [Caller.uses_point]; nofun)
        (fun b hb => hwalked b (c.walks_point hb)) (c.stands_point hstands)

/-- The record at the head of the list leaves it. -/
theorem Linked.setList (h : Linked m) {k : Return} {q : Option Nat} (hpc : m.pc = .setList a k q) :
    Unlinked m a { m with
      heap := Function.update m.heap a none
      list := q } := by
  have hstands := h.stands
  rw [hpc] at hstands
  obtain ⟨-, hlist, hlink⟩ := hstands
  obtain ⟨r, hr, rfl⟩ := link_eq_some.mp hlink
  exact .first h.tidy.listed hlist hr m.cerr

/-- A record behind another leaves the list. -/
theorem Linked.setNext (h : Linked m) {k : Return} {q : Option Nat} {r : ForkProcess}
    (hpc : m.pc = .setNext a k b q) (hr : m.heap b = some r) :
    Unlinked m a { m with
      heap := Function.update (Function.update m.heap b (some { r with next := q })) a none } := by
  have hstands := h.stands
  have hwalked := h.walked
  rw [hpc] at hstands hwalked
  obtain ⟨-, hfront, hlink⟩ := hstands
  obtain ⟨ra, hra, rfl⟩ := link_eq_some.mp hlink
  obtain ⟨pre, post, hl⟩ := List.append_of_mem (hwalked b (List.mem_cons_of_mem _ List.mem_cons_self))
  have hchain := h.tidy.listed.chain
  rw [hl] at hchain
  rw [hchain.link_next, Option.some.injEq] at hfront
  cases post with
  | nil => cases hfront
  | cons c post =>
      obtain rfl : c = a := Option.some.inj hfront
      exact .behind h.tidy.listed hl hra hr m.cerr

/-- A destructor takes its record off the list: it knows where it is, and what it has read is still so. -/
theorem Linked.unlinking (h : Linked m) (hpc : m.pc = pc) (hgoes : Unlinks m pc p m₁)
    (hcalm : Undisturbed m (.go ret)) (hm' : m' = { m₁ with pc := p }) : Linked m' := by
  obtain ⟨hsearch, hadvance, -⟩ := hcalm
  have hstands := h.stands
  have hwalked := h.walked
  rw [hpc] at hstands hwalked hsearch hadvance
  -- the loop that a deletion returns to has not walked the record
  have hback : ∀ {a} {k : Return}, a ∉ k.walks → (∀ b ∈ k.walks, b ∈ m.records) →
      ∀ b ∈ k.point.walks, b ≠ a ∧ b ∈ m.records := by
    intro a k hk hmem b hb
    rw [Return.walks_point] at hb
    exact ⟨fun hba => hk (hba ▸ hb), hmem b hb⟩
  subst hm'
  cases hgoes with
  | head k this =>
      exact h.goes rfl rfl rfl (fun _ h => h) (fun _ h => h) nofun hwalked ⟨hstands, this⟩
  | other k other => exact h.goes rfl rfl rfl (fun _ h => h) (fun _ h => h) nofun hwalked hstands
  | @unlinkHead p r a k hlist hr =>
      obtain ⟨hk, hthis⟩ := hstands
      obtain rfl : p = a := Option.some.inj (hlist.symm.trans hthis)
      obtain ⟨hp, hwalked⟩ := List.forall_mem_cons.mp hwalked
      refine h.goes rfl rfl rfl (fun _ h => h) (fun _ h => h) nofun ?_
        ⟨hk, hlist, link_eq_some.mpr ⟨r, hr, rfl⟩⟩
      refine List.forall_mem_cons.mpr ⟨hp, List.forall_mem_append.mpr ⟨fun b hb => ?_, hwalked⟩⟩
      exact h.tidy.next_mem hr hp (Option.mem_toList.mp hb)
  | setList k q hr =>
      obtain ⟨-, hwalked⟩ := List.forall_mem_cons.mp hwalked
      exact h.unlinks (h.setList hpc) rfl rfl rfl (fun _ h => h) (fun _ h => h)
        (by rw [Return.uses_point]; nofun)
        (hback hstands.1 (List.forall_mem_append.mp hwalked).2) k.stands_point
  | searchList a k =>
      obtain ⟨ha, hwalked⟩ := List.forall_mem_cons.mp hwalked
      obtain ⟨p, hlist, hbehind⟩ := h.tidy.behind_list ha (hsearch a k rfl)
      refine h.goes rfl rfl rfl (fun _ h => h) (fun _ h => h) nofun ?_ ⟨hstands, p, hlist, hbehind⟩
      refine List.forall_mem_cons.mpr ⟨ha, List.forall_mem_append.mpr ⟨fun b hb => ?_, hwalked⟩⟩
      exact h.tidy.list_mem (Option.mem_toList.mp hb)
  | search_end k hr =>
      obtain ⟨-, _, hnone, -⟩ := hstands
      cases hnone
  | @search_found a p r k hr hthis =>
      refine h.goes rfl rfl rfl (fun _ h => h) (fun _ h => h) nofun hwalked
        ⟨hstands.1, link_eq_some.mpr ⟨r, hr, hthis⟩⟩
  | search_on k hr hother =>
      obtain ⟨hk, _, hp, hbehind⟩ := hstands
      obtain rfl := Option.some.inj hp
      exact h.goes rfl rfl rfl (fun _ h => h) (fun _ h => h) nofun hwalked ⟨hk, hbehind⟩
  | @advance p r a k hr =>
      obtain ⟨ha, hwalked⟩ := List.forall_mem_cons.mp hwalked
      obtain ⟨hp, hwalked⟩ := List.forall_mem_cons.mp hwalked
      have hnext : r.next ≠ some a := fun hnext =>
        hadvance a k p rfl (link_eq_some.mpr ⟨r, hr, hnext⟩)
      refine h.goes rfl rfl rfl (fun _ h => h) (fun _ h => h) nofun ?_
        ⟨hstands.1, h.tidy.behind_next hr hstands.2 hnext⟩
      refine List.forall_mem_cons.mpr ⟨ha, List.forall_mem_append.mpr ⟨fun b hb => ?_, hwalked⟩⟩
      exact h.tidy.next_mem hr hp (Option.mem_toList.mp hb)
  | @found a r k p hr =>
      obtain ⟨ha, hwalked⟩ := List.forall_mem_cons.mp hwalked
      obtain ⟨hp, hwalked⟩ := List.forall_mem_cons.mp hwalked
      refine h.goes rfl rfl rfl (fun _ h => h) (fun _ h => h) nofun ?_
        ⟨hstands.1, hstands.2, link_eq_some.mpr ⟨r, hr, rfl⟩⟩
      refine List.forall_mem_cons.mpr ⟨ha, List.forall_mem_cons.mpr ⟨hp,
        List.forall_mem_append.mpr ⟨fun b hb => ?_, hwalked⟩⟩⟩
      exact h.tidy.next_mem hr ha (Option.mem_toList.mp hb)
  | setNext k q hr =>
      obtain ⟨-, hwalked⟩ := List.forall_mem_cons.mp hwalked
      obtain ⟨-, hwalked⟩ := List.forall_mem_cons.mp hwalked
      exact h.unlinks (h.setNext hpc hr) rfl rfl rfl (fun _ h => h) (fun _ h => h)
        (by rw [Return.uses_point]; nofun)
        (hback hstands.1 (List.forall_mem_append.mp hwalked).2) k.stands_point

/-- `commit_suicide` and `~KillForks`: what they walk is read off the list. -/
theorem Linked.exits (h : Linked m) (hpc : m.pc = pc) (hgoes : Exits ret m pc p m₁)
    (hcalm : Undisturbed m (.go ret)) (hm' : m' = { m₁ with pc := p }) : Linked m' := by
  obtain ⟨-, -, hmild⟩ := hcalm
  have hstands := h.stands
  have hwalked := h.walked
  rw [hpc] at hstands hwalked hmild
  -- no record leads to itself
  have hne : ∀ {a} {r : ForkProcess}, m.heap a = some r → a ∈ m.records → a ∉ r.next.toList := by
    intro a r hr ha hmem
    exact Nat.lt_irrefl a (h.tidy.next_lt ha (link_eq_some.mpr ⟨r, hr, Option.mem_toList.mp hmem⟩))
  subst hm'
  cases hgoes with
  | suicide_end =>
      refine h.goes rfl rfl rfl (fun _ h => h) (fun _ h => h) nofun (fun b hb => ?_) trivial
      exact h.tidy.list_mem (Option.mem_toList.mp hb)
  | @suicide_dtor p r hr hkill =>
      have hp := hwalked p (List.mem_singleton_self p)
      refine h.goes rfl rfl rfl (fun _ h => h) (fun _ h => h) ?_ (fun b hb => ?_) (hne hr hp)
      · exact List.forall_mem_singleton.mpr (h.tidy.knows hp)
      · exact h.tidy.next_mem hr hp (Option.mem_toList.mp hb)
  | @suicide_kill p r hr hkill =>
      have hp := hwalked p (List.mem_singleton_self p)
      refine h.goes rfl rfl rfl (fun _ h => h) (fun _ h => h) nofun ?_ (hne hr hp)
      refine List.forall_mem_cons.mpr ⟨hp, fun b hb => ?_⟩
      exact h.tidy.next_mem hr hp (Option.mem_toList.mp hb)
  | suicideKill p pid q =>
      obtain ⟨hp, hwalked⟩ := List.forall_mem_cons.mp hwalked
      exact h.goes rfl rfl rfl (fun _ h => h) (fun _ h => h)
        (List.forall_mem_singleton.mpr (h.tidy.knows hp)) hwalked hstands
  | killForks_end => exact h.goes rfl rfl rfl (fun _ h => h) (fun _ h => h) nofun nofun trivial
  | @killForks_dtor c r hr hkill =>
      have hspares := hmild c rfl r hr
      rw [hkill] at hspares
      cases hspares
  | killForks_next hr hkill =>
      exact h.goes rfl rfl rfl (fun _ h => h) (fun _ h => h) nofun hwalked trivial
  | @killNext c r hr =>
      refine h.goes rfl rfl rfl (fun _ h => h) (fun _ h => h) nofun (fun b hb => ?_) trivial
      exact h.tidy.next_mem hr (hwalked c (List.mem_singleton_self c)) (Option.mem_toList.mp hb)
  | waitAll hlist => exact h.goes rfl rfl rfl (fun _ h => h) (fun _ h => h) nofun nofun trivial
  | waitAll_end hnone => exact h.goes rfl rfl rfl (fun _ h => h) (fun _ h => h) nofun nofun trivial
  | wait hpos => exact h.goes rfl rfl rfl (fun _ h => h) (fun _ h => h) nofun nofun trivial
  | wait_end hneg => exact h.goes rfl rfl rfl (fun _ h => h) (fun _ h => h) nofun nofun trivial

/-- **One step of the program.** -/
theorem Linked.go (h : Linked m) (hgoes : Goes ret m m.pc p m₁) (hcalm : Undisturbed m (.go ret))
    (hm' : m' = { m₁ with pc := p }) : Linked m' := by
  cases hgoes with
  | constructs hgoes => exact h.constructs rfl hgoes hm'
  | destroys hgoes => exact h.destroys rfl hgoes hm'
  | unlinks hgoes => exact h.unlinking rfl hgoes hcalm hm'
  | exits hgoes => exact h.exits rfl hgoes hcalm hm'

end Go

/-! ### The handler -/

/-- **One step of the handler.** -/
theorem Linked.handle (h : Linked m) {ret : Int} {hd : Handler} {h' : Option Handler}
    (hhd : m.handler = some hd) (hreaps : Reaps ret m hd h' m₁)
    (hcalm : Undisturbed m (.handle ret))
    (hm' : m' = { m₁ with handler := h', blocked := h'.isSome }) : Linked m' := by
  subst hm'
  have hused : ∀ a ∈ m.pc.uses, m.Knows a := fun a ha => h.known a (.inr (.inr ha))
  cases hreaps with
  | waited hpos =>
      exact h.goes rfl rfl rfl (fun _ h => h) (fun _ h => h) hused h.walked
        (h.stands.congr (m := m) rfl rfl rfl rfl rfl)
  | no_zombie hret =>
      exact h.goes rfl rfl rfl (fun _ h => h) (fun _ h => h) hused h.walked
        (h.stands.congr (m := m) rfl rfl rfl rfl rfl)
  | stranger hnone =>
      exact h.goes rfl rfl rfl (fun _ h => h) (fun _ h => h) hused h.walked
        (h.stands.congr (m := m) rfl rfl rfl rfl rfl)
  | @remove wpid v m₁ hv hoff =>
      obtain ⟨hwalks, hlink⟩ := hcalm wpid v hhd hv
      have hstands : m₁.pc.Stands m₁ := by
        rw [hoff.pc]
        exact h.stands.unlinked h.tidy hoff hlink hwalks
      refine h.unlinks hoff rfl rfl rfl (fun _ hb => hoff.forks ▸ hb) (fun _ hb => hoff.objects ▸ hb)
        (fun b hb => hused b (hoff.pc ▸ hb)) (fun b hb => ?_)
        (hstands.congr (m := m₁) rfl rfl rfl rfl rfl)
      replace hb : b ∈ m.pc.walks := hoff.pc ▸ hb
      exact ⟨fun hbv => hwalks (hbv ▸ hb), h.walked b hb⟩

/-! ### Events -/

/-- A new record is off the list. -/
theorem Tidy.new (h : Tidy m) {o : Owner} {kill give_reason : Bool}
    (hret : Fork.new o kill give_reason m = .ret () m') :
    Stored m m.fresh (some ⟨0, kill, give_reason, none⟩) m' := by
  have hfresh : m.fresh ∉ m.records := fun hmem => Nat.lt_irrefl _ (h.knows hmem).1
  cases hret
  exact ⟨rfl, rfl, Nat.le_succ _, hfresh, Nat.lt_succ_self _⟩

/-- **A new record.** -/
theorem Linked.new (h : Linked m) {o : Owner} {kill give_reason : Bool}
    (hret : Fork.new o kill give_reason m = .ret () m') : Linked m' := by
  have hstored := h.tidy.new hret
  cases hret
  have hnot : ∀ {b}, m.Knows b → b ≠ m.fresh := fun hb => Nat.ne_of_lt hb.1
  have knows : ∀ {b}, m.Knows b → Process.Knows { m with
      heap  := Function.update m.heap m.fresh (some ⟨0, kill, give_reason, none⟩)
      fresh := m.fresh + 1
      pc    := .install m.fresh o } b :=
    fun hb => hstored.knows h.tidy hb fun hbf => absurd hbf (hnot hb)
  refine ⟨hstored.tidy h.tidy, ?_, nofun, ⟨_, ⟨Function.update_self .., ?_, ?_, ?_⟩, Int.le_refl 0⟩⟩
  · rintro b (hmem | hmem | hmem)
    · exact knows (h.known b (.inl hmem))
    · exact knows (h.known b (.inr (.inl hmem)))
    · cases hmem
  · rw [(hstored.records h.tidy).2]
    exact fun b hb => (h.tidy.knows hb).1
  · exact fun hmem => hnot (h.known _ (.inl hmem)) rfl
  · exact fun hmem => hnot (h.known _ (.inr (.inl hmem))) rfl

/-- **One event.** -/
theorem Linked.exec (h : Linked m) {e : Event} (hen : e.Enabled m) (hcalm : Undisturbed m e)
    (hret : e.exec m = .ret () m') : Linked m' := by
  have hlisted : ∀ a ∈ m.list.toList, a ∈ m.records := fun a ha =>
    h.tidy.list_mem (Option.mem_toList.mp ha)
  have hused : ∀ a ∈ m.pc.uses, m.Knows a := fun a ha => h.known a (.inr (.inr ha))
  cases e with
  | newFork kill reason => exact h.new hret
  | newProcess kill give_reason => exact h.new hret
  | dropFork a =>
      cases hret
      exact h.goes rfl rfl rfl (fun _ h => h) (fun _ h => h)
        (List.forall_mem_singleton.mpr (h.known a (.inl hen.2))) nofun trivial
  | is_child a =>
      obtain rfl := exec_looks (.inl rfl) hret
      exact h
  | is_parent a =>
      obtain rfl := exec_looks (.inr (.inl rfl)) hret
      exact h
  | process_id a =>
      obtain rfl := exec_looks (.inr (.inr rfl)) hret
      exact h
  | delete a =>
      cases hret
      exact h.goes rfl rfl rfl (fun _ h => h) (fun _ => List.mem_of_mem_erase)
        (List.forall_mem_singleton.mpr (h.known a (.inr (.inl hen.2)))) nofun nofun
  | kill_process a =>
      cases hret
      exact h.goes rfl rfl rfl (fun _ h => h) (fun _ h => h)
        (List.forall_mem_singleton.mpr (h.known a (.inr (.inl hen.2)))) nofun trivial
  | suicide_signal =>
      cases hret
      exact h.goes rfl rfl rfl (fun _ h => h) (fun _ h => h) hused h.walked
        (h.stands.congr (m := m) rfl rfl rfl rfl rfl)
  | commit_suicide =>
      cases hret
      exact h.goes rfl rfl rfl (fun _ h => h) (fun _ h => h) nofun hlisted trivial
  | exit =>
      cases hret
      exact h.goes rfl rfl rfl (fun _ h => h) (fun _ h => h) nofun hlisted trivial
  | sigterm =>
      cases hret
      exact h.goes rfl rfl rfl (fun _ h => h) (fun _ h => h) nofun hlisted trivial
  | dies pid =>
      cases hret
      exact h.goes rfl rfl rfl (fun _ h => h) (fun _ h => h) hused h.walked
        (h.stands.congr (m := m) rfl rfl rfl rfl rfl)
  | sigchld =>
      cases hret
      exact h.goes rfl rfl rfl (fun _ h => h) (fun _ h => h) hused h.walked
        (h.stands.congr (m := m) rfl rfl rfl rfl rfl)
  | go ret =>
      obtain ⟨p, m₁, hgoes, rfl⟩ := exec_go h.tidy.listed hen.2 hret
      exact h.go hgoes hcalm rfl
  | handle ret =>
      obtain ⟨hd, hhd, -⟩ := hen
      obtain ⟨h', m₁, hreaps, hexec⟩ := exec_handle h.tidy.listed hhd ret
      rw [hexec] at hret
      cases hret
      exact h.handle hhd hreaps hcalm rfl

/-! ### No step fails -/

/-- The program's pointers to records have them. -/
def Process.Safe (m : Process) : Prop := ∀ a ∈ m.pc.uses, ∃ r, m.heap a = some r

/-- A branch on what has been loaded. -/
theorem exists_ret_ite {α : Type} {c : Prop} [Decidable c] {p q : ForkM α} (hp : ∃ a m', p m = .ret a m')
    (hq : ∃ a m', q m = .ret a m') : ∃ a m', (if c then p else q) m = .ret a m' := by
  rw [Prog.ite_apply]
  split
  · exact hp
  · exact hq

theorem exists_ret_load {α : Type} {f : ForkProcess → ForkM α} (ha : ∃ r, m.heap a = some r)
    (hf : ∀ r, m.heap a = some r → ∃ p m', f r m = .ret p m') : ∃ p m', (load a >>= f) m = .ret p m' := by
  obtain ⟨r, hr⟩ := ha
  rw [Prog.bind_apply, load_of_some hr]
  exact hf r hr

theorem exists_ret_free (p : Point) (ha : ∃ r, m.heap a = some r) :
    ∃ q m', (free a >>= fun _ => pure p : ForkM Point) m = .ret q m' := by
  obtain ⟨r, hr⟩ := ha
  exact ⟨p, _, by rw [Prog.bind_apply, free_of_some hr]; rfl⟩

/-- The child's loop, and the installation of its handler. -/
theorem Linked.clear_run (h : Linked m) {o : Owner} (hpc : m.pc = .clear a o) :
    ∃ p m', ctorClear a o m = .ret p m' := by
  have hstands := h.stands
  rw [hpc] at hstands
  obtain ⟨r, hb, -⟩ := hstands
  have hr : (m.without m.records).heap a = some r := by
    simp [Process.without, hb.off, hb.here]
  have hload : load a { m.without m.records with list := none } =
      .ret r { m.without m.records with list := none } := load_of_some hr
  have hclear := clearLoop h.tidy.listed.chain h.tidy.listed.length_le
  rw [ctorClear, Prog.bind_apply, Prog.get_apply, Outcome.andThen_ret, Prog.bind_apply, hclear,
    Outcome.andThen_ret, Prog.bind_apply, Prog.modify_apply, Outcome.andThen_ret, Prog.bind_apply, hload,
    Outcome.andThen_ret]
  cases r.kill_child with
  | false => exact ⟨_, _, rfl⟩
  | true => exact ⟨_, _, rfl⟩

theorem ctorInstall_runs (m : Process) (a : Nat) (o : Owner) : ∃ p m', ctorInstall a o m = .ret p m' := by
  by_cases hl : m.list = none
  · exact ⟨.fork a o, _, by simp [ctorInstall, hl]; rfl⟩
  · exact ⟨.fork a o, _, by simp [ctorInstall, hl]; rfl⟩

theorem ctorFork_runs (ret : Int) (o : Owner) (ha : ∃ r, m.heap a = some r) :
    ∃ p m', ctorFork ret a o m = .ret p m' := by
  obtain ⟨r, hr⟩ := ha
  rw [ctorFork, Prog.bind_apply, load_of_some hr, Outcome.andThen_ret, Prog.bind_apply, store_of_some hr,
    Outcome.andThen_ret]
  exact exists_ret_ite ⟨_, _, rfl⟩ (exists_ret_ite ⟨_, _, rfl⟩ ⟨_, _, rfl⟩)

theorem ctorNext_runs (o : Owner) (ha : ∃ r, m.heap a = some r) : ∃ p m', ctorNext a o m = .ret p m' := by
  obtain ⟨r, hr⟩ := ha
  exact ⟨.link a o, _, by simp [ctorNext, load_of_some hr, store_of_some hr]; rfl⟩

theorem ctorMade_runs (m : Process) (a : Nat) (o : Owner) : ∃ p m', ctorMade a o m = .ret p m' := by
  cases o with
  | fork => exact ⟨_, _, rfl⟩
  | user => exact ⟨_, _, rfl⟩

theorem dropFork_runs (ha : ∃ r, m.heap a = some r) : ∃ p m', dropFork a m = .ret p m' := by
  refine exists_ret_load ha fun r hr => ?_
  rw [Prog.bind_apply, Prog.modify_apply, Outcome.andThen_ret]
  exact exists_ret_ite ⟨_, _, rfl⟩ ⟨_, _, rfl⟩

theorem dtor_runs (k : Return) (ha : ∃ r, m.heap a = some r) : ∃ p m', dtor a k m = .ret p m' :=
  exists_ret_load ha fun _ _ => exists_ret_ite (exists_ret_ite ⟨_, _, rfl⟩ ⟨_, _, rfl⟩) (exists_ret_free _ ha)

theorem waitpid_runs (ret pid : Int) (c : Caller) (ha : ∃ r, m.heap a = some r) :
    ∃ p m', waitpid ret a pid c m = .ret p m' := by
  refine exists_ret_ite ?_ ⟨_, _, rfl⟩
  rw [Prog.bind_apply, Prog.modify_apply, Outcome.andThen_ret]
  obtain ⟨out, hout⟩ := infanticide_reason_ret pid { m with zombies := m.zombies.erase pid }
  refine exists_ret_load ha fun r hr => exists_ret_ite ?_ ⟨_, _, rfl⟩
  rw [Prog.bind_apply, hout]
  exact ⟨_, _, rfl⟩

theorem setNext_runs {p : Nat} (k : Return) (q : Option Nat) (ha : ∃ r, m.heap a = some r)
    (hp : ∃ r, m.heap p = some r) : ∃ p' m', setNext a k p q m = .ret p' m' := by
  refine exists_ret_load hp fun r hr => ?_
  rw [Prog.bind_apply, store_of_some hr, Outcome.andThen_ret]
  refine exists_ret_free _ ?_
  rcases eq_or_ne a p with rfl | hne
  · exact ⟨_, Function.update_self ..⟩
  · obtain ⟨ra, hra⟩ := ha
    exact ⟨ra, (Function.update_of_ne hne ..).trans hra⟩

theorem suicide_runs {p : Option Nat} (hp : ∀ a ∈ p, ∃ r, m.heap a = some r) :
    ∃ p' m', suicide p m = .ret p' m' := by
  cases p with
  | none => exact ⟨_, _, rfl⟩
  | some p => exact exists_ret_load (hp p rfl) fun _ _ => exists_ret_ite ⟨_, _, rfl⟩ ⟨_, _, rfl⟩

theorem killForks_runs {cur : Option Nat} (hcur : ∀ a ∈ cur, ∃ r, m.heap a = some r) :
    ∃ p m', killForks cur m = .ret p m' := by
  cases cur with
  | none => exact ⟨_, _, rfl⟩
  | some c => exact exists_ret_load (hcur c rfl) fun _ _ => exists_ret_ite ⟨_, _, rfl⟩ ⟨_, _, rfl⟩

/-- **The program goes on** from every point, if the records are there that it has from objects. -/
theorem Linked.run (h : Linked m) (hsafe : m.Safe) (ret : Int) :
    ∃ p m₁, m.pc.run ret m = .ret p m₁ := by
  have hstands := h.stands
  have hlive : ∀ a ∈ m.pc.walks, ∃ r, m.heap a = some r := fun a ha =>
    h.tidy.listed.heap_of_mem (h.walked a ha)
  have hused : ∀ a ∈ m.pc.uses, ∃ r, m.heap a = some r := hsafe
  have loads : ∀ {b : Nat}, (∃ r, m.heap b = some r) → ∀ f : ForkProcess → Point,
      ∃ p m₁, (do return f (← load b) : ForkM Point) m = .ret p m₁ := fun hb f =>
    exists_ret_load hb fun r _ => ⟨f r, m, rfl⟩
  cases hpc : m.pc with
  | install a o => exact ctorInstall_runs m a o
  | fork a o =>
      rw [hpc] at hstands
      obtain ⟨r, hb, -⟩ := hstands
      exact ctorFork_runs ret o ⟨r, hb.here⟩
  | next a o =>
      rw [hpc] at hstands
      obtain ⟨r, hb, -⟩ := hstands
      exact ctorNext_runs o ⟨r, hb.here⟩
  | clear a o => exact h.clear_run hpc
  | made a o => exact ctorMade_runs m a o
  | idle | exited | link | searchList | kill | suicideKill => exact ⟨_, _, rfl⟩
  | unlink | waitAll | wait => exact exists_ret_ite ⟨_, _, rfl⟩ ⟨_, _, rfl⟩
  | dropFork a =>
      rw [hpc] at hused
      exact dropFork_runs (hused a (List.mem_singleton_self a))
  | dtor a k =>
      rw [hpc] at hused
      exact dtor_runs k (hused a (List.mem_singleton_self a))
  | kill_process a =>
      rw [hpc] at hused
      exact exists_ret_load (hused a (List.mem_singleton_self a)) fun _ _ =>
        exists_ret_ite ⟨_, _, rfl⟩ ⟨_, _, rfl⟩
  | reap_child a c =>
      rw [hpc] at hlive
      exact exists_ret_load (hlive a List.mem_cons_self) fun _ _ => exists_ret_ite ⟨_, _, rfl⟩ ⟨_, _, rfl⟩
  | waitpid a pid c =>
      rw [hpc] at hlive
      exact waitpid_runs ret pid c (hlive a List.mem_cons_self)
  | unlinkHead a k =>
      rw [hpc] at hstands hlive
      obtain ⟨r, hr⟩ := hlive a List.mem_cons_self
      exact ⟨.setList a k r.next, m, by simp [Point.run, unlinkHead, hstands.2, load_of_some hr]⟩
  | setList a k q =>
      rw [hpc] at hlive
      exact exists_ret_free (m := { m with list := q }) _ (hlive a List.mem_cons_self)
  | search a k q =>
      rw [hpc] at hstands hlive
      obtain ⟨-, p, rfl, -⟩ := hstands
      exact exists_ret_load (hlive p (List.mem_cons_of_mem _ List.mem_cons_self)) fun _ _ =>
        exists_ret_ite ⟨_, _, rfl⟩ ⟨_, _, rfl⟩
  | advance a k p =>
      rw [hpc] at hlive
      exact loads (hlive p (List.mem_cons_of_mem _ List.mem_cons_self)) _
  | found a k p =>
      rw [hpc] at hlive
      exact loads (hlive a List.mem_cons_self) _
  | setNext a k p q =>
      rw [hpc] at hlive
      exact setNext_runs k q (hlive a List.mem_cons_self) (hlive p (List.mem_cons_of_mem _ List.mem_cons_self))
  | suicide p =>
      rw [hpc] at hlive
      refine suicide_runs fun a ha => hlive a ?_
      rw [Option.mem_def.mp ha]
      exact List.mem_singleton_self a
  | killForks cur =>
      rw [hpc] at hlive
      refine killForks_runs fun a ha => hlive a ?_
      rw [Option.mem_def.mp ha]
      exact List.mem_singleton_self a
  | killNext c =>
      rw [hpc] at hlive
      exact loads (hlive c (List.mem_singleton_self c)) _

/-- The records that an event asks for. -/
def Event.uses : Event → List Nat
  | .dropFork a | .is_child a | .is_parent a | .process_id a | .delete a | .kill_process a => [a]
  | _ => []

/-- **No step fails**, if the records that it asks for are there. -/
theorem Linked.exec_ret (h : Linked m) (hsafe : m.Safe) {e : Event} (hen : e.Enabled m)
    (hused : ∀ a ∈ e.uses, ∃ r, m.heap a = some r) : ∃ m', e.exec m = .ret () m' := by
  have hasks : ∀ {α : Type} (f : ForkProcess → α) {a}, (∃ r, m.heap a = some r) →
      ∃ m', (do
        let _ ← (do return f (← load a) : ForkM α) : ForkM Unit) m = .ret () m' := by
    rintro α f a ⟨r, hr⟩
    exact ⟨m, by simp [load_of_some hr]⟩
  cases e with
  | is_child a => exact hasks _ (hused a (List.mem_singleton_self a))
  | is_parent a => exact hasks _ (hused a (List.mem_singleton_self a))
  | process_id a => exact hasks _ (hused a (List.mem_singleton_self a))
  | handle ret =>
      obtain ⟨hd, hhd, -⟩ := hen
      obtain ⟨_, _, -, hexec⟩ := exec_handle h.tidy.listed hhd ret
      exact ⟨_, hexec⟩
  | go ret =>
      obtain ⟨p, m₁, hrun⟩ := h.run hsafe ret
      refine ⟨{ m₁ with pc := p }, ?_⟩
      rw [Event.exec, Prog.bind_apply, Prog.get_apply, Outcome.andThen_ret, Prog.bind_apply, hrun]
      rfl
  | _ => exact ⟨_, rfl⟩

/-- The step uses no record that has been deleted, and deletes none that will be used. -/
structure Orderly (m : Process) (e : Event) : Prop where
  calm : Undisturbed m e
  live : ∀ a ∈ e.uses, ∃ r, m.heap a = some r
  held : ∀ ret, e = .handle ret → ∀ wpid v, m.handler = some (.remove wpid) → m.victim wpid = some v →
    v ∉ m.pc.uses

/-- The program takes a pointer to a destructor only where it has seen the record. -/
theorem Linked.safe_go (h : Linked m) {ret : Int} {p : Point} (hgoes : Goes ret m m.pc p m₁) :
    Process.Safe { m₁ with pc := p } := by
  have hwalked := h.walked
  generalize m.pc = pc at hgoes hwalked
  have used : ∀ {b : Nat} {r : ForkProcess}, m.heap b = some r → ∀ c ∈ [b], ∃ r, m.heap c = some r :=
    fun hr => List.forall_mem_singleton.mpr ⟨_, hr⟩
  have returns : ∀ {k : Return} {heap : Nat → Option ForkProcess}, ∀ c ∈ k.point.uses, ∃ r, heap c = some r := by
    intro k heap
    rw [Return.uses_point]
    exact List.forall_mem_nil _
  have returns' : ∀ {b : Nat} {c : Caller} {heap : Nat → Option ForkProcess},
      ∀ d ∈ (c.point b).uses, ∃ r, heap d = some r := by
    intro b c heap
    rw [Caller.uses_point]
    exact List.forall_mem_nil _
  cases hgoes with
  | constructs hgoes => cases hgoes <;> exact List.forall_mem_nil _
  | destroys hgoes =>
      cases hgoes with
      | dropFork_dead hr hdead => exact used hr
      | dtor_dead k hr hdead => exact returns
      | reap_dead c hr hdead => exact returns'
      | waited pid c out hr hret => exact returns'
      | not_waited b pid c hret => exact returns'
      | _ => exact List.forall_mem_nil _
  | unlinks hgoes =>
      cases hgoes with
      | setList k q hr => exact returns
      | search_end k hr => exact returns
      | setNext k q hr => exact returns
      | _ => exact List.forall_mem_nil _
  | exits hgoes =>
      cases hgoes with
      | suicide_dtor hr hkill => exact used hr
      | suicideKill b pid q =>
          obtain ⟨r, hr⟩ := h.tidy.listed.heap_of_mem (hwalked b List.mem_cons_self)
          exact used hr
      | killForks_dtor hr hkill => exact used hr
      | _ => exact List.forall_mem_nil _

/-- **One event.** -/
theorem Linked.safe_exec (h : Linked m) (hsafe : m.Safe) {e : Event} (hen : e.Enabled m)
    (horderly : Orderly m e) (hret : e.exec m = .ret () m') : m'.Safe := by
  obtain ⟨-, hlive, hheld⟩ := horderly
  cases e with
  | dropFork a =>
      cases hret
      exact hlive
  | delete a =>
      cases hret
      exact hlive
  | kill_process a =>
      cases hret
      exact hlive
  | is_child a =>
      obtain rfl := exec_looks (.inl rfl) hret
      exact hsafe
  | is_parent a =>
      obtain rfl := exec_looks (.inr (.inl rfl)) hret
      exact hsafe
  | process_id a =>
      obtain rfl := exec_looks (.inr (.inr rfl)) hret
      exact hsafe
  | suicide_signal =>
      cases hret
      exact hsafe
  | dies pid =>
      cases hret
      exact hsafe
  | sigchld =>
      cases hret
      exact hsafe
  | go ret =>
      obtain ⟨p, m₁, hgoes, rfl⟩ := exec_go h.tidy.listed hen.2 hret
      exact h.safe_go hgoes
  | handle ret =>
      obtain ⟨hd, hhd, -⟩ := hen
      obtain ⟨h', m₁, hreaps, hexec⟩ := exec_handle h.tidy.listed hhd ret
      rw [hexec] at hret
      cases hret
      cases hreaps with
      | @remove wpid v m₁ hv hoff =>
          intro b hb
          replace hb : b ∈ m.pc.uses := hoff.pc ▸ hb
          obtain ⟨r, hr⟩ := hsafe b hb
          obtain ⟨q, hq⟩ := hoff.kept b fun hbv => hheld ret rfl wpid v hhd hv (hbv ▸ hb)
          exact ⟨{ r with next := q r }, by simpa [hr] using hq⟩
      | _ => exact hsafe
  | _ =>
      cases hret
      exact List.forall_mem_nil _

/-- **The list is in order in every state of an orderly run**, and no step of it fails. -/
theorem Run.orderly {m₀ : Process} {es : List Event} (h : Linked m₀) (hsafe : m₀.Safe)
    (hrun : Run (fun _ m e => Orderly m e) m₀ es m) : Linked m ∧ m.Safe ∧
      ∀ e : Event, e.Enabled m → Orderly m e → ∃ m', e.exec m = .ret () m' := by
  have key : Linked m ∧ m.Safe := by
    induction hrun with
    | start => exact ⟨h, hsafe⟩
    | step _ hen horderly hret ih =>
        exact ⟨ih.1.exec hen horderly.calm hret, ih.1.safe_exec ih.2 hen horderly hret⟩
  exact ⟨key.1, key.2, fun e hen horderly => key.1.exec_ret key.2 hen horderly.live⟩

/-! ### A destructor left alone -/

theorem exec_go_of_run {ret : Int} {p : Point} {s : Process} (h : m.pc.run ret m = .ret p s) :
    (Event.go ret).exec m = .ret () { s with pc := p } := by
  rw [Event.exec, Prog.bind_apply, Prog.get_apply, Outcome.andThen_ret, Prog.bind_apply, h]
  rfl

/-- The program goes on by one point. -/
theorem follow_go {ret : Int} {p : Point} {s : Process} (pt : Point) (n : Nat) (hh : m.handler = none)
    (hallows : pt.Allows { m with pc := pt } ret) (hrun : pt.run ret { m with pc := pt } = .ret p s) :
    follow (List.replicate (n + 1) (.go ret)) { m with pc := pt } =
      follow (List.replicate n (.go ret)) { s with pc := p } := by
  rw [List.replicate_succ, follow, if_pos ⟨hh, hallows⟩, exec_go_of_run (p := p) hrun]

section Alone

variable (hm : Tidy m) (hh : m.handler = none) (k : Return) (ret : Int)

include hm hh

/-- The search comes to the record in front, by induction on what is behind the one where it stands. -/
theorem Tidy.search_follow : ∀ {post pre : List Nat} {p : Nat}, m.records = pre ++ p :: post → a ∈ post →
    ∃ n ≤ 2 * post.length + 1, ∃ m',
      follow (List.replicate n (.go ret)) { m with pc := .search a k (some p) } =
        some { m' with pc := k.point } ∧ Unlinked m a m' := by
  intro post
  induction post with
  | nil => exact fun _ ha => absurd ha List.not_mem_nil
  | cons b post ih =>
      intro pre p hl ha
      obtain ⟨r, hr⟩ := hm.listed.heap_of_mem (a := p) (by simp [hl])
      have hnext : r.next = some b := by
        have hchain := hm.listed.chain
        rw [hl] at hchain
        obtain ⟨r', hr', hq⟩ := link_eq_some.mp hchain.link_next
        rwa [Option.some.inj (hr'.symm.trans hr)] at hq
      by_cases hba : b = a
      · subst hba
        obtain ⟨rb, hrb⟩ := hm.listed.heap_of_mem (a := b) (by simp [hl])
        have hne : p ≠ b := by
          rintro rfl
          have := (List.nodup_append.mp (hl ▸ hm.listed.chain.nodup)).2.1
          simp at this
        refine ⟨3, by simp only [List.length_cons]; omega, _, ?_, .behind hm.listed hl hrb hr m.cerr⟩
        rw [follow_go (p := .found b k p) (.search b k (some p)) 2 hh trivial
            (by simp [Point.run, Fork.search, load, hr, hnext]; rfl),
          follow_go (p := .setNext b k p rb.next) (.found b k p) 1 hh trivial
            (by simp [Point.run, Fork.found, load, hrb]; rfl),
          follow_go (p := k.point) (.setNext b k p rb.next) 0 hh trivial
            (by simp [Point.run, Fork.setNext, load, store, free, hr, hrb, hne.symm]; rfl)]
        rfl
      · obtain ⟨n, hn, m', hfollow, hoff⟩ :=
          ih (by rw [hl, List.append_assoc]; rfl : m.records = (pre ++ [p]) ++ b :: post)
            ((List.mem_cons.mp ha).resolve_left (Ne.symm hba))
        refine ⟨n + 2, by simp only [List.length_cons]; omega, m', ?_, hoff⟩
        rw [follow_go (p := .advance a k p) (.search a k (some p)) (n + 1) hh trivial
            (by simp [Point.run, Fork.search, load, hr, hnext, hba]; rfl),
          follow_go (p := .search a k (some b)) (.advance a k p) n hh trivial
            (by simp [Point.run, Fork.advance, load, hr, hnext]; rfl)]
        exact hfollow

/-- **A destructor left alone** takes its record off the list. -/
theorem Tidy.unlink_follow (ha : a ∈ m.records) :
    ∃ n ≤ 2 * m.fresh + 3, ∃ m',
      follow (List.replicate n (.go ret)) { m with pc := .unlink a k } =
        some { m' with pc := k.point } ∧ Unlinked m a m' := by
  by_cases hlist : m.list = some a
  · obtain ⟨r, hr⟩ := hm.listed.heap_of_mem ha
    refine ⟨3, by omega, _, ?_, .first hm.listed hlist hr m.cerr⟩
    rw [follow_go (p := .unlinkHead a k) (s := { m with pc := .unlink a k }) (.unlink a k) 2 hh trivial
        (by simp [Point.run, Fork.unlink, hlist]),
      follow_go (p := .setList a k r.next) (s := { m with pc := .unlinkHead a k }) (.unlinkHead a k) 1 hh
        trivial (by simp [Point.run, Fork.unlinkHead, hlist, load, hr]),
      follow_go (p := k.point) (.setList a k r.next) 0 hh trivial
        (by simp [Point.run, Fork.setList, load, free, hr]; rfl)]
    rfl
  · obtain ⟨p, hp, pre, post, hl, hmem⟩ := hm.behind_list ha hlist
    obtain ⟨n, hn, m', hfollow, hoff⟩ := hm.search_follow hh k ret hl hmem
    have hle := hm.listed.length_le
    rw [hl, List.length_append, List.length_cons] at hle
    refine ⟨n + 2, by omega, m', ?_, hoff⟩
    rw [follow_go (p := .searchList a k) (s := { m with pc := .unlink a k }) (.unlink a k) (n + 1) hh trivial
        (by simp [Point.run, Fork.unlink, hlist]),
      follow_go (p := .search a k (some p)) (s := { m with pc := .searchList a k }) (.searchList a k) n hh
        trivial (by simp [Point.run, Fork.searchList, hp])]
    exact hfollow

end Alone

/-! ### Conditions that can be evaluated

What is asked of the record that `reaper_nohang` deletes, or of a place in the source, is asked of what is
there. -/

section Decide

variable {P : Nat → Prop}

theorem forall_remove (o : Option Handler) (f : Int → Option Nat) :
    (∀ v ∈ (match o with
      | some (.remove wpid) => f wpid
      | _ => none), P v) ↔ ∀ wpid v, o = some (.remove wpid) → f wpid = some v → P v := by
  constructor
  · rintro h wpid v rfl hv
    exact h v hv
  · intro h v hv
    rcases o with _ | _ | wpid
    · cases hv
    · cases hv
    · exact h wpid v rfl hv

theorem forall_link (p : Point) :
    (∀ a ∈ (match p with
      | .link a _ => some a
      | _ => none : Option Nat), P a) ↔ ∀ a o, p = .link a o → P a := by
  cases p <;> simp

theorem forall_searchList (p : Point) :
    (∀ a ∈ (match p with
      | .searchList a _ => some a
      | _ => none : Option Nat), P a) ↔ ∀ a k, p = .searchList a k → P a := by
  cases p <;> simp

theorem forall_advance {P : Nat → Nat → Prop} (p : Point) :
    (∀ a ∈ (match p with
      | .advance a _ q => some (a, q)
      | _ => none : Option (Nat × Nat)), P a.1 a.2) ↔ ∀ a k q, p = .advance a k q → P a q := by
  cases p <;> simp

theorem forall_killForks (p : Point) :
    (∀ c ∈ (match p with
      | .killForks cur => cur
      | _ => none : Option Nat), P c) ↔ ∀ c, p = .killForks (some c) → P c := by
  cases p <;> simp

theorem forall_handle {Q : Prop} (e : Event) :
    (∀ _ret ∈ (match e with
      | .handle ret => some ret
      | _ => none : Option Int), Q) ↔ ∀ ret, e = .handle ret → Q := by
  cases e <;> simp

variable [DecidablePred P]

instance (o : Option Handler) (f : Int → Option Nat) :
    Decidable (∀ wpid v, o = some (.remove wpid) → f wpid = some v → P v) :=
  decidable_of_iff _ (forall_remove o f)

instance (p : Point) : Decidable (∀ a o, p = .link a o → P a) := decidable_of_iff _ (forall_link p)

instance (p : Point) : Decidable (∀ a k, p = .searchList a k → P a) :=
  decidable_of_iff _ (forall_searchList p)

instance {P : Nat → Nat → Prop} [∀ a q, Decidable (P a q)] (p : Point) :
    Decidable (∀ a k q, p = .advance a k q → P a q) := decidable_of_iff _ (forall_advance p)

instance (p : Point) : Decidable (∀ c, p = .killForks (some c) → P c) :=
  decidable_of_iff _ (forall_killForks p)

instance {Q : Prop} [Decidable Q] (e : Event) : Decidable (∀ ret, e = .handle ret → Q) :=
  decidable_of_iff _ (forall_handle e)

end Decide

instance (m : Process) (a : Nat) : Decidable (m.Mild a) :=
  inferInstanceAs (Decidable (∀ r ∈ m.heap a, r.kill_child = false))

instance (m : Process) (a : Nat) : Decidable (∃ r, m.heap a = some r) :=
  decidable_of_iff ((m.heap a).isSome = true) Option.isSome_iff_exists

instance (m : Process) : (e : Event) → Decidable (Undisturbed m e)
  | .handle _ => by dsimp only [Undisturbed]; infer_instance
  | .go _ => by dsimp only [Undisturbed]; infer_instance
  | .newFork _ _ | .newProcess _ _ | .dropFork _ | .is_child _ | .is_parent _ | .process_id _ | .delete _
  | .kill_process _ | .suicide_signal | .commit_suicide | .exit | .sigterm | .dies _ | .sigchld =>
      isTrue trivial

instance (m : Process) (e : Event) : Decidable (Orderly m e) :=
  decidable_of_iff (Undisturbed m e ∧ (∀ a ∈ e.uses, ∃ r, m.heap a = some r) ∧
      ∀ ret, e = .handle ret → ∀ wpid v, m.handler = some (.remove wpid) → m.victim wpid = some v →
        v ∉ m.pc.uses)
    ⟨fun h => ⟨h.1, h.2.1, h.2.2⟩, fun h => ⟨h.calm, h.live, h.held⟩⟩

end Fork

end Socketpp
