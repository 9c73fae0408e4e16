import Socketpp.Sockbuf.Sharing

/-!
# Sockbuf — copies and what they own

The last object to go closes the descriptor, whichever it is, and deletes its own buffers.  But only
the original has any.  So the descriptor is always closed once, at the end, and each buffer is
released at most once; it is released exactly when the original is the last to go, or had released
both its buffers by `shutdown` before it went (`released_iff`).
-/

namespace Socketpp
open Lib

namespace Family

variable {κ : Type} {K : Kernel κ} {C : Closing κ} {f f₀ f' f₁ : Family κ} {i j : Nat}

/-! ### What a method does to the areas -/

/-- The put area is closed or in order. -/
def PutSound (b : Sockbuf) : Prop := b.putArea = none ∨ b.Writable

/-- What a method of an object leaves: the shared record, and which areas the object has. -/
structure Holds (s s' : Proc Sockbuf κ) : Prop where
  sock    : s'.obj.rep.sock = s.obj.rep.sock
  pend    : s'.obj.rep.pend = s.obj.rep.pend
  getArea : s'.obj.getArea.isSome = s.obj.getArea.isSome
  putArea : s'.obj.putArea.isSome = s.obj.putArea.isSome
  sound   : PutSound s'.obj

theorem Untouched.holds {s s' : Proc Sockbuf κ} (h : Untouched s s') (hs : PutSound s.obj) :
    Holds s s' := by
  refine ⟨h.sock, h.pend, by rw [h.getArea], by rw [h.putArea], ?_⟩
  exact hs.imp (fun hn => h.putArea.trans hn) (writable_congr h.putArea h.pend)

/-- A put leaves the areas, also where it throws. -/
theorem put_holds (op : PutOp) {s s' : Proc Sockbuf κ} {r : Except Thrown Int} (hs : PutSound s.obj)
    (h : (op.exec K s).result = some (r, s')) : Holds s s' := by
  rcases hs with hnone | hw
  · rcases (op.exec_bare hnone).result h with ⟨v, -, -, hs'⟩ | ⟨e, -, hnot⟩
    · exact Untouched.holds hs' (.inl hnone)
    · exact hnot.elim
  · have hkeeps := (op.exec_frame s).result h
    have hw' : s'.obj.Writable := by
      rcases (op.exec_sat hw).result h with ⟨v, -, -, ht, -⟩ | ⟨e, -, ⟨_, -, ht⟩, -⟩
      · exact ht.writable
      · exact ht.writable
    refine ⟨hkeeps.sock, hkeeps.pend, by rw [hkeeps.getArea], ?_, .inr hw'⟩
    obtain ⟨p, hp, -⟩ := hw
    obtain ⟨p', hp', -⟩ := hw'
    rw [hp, hp']
    rfl

/-- A get leaves the areas, also where it throws. -/
theorem get_holds (op : GetOp) {t t' : Sockbuf.Getting κ} {r : Except Thrown Int}
    (hs : PutSound t.proc.obj) (h : (op.exec K t).result = some (r, t')) : Holds t.proc t'.proc := by
  cases hget : t.proc.obj.getArea with
  | none =>
      rcases (op.exec_bare hget).result h with ⟨v, -, -, ht⟩ | ⟨e, -, hnot⟩
      · exact Untouched.holds ht hs
      · exact hnot.elim
  | some a =>
      have hkeeps := (op.exec_frame t).result h
      have hr : t'.proc.obj.Readable := by
        rcases (op.exec_obtains ⟨a, hget⟩).result h with ⟨v, -, hr, -⟩ | ⟨e, -, hr⟩
        · exact hr
        · exact hr
      obtain ⟨a', ha'⟩ := hr
      refine ⟨hkeeps.sock, hkeeps.pend, by rw [ha', hget]; rfl, by rw [hkeeps.putArea], ?_⟩
      exact hs.imp (fun hn => hkeeps.putArea.trans hn) (writable_congr hkeeps.putArea hkeeps.pend)

/-- The flush of the destructor, where it returns. -/
theorem flush_holds {s s' : Proc Sockbuf κ} {v : Int} (hs : PutSound s.obj)
    (h : Sockbuf.overflow K eofValue s = .ret v s') : Holds s s' :=
  put_holds (.overflow eofValue) hs (r := .ok v) (congrArg Outcome.result h)

/-! ### Shutdown -/

/-- What `shutdown` through the object `i` leaves: it drops areas of this object only, and releases
their buffers. -/
structure Shuts (i : Nat) (f f' : Family κ) : Prop where
  rep      : f'.rep = f.rep
  live     : f'.live = f.live
  fresh    : f'.fresh = f.fresh
  closed   : f'.closed = f.closed
  others   : ∀ j, j ≠ i → f'.own j = f.own j
  getArea  : (f'.own i).getArea = none ∨ (f'.own i).getArea = (f.own i).getArea
  putArea  : (f'.own i).putArea = none ∨ (f'.own i).putArea = (f.own i).putArea
  released : ∀ b, f'.released.count b + (f'.own i).buffers.count b =
    f.released.count b + (f.own i).buffers.count b

theorem Shuts.refl (f : Family κ) : Shuts i f f :=
  ⟨rfl, rfl, rfl, rfl, fun _ _ => rfl, .inr rfl, .inr rfl, fun _ => rfl⟩

theorem Shuts.trans (h : Shuts i f f₁) (h' : Shuts i f₁ f') : Shuts i f f' :=
  ⟨h'.rep.trans h.rep, h'.live.trans h.live, h'.fresh.trans h.fresh, h'.closed.trans h.closed,
    fun j hj => (h'.others j hj).trans (h.others j hj),
    h'.getArea.elim .inl fun he => h.getArea.imp he.trans he.trans,
    h'.putArea.elim .inl fun he => h.putArea.imp he.trans he.trans,
    fun b => (h'.released b).trans (h.released b)⟩

theorem dropGet_apply (i : Nat) (f : Family κ) : dropGet i f = .ret () { f with
    own := Function.update f.own i { f.own i with getArea := none }
    released := if (f.own i).getArea.isSome then f.released ++ [.gbuf] else f.released } := rfl

theorem dropPut_apply (i : Nat) (f : Family κ) : dropPut i f = .ret () { f with
    own := Function.update f.own i { f.own i with putArea := none }
    released := if (f.own i).putArea.isSome then f.released ++ [.pbuf] else f.released } := rfl

theorem keeps_dropGet (i : Nat) : Prog.Keeps (Shuts (κ := κ) i) (dropGet i) := by
  intro f
  rw [dropGet_apply]
  refine ⟨rfl, rfl, rfl, rfl, fun j hj => Function.update_of_ne hj .., .inl ?_, .inr ?_, fun b => ?_⟩
  · simp
  · simp
  · cases hg : (f.own i).getArea with
    | none => simp [Own.buffers, hg]
    | some a => simp [Own.buffers, hg]; omega

theorem keeps_dropPut (i : Nat) : Prog.Keeps (Shuts (κ := κ) i) (dropPut i) := by
  intro f
  rw [dropPut_apply]
  refine ⟨rfl, rfl, rfl, rfl, fun j hj => Function.update_of_ne hj .., .inr ?_, .inl ?_, fun b => ?_⟩
  · simp
  · simp
  · cases hp : (f.own i).putArea with
    | none => simp [Own.buffers, hp]
    | some p => simp [Own.buffers, hp, List.count_cons]; omega

theorem keeps_shutdownCall (i : Nat) (sh : Shuthow) :
    Prog.Keeps (Shuts (κ := κ) i) (through i (Sockbuf.shutdownCall K sh)) := by
  intro f
  have hcall : (Sockbuf.shutdownCall K sh (f.proc i)).Sat (fun _ s => s.obj = f.sockbuf i)
      (fun _ s => s.obj = f.sockbuf i) :=
    (Sockbuf.shutdownCall_spec sh _).mono (fun _ _ h => h.1.obj) fun _ _ h => h.1.obj
  have key : ∀ s : Proc Sockbuf κ, s.obj = f.sockbuf i → Shuts i f (f.back i s) := by
    intro s hs
    have hself : (f.back i s).own i = f.own i := by
      rw [own_back_self, hs]
      rfl
    exact ⟨by rw [back, hs]; rfl, rfl, rfl, rfl, fun j hj => own_back s hj, .inr (by rw [hself]),
      .inr (by rw [hself]), fun b => by rw [hself]; rfl⟩
  have hsat := through_sat hcall
  cases hx : through i (Sockbuf.shutdownCall K sh) f with
  | ret u f' =>
      rw [hx] at hsat
      obtain ⟨s, rfl, hs⟩ := hsat
      exact key s hs
  | thrown e f' =>
      rw [hx] at hsat
      obtain ⟨s, rfl, hs⟩ := hsat
      exact key s hs
  | spin => trivial

/-- **Shutdown**, also where it throws. -/
theorem keeps_shutdown (i : Nat) (sh : Shuthow) :
    Prog.Keeps (Shuts (κ := κ) i) (Family.shutdown K i sh) := by
  have htrans : ∀ a b c : Family κ, Shuts i a b → Shuts i b c → Shuts i a c :=
    fun _ _ _ h h' => h.trans h'
  have hread : Prog.Keeps (Shuts (κ := κ) i) (shutdownRead K i) :=
    .bind htrans (keeps_dropGet i) fun _ => keeps_shutdownCall i _
  have hwrite : Prog.Keeps (Shuts (κ := κ) i) (shutdownWrite K i) :=
    .bind htrans (keeps_dropPut i) fun _ => keeps_shutdownCall i _
  cases sh with
  | shut_read => exact hread
  | shut_write => exact hwrite
  | shut_readwrite =>
      exact .bind htrans hread fun _ => .bind htrans hwrite fun _ => keeps_shutdownCall i _

/-! ### The ledger -/

/-- **The invariant**: the descriptor is open as long as an object exists, and closed once after that;
of each buffer either the original is still in charge, or it has been released at most once. -/
structure Ledger (sd : Int) (f : Family κ) : Prop where
  shared : Shared f
  sock   : f.rep.sock = sd
  sound  : 0 ∈ f.live → PutSound (f.sockbuf 0)
  closed : f.closed = if f.live = [] then [sd] else []
  once   : ∀ b, f.released.count b ≤ 1
  owed   : 0 ∈ f.live → ∀ b, f.released.count b + (f.own 0).buffers.count b = 1

variable {sd : Int}

theorem Ledger.putSound (h : Ledger sd f) (hi : i ∈ f.live) : PutSound (f.sockbuf i) := by
  rcases eq_or_ne i 0 with rfl | hne
  · exact h.sound hi
  · exact .inl (h.shared.copies i hi hne).2

theorem buffers_bare {o : Own} (h : o.Bare) : o.buffers = [] := by
  rw [Own.buffers, h.1, h.2]
  rfl

/-- An object without buffers is bare. -/
theorem bare_iff {o : Own} : o.Bare ↔ ∀ b, o.buffers.count b = 0 := by
  refine ⟨fun h b => by rw [buffers_bare h]; rfl, fun h => ⟨?_, ?_⟩⟩
  · cases hg : o.getArea with
    | none => rfl
    | some a => simpa [Own.buffers, hg] using h .gbuf
  · cases hp : o.putArea with
    | none => rfl
    | some p => simpa [Own.buffers, hp] using h .pbuf

theorem bare_of_isSome {o : Own} {s : Proc Sockbuf κ} (h : o.Bare)
    (hg : s.obj.getArea.isSome = o.getArea.isSome) (hp : s.obj.putArea.isSome = o.putArea.isSome) :
    s.obj.getArea = none ∧ s.obj.putArea = none := by
  rw [h.1] at hg
  rw [h.2] at hp
  exact ⟨by simpa using hg, by simpa using hp⟩

theorem buffers_back {s : Proc Sockbuf κ} (hs : Holds (f.proc i) s) (j : Nat) :
    ((f.back i s).own j).buffers = (f.own j).buffers := by
  rcases eq_or_ne j i with rfl | hne
  · rw [own_back_self, Own.buffers, Own.buffers, hs.getArea, hs.putArea]
    rfl
  · rw [own_back s hne]

/-- After a method of an object. -/
theorem Ledger.back (h : Ledger sd f) (hi : i ∈ f.live) {s : Proc Sockbuf κ}
    (hs : Holds (f.proc i) s) : Ledger sd (f.back i s) := by
  refine ⟨h.shared.back fun hne => ?_, hs.sock.trans h.sock, fun h0 => ?_, h.closed, h.once, fun h0 => ?_⟩
  · exact bare_of_isSome (h.shared.copies i hi hne) hs.getArea hs.putArea
  · rcases eq_or_ne 0 i with rfl | hne
    · rw [show (f.back 0 s).sockbuf 0 = s.obj from congrArg Proc.obj (proc_back (f := f) (i := 0) s)]
      exact hs.sound
    · have hput : ((f.back i s).sockbuf 0).putArea = (f.sockbuf 0).putArea := by
        rw [sockbuf, sockbuf, own_back s hne]
      exact (h.sound h0).imp hput.trans (writable_congr hput hs.pend)
  · rw [buffers_back hs]
    exact h.owed h0

/-- After a shutdown. -/
theorem Ledger.shuts (h : Ledger sd f) (hi : i ∈ f.live) (hs : Shuts i f f') :
    Ledger sd f' ∧ (i ≠ 0 → ∀ b, f'.released.count b = f.released.count b) := by
  have hcopies : ∀ j ∈ f'.live, j ≠ 0 → (f'.own j).Bare := by
    intro j hj hne
    rw [hs.live] at hj
    rcases eq_or_ne j i with rfl | hji
    · obtain ⟨hg, hp⟩ := h.shared.copies j hj hne
      exact ⟨hs.getArea.elim id fun he => he.trans hg, hs.putArea.elim id fun he => he.trans hp⟩
    · rw [hs.others j hji]
      exact h.shared.copies j hj hne
  have hcopy : i ≠ 0 → ∀ b, f'.released.count b = f.released.count b := fun hne b => by
    have := hs.released b
    rwa [buffers_bare (hcopies i (hs.live ▸ hi) hne), buffers_bare (h.shared.copies i hi hne)] at this
  refine ⟨⟨⟨?_, ?_, ?_, hcopies⟩, hs.rep ▸ h.sock, fun h0 => ?_, ?_, fun b => ?_, fun h0 b => ?_⟩, hcopy⟩
  · rw [hs.live]
    exact h.shared.nodup
  · rw [hs.live, hs.fresh]
    exact h.shared.below
  · rw [hs.fresh]
    exact h.shared.fresh
  · have hput : (f'.own 0).putArea = none ∨ (f'.own 0).putArea = (f.own 0).putArea := by
      rcases eq_or_ne 0 i with rfl | hne
      · exact hs.putArea
      · exact .inr (by rw [hs.others 0 hne])
    have hpend : (f'.sockbuf 0).rep.pend = (f.sockbuf 0).rep.pend := congrArg Sockcnt.pend hs.rep
    exact hput.elim .inl fun he =>
      (h.sound (hs.live ▸ h0)).imp he.trans (writable_congr (b := f.sockbuf 0) he hpend)
  · rw [hs.closed, hs.live]
    exact h.closed
  · rcases eq_or_ne i 0 with rfl | hne
    · have := hs.released b
      have := h.owed hi b
      omega
    · rw [hcopy hne]
      exact h.once b
  · have howed := h.owed (hs.live ▸ h0) b
    rcases eq_or_ne i 0 with rfl | hne
    · rw [hs.released b, howed]
    · rw [hcopy hne, hs.others 0 hne.symm, howed]

/-- The last object is one that exists where there is one only. -/
theorem length_eq_one_iff {l : List Nat} (hi : i ∈ l) : l.length = 1 ↔ l.erase i = [] := by
  rw [← List.length_eq_zero_iff, List.length_erase_of_mem hi]
  have := List.length_pos_of_mem hi
  omega

/-- After the end of a destructor. -/
theorem Ledger.gone (h : Ledger sd f) (hi : i ∈ f.live) (hg : Gone i f f') :
    Ledger sd f' ∧ (i ≠ 0 → ∀ b, f'.released.count b = f.released.count b) ∧
      (i = 0 → ((∀ b, f'.released.count b = 1) ↔ f.live = [0] ∨ (f.own 0).Bare)) := by
  obtain ⟨hreleased, hclosed⟩ := hg.ended
  have hlast := length_eq_one_iff hi
  have hcopy : i ≠ 0 → ∀ b, f'.released.count b = f.released.count b := fun hne b => by
    rw [hreleased, buffers_bare (h.shared.copies i hi hne), ite_self, List.append_nil]
  have hnil : f.live ≠ [] := List.ne_nil_of_mem hi
  refine ⟨⟨hg.shared h.shared, hg.rep ▸ h.sock, fun h0 => ?_, ?_, fun b => ?_, fun h0 b => ?_⟩, hcopy, ?_⟩
  · have hobj : f'.sockbuf 0 = f.sockbuf 0 := by rw [sockbuf, sockbuf, hg.own, hg.rep]
    rw [hobj]
    exact h.sound (List.mem_of_mem_erase (hg.live ▸ h0))
  · rw [hclosed, h.closed, if_neg hnil, hg.live, h.sock, List.nil_append]
    simp only [hlast]
  · rcases eq_or_ne i 0 with rfl | hne
    · have howed := h.owed hi b
      rw [hreleased, List.count_append]
      split
      · omega
      · rw [List.count_nil]
        omega
    · rw [hcopy hne]
      exact h.once b
  · rw [hg.live, h.shared.nodup.mem_erase_iff] at h0
    rw [hcopy h0.1.symm, hg.own]
    exact h.owed h0.2 b
  · rintro rfl
    have howed := h.owed hi
    by_cases hlen : f.live.length = 1
    · -- the original goes last, and its destructor releases what it still owns
      obtain ⟨j, hj⟩ := List.length_eq_one_iff.mp hlen
      obtain rfl : 0 = j := by simpa [hj] using hi
      refine iff_of_true (fun b => ?_) (.inl hj)
      rw [hreleased, if_pos hlen, List.count_append]
      exact howed b
    · -- copies are left, so nothing is released now, nor later
      have hsingle : f.live ≠ [0] := fun h => hlen (by rw [h]; rfl)
      rw [or_iff_right hsingle, bare_iff, hreleased, if_neg hlen, List.append_nil]
      refine forall_congr' fun b => ?_
      have := howed b
      omega

/-- One more copy. -/
theorem Ledger.copy (h : Ledger sd f) (hi : i ∈ f.live) (hret : Family.copy j f = .ret () f') :
    Ledger sd f' ∧ (0 ∈ f'.live ↔ 0 ∈ f.live) ∧ f'.released = f.released := by
  obtain ⟨hshared, hold, hlive, -, hrep, -⟩ := h.shared.copy hret
  have hreleased : f'.released = f.released := by cases hret; rfl
  have hclosed : f'.closed = f.closed := by cases hret; rfl
  have hmem : 0 ∈ f'.live ↔ 0 ∈ f.live := by
    rw [hlive, List.mem_cons, or_iff_right (Nat.ne_of_lt h.shared.fresh)]
  have hobj : 0 ∈ f.live → f'.sockbuf 0 = f.sockbuf 0 := fun h0 => by
    rw [sockbuf, sockbuf, hold 0 h0, hrep]
  refine ⟨⟨hshared, hrep ▸ h.sock, fun h0 => ?_, ?_, hreleased ▸ h.once, fun h0 b => ?_⟩, hmem, hreleased⟩
  · rw [hobj (hmem.mp h0)]
    exact h.sound (hmem.mp h0)
  · rw [hclosed, h.closed, if_neg (List.ne_nil_of_mem hi), hlive, if_neg (List.cons_ne_nil _ _)]
  · rw [hreleased, hold 0 (hmem.mp h0)]
    exact h.owed (hmem.mp h0) b

/-! ### Runs -/

/-- A destructor has returned: its flush has succeeded, and `::close`, where it was called. -/
def Op.Succeeds : Op → Except Thrown Int → Prop
  | .destroy _, r => ∃ v, r = .ok v
  | _,          _ => True

/-- The original goes last, or without a buffer. -/
def Op.Releases : Op → Family κ → Prop
  | .destroy 0, f => f.live = [0] ∨ (f.own 0).Bare
  | _,          _ => True

/-- **One operation**: the original goes, or nothing changes about what it owns once it has gone. -/
theorem Ledger.step (h : Ledger sd f) {op : Op} {r : Except Thrown Int} (hlive : op.object ∈ f.live)
    (hop : op.Succeeds r) (hcame : (op.exec K C f).result = some (r, f')) :
    Ledger sd f' ∧
      (op = .destroy 0 ∧ 0 ∉ f'.live ∧ ((∀ b, f'.released.count b = 1) ↔ op.Releases f) ∨
        op.Releases f ∧ (0 ∈ f'.live ↔ 0 ∈ f.live) ∧
          (0 ∉ f.live → ∀ b, f'.released.count b = f.released.count b)) := by
  cases op with
  | copy i =>
      obtain ⟨r', hret, -⟩ := Prog.map_result hcame
      have hf' : Family.copy i f = .ret () f' := by
        cases hret
        rfl
      obtain ⟨hledger, hmem, hreleased⟩ := h.copy hlive hf'
      exact ⟨hledger, .inr ⟨trivial, hmem, fun _ b => by rw [hreleased]⟩⟩
  | put i op =>
      obtain ⟨s, hs, rfl⟩ := through_result hcame
      exact ⟨h.back hlive (put_holds op (h.putSound hlive) hs),
        .inr ⟨trivial, Iff.rfl, fun _ _ => rfl⟩⟩
  | get i op =>
      obtain ⟨t, ht, rfl⟩ := throughGet_result hcame
      exact ⟨h.back hlive (get_holds op (h.putSound hlive) ht),
        .inr ⟨trivial, Iff.rfl, fun _ _ => rfl⟩⟩
  | shutdown i sh =>
      obtain ⟨r', hret, -⟩ := Prog.map_result hcame
      have hshuts := (keeps_shutdown i sh f).result hret
      obtain ⟨hledger, hcopy⟩ := h.shuts hlive hshuts
      refine ⟨hledger, .inr ⟨trivial, by rw [hshuts.live], fun h0 => hcopy ?_⟩⟩
      rintro rfl
      exact h0 hlive
  | destroy i =>
      -- a destructor flushes the put area, as a `put` does, before the object goes
      obtain ⟨v, rfl⟩ := hop
      obtain ⟨r', hret, hr⟩ := Prog.map_result hcame
      obtain ⟨u, rfl⟩ : ∃ u, r' = .ok u := by
        cases r' with
        | ok u => exact ⟨u, rfl⟩
        | error e => cases hr
      obtain ⟨_, s, hflush, hgone⟩ := destroy_ret (Outcome.result_eq_ok hret)
      have hholds := flush_holds (h.putSound hlive) hflush
      obtain ⟨hledger, hcopy, horiginal⟩ := (h.back hlive hholds).gone hlive hgone
      refine ⟨hledger, ?_⟩
      have hmem : 0 ∈ f'.live ↔ 0 ≠ i ∧ 0 ∈ f.live := by
        rw [hgone.live]
        exact h.shared.nodup.mem_erase_iff
      cases i with
      | zero =>
          refine .inl ⟨rfl, fun h0 => (hmem.mp h0).1 rfl, (horiginal rfl).trans (or_congr_right ?_)⟩
          show ((f.back 0 s).own 0).Bare ↔ _
          rw [bare_iff, bare_iff, buffers_back hholds]
      | succ n =>
          exact .inr ⟨trivial, by rw [hmem, and_iff_right (Nat.succ_ne_zero n).symm],
            fun _ => hcopy (Nat.succ_ne_zero n)⟩

theorem ofDesc_ledger (B : ℕ+) (sd : Int) (gbuf pbuf : Mem Byte) (y : Sys κ) :
    Ledger sd (ofDesc B sd gbuf pbuf y) := by
  refine ⟨(ofDesc_single B sd gbuf pbuf y).streaming.shared, rfl,
    fun _ => .inr (Sockbuf.ofDesc_writable B sd gbuf pbuf), rfl, fun b => Nat.zero_le _, fun _ b => ?_⟩
  cases b with
  | gbuf => rfl
  | pbuf => rfl

variable {es : List (Op × Except Thrown Int)}

/-- **A run**: while the original exists it has met the condition, and once it has gone its buffers
have been released exactly if it had. -/
theorem Ledger.run (h₀ : Ledger sd f₀) (h0 : 0 ∈ f₀.live)
    (hrun : Run K C (fun op r _ _ => op.Succeeds r) f₀ es f) :
    Ledger sd f ∧
      (0 ∈ f.live → Run K C (fun op r f _ => op.Succeeds r ∧ op.Releases f) f₀ es f) ∧
      (0 ∉ f.live → ((∀ b, f.released.count b = 1) ↔
        Run K C (fun op r f _ => op.Succeeds r ∧ op.Releases f) f₀ es f)) := by
  induction hrun with
  | start => exact ⟨h₀, fun _ => .start, fun hnot => absurd h0 hnot⟩
  | @step es f f' op r hrun hlive hop hcame ih =>
      obtain ⟨hledger, hmet, hgone⟩ := ih
      obtain ⟨hledger', hstep⟩ := hledger.step hlive hop hcame
      refine ⟨hledger', ?_⟩
      have step_iff : op.Releases f → (Run K C (fun op r f _ => op.Succeeds r ∧ op.Releases f) f₀
          (es ++ [(op, r)]) f' ↔ Run K C (fun op r f _ => op.Succeeds r ∧ op.Releases f) f₀ es f) := by
        intro hreleases
        refine ⟨fun h => ?_, fun h => .step h hlive ⟨hop, hreleases⟩ hcame⟩
        obtain ⟨f₁, h₁, -⟩ := h.concat_inv
        rwa [hrun.unique h₁]
      rcases hstep with ⟨rfl, hnot, hiff⟩ | ⟨hreleases, hmem, hsame⟩
      · refine ⟨fun h => absurd h hnot, fun _ => hiff.trans ⟨fun hreleases => ?_, fun h => ?_⟩⟩
        · exact (step_iff hreleases).mpr (hmet hlive)
        · obtain ⟨f₁, h₁, -, hmeets, -⟩ := h.concat_inv
          rw [hrun.unique h₁]
          exact hmeets.2
      · rw [step_iff hreleases, hmem]
        refine ⟨hmet, fun hnot => ?_⟩
        simp only [hsame hnot]
        exact hgone hnot

/-- **The ledger of a family.**  In every run from the construction of a sockbuf for a descriptor in
which the flushes and closes of the destructors succeed: the descriptor is not closed while an
object exists, and has been closed once when none does; and then each buffer has been released once
exactly if the original was the last to go, or had no buffer left when it went. -/
theorem released_iff (B : ℕ+) (sd : Int) (gbuf pbuf : Mem Byte) (y : Sys κ)
    (hrun : Run K C (fun op r _ _ => op.Succeeds r) (ofDesc B sd gbuf pbuf y) es f) :
    (f.live ≠ [] → f.closed = []) ∧ (f.live = [] → f.closed = [sd]) ∧
      (∀ b, f.released.count b ≤ 1) ∧
      (f.live = [] → ((∀ b, f.released.count b = 1) ↔
        Run K C (fun op r f _ => op.Succeeds r ∧ op.Releases f) (ofDesc B sd gbuf pbuf y) es f)) := by
  obtain ⟨hledger, -, hgone⟩ :=
    Ledger.run (ofDesc_ledger B sd gbuf pbuf y) (List.mem_singleton_self 0) hrun
  refine ⟨fun hne => ?_, fun hnil => ?_, hledger.once, fun hnil => hgone ?_⟩
  · rw [hledger.closed, if_neg hne]
  · rw [hledger.closed, if_pos hnil]
  · rw [hnil]
    exact List.not_mem_nil

/-- The copy goes first. -/
theorem released_iff_copy_first :
    ∃ f, Run (Kernel.smooth 1024) closes (fun op r _ _ => op.Succeeds r) sample
        [(.copy 0, .ok 0), (.destroy 1, .ok 0), (.destroy 0, .ok 0)] f ∧
      f.live = [] ∧ f.closed = [3] ∧ ∀ b, f.released.count b = 1 := by
  have h₁ : Run (Kernel.smooth 1024) closes (fun op r _ _ => op.Succeeds r) sample [(.copy 0, .ok 0)] _ :=
    .step .start (List.mem_singleton_self 0) trivial rfl
  have h₂ := h₁.snoc (.destroy 1) (.ok 0) List.mem_cons_self ⟨0, rfl⟩ rfl
  have h₃ := h₂.snoc (.destroy 0) (.ok 0) (List.mem_singleton_self 0) ⟨0, rfl⟩ rfl
  have hcond : Run (Kernel.smooth 1024) closes (fun op r f _ => op.Succeeds r ∧ op.Releases f) sample
      [(.copy 0, .ok 0)] _ := .step .start (List.mem_singleton_self 0) ⟨trivial, trivial⟩ rfl
  have hcond := hcond.snoc (.destroy 1) (.ok 0) List.mem_cons_self ⟨⟨0, rfl⟩, trivial⟩ rfl
  have hcond := hcond.snoc (.destroy 0) (.ok 0) (List.mem_singleton_self 0) ⟨⟨0, rfl⟩, .inl rfl⟩ rfl
  obtain ⟨-, hclosed, -, hreleased⟩ := released_iff 1024 3 (fun _ => 0) (fun _ => 0) _ h₃
  exact ⟨_, h₃, rfl, hclosed rfl, (hreleased rfl).mpr hcond⟩

/-- **The original goes first.**  The copy closes the descriptor, and has no buffer to delete. -/
theorem buffers_leaked :
    ∃ f, Run (Kernel.smooth 1024) closes (fun op r _ _ => op.Succeeds r) sample
        [(.copy 0, .ok 0), (.destroy 0, .ok 0), (.destroy 1, .ok 0)] f ∧
      f.live = [] ∧ f.closed = [3] ∧ f.released = [] := by
  have h₁ : Run (Kernel.smooth 1024) closes (fun op r _ _ => op.Succeeds r) sample [(.copy 0, .ok 0)] _ :=
    .step .start (List.mem_singleton_self 0) trivial rfl
  have h₂ := h₁.snoc (.destroy 0) (.ok 0) (List.mem_cons_of_mem _ (List.mem_singleton_self 0)) ⟨0, rfl⟩ rfl
  have h₃ := h₂.snoc (.destroy 1) (.ok 0) (List.mem_singleton_self 1) ⟨0, rfl⟩ rfl
  exact ⟨_, h₃, rfl, rfl, rfl⟩

end Family

end Socketpp
