import Socketpp.Sockbuf.Ledger

/-!
# Sockbuf — the areas

The representation invariant of the two areas (`Areas`): each is null, or its pointers are in order and
its buffer ends where the shared record says.  The record is shared and the pointers are each object's
own, but no operation changes the ends, and a copy has no area.

The invariant is what keeps the stores within the buffers: every store of `sync`, `overflow`, `xsputn`
and `underflow` begins at or behind the first byte and ends at `pend` or `gend` at the latest (`Keeping`).
`overflow (c)` stores behind a flush, which has left room (`overflow_keeping`).  `areas_sound` carries
both over all runs, also through operations that throw.
-/

namespace Socketpp
open Lib

/-- `eback () <= gptr () <= egptr () <= eback () + B`. -/
def GetArea.InOrder (B : Nat) (a : GetArea) : Prop := a.gptr ≤ a.egptr ∧ a.egptr ≤ B

/-- `pbase () <= pptr () <= epptr () = pbase () + B`. -/
def PutArea.InOrder (B : Nat) (p : PutArea) : Prop := p.pptr ≤ p.epptr ∧ p.epptr = B

namespace Sockbuf

variable {κ : Type} {K : Kernel κ} {B : Nat} {b b' : Sockbuf} {s s₁ s' : Proc Sockbuf κ}

/-- **The representation invariant**, for buffers of `B` bytes. -/
structure Areas (B : Nat) (b : Sockbuf) : Prop where
  gend : b.rep.gend = B
  pend : b.rep.pend = B
  get  : ∀ a, b.getArea = some a → a.InOrder B
  put  : ∀ p, b.putArea = some p → p.InOrder B

/-- From `b` to `b'` no cell behind the buffers has changed, and no area has come to be. -/
structure Stores (B : Nat) (b b' : Sockbuf) : Prop where
  get : ∀ a', b'.getArea = some a' → ∃ a, b.getArea = some a ∧ a.mem.SameFrom B a'.mem
  put : ∀ p', b'.putArea = some p' → ∃ p, b.putArea = some p ∧ p.mem.SameFrom B p'.mem

theorem Stores.refl (b : Sockbuf) : Stores B b b :=
  ⟨fun a h => ⟨a, h, .refl _⟩, fun p h => ⟨p, h, .refl _⟩⟩

theorem Stores.trans {b₁ : Sockbuf} (h : Stores B b b₁) (h' : Stores B b₁ b') : Stores B b b' := by
  refine ⟨fun a' ha' => ?_, fun p' hp' => ?_⟩
  · obtain ⟨a₁, ha₁, hm'⟩ := h'.get a' ha'
    obtain ⟨a, ha, hm⟩ := h.get a₁ ha₁
    exact ⟨a, ha, hm.trans hm'⟩
  · obtain ⟨p₁, hp₁, hm'⟩ := h'.put p' hp'
    obtain ⟨p, hp, hm⟩ := h.put p₁ hp₁
    exact ⟨p, hp, hm.trans hm'⟩

/-- What every operation leaves. -/
structure Keeping (B : Nat) (s s' : Proc Sockbuf κ) : Prop where
  areas  : Areas B s'.obj
  stores : Stores B s.obj s'.obj

theorem Keeping.refl (h : Areas B s.obj) : Keeping B s s := ⟨h, .refl _⟩

theorem Keeping.trans (h : Keeping B s s₁) (h' : Keeping B s₁ s') : Keeping B s s' :=
  ⟨h'.areas, h.stores.trans h'.stores⟩

/-- A call leaves the object. -/
theorem Keeping.of_obj (hs : Areas B s.obj) (h : s'.obj = s.obj) : Keeping B s s' :=
  ⟨h ▸ hs, h ▸ Stores.refl _⟩

/-- A change of the put area within its buffer. -/
theorem Keeping.onPut (hs : Areas B s.obj) {f : PutArea → PutArea}
    (hf : ∀ p, s.obj.putArea = some p → (f p).InOrder B ∧ p.mem.SameFrom B (f p).mem) :
    Keeping B s (s.onObj (Sockbuf.onPut f)) := by
  refine ⟨⟨hs.gend, hs.pend, hs.get, fun p' hp' => ?_⟩, (Stores.refl s.obj).get, fun p' hp' => ?_⟩
  · obtain ⟨p, hp, rfl⟩ := Option.map_eq_some_iff.mp hp'
    exact (hf p hp).1
  · obtain ⟨p, hp, rfl⟩ := Option.map_eq_some_iff.mp hp'
    exact ⟨p, hp, (hf p hp).2⟩

/-- A change of the get area within its buffer. -/
theorem Keeping.onGet (hs : Areas B s.obj) {f : GetArea → GetArea}
    (hf : ∀ a, s.obj.getArea = some a → (f a).InOrder B ∧ a.mem.SameFrom B (f a).mem) :
    Keeping B s (s.onObj (Sockbuf.onGet f)) := by
  refine ⟨⟨hs.gend, hs.pend, fun a' ha' => ?_, hs.put⟩, fun a' ha' => ?_, (Stores.refl s.obj).put⟩
  · obtain ⟨a, ha, rfl⟩ := Option.map_eq_some_iff.mp ha'
    exact (hf a ha).1
  · obtain ⟨a, ha, rfl⟩ := Option.map_eq_some_iff.mp ha'
    exact ⟨a, ha, (hf a ha).2⟩

theorem ofDesc_areas (B : ℕ+) (sd : Int) (gbuf pbuf : Mem Byte) : Areas B (ofDesc B sd gbuf pbuf) := by
  refine ⟨rfl, rfl, fun a ha => ?_, fun p hp => ?_⟩
  · cases ha
    exact ⟨Nat.le_refl _, Nat.le_refl _⟩
  · cases hp
    exact ⟨Nat.zero_le _, rfl⟩

/-! ### Output -/

/-- The recovery of `sync` moves the bytes not written to `pbase ()`. -/
theorem syncCatch_keeping {e : Thrown} (hs : Areas B s.obj)
    (he : ∀ k, e = .int k → k ≤ s.obj.pending.length) :
    (syncCatch e s).Sat (fun _ _ => False) (fun _ s' => Keeping B s s') := by
  cases e with
  | err e op spec => exact .refl hs
  | sockoob => exact .refl hs
  | int k =>
      simp only [syncCatch, Prog.bind_apply, Prog.modify_apply, Prog.get_apply, Prog.throw_apply,
        Outcome.andThen_ret, Outcome.sat_thrown]
      by_cases h0 : k = 0
      · exact Keeping.of_obj hs (by simp [Proc.onObj, h0])
      · have hk := Keeping.onPut hs (f := fun p => p.keepUnwritten k s.obj.rep.pend) fun p hp => ?_
        · simpa only [Proc.onObj, h0, if_false] using hk
        · have hlen := he k rfl
          rw [pending_eq hp, Mem.length_slice] at hlen
          obtain ⟨hle, hend⟩ := hs.put p hp
          refine ⟨⟨?_, hs.pend⟩, Mem.sameFrom_moveDown _ _ ?_⟩
          · show p.pptr - k ≤ s.obj.rep.pend
            rw [hs.pend]
            omega
          · omega

/-- **`sync`** leaves the area empty, or recovers. -/
theorem sync_keeping (hs : Areas B s.obj) :
    (sync K s).Sat (fun _ s' => Keeping B s s' ∧ ∀ p, s'.obj.putArea = some p → p.pptr = 0)
      (fun _ s' => Keeping B s s') := by
  simp only [sync, Prog.bind_apply, Prog.get_apply, Outcome.andThen_ret]
  cases hp : s.obj.putArea with
  | none => exact ⟨.refl hs, fun p h => by rw [hp] at h; cases h⟩
  | some p =>
      simp only [Prog.ite_apply, Prog.bind_apply]
      split
      · simp only [Prog.tryCatch_apply, ← pending_eq hp]
        refine Outcome.Sat.andThen (Q := fun _ s₁ => s₁.obj = s.obj) (E := fun _ s' => Keeping B s s')
          ((write_sat s.obj.pending s).handle (fun r s₁ h => h.2.1) fun e s₁ he => ?_) ?_ fun _ _ h => h
        · have hobj : s₁.obj = s.obj := by
            rcases he.1 with ⟨k, -, -, h⟩ | ⟨-, h⟩
            · exact h.1
            · exact h.1
          have hk : ∀ k, e = .int k → k ≤ s₁.obj.pending.length := by
            rintro k rfl
            rcases he.1 with ⟨k', hk', h, -⟩ | ⟨⟨n, op, spec, h⟩, -⟩
            · cases h
              exact hobj ▸ Nat.le_of_lt hk'
            · cases h
          exact (syncCatch_keeping (hobj ▸ hs) hk).mono (fun _ _ h => h.elim)
            fun _ _ h => (Keeping.of_obj hs hobj).trans h
        · intro _ s₁ hobj
          have hs₁ : Areas B s₁.obj := hobj ▸ hs
          have hk := Keeping.onPut hs₁ (f := fun p => p.setp s₁.obj.rep.pend)
            fun p _ => ⟨⟨Nat.zero_le _, hs₁.pend⟩, .refl _⟩
          refine ⟨(Keeping.of_obj hs hobj).trans hk, fun p' hp' => ?_⟩
          obtain ⟨p, -, rfl⟩ := Option.map_eq_some_iff.mp hp'
          rfl
      · rename_i hc
        refine ⟨.refl hs, fun p' h' => ?_⟩
        rw [hp] at h'
        cases h'
        have hle := (hs.put p hp).1
        omega

/-- `*pptr () = c; pbump (1)`, where there is room. -/
theorem putc_keeping (hs : Areas B s.obj) {c : Byte} (hroom : ∀ p, s.obj.putArea = some p → p.pptr < B) :
    Keeping B s (s.onObj (Sockbuf.onPut fun p => p.putc c)) :=
  .onPut hs fun p hp => ⟨⟨(hs.put p hp).2 ▸ hroom p hp, (hs.put p hp).2⟩, Mem.sameFrom_write _ _ (hroom p hp)⟩

/-- The byte `c` has been stored within the buffer, in front of `pptr ()`. -/
def PutAt (B : Nat) (c : Byte) (b : Sockbuf) : Prop :=
  ∀ p, b.putArea = some p → ∃ i, p.pptr = i + 1 ∧ i < B ∧ p.mem i = c

/-- **`overflow (c)`**: where the area was full, its flush has left room for the store. -/
theorem overflow_keeping (hB : 0 < B) (hs : Areas B s.obj) (c : Int) :
    (overflow K c s).Sat
      (fun _ s' => Keeping B s s' ∧ (c ≠ eofValue → PutAt B (UInt8.ofInt c) s'.obj))
      (fun _ s' => Keeping B s s') := by
  simp only [overflow, Prog.bind_apply, Prog.get_apply, Outcome.andThen_ret]
  cases hp : s.obj.putArea with
  | none => exact ⟨.refl hs, fun _ p h => by rw [hp] at h; cases h⟩
  | some p =>
      simp only [Prog.ite_apply]
      split
      · rename_i hc
        exact (sync_keeping hs).mono (fun _ _ h => ⟨h.1, fun hne => absurd hc hne⟩) fun _ _ h => h
      · have store : ∀ s₁ : Proc Sockbuf κ, Keeping B s s₁ →
            (∀ p, s₁.obj.putArea = some p → p.pptr < B) →
            Keeping B s (s₁.onObj (Sockbuf.onPut fun p => p.putc (UInt8.ofInt c))) ∧
              (c ≠ eofValue → PutAt B (UInt8.ofInt c)
                (s₁.onObj (Sockbuf.onPut fun p => p.putc (UInt8.ofInt c))).obj) := by
          intro s₁ h₁ hroom
          refine ⟨h₁.trans (putc_keeping h₁.areas hroom), fun _ p' hp' => ?_⟩
          obtain ⟨p, hp, rfl⟩ := Option.map_eq_some_iff.mp hp'
          exact ⟨p.pptr, rfl, hroom p hp, Mem.write_same _ _ _⟩
        split
        · refine (sync_keeping hs).andThen (fun _ s₁ h₁ => ?_) fun _ _ h => h
          exact store s₁ h₁.1 fun p hp => (h₁.2 p hp).symm ▸ hB
        · rename_i hne
          refine store s (.refl hs) fun p' hp' => ?_
          rw [hp] at hp'
          cases hp'
          obtain ⟨hle, hend⟩ := hs.put p hp
          omega

theorem sputc_keeping (hB : 0 < B) (hs : Areas B s.obj) (c : Byte) :
    (sputc K c s).Leaves (Keeping B s) := by
  have hover := ((overflow_keeping (K := K) hB hs c.toNat).mono (fun _ _ h => h.1) fun _ _ h => h).leaves
  simp only [sputc, Prog.bind_apply, Prog.get_apply, Outcome.andThen_ret]
  cases hp : s.obj.putArea with
  | none => exact hover
  | some p =>
      simp only [Prog.ite_apply]
      split
      · rename_i hlt
        refine putc_keeping hs fun p' hp' => ?_
        rw [hp] at hp'
        cases hp'
        exact (hs.put p hp).2 ▸ hlt
      · exact hover

/-- `memcpy (pptr (), s, n); pbump (n)`, where there is room. -/
theorem fill_keeping (hs : Areas B s.obj) (xs : List Byte) (hroom : xs.length ≤ s.obj.room) :
    Keeping B s (s.onObj (Sockbuf.onPut fun p => p.fill xs)) := by
  refine .onPut hs fun p hp => ?_
  simp only [room, hp] at hroom
  obtain ⟨hle, hend⟩ := hs.put p hp
  exact ⟨⟨by simp only [PutArea.fill]; omega, hend⟩, Mem.sameFrom_store _ (by omega)⟩

theorem xsputn_keeping (hB : 0 < B) (hs : Areas B s.obj) (bs : List Byte) :
    (xsputn K bs s).Leaves (Keeping B s) := by
  have levels : ∀ (depth : Nat) (bs : List Byte) (s : Proc Sockbuf κ), Areas B s.obj →
      (xsputnRec K depth bs s).Leaves (Keeping B s) := by
    intro depth
    induction depth with
    | zero => intro bs s _; trivial
    | succ depth ih =>
        intro bs s hs
        simp only [xsputnRec, Prog.bind_apply, Prog.get_apply, Outcome.andThen_ret, Prog.ite_apply,
          Prog.modify_apply]
        split
        · rename_i hle
          exact fill_keeping hs bs hle
        · have h₁ := fill_keeping hs (bs.take s.obj.room) (by rw [List.length_take]; omega)
          have hover := ((overflow_keeping (K := K) hB h₁.areas eofValue).mono (fun _ _ h => h.1)
            fun _ _ h => h).leaves
          refine (hover.mono fun _ h => h₁.trans h).andThen fun v s₂ h₂ => ?_
          simp only [Prog.ite_apply, Prog.bind_apply]
          split
          · exact ((ih _ s₂ h₂.areas).mono fun _ h => h₂.trans h).andThen fun _ _ h => h
          · exact h₂
  exact levels _ bs s hs

/-! ### Input -/

/-- **`underflow`** stores what `::read` has given from `eback ()` on, and leaves a byte to take where it
returns one. -/
theorem underflow_keeping (hs : Areas B s.obj) :
    (underflow K s).Sat
      (fun v s' => Keeping B s s' ∧ (v ≠ eofValue → ∀ a, s'.obj.getArea = some a → a.gptr < a.egptr))
      (fun _ s' => Keeping B s s') := by
  simp only [underflow, Prog.bind_apply, Prog.get_apply, Outcome.andThen_ret]
  cases ha : s.obj.getArea with
  | none => exact ⟨.refl hs, fun h => absurd rfl h⟩
  | some a =>
      simp only [Prog.ite_apply, Prog.bind_apply]
      split
      · rename_i hlt
        refine ⟨.refl hs, fun _ a' ha' => ?_⟩
        rw [ha] at ha'
        cases ha'
        exact hlt
      · refine (read_sat s.obj.rep.gend s).andThen (fun bs s₁ h₁ => ?_) fun _ _ h => .of_obj hs h.obj
        obtain ⟨hg, hle, -⟩ := h₁
        rw [hs.gend] at hle
        have h₁ : Keeping B s s₁ := .of_obj hs hg.obj
        cases bs with
        | nil => exact ⟨h₁, fun h => absurd rfl h⟩
        | cons c l =>
            have hk : Keeping B s₁ (s₁.onObj (Sockbuf.onGet fun a => a.refill (c :: l))) :=
              .onGet h₁.areas fun a _ => ⟨⟨Nat.zero_le _, hle⟩,
                Mem.sameFrom_store _ ((Nat.zero_add _).symm ▸ hle)⟩
            refine ⟨h₁.trans hk, fun _ a' ha' => ?_⟩
            obtain ⟨a₁, -, rfl⟩ := Option.map_eq_some_iff.mp ha'
            exact Nat.succ_pos l.length

/-- `gbump (n)`, over bytes that are there. -/
theorem gbump_keeping (hs : Areas B s.obj) {n : Nat}
    (hn : ∀ a, s.obj.getArea = some a → a.gptr + n ≤ a.egptr) :
    Keeping B s (s.onObj (Sockbuf.onGet fun a => a.gbump n)) :=
  .onGet hs fun a ha => ⟨⟨hn a ha, (hs.get a ha).2⟩, .refl _⟩

theorem uflow_keeping (hs : Areas B s.obj) : (uflow K s).Leaves (Keeping B s) := by
  refine Outcome.Sat.leaves ((underflow_keeping hs).andThen (fun v s₁ h₁ => ?_) fun _ _ h => h)
  simp only [Prog.ite_apply]
  split
  · exact h₁.1
  · rename_i hv
    exact h₁.1.trans (gbump_keeping h₁.1.areas (h₁.2 hv))

theorem xsgetn_keeping {t : Getting κ} (hs : Areas B t.proc.obj) (n : Nat) :
    (xsgetn K n t).Leaves fun t' => Keeping B t.proc t'.proc := by
  have hcopy : ∀ (t : Getting κ) (n : Nat), Areas B t.proc.obj → n ≤ t.proc.obj.showmanyc →
      Keeping B t.proc (copyOut n t).proc := by
    intro t n hs hn
    cases ha : t.proc.obj.getArea with
    | none =>
        rw [copyOut, ha]
        exact .refl hs
    | some a =>
        rw [copyOut, ha]
        refine gbump_keeping hs fun a' ha' => ?_
        rw [ha] at ha'
        cases ha'
        have hle := (hs.get a ha).1
        simp only [showmanyc, ha] at hn
        split at hn <;> omega
  have levels : ∀ (depth n : Nat) (t : Getting κ), Areas B t.proc.obj →
      (xsgetnRec K depth n t).Leaves fun t' => Keeping B t.proc t'.proc := by
    intro depth
    induction depth with
    | zero => intro n t _; trivial
    | succ depth ih =>
        intro n t hs
        simp only [xsgetnRec, Prog.bind_apply, Prog.get_apply, Outcome.andThen_ret, Prog.ite_apply,
          Prog.modify_apply]
        split
        · rename_i hle
          exact hcopy t n hs hle
        · have h₁ := hcopy t _ hs (Nat.le_refl _)
          have hunder := (within_sat (underflow_keeping (K := K) h₁.areas)).mono
            (fun _ _ h => h₁.trans h.1.1) fun _ _ h => h₁.trans h.1
          refine (Outcome.Sat.leaves hunder).andThen fun v t₂ h₂ => ?_
          simp only [Prog.ite_apply, Prog.bind_apply]
          split
          · exact ((ih _ t₂ h₂.areas).mono fun _ h => h₂.trans h).andThen fun _ _ h => h
          · exact h₂
  exact levels _ n t hs

/-! ### Operations -/

/-- A change of the other fields of the shared record. -/
theorem Keeping.of_rep (hs : Areas B s.obj) (hg : s'.obj.rep.gend = s.obj.rep.gend)
    (hp : s'.obj.rep.pend = s.obj.rep.pend) (hget : s'.obj.getArea = s.obj.getArea)
    (hput : s'.obj.putArea = s.obj.putArea) : Keeping B s s' :=
  ⟨⟨hg.trans hs.gend, hp.trans hs.pend, hget ▸ hs.get, hput ▸ hs.put⟩,
    ⟨hget ▸ (Stores.refl s.obj).get, hput ▸ (Stores.refl s.obj).put⟩⟩

theorem put_keeping (hB : 0 < B) (hs : Areas B s.obj) (op : PutOp) :
    (op.exec K s).Leaves (Keeping B s) := by
  cases op with
  | sputc c => exact sputc_keeping hB hs c
  | overflow c => exact ((overflow_keeping hB hs c).mono (fun _ _ h => h.1) fun _ _ h => h).leaves
  | sputn bs => exact Prog.leaves_map _ (xsputn_keeping hB hs bs)
  | sync => exact ((sync_keeping hs).mono (fun _ _ h => h.1) fun _ _ h => h).leaves
  | sendtimeout wp => exact .of_rep hs rfl rfl rfl rfl

theorem get_keeping {t : Getting κ} (hs : Areas B t.proc.obj) (op : GetOp) :
    (op.exec K t).Leaves fun t' => Keeping B t.proc t'.proc := by
  have peek : (within (underflow K) t).Leaves fun t' => Keeping B t.proc t'.proc :=
    ((within_sat (underflow_keeping hs)).mono (fun _ _ h => h.1.1) fun _ _ h => h.1).leaves
  have bump : (within (uflow K) t).Leaves fun t' => Keeping B t.proc t'.proc :=
    Outcome.leaves_mapState.mpr (uflow_keeping hs)
  cases op with
  | sgetc => rw [GetOp.exec, sgetc_eq]; exact peek
  | underflow => exact peek
  | sbumpc => rw [GetOp.exec, sbumpc_eq]; exact bump
  | uflow => exact bump
  | sgetn n => exact Prog.leaves_map _ (xsgetn_keeping hs n)
  | recvtimeout wp => exact .of_rep hs rfl rfl rfl rfl
  | oob b => exact .of_rep hs rfl rfl rfl rfl

end Sockbuf

/-! ### Families -/

namespace Family

variable {κ : Type} {K : Kernel κ} {C : Closing κ} {B : Nat} {f f₁ f' : Family κ} {i : Nat}
  {P : Op → Except Thrown Int → Family κ → Family κ → Prop} {es : List (Op × Except Thrown Int)}

/-- What an operation on the object `i` leaves: it has stored within the buffers of `i` only. -/
structure KeepsAreas (B i : Nat) (f f' : Family κ) : Prop where
  areas  : ∀ j, Sockbuf.Areas B (f'.sockbuf j)
  stores : Sockbuf.Stores B (f.sockbuf i) (f'.sockbuf i)
  others : ∀ j, j ≠ i → f'.own j = f.own j
  live   : ∀ j ∈ f'.live, j ∈ f.live
  fresh  : f'.fresh = f.fresh

theorem KeepsAreas.trans (h : KeepsAreas B i f f₁) (h' : KeepsAreas B i f₁ f') : KeepsAreas B i f f' :=
  ⟨h'.areas, h.stores.trans h'.stores, fun j hj => (h'.others j hj).trans (h.others j hj),
    fun j hj => h.live j (h'.live j hj), h'.fresh.trans h.fresh⟩

/-- A step that leaves the objects. -/
theorem KeepsAreas.of_own (hs : ∀ j, Sockbuf.Areas B (f.sockbuf j)) (hrep : f'.rep = f.rep)
    (hown : f'.own = f.own) (hlive : ∀ j ∈ f'.live, j ∈ f.live) (hfresh : f'.fresh = f.fresh) :
    KeepsAreas B i f f' := by
  have hobj : ∀ j, f'.sockbuf j = f.sockbuf j := fun j => by rw [sockbuf, sockbuf, hrep, hown]
  exact ⟨fun j => hobj j ▸ hs j, hobj i ▸ .refl _, fun j _ => congrFun hown j, hlive, hfresh⟩

/-- A method of the object `i`. -/
theorem KeepsAreas.back (hs : ∀ j, Sockbuf.Areas B (f.sockbuf j)) {s : Proc Sockbuf κ}
    (h : Sockbuf.Keeping B (f.proc i) s) : KeepsAreas B i f (f.back i s) := by
  have hself : (f.back i s).sockbuf i = s.obj := congrArg Proc.obj (proc_back s)
  refine ⟨fun j => ?_, hself ▸ h.stores, fun j hj => own_back s hj, fun _ hj => hj, rfl⟩
  rcases eq_or_ne j i with rfl | hj
  · exact hself ▸ h.areas
  · have hown : (f.back i s).own j = f.own j := own_back s hj
    refine ⟨h.areas.gend, h.areas.pend, fun a ha => (hs j).get a ?_, fun p hp => (hs j).put p ?_⟩
    · rwa [sockbuf, hown] at ha
    · rwa [sockbuf, hown] at hp

/-- The relation of a step that the invariant goes through. -/
def AreasStep (B i : Nat) (f f' : Family κ) : Prop :=
  (∀ j, Sockbuf.Areas B (f.sockbuf j)) → KeepsAreas B i f f'

theorem AreasStep.refl (f : Family κ) : AreasStep B i f f := fun hs =>
  .of_own hs rfl rfl (fun _ hj => hj) rfl

theorem AreasStep.trans (a b c : Family κ) (h : AreasStep B i a b) (h' : AreasStep B i b c) :
    AreasStep B i a c := fun hs => (h hs).trans (h' (h hs).areas)

theorem keeps_through_areas {α : Type} {p : SockM κ α}
    (h : ∀ s, Sockbuf.Areas B s.obj → (p s).Leaves (Sockbuf.Keeping B s)) :
    Prog.Keeps (AreasStep B i) (through i p) := by
  intro f
  rw [through, Prog.zoom_apply, Outcome.leaves_mapState]
  have hleaves := Outcome.leaves_imp (A := ∀ j, Sockbuf.Areas B (f.sockbuf j))
    fun hs => h (f.proc i) (hs i)
  exact hleaves.mono fun s hk hs => .back hs (hk hs)

theorem keeps_modify_areas {g : Family κ → Family κ} (hrep : ∀ f, (g f).rep = f.rep)
    (hown : ∀ f, (g f).own = f.own) (hlive : ∀ f, ∀ j ∈ (g f).live, j ∈ f.live)
    (hfresh : ∀ f, (g f).fresh = f.fresh) :
    Prog.Keeps (AreasStep B i) (modify g : FamilyM κ PUnit) :=
  .modify fun f hs => .of_own hs (hrep f) (hown f) (hlive f) (hfresh f)

theorem keeps_deleteGet_areas : Prog.Keeps (AreasStep B i) (deleteGet (κ := κ) i) :=
  keeps_modify_areas (fun _ => rfl) (fun _ => rfl) (fun _ _ h => h) fun _ => rfl

theorem keeps_deletePut_areas : Prog.Keeps (AreasStep B i) (deletePut (κ := κ) i) :=
  keeps_modify_areas (fun _ => rfl) (fun _ => rfl) (fun _ _ h => h) fun _ => rfl

theorem keeps_shutdown_areas (i : Nat) (sh : Shuthow) :
    Prog.Keeps (AreasStep B i) (Family.shutdown K i sh) := by
  have hcall : ∀ sh, Prog.Keeps (AreasStep B i) (through i (Sockbuf.shutdownCall K sh)) := fun sh =>
    keeps_through_areas fun s hs =>
      (Sockbuf.shutdownCall_leaves sh s).mono fun _ h => .of_obj hs h.obj
  have hget : Prog.Keeps (AreasStep B i) (dropGet (κ := κ) i) := by
    refine .bind AreasStep.trans keeps_deleteGet_areas fun _ => keeps_through_areas fun s hs => ?_
    exact ⟨⟨hs.gend, hs.pend, nofun, hs.put⟩, nofun, (Sockbuf.Stores.refl _).put⟩
  have hput : Prog.Keeps (AreasStep B i) (dropPut (κ := κ) i) := by
    refine .bind AreasStep.trans keeps_deletePut_areas fun _ => keeps_through_areas fun s hs => ?_
    exact ⟨⟨hs.gend, hs.pend, hs.get, nofun⟩, (Sockbuf.Stores.refl _).get, nofun⟩
  have hread : Prog.Keeps (AreasStep B i) (shutdownRead K i) :=
    .bind AreasStep.trans hget fun _ => hcall _
  have hwrite : Prog.Keeps (AreasStep B i) (shutdownWrite K i) :=
    .bind AreasStep.trans hput fun _ => hcall _
  cases sh with
  | shut_read => exact hread
  | shut_write => exact hwrite
  | shut_readwrite =>
      exact .bind AreasStep.trans hread fun _ => .bind AreasStep.trans hwrite fun _ => hcall _

theorem keeps_destroy_areas (hB : 0 < B) (i : Nat) :
    Prog.Keeps (AreasStep B i) (Family.destroy K C i) := by
  have hclose : Prog.Keeps (AreasStep B i) (close C i) := by
    intro f
    rw [close, Prog.bind_apply, Prog.get_apply, Outcome.andThen_ret]
    rcases C f.sys.kern f.rep.sock with ⟨r, k⟩
    cases r with
    | ok u => exact fun hs => .of_own hs rfl rfl (fun _ h => h) rfl
    | error e => exact fun hs => .of_own hs rfl rfl (fun _ h => h) rfl
  have hgone : Prog.Keeps (AreasStep B i)
      (modify fun f => { f with live := f.live.erase i } : FamilyM κ PUnit) :=
    keeps_modify_areas (fun _ => rfl) (fun _ => rfl) (fun _ _ h => List.mem_of_mem_erase h) fun _ => rfl
  refine .bind AreasStep.trans (keeps_through_areas fun s hs => ?_) fun _ => ?_
  · exact ((Sockbuf.overflow_keeping hB hs eofValue).mono (fun _ _ h => h.1) fun _ _ h => h).leaves
  · refine .bind AreasStep.trans (.get AreasStep.refl) fun f => ?_
    refine .ite ?_ hgone
    exact .bind AreasStep.trans keeps_deletePut_areas fun _ =>
      .bind AreasStep.trans keeps_deleteGet_areas fun _ => .bind AreasStep.trans hclose fun _ => hgone

/-! ### Runs -/

/-- Every object is in order, and the objects that exist are older than the next one. -/
structure InOrder (B : Nat) (f : Family κ) : Prop where
  areas : ∀ i, Sockbuf.Areas B (f.sockbuf i)
  below : ∀ i ∈ f.live, i < f.fresh

/-- An operation stores within the buffers of its own object.  What `sgetn` hands out, it stores in its
caller's. -/
structure StoresWithin (B : Nat) (op : Op) (f f' : Family κ) : Prop where
  stores : Sockbuf.Stores B (f.sockbuf op.object) (f'.sockbuf op.object)
  others : ∀ j ∈ f.live, j ≠ op.object → f'.own j = f.own j

theorem KeepsAreas.within {op : Op} (h : KeepsAreas B op.object f f') (hs : InOrder B f) :
    InOrder B f' ∧ StoresWithin B op f f' :=
  ⟨⟨h.areas, fun j hj => h.fresh ▸ hs.below j (h.live j hj)⟩, h.stores, fun j _ hne => h.others j hne⟩

/-- One more copy, without areas. -/
theorem InOrder.copy (hs : InOrder B f) (hi : i ∈ f.live) (hret : Family.copy i f = .ret () f') :
    InOrder B f' ∧ StoresWithin B (.copy i) f f' := by
  cases hret
  have hold : ∀ j ∈ f.live, Function.update f.own f.fresh ⟨none, none, ""⟩ j = f.own j :=
    fun j hj => Function.update_of_ne (Nat.ne_of_lt (hs.below j hj)) ..
  refine ⟨⟨fun j => ?_, ?_⟩, ?_, fun j hj _ => hold j hj⟩
  · have hrep := hs.areas i
    by_cases hj : j = f.fresh
    · subst hj
      exact ⟨hrep.gend, hrep.pend, by simp [sockbuf], by simp [sockbuf]⟩
    · have hget := (hs.areas j).get
      have hput := (hs.areas j).put
      exact ⟨hrep.gend, hrep.pend, by simpa [sockbuf, hj] using hget, by simpa [sockbuf, hj] using hput⟩
  · refine List.forall_mem_cons.mpr ⟨Nat.lt_succ_self _, fun j hj => ?_⟩
    exact Nat.lt_succ_of_lt (hs.below j hj)
  · have hobj := hold i hi
    refine ⟨fun a ha => ⟨a, ?_, .refl _⟩, fun p hp => ⟨p, ?_, .refl _⟩⟩
    · simpa only [Op.object, sockbuf, hobj] using ha
    · simpa only [Op.object, sockbuf, hobj] using hp

/-- **One operation**, also where it throws. -/
theorem InOrder.step (hB : 0 < B) (hs : InOrder B f) {op : Op} {r : Except Thrown Int}
    (hlive : op.object ∈ f.live) (hcame : (op.exec K C f).result = some (r, f')) :
    InOrder B f' ∧ StoresWithin B op f f' := by
  have kept : ∀ {p : FamilyM κ Unit} {r' : Except Thrown Unit}, Prog.Keeps (AreasStep B op.object) p →
      (p f).result = some (r', f') → InOrder B f' ∧ StoresWithin B op f f' := fun hp hr =>
    ((hp f).result hr hs.areas).within hs
  cases op with
  | copy i =>
      obtain ⟨r', hret, -⟩ := Prog.map_result hcame
      refine hs.copy hlive ?_
      cases hret
      rfl
  | put i op =>
      have hk := keeps_through_areas (i := i) fun s hs => Sockbuf.put_keeping (K := K) hB hs op
      exact ((hk f).result hcame hs.areas).within hs
  | get i op =>
      obtain ⟨t, ht, rfl⟩ := throughGet_result hcame
      have hk := (Sockbuf.get_keeping (K := K) (t := ⟨f.proc i, []⟩) (hs.areas i) op).result ht
      have hkeeps : KeepsAreas B (Op.get i op).object f (f.back i t.proc) := .back hs.areas hk
      exact hkeeps.within hs
  | shutdown i sh =>
      obtain ⟨r', hret, -⟩ := Prog.map_result hcame
      exact kept (keeps_shutdown_areas i sh) hret
  | destroy i =>
      obtain ⟨r', hret, -⟩ := Prog.map_result hcame
      exact kept (keeps_destroy_areas hB i) hret

theorem ofDesc_inOrder (B : ℕ+) (sd : Int) (gbuf pbuf : Mem Byte) (y : Sys κ) :
    InOrder B (ofDesc B sd gbuf pbuf y) := by
  refine ⟨fun _ => Sockbuf.ofDesc_areas B sd gbuf pbuf, fun i hi => ?_⟩
  obtain rfl := List.mem_singleton.mp hi
  exact Nat.one_pos

theorem InOrder.run {f₀ : Family κ} (hB : 0 < B) (h₀ : InOrder B f₀) (hrun : Run K C P f₀ es f) :
    InOrder B f := by
  induction hrun with
  | start => exact h₀
  | step _ hlive _ hcame ih => exact (ih.step hB hlive hcame).1

/-- **The representation invariant of the areas.**  In every family reached from the construction of a
sockbuf, by any operations on it and on its copies, those that throw included: the areas of every object
are null or in order and end where the shared record says; whatever the next operation comes to, it
stores within the buffers of its own object; and where that is `overflow (c)`, the byte it stores behind
its flush lies within the buffer. -/
theorem areas_sound (B : ℕ+) (sd : Int) (gbuf pbuf : Mem Byte) (y : Sys κ)
    (hrun : Run K C P (ofDesc B sd gbuf pbuf y) es f) :
    (∀ i ∈ f.live, Sockbuf.Areas B (f.sockbuf i)) ∧
      (∀ op r f', op.object ∈ f.live → (op.exec K C f).result = some (r, f') → StoresWithin B op f f') ∧
      ∀ i c v f', i ∈ f.live → c ≠ eofValue →
        ((Op.put i (.overflow c)).exec K C f).result = some (.ok v, f') →
        Sockbuf.PutAt B (UInt8.ofInt c) (f'.sockbuf i) := by
  have hs := InOrder.run B.pos (ofDesc_inOrder B sd gbuf pbuf y) hrun
  refine ⟨fun i _ => hs.areas i, fun op r f' hlive hcame => (hs.step B.pos hlive hcame).2, ?_⟩
  intro i c v f' _ hc hcame
  obtain ⟨s, hover, rfl⟩ := through_result hcame
  have hsat := Sockbuf.overflow_keeping (K := K) (s := f.proc i) B.pos (hs.areas i) c
  have hput := (hsat.ret (Outcome.result_eq_ok hover)).2 hc
  rwa [← congrArg Proc.obj (proc_back (f := f) (i := i) s)] at hput

/-- Buffers of two bytes, both full: the flush of `overflow` makes room for the third. -/
theorem areas_sound_full :
    ∃ f, Run (Kernel.smooth 1024) closes (fun _ _ _ _ => True)
        (ofDesc 2 3 (fun _ => 0) (fun _ => 0) ⟨⟨[], ()⟩, 0, []⟩)
        [(.put 0 (.sputc 97), .ok 97), (.put 0 (.sputc 98), .ok 98)] f ∧
      (f.sockbuf 0).pending = [97, 98] ∧
      ∃ f', ((Op.put 0 (.overflow 99)).exec (Kernel.smooth 1024) closes f).result = some (.ok 99, f') ∧
        (f'.sockbuf 0).pending = [99] ∧ Sockbuf.PutAt 2 99 (f'.sockbuf 0) := by
  have h₁ : Run (Kernel.smooth 1024) closes (fun _ _ _ _ => True)
      (ofDesc 2 3 (fun _ => 0) (fun _ => 0) ⟨⟨[], ()⟩, 0, []⟩) [(.put 0 (.sputc 97), .ok 97)] _ :=
    .step .start (List.mem_singleton_self 0) trivial rfl
  have h₂ := h₁.snoc (.put 0 (.sputc 98)) (.ok 98) (List.mem_singleton_self 0) trivial rfl
  obtain ⟨-, -, hput⟩ := areas_sound 2 3 (fun _ => 0) (fun _ => 0) _ h₂
  exact ⟨_, h₂, rfl, _, rfl, rfl, hput 0 99 99 _ (List.mem_singleton_self 0) (by decide) rfl⟩

end Family

end Socketpp
