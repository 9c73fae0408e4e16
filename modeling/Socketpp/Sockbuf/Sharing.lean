import Socketpp.Sockbuf.Methods

/-!
# Sockbuf — copies and the stream

A copy has neither a put nor a get area, so a put through it accepts nothing, and a get through it
obtains nothing.  What is put through the original is handed to the kernel once, in whatever order
the objects are destroyed.  So a run serves all its operations exactly when none with data goes
through a copy (`copies_usable_iff`).
-/

namespace Socketpp
open Lib

/-- A copy has no areas. -/
def Own.Bare (o : Own) : Prop := o.getArea = none ∧ o.putArea = none

/-- The buffers of an object, in the order in which the destructor deletes them. -/
def Own.buffers (o : Own) : List Buffer :=
  (if o.putArea.isSome then [.pbuf] else []) ++ if o.getArea.isSome then [.gbuf] else []

namespace Family

variable {κ : Type} {K : Kernel κ} {C : Closing κ} {f f₀ f' f₁ : Family κ} {i j : Nat}

/-! ### Methods of one object -/

@[simp] theorem proc_back (s : Proc Sockbuf κ) : (f.back i s).proc i = s := by
  simp [proc, back, sockbuf]

theorem own_back (s : Proc Sockbuf κ) (hj : j ≠ i) : (f.back i s).own j = f.own j := by
  simp [back, hj]

theorem own_back_self (s : Proc Sockbuf κ) :
    (f.back i s).own i = ⟨s.obj.getArea, s.obj.putArea, s.obj.sockname⟩ := by
  simp [back]

theorem through_result {α : Type} {p : SockM κ α} {r : Except Thrown α}
    (h : (through i p f).result = some (r, f')) :
    ∃ s, (p (f.proc i)).result = some (r, s) ∧ f' = f.back i s := by
  rw [through, Prog.zoom_apply] at h
  cases hp : p (f.proc i) with
  | ret a s => rw [hp] at h; cases h; exact ⟨s, rfl, rfl⟩
  | thrown e s => rw [hp] at h; cases h; exact ⟨s, rfl, rfl⟩
  | spin => rw [hp] at h; cases h

theorem through_sat {α : Type} {p : SockM κ α} {Q : α → Proc Sockbuf κ → Prop}
    {E : Thrown → Proc Sockbuf κ → Prop} (h : (p (f.proc i)).Sat Q E) :
    (through i p f).Sat (fun a f' => ∃ s, f' = f.back i s ∧ Q a s)
      (fun e f' => ∃ s, f' = f.back i s ∧ E e s) := by
  rw [through, Prog.zoom_apply, Outcome.sat_mapState]
  exact h.mono (fun _ s h => ⟨s, rfl, h⟩) fun _ s h => ⟨s, rfl, h⟩

theorem throughGet_result {α : Type} {p : Prog Thrown (Sockbuf.Getting κ) α} {r : Except Thrown α}
    (h : (throughGet i p f).result = some (r, f')) :
    ∃ t, (p ⟨f.proc i, []⟩).result = some (r, t) ∧ f' = f.back i t.proc := by
  rw [throughGet, Prog.zoom_apply] at h
  cases hp : p ⟨f.proc i, []⟩ with
  | ret a t => rw [hp] at h; cases h; exact ⟨t, rfl, rfl⟩
  | thrown e t => rw [hp] at h; cases h; exact ⟨t, rfl, rfl⟩
  | spin => rw [hp] at h; cases h

theorem throughGet_sat {α : Type} {p : Prog Thrown (Sockbuf.Getting κ) α}
    {Q : α → Sockbuf.Getting κ → Prop} {E : Thrown → Sockbuf.Getting κ → Prop}
    (h : (p ⟨f.proc i, []⟩).Sat Q E) :
    (throughGet i p f).Sat (fun a f' => ∃ t, f' = f.back i t.proc ∧ Q a t)
      (fun e f' => ∃ t, f' = f.back i t.proc ∧ E e t) := by
  rw [throughGet, Prog.zoom_apply, Outcome.sat_mapState]
  exact h.mono (fun _ t h => ⟨t, rfl, h⟩) fun _ t h => ⟨t, rfl, h⟩

/-! ### What all runs keep -/

/-- The objects are different, and all but the original are bare. -/
structure Shared (f : Family κ) : Prop where
  nodup  : f.live.Nodup
  below  : ∀ i ∈ f.live, i < f.fresh
  fresh  : 0 < f.fresh
  copies : ∀ i ∈ f.live, i ≠ 0 → (f.own i).Bare

theorem Shared.back (h : Shared f) {s : Proc Sockbuf κ}
    (hbare : i ≠ 0 → s.obj.getArea = none ∧ s.obj.putArea = none) : Shared (f.back i s) := by
  refine ⟨h.nodup, h.below, h.fresh, fun j hj hne => ?_⟩
  rcases eq_or_ne j i with rfl | hji
  · rw [own_back_self]
    exact hbare hne
  · rw [own_back s hji]
    exact h.copies j hj hne

/-- The family with one more copy. -/
theorem Shared.copy (h : Shared f) (hret : Family.copy i f = .ret () f') :
    Shared f' ∧ (∀ j ∈ f.live, f'.own j = f.own j) ∧ f'.live = f.fresh :: f.live ∧
      (f'.own f.fresh).Bare ∧ f'.rep = f.rep ∧ f'.sys = f.sys := by
  have hnew : ∀ j ∈ f.live, j ≠ f.fresh := fun j hj => Nat.ne_of_lt (h.below j hj)
  cases hret
  refine ⟨⟨?_, ?_, Nat.succ_pos _, ?_⟩, fun j hj => Function.update_of_ne (hnew j hj) .., rfl,
    ?_, rfl, rfl⟩
  · exact List.nodup_cons.mpr ⟨fun hmem => hnew _ hmem rfl, h.nodup⟩
  · refine List.forall_mem_cons.mpr ⟨Nat.lt_succ_self _, fun j hj => ?_⟩
    exact Nat.lt_succ_of_lt (h.below j hj)
  · refine List.forall_mem_cons.mpr ⟨fun _ => ?_, fun j hj hne => ?_⟩
    · simp [Own.Bare]
    · simpa [hnew j hj] using h.copies j hj hne
  · simp [Own.Bare]

/-! ### The end of the destructor -/

/-- The object `i` has gone from the family; the last one has deleted its buffers and closed the
descriptor. -/
structure Gone (i : Nat) (f f' : Family κ) : Prop where
  rep   : f'.rep = f.rep
  own   : f'.own = f.own
  live  : f'.live = f.live.erase i
  fresh : f'.fresh = f.fresh
  trace : f'.sys.trace = f.sys.trace
  ended : f'.released = f.released ++ (if f.live.length = 1 then (f.own i).buffers else []) ∧
    f'.closed = f.closed ++ if f.live.length = 1 then [f.rep.sock] else []

theorem close_ret (h : close C i f = .ret () f') :
    ∃ k, f' = { f with
      sys    := { f.sys with kern := k }
      closed := f.closed ++ [f.rep.sock] } := by
  rw [close, Prog.bind_apply, Prog.get_apply, Outcome.andThen_ret] at h
  rcases hC : C f.sys.kern f.rep.sock with ⟨r, k⟩
  rw [hC] at h
  cases r with
  | ok u =>
      cases h
      exact ⟨k, rfl⟩
  | error e => cases h

theorem release_ret (h : release C i f = .ret () f') : Gone i f f' := by
  rw [release, Prog.bind_apply, Prog.get_apply, Outcome.andThen_ret] at h
  split at h
  · rename_i hlen
    obtain ⟨_, f₁, h₁, h⟩ := Prog.bind_eq_ret h
    obtain ⟨_, f₂, h₂, h⟩ := Prog.bind_eq_ret h
    obtain ⟨_, f₃, h₃, h⟩ := Prog.bind_eq_ret h
    obtain ⟨k, hk⟩ := close_ret h₃
    cases h₁
    cases h₂
    subst hk
    cases h
    refine ⟨rfl, rfl, rfl, rfl, rfl, ?_, ?_⟩
    · rw [if_pos hlen]
      cases hp : (f.own i).putArea <;> cases hg : (f.own i).getArea <;> simp [Own.buffers, hp, hg]
    · rw [if_pos hlen]
  · rename_i hlen
    cases h
    refine ⟨rfl, rfl, rfl, rfl, rfl, ?_, ?_⟩
    · rw [if_neg hlen, List.append_nil]
    · rw [if_neg hlen, List.append_nil]

theorem destroy_ret (h : destroy K C i f = .ret () f') :
    ∃ v s, Sockbuf.overflow K eofValue (f.proc i) = .ret v s ∧ Gone i (f.back i s) f' := by
  obtain ⟨v, f₁, h₁, h⟩ := Prog.bind_eq_ret h
  rw [through, Prog.zoom_apply] at h₁
  cases hp : Sockbuf.overflow K eofValue (f.proc i) with
  | ret v' s =>
      rw [hp] at h₁
      cases h₁
      exact ⟨v, s, rfl, release_ret h⟩
  | thrown e s => rw [hp] at h₁; cases h₁
  | spin => rw [hp] at h₁; cases h₁

theorem Gone.shared (h : Gone i f f') (hs : Shared f) : Shared f' := by
  have hmem : ∀ {j}, j ∈ f'.live → j ∈ f.live := fun hj => List.mem_of_mem_erase (h.live ▸ hj)
  refine ⟨?_, fun j hj => ?_, ?_, fun j hj hne => ?_⟩
  · rw [h.live]
    exact hs.nodup.erase i
  · rw [h.fresh]
    exact hs.below j (hmem hj)
  · rw [h.fresh]
    exact hs.fresh
  · rw [h.own]
    exact hs.copies j (hmem hj) hne

/-! ### The stream -/

/-- The bytes the kernel has accepted on the shared descriptor. -/
def sent (f : Family κ) : List Byte := sentOn f.rep.sock f.sys.trace

/-- The bytes pending in the objects. -/
def pending (f : Family κ) : List Byte := f.live.flatMap fun i => (f.sockbuf i).pending

theorem flatMap_only {α β : Type} [DecidableEq α] {a : α} {g : α → List β} :
    ∀ {l : List α}, l.Nodup → (∀ b ∈ l, b ≠ a → g b = []) →
      l.flatMap g = if a ∈ l then g a else [] := by
  intro l
  induction l with
  | nil => intro _ _; rfl
  | cons b l ih =>
      intro hnd h
      obtain ⟨hb, hnd⟩ := List.nodup_cons.mp hnd
      rw [List.flatMap_cons, ih hnd fun c hc => h c (List.mem_cons_of_mem _ hc)]
      rcases eq_or_ne b a with rfl | hne
      · simp [hb]
      · simp [h b List.mem_cons_self hne, hne.symm]

theorem pending_bare (h : (f.own i).Bare) : (f.sockbuf i).pending = [] := by
  simp [Sockbuf.pending, sockbuf, h.2]

/-- Only the original has bytes pending. -/
theorem Shared.pending_eq (h : Shared f) :
    f.pending = if 0 ∈ f.live then (f.sockbuf 0).pending else [] :=
  flatMap_only h.nodup fun i hi hne => pending_bare (h.copies i hi hne)

/-- What an operation has accepted, by its return value. -/
def Op.accepted : Op → Int → List Byte
  | .put _ op, v => op.reported v
  | _,         _ => []

/-- The operation serves its caller: a put accepts all its data, and a get obtains all it asks for or
meets the end of file. -/
def Op.Served : Op → Except Thrown Int → Family κ → Family κ → Prop
  | .put _ op, .ok v, _, _  => op.reported v = op.data
  | .get i op, .ok v, f, f' =>
      op.obtained v = op.asked ∨ Sockbuf.EofDuring (f.proc i) (f'.proc i)
  | _,         .ok _, _, _  => True
  | _,         .error _, _, _ => False

/-- The operation does not put data, and does not ask for any, through a copy. -/
def Op.Direct : Op → Prop
  | .put i op => i = 0 ∨ op.data = []
  | .get i op => i = 0 ∨ op.asked = 0
  | _         => True

/-- An operation on the stream: all but `shutdown`. -/
def Op.OfStream : Op → Prop
  | .shutdown _ _ => False
  | _             => True

/-- **The invariant**: from `f₀` to `f` the objects have accepted `acc`, all of which has been handed to
the kernel or is pending in the original. -/
structure Streaming (f₀ f : Family κ) (acc : List Byte) : Prop where
  shared   : Shared f
  sock     : f.rep.sock = f₀.rep.sock
  writable : 0 ∈ f.live → (f.sockbuf 0).Writable
  readable : 0 ∈ f.live → (f.sockbuf 0).Readable
  account  : f.sent ++ f.pending = f₀.sent ++ f₀.pending ++ acc

theorem writable_congr {b b' : Sockbuf} (hput : b'.putArea = b.putArea)
    (hpend : b'.rep.pend = b.rep.pend) (h : b.Writable) : b'.Writable := by
  obtain ⟨p, hp, h₁, h₂, h₃⟩ := h
  exact ⟨p, hput.trans hp, h₁, hpend ▸ h₂, hpend ▸ h₃⟩

theorem readable_congr {b b' : Sockbuf} (hget : b'.getArea = b.getArea) (h : b.Readable) :
    b'.Readable := h.imp fun _ ha => hget.trans ha

variable {acc xs : List Byte}

/-- A method of the original that has taken `xs`. -/
theorem Streaming.original (h : Streaming f₀ f acc) (h0 : 0 ∈ f.live) {s : Proc Sockbuf κ}
    (hsock : s.obj.rep.sock = f.rep.sock) (hw : s.obj.Writable) (hr : s.obj.Readable)
    (hacc : Sockbuf.sent s ++ s.obj.pending = f.sent ++ (f.sockbuf 0).pending ++ xs) :
    Streaming f₀ (f.back 0 s) (acc ++ xs) := by
  have hobj : (f.back 0 s).sockbuf 0 = s.obj := congrArg Proc.obj (proc_back (f := f) (i := 0) s)
  have hshared : Shared (f.back 0 s) := h.shared.back fun hne => absurd rfl hne
  have haccount := h.account
  rw [h.shared.pending_eq, if_pos h0] at haccount
  refine ⟨hshared, hsock.trans h.sock, fun _ => hobj ▸ hw, fun _ => hobj ▸ hr, ?_⟩
  rw [hshared.pending_eq, if_pos (show 0 ∈ (f.back 0 s).live from h0), hobj]
  show Sockbuf.sent s ++ _ = _
  rw [hacc, haccount, List.append_assoc]

/-- A method of a copy that does nothing. -/
theorem Streaming.untouched (h : Streaming f₀ f acc) (hi : i ∈ f.live) (hne : i ≠ 0)
    {s : Proc Sockbuf κ} (hs : Untouched (f.proc i) s) : Streaming f₀ (f.back i s) acc := by
  obtain ⟨hg, hp⟩ := h.shared.copies i hi hne
  have hshared : Shared (f.back i s) :=
    h.shared.back fun _ => ⟨hs.getArea.trans hg, hs.putArea.trans hp⟩
  have hown : (f.back i s).own 0 = f.own 0 := own_back s hne.symm
  have hput : ((f.back i s).sockbuf 0).putArea = (f.sockbuf 0).putArea := by
    rw [sockbuf, sockbuf, hown]
  have hget : ((f.back i s).sockbuf 0).getArea = (f.sockbuf 0).getArea := by
    rw [sockbuf, sockbuf, hown]
  have hsent : (f.back i s).sent = f.sent := by
    show sentOn s.obj.rep.sock s.sys.trace = _
    rw [hs.sock, hs.sys]
    rfl
  have hpending : ((f.back i s).sockbuf 0).pending = (f.sockbuf 0).pending := by
    rw [Sockbuf.pending, Sockbuf.pending, hput]
  refine ⟨hshared, hs.sock.trans h.sock, fun h0 => writable_congr hput hs.pend (h.writable h0),
    fun h0 => readable_congr hget (h.readable h0), ?_⟩
  rw [hsent, hshared.pending_eq, hpending, ← h.account, h.shared.pending_eq]
  rfl

/-- One more copy. -/
theorem Streaming.copy (h : Streaming f₀ f acc) (hret : Family.copy i f = .ret () f') :
    Streaming f₀ f' acc := by
  obtain ⟨hshared, hold, hlive, hbare, hrep, hsys⟩ := h.shared.copy hret
  have hmem : 0 ∈ f'.live → 0 ∈ f.live := fun h0 =>
    (List.mem_cons.mp (hlive ▸ h0)).resolve_left (Nat.ne_of_lt h.shared.fresh)
  have hobj : ∀ j ∈ f.live, f'.sockbuf j = f.sockbuf j := fun j hj => by
    rw [sockbuf, sockbuf, hold j hj, hrep]
  refine ⟨hshared, hrep ▸ h.sock, fun h0 => hobj 0 (hmem h0) ▸ h.writable (hmem h0),
    fun h0 => hobj 0 (hmem h0) ▸ h.readable (hmem h0), ?_⟩
  have hpending : f'.pending = f.pending := by
    rw [pending, hlive, List.flatMap_cons, pending_bare hbare, List.nil_append]
    exact List.flatMap_congr fun j hj => by rw [hobj j hj]
  rw [hpending, ← h.account, sent, sent, hrep, hsys]

/-- An object has gone, with nothing pending in it. -/
theorem Streaming.gone (h : Streaming f₀ f acc) (hempty : (f.sockbuf i).pending = [])
    (hgone : Gone i f f') : Streaming f₀ f' acc := by
  have hmem : ∀ {j}, j ∈ f'.live → j ∈ f.live := fun hj => List.mem_of_mem_erase (hgone.live ▸ hj)
  have hobj : ∀ j, f'.sockbuf j = f.sockbuf j := fun j => by
    rw [sockbuf, sockbuf, hgone.own, hgone.rep]
  have hshared := hgone.shared h.shared
  refine ⟨hshared, hgone.rep ▸ h.sock, fun h0 => hobj 0 ▸ h.writable (hmem h0),
    fun h0 => hobj 0 ▸ h.readable (hmem h0), ?_⟩
  have hpending : f'.pending = f.pending := by
    rw [hshared.pending_eq, h.shared.pending_eq, hobj, hgone.live]
    simp only [h.shared.nodup.mem_erase_iff]
    rcases eq_or_ne 0 i with rfl | hne
    · simp [hempty]
    · simp [hne]
  rw [hpending, ← h.account, sent, sent, hgone.rep, hgone.trace]

/-- Without a call there is no end of file. -/
theorem not_eofDuring {s s' : Proc Sockbuf κ} (h : s'.sys = s.sys) : ¬ Sockbuf.EofDuring s s' := by
  rintro ⟨before, after, len, hpre, htrace⟩
  have hle := hpre.length_le
  have hlen := congrArg List.length htrace
  rw [h, List.length_append, List.length_cons] at hlen
  omega

/-- `::close` does not fail. -/
def CloseSucceeds (C : Closing κ) : Prop := ∀ k fd, ∃ k', C k fd = (.ok (), k')

theorem release_returns (hC : CloseSucceeds C) (i : Nat) (f : Family κ) :
    ∃ f', release C i f = .ret () f' := by
  rw [release, Prog.bind_apply, Prog.get_apply, Outcome.andThen_ret, Prog.ite_apply]
  split
  · have hclose : ∀ f : Family κ, ∃ f', close C i f = .ret () f' := fun f => by
      obtain ⟨k, hk⟩ := hC f.sys.kern f.rep.sock
      rw [close, Prog.bind_apply, Prog.get_apply, Outcome.andThen_ret, hk]
      exact ⟨_, rfl⟩
    obtain ⟨f₁, h₁⟩ := hclose _
    exact ⟨_, by
      rw [deletePut, Prog.bind_apply, Prog.modify_apply, Outcome.andThen_ret, deleteGet, Prog.bind_apply,
        Prog.modify_apply, Outcome.andThen_ret, Prog.bind_apply, h₁]
      rfl⟩
  · exact ⟨_, rfl⟩

/-- A put reaches the original only. -/
theorem Streaming.puts (h : Streaming f₀ f acc) (hK : K.WriteSucceeds) (op : PutOp) {i : Nat}
    (hlive : i ∈ f.live) :
    ((Op.put i op).exec K C f).Sat
      (fun v f' => Streaming f₀ f' (acc ++ (Op.put i op).accepted v) ∧
        ((Op.put i op).Served (.ok v) f f' ↔ (Op.put i op).Direct))
      (fun _ _ => False) := by
  rcases eq_or_ne i 0 with rfl | hne
  · refine (through_sat ((PutOp.exec_sat op (h.writable hlive)).and_leaves
      (op.exec_frame (f.proc 0)))).mono ?_ ?_
    · rintro v _ ⟨s, rfl, ⟨htakes, htaken, -⟩, hkeeps⟩
      have hrep := htakes.reported_eq
      refine ⟨?_, by simp [Op.Served, Op.Direct, hrep]⟩
      have hr := readable_congr hkeeps.getArea (h.readable hlive)
      rw [Op.accepted, hrep]
      exact h.original hlive hkeeps.sock htaken.writable hr htaken.moves.pushed_eq
    · rintro e _ ⟨s, -, ⟨-, hnot⟩, -⟩
      exact hnot hK
  · have hput : (f.proc i).obj.putArea = none := (h.shared.copies i hlive hne).2
    refine (through_sat (PutOp.exec_bare op hput)).mono ?_ ?_
    · rintro v _ ⟨s, rfl, hrep, hs⟩
      rw [Op.accepted, Op.Served, Op.Direct, hrep, List.append_nil]
      exact ⟨h.untouched hlive hne hs, fun h => .inr h.symm, fun h => (h.resolve_left hne).symm⟩
    · rintro e _ ⟨s, -, hnot⟩
      exact hnot

/-- A get reaches the original only. -/
theorem Streaming.gets (h : Streaming f₀ f acc) (hR : K.ReadSucceeds) (op : GetOp) {i : Nat}
    (hlive : i ∈ f.live) :
    ((Op.get i op).exec K C f).Sat
      (fun v f' => Streaming f₀ f' (acc ++ (Op.get i op).accepted v) ∧
        ((Op.get i op).Served (.ok v) f f' ↔ (Op.get i op).Direct))
      (fun _ _ => False) := by
  have hnone : ∀ v, (Op.get i op).accepted v = [] := fun _ => rfl
  rcases eq_or_ne i 0 with rfl | hne
  · have hsat := ((op.exec_obtains (t := ⟨f.proc 0, []⟩) (h.readable hlive)).of_quiet
      (op.exec_quiet hR _)).and_leaves (op.exec_frame _)
    refine (throughGet_sat hsat).mono ?_ ?_
    · rintro v _ ⟨t, rfl, ⟨hr, hobtains⟩, hkeeps⟩
      have hw := writable_congr hkeeps.putArea hkeeps.pend (h.writable hlive)
      have hpending : t.proc.obj.pending = (f.sockbuf 0).pending := by
        rw [Sockbuf.pending, Sockbuf.pending, hkeeps.putArea]
        rfl
      refine ⟨h.original hlive hkeeps.sock hw hr ?_, ?_⟩
      · rw [hnone, hpending, Sockbuf.sent, hkeeps.sock, hkeeps.sent]
        exact (List.append_nil _).symm
      · rw [Op.Served, proc_back]
        exact iff_of_true hobtains (.inl rfl)
    · rintro e _ ⟨t, -, hnot, -⟩
      exact hnot
  · have hget : (f.proc i).obj.getArea = none := (h.shared.copies i hlive hne).1
    refine (throughGet_sat (op.exec_bare (t := ⟨f.proc i, []⟩) hget)).mono ?_ ?_
    · rintro v _ ⟨t, rfl, hobtained, ht⟩
      rw [hnone, List.append_nil, Op.Served, Op.Direct, proc_back, hobtained]
      refine ⟨h.untouched hlive hne ht, fun hserved => ?_, fun hdirect => ?_⟩
      · exact .inr (hserved.resolve_right (not_eofDuring ht.sys)).symm
      · exact .inl (hdirect.resolve_left hne).symm
    · rintro e _ ⟨t, -, hnot⟩
      exact hnot

/-- The flush of a destructor leaves nothing pending in the object. -/
theorem Streaming.flushed (h : Streaming f₀ f acc) (hK : K.WriteSucceeds) {i : Nat} (hlive : i ∈ f.live) :
    ∃ v s, Sockbuf.overflow K eofValue (f.proc i) = .ret v s ∧ Streaming f₀ (f.back i s) acc ∧
      s.obj.pending = [] := by
  rcases eq_or_ne i 0 with rfl | hne
  · have hw := h.writable hlive
    have hsync := (Sockbuf.sync_sat (K := K) (s := f.proc 0) hw).mono (fun _ _ h => h)
      fun _ _ hnot => hnot.2 hK
    obtain ⟨v, s, hret, -, hmoved, hempty⟩ := hsync.returns
    have hr := readable_congr hmoved.getArea (h.readable hlive)
    have hsock : s.obj.rep.sock = f.rep.sock := by rw [hmoved.rep]; rfl
    refine ⟨v, s, (Sockbuf.overflow_eof hw).trans hret, ?_, hempty⟩
    simpa using h.original hlive hsock hmoved.writable hr hmoved.moves.pushed_eq
  · have hput : (f.proc i).obj.putArea = none := (h.shared.copies i hlive hne).2
    refine ⟨_, _, Sockbuf.overflow_none hput eofValue, h.untouched hlive hne (.refl _), ?_⟩
    rw [Sockbuf.pending, hput]

/-- **One operation** on an object that exists, the kernel's calls succeeding. -/
theorem Streaming.step (h : Streaming f₀ f acc) (hK : K.WriteSucceeds) (hR : K.ReadSucceeds)
    (hC : CloseSucceeds C) {op : Op} (hop : op.OfStream) (hlive : op.object ∈ f.live) :
    (op.exec K C f).Sat
      (fun v f' => Streaming f₀ f' (acc ++ op.accepted v) ∧ (op.Served (.ok v) f f' ↔ op.Direct))
      (fun _ _ => False) := by
  cases op with
  | copy i =>
      obtain ⟨f', hret⟩ : ∃ f', Family.copy i f = .ret () f' := ⟨_, rfl⟩
      rw [Op.exec, Prog.map_apply, hret]
      exact ⟨by simpa [Op.accepted] using h.copy hret, by simp [Op.Served, Op.Direct]⟩
  | put i op => exact h.puts hK op hlive
  | get i op => exact h.gets hR op hlive
  | shutdown i sh => exact hop.elim
  | destroy i =>
      obtain ⟨v, s, hflush, hs, hempty⟩ := h.flushed (i := i) hK hlive
      obtain ⟨f', hrelease⟩ := release_returns hC i (f.back i s)
      have hdestroy : destroy K C i f = .ret () f' := by
        rw [destroy, Prog.bind_apply, through, Prog.zoom_apply, hflush]
        exact hrelease
      have hback : ((f.back i s).sockbuf i).pending = [] := by
        rw [show (f.back i s).sockbuf i = s.obj from congrArg Proc.obj (proc_back (f := f) (i := i) s)]
        exact hempty
      rw [Op.exec, Prog.map_apply, hdestroy]
      exact ⟨by simpa [Op.accepted] using hs.gone hback (release_ret hrelease),
        by simp [Op.Served, Op.Direct]⟩

/-! ### Runs -/

/-- A family of one object, open on both sides. -/
structure Single (f : Family κ) : Prop where
  live     : f.live = [0]
  fresh    : f.fresh = 1
  writable : (f.sockbuf 0).Writable
  readable : (f.sockbuf 0).Readable

theorem Single.streaming (h : Single f) : Streaming f f [] := by
  refine ⟨⟨?_, ?_, ?_, ?_⟩, rfl, fun _ => h.writable, fun _ => h.readable, by simp⟩
  · simp [h.live]
  · simp [h.live, h.fresh]
  · simp [h.fresh]
  · simp [h.live]

/-- All that the operations of a run have accepted. -/
def accepted (es : List (Op × Except Thrown Int)) : List Byte :=
  es.flatMap fun e => match e.2 with
    | .ok v    => e.1.accepted v
    | .error _ => []

variable {es : List (Op × Except Thrown Int)}

/-- **A run on the stream**, the kernel's calls succeeding. -/
theorem Streaming.run (hK : K.WriteSucceeds) (hR : K.ReadSucceeds) (hC : CloseSucceeds C)
    (h₀ : Single f₀) (hrun : Run K C (fun op _ _ _ => op.OfStream) f₀ es f) :
    Streaming f₀ f (accepted es) ∧
      (Run K C (fun op r f f' => op.OfStream ∧ op.Served r f f') f₀ es f ↔
        ∀ e ∈ es, e.1.Direct) := by
  induction hrun with
  | start => exact ⟨h₀.streaming, iff_of_true .start nofun⟩
  | @step es f f' op r hrun hlive hop hcame ih =>
      obtain ⟨hstream, hiff⟩ := ih
      obtain ⟨v, f₁, hexec, hstream', hserved⟩ := (hstream.step hK hR hC hop hlive).returns
      rw [hexec] at hcame
      cases hcame
      refine ⟨by simpa [accepted] using hstream', ?_⟩
      rw [List.forall_mem_append, List.forall_mem_singleton, ← hserved, ← hiff]
      constructor
      · intro hrun'
        obtain ⟨f₁, h₁, -, hmeets, -⟩ := hrun'.concat_inv
        obtain rfl := hrun.unique h₁
        exact ⟨h₁, hmeets.2⟩
      · rintro ⟨h₁, hs⟩
        exact .step h₁ hlive ⟨hop, hs⟩ (by rw [hexec]; rfl)

/-- **Which runs the copies are usable in.**  In a run of puts, flushes, gets, copies and destructions
on an open object and its copies, the kernel's calls succeeding, every further operation returns;
and all operations have been served, with every byte accepted handed over once or still pending,
exactly when no operation has put data or asked for any through a copy. -/
theorem copies_usable_iff (hK : K.WriteSucceeds) (hR : K.ReadSucceeds) (hC : CloseSucceeds C)
    (h₀ : Single f₀) (hrun : Run K C (fun op _ _ _ => op.OfStream) f₀ es f) :
    (∀ op : Op, op.OfStream → op.object ∈ f.live → ∃ v f', op.exec K C f = .ret v f') ∧
    (Run K C (fun op r f f' => op.OfStream ∧ op.Served r f f') f₀ es f ∧
        f.sent ++ f.pending = f₀.sent ++ f₀.pending ++ accepted es ↔
      ∀ e ∈ es, e.1.Direct) := by
  obtain ⟨hstream, hiff⟩ := Streaming.run hK hR hC h₀ hrun
  refine ⟨fun op hop hlive => ?_, ?_⟩
  · obtain ⟨v, f', hexec, -⟩ := (hstream.step hK hR hC hop hlive).returns
    exact ⟨v, f', hexec⟩
  · rw [hiff, and_iff_left hstream.account]

theorem ofDesc_single (B : ℕ+) (sd : Int) (gbuf pbuf : Mem Byte) (y : Sys κ) :
    Single (ofDesc B sd gbuf pbuf y) :=
  ⟨rfl, rfl, Sockbuf.ofDesc_writable B sd gbuf pbuf, ⟨_, rfl⟩⟩

theorem smooth_readSucceeds (B : Nat) : (Kernel.smooth B).ReadSucceeds where
  read k fd len e := by
    show (k.take len).1 ≠ _
    rw [Peer.take]
    split
    · nofun
    · split
      · nofun
      · split
        · nofun
        · nofun
  selectRead k _ _ := ⟨0, k, rfl⟩
  sockatmark k _ := ⟨k, rfl⟩

/-- A kernel that closes without failing. -/
def closes : Closing (Peer 1024 Unit) := fun k _ => (.ok (), k)

/-- A sockbuf on the descriptor 3, whose peer has sent one byte. -/
def sample : Family (Peer 1024 Unit) :=
  ofDesc bufsiz 3 (fun _ => 0) (fun _ => 0) ⟨⟨[⟨[98], by decide⟩], ()⟩, 0, []⟩

/-- Puts and gets through the original, before and after a copy of it has come and gone. -/
theorem copies_usable_iff_original :
    ∃ f, Run (Kernel.smooth 1024) closes (fun op r f f' => op.OfStream ∧ op.Served r f f') sample
        [(.put 0 (.sputc 97), .ok 97), (.copy 0, .ok 0), (.destroy 1, .ok 0),
          (.get 0 .sbumpc, .ok 98), (.destroy 0, .ok 0)] f ∧
      f.sent = [97] := by
  have h₁ : Run (Kernel.smooth 1024) closes (fun op _ _ _ => op.OfStream) sample
      [(.put 0 (.sputc 97), .ok 97)] _ := .step .start (List.mem_singleton_self 0) trivial rfl
  have h₂ := h₁.snoc (.copy 0) (.ok 0) (List.mem_singleton_self 0) trivial rfl
  have h₃ := h₂.snoc (.destroy 1) (.ok 0) List.mem_cons_self trivial rfl
  have h₄ := h₃.snoc (.get 0 .sbumpc) (.ok 98) (List.mem_singleton_self 0) trivial rfl
  have h₅ := h₄.snoc (.destroy 0) (.ok 0) (List.mem_singleton_self 0) trivial rfl
  refine ⟨_, ((copies_usable_iff (Kernel.smooth_writeSucceeds 1024) (smooth_readSucceeds 1024)
    (fun k _ => ⟨k, rfl⟩) (ofDesc_single ..) h₅).2.mpr ?_).1, rfl⟩
  simp [Op.Direct]

/-- **A copy that is used.**  A put of two bytes through it accepts none, and a get finds the end of
file where a byte has arrived. -/
theorem copy_useless :
    ∃ f, Run (Kernel.smooth 1024) closes (fun op _ _ _ => op.OfStream) sample
        [(.copy 0, .ok 0), (.put 1 (.sputn [97, 98]), .ok 0), (.get 1 .sgetc, .ok eofValue)] f ∧
      ¬ Run (Kernel.smooth 1024) closes (fun op r f f' => op.OfStream ∧ op.Served r f f') sample
        [(.copy 0, .ok 0), (.put 1 (.sputn [97, 98]), .ok 0), (.get 1 .sgetc, .ok eofValue)] f := by
  have h₁ : Run (Kernel.smooth 1024) closes (fun op _ _ _ => op.OfStream) sample [(.copy 0, .ok 0)] _ :=
    .step .start (List.mem_singleton_self 0) trivial rfl
  have h₂ := h₁.snoc (.put 1 (.sputn [97, 98])) (.ok 0) List.mem_cons_self trivial rfl
  have h₃ := h₂.snoc (.get 1 .sgetc) (.ok eofValue) List.mem_cons_self trivial rfl
  refine ⟨_, h₃, fun h => ?_⟩
  have hget : Run _ _ (fun op r f f' => op.OfStream ∧ op.Served r f f') _
      ([(.copy 0, .ok 0), (.put 1 (.sputn [97, 98]), .ok 0)] ++ [(.get 1 .sgetc, .ok eofValue)]) _ := h
  obtain ⟨f, h, -⟩ := hget.concat_inv
  have hput : Run _ _ (fun op r f f' => op.OfStream ∧ op.Served r f f') _
      ([(.copy 0, .ok 0)] ++ [(.put 1 (.sputn [97, 98]), .ok 0)]) _ := h
  obtain ⟨_, -, -, ⟨-, hserved⟩, -⟩ := hput.concat_inv
  simp [Op.Served, PutOp.reported, PutOp.data] at hserved

end Family

end Socketpp
