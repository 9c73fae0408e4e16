import Socketpp.Lib.Fifo
import Socketpp.Sockbuf.Model

/-!
# Sockbuf — output

The put side of a sockbuf is a queue: bytes go in by `sputc` and `sputn`, wait in
`[pbase, pptr)`, and come out when the kernel accepts them (`outQueue`).  Each function moves the
queue by a push, a pop, or one after the other, also where it throws:

* `write` pops what the kernel has accepted, and `throw wlen` names that number;
* `sync` pops everything or, when it throws, a proper prefix of what was pending;
* `overflow (c)` pops everything and pushes `c`; `xsputn` pushes all its bytes, or a proper
  prefix of them when it throws.

`output_integrity` carries this over all sessions.
-/

namespace Socketpp
open Lib

namespace Sockbuf

variable {κ : Type} {K : Kernel κ}

/-- The bytes the kernel has accepted. -/
def sent (s : Proc Sockbuf κ) : List Byte := sentOn s.obj.rep.sock s.sys.trace

/-- The put side is open, and its pointers are in order. -/
def Writable (b : Sockbuf) : Prop :=
  ∃ p, b.putArea = some p ∧ p.pptr ≤ p.epptr ∧ p.epptr = b.rep.pend ∧ 0 < b.rep.pend

/-- The put side as a queue: what the kernel has accepted has come out, what is pending is in. -/
def outQueue (s : Proc Sockbuf κ) : Fifo Byte :=
  ⟨sent s ++ s.obj.pending, sent s, s.obj.pending, rfl⟩

theorem ofDesc_writable (B : ℕ+) (sd : Int) (gbuf pbuf : Mem Byte) :
    (ofDesc B sd gbuf pbuf).Writable :=
  ⟨{ mem := pbuf, pptr := 0, epptr := B }, rfl, Nat.zero_le _, rfl, B.pos⟩

@[simp] theorem ofDesc_pending (B : ℕ+) (sd : Int) (gbuf pbuf : Mem Byte) :
    (ofDesc B sd gbuf pbuf).pending = [] := rfl

/-! ### The queue of a put area -/

section Areas

variable {b : Sockbuf} {p : PutArea}

theorem pending_eq (h : b.putArea = some p) : b.pending = p.mem.slice 0 p.pptr := by
  simp only [pending, h]

theorem pending_fill (h : b.putArea = some p) (s : List Byte) :
    (b.onPut fun p => p.fill s).pending = b.pending ++ s := by
  have := p.mem.slice_store_append 0 p.pptr s
  simpa only [pending, onPut, h, Option.map_some, PutArea.fill, Nat.zero_add] using this

theorem pending_putc (h : b.putArea = some p) (c : Byte) :
    (b.onPut fun p => p.putc c).pending = b.pending ++ [c] := by
  have := p.mem.slice_write_append 0 p.pptr c
  simpa only [pending, onPut, h, Option.map_some, PutArea.putc, Nat.zero_add] using this

theorem pending_setp (n : Nat) : (b.onPut fun p => p.setp n).pending = [] := by
  cases hp : b.putArea <;> simp [pending, onPut, hp, PutArea.setp]

theorem pending_keepUnwritten (h : b.putArea = some p) {wlen : Nat} (hw : wlen ≤ p.pptr)
    (n : Nat) : (b.onPut fun p => p.keepUnwritten wlen n).pending = b.pending.drop wlen := by
  have hm := p.mem.slice_moveDown (n := p.pptr - wlen) (Nat.zero_le wlen)
  have hd := p.mem.drop_slice 0 hw
  rw [Nat.zero_add] at hd
  simp only [pending, onPut, h, Option.map_some, PutArea.keepUnwritten, hm, hd]

theorem Writable.fill (h : b.Writable) {s : List Byte} (hs : s.length ≤ b.room) :
    (b.onPut fun p => p.fill s).Writable := by
  obtain ⟨p, hp, h₁, h₂, h₃⟩ := h
  simp only [room, hp] at hs
  exact ⟨p.fill s, by simp [onPut, hp], by simp only [PutArea.fill]; omega, h₂, h₃⟩

theorem Writable.setp (h : b.Writable) : (b.onPut fun p => p.setp b.rep.pend).Writable := by
  obtain ⟨p, hp, -, -, h₃⟩ := h
  exact ⟨p.setp b.rep.pend, by simp [onPut, hp], Nat.zero_le _, rfl, h₃⟩

theorem Writable.keepUnwritten (h : b.Writable) (wlen : Nat) :
    (b.onPut fun p => p.keepUnwritten wlen b.rep.pend).Writable := by
  obtain ⟨p, hp, h₁, h₂, h₃⟩ := h
  exact ⟨p.keepUnwritten wlen b.rep.pend, by simp [onPut, hp],
    by simp only [PutArea.keepUnwritten]; omega, rfl, h₃⟩

theorem Writable.putc (h : b.Writable) (hr : 0 < b.room) (c : Byte) :
    (b.onPut fun p => p.putc c).Writable := by
  obtain ⟨p, hp, h₁, h₂, h₃⟩ := h
  simp only [room, hp] at hr
  exact ⟨p.putc c, by simp [onPut, hp], by simp only [PutArea.putc]; omega, h₂, h₃⟩

theorem Writable.room_pos (h : b.Writable) (he : b.pending = []) : 0 < b.room := by
  obtain ⟨p, hp, h₁, h₂, h₃⟩ := h
  have h0 : p.pptr = 0 := by
    have := congrArg List.length he
    simpa [pending, hp] using this
  simp only [room, hp]
  omega

end Areas

/-! ### `write` -/

/-- `s'` is `s` after the kernel has accepted `bs`, the object unchanged. -/
def Handed (s s' : Proc Sockbuf κ) (bs : List Byte) : Prop :=
  s'.obj = s.obj ∧ sent s' = sent s ++ bs

theorem Handed.refl (s : Proc Sockbuf κ) : Handed s s [] := ⟨rfl, (List.append_nil _).symm⟩

theorem Handed.trans {s s₁ s' : Proc Sockbuf κ} {a b : List Byte} (h₁ : Handed s s₁ a)
    (h₂ : Handed s₁ s' b) : Handed s s' (a ++ b) :=
  ⟨h₂.1.trans h₁.1, by rw [h₂.2, h₁.2, List.append_assoc]⟩

/-- A call that hands nothing over. -/
theorem handed_nil {s : Proc Sockbuf κ} {y : Sys κ} {c : Syscall}
    (ht : y.trace = s.sys.trace ++ [c]) (hc : c.sentOn s.obj.rep.sock = []) :
    Handed s { s with sys := y } [] := by
  refine ⟨rfl, ?_⟩
  simp only [sent, ht, sentOn_append]
  simp only [sentOn, List.flatMap_cons, List.flatMap_nil, hc, List.append_nil]

/-- One `::write`. -/
theorem write_call_sat (b : Byte) (l : List Byte) (s : Proc Sockbuf κ) :
    (call (Sys.write K s.obj.rep.sock (b :: l)) s).Sat
      (fun r s' => match r with
        | some n => 0 < n ∧ n ≤ (b :: l).length ∧ Handed s s' ((b :: l).take n)
        | none   => ¬ K.WriteSucceeds ∧ Handed s s' [])
      (fun _ _ => False) := by
  simp only [call, Prog.zoom_apply, Sys.write]
  cases hw : K.write s.sys.kern s.obj.rep.sock (b :: l) with
  | mk r k =>
      cases r with
      | accepted n pos le =>
          refine ⟨pos, le, rfl, ?_⟩
          simp [sent, sentOn, Syscall.sentOn]
      | failed e =>
          refine ⟨fun hK => ?_, handed_nil rfl rfl⟩
          obtain ⟨n, pos, le, k', h⟩ := hK.write s.sys.kern s.obj.rep.sock b l
          rw [hw] at h
          cases h

/-- The loop ends at a call that fails. -/
theorem writeLoop_none {depth wlen : Nat} {b : Byte} {l : List Byte} {s s₁ : Proc Sockbuf κ}
    (h : call (Sys.write K s.obj.rep.sock (b :: l)) s = .ret none s₁) :
    writeLoop K (depth + 1) (b :: l) wlen s = .thrown (.int wlen) s₁ := by
  simp only [writeLoop, Prog.bind_apply, Prog.get_apply, Outcome.andThen_ret, h, Prog.throw_apply]

/-- It goes on behind the bytes that a call has taken. -/
theorem writeLoop_some {depth wlen n : Nat} {b : Byte} {l : List Byte} {s s₁ : Proc Sockbuf κ}
    (h : call (Sys.write K s.obj.rep.sock (b :: l)) s = .ret (some n) s₁) :
    writeLoop K (depth + 1) (b :: l) wlen s = writeLoop K depth ((b :: l).drop n) (wlen + n) s₁ := by
  simp only [writeLoop, Prog.bind_apply, Prog.get_apply, Outcome.andThen_ret, h]

/-- The loop hands over all of `rest`, or throws the number of bytes accepted. -/
theorem writeLoop_sat : ∀ (depth : Nat) (rest : List Byte) (wlen : Nat) (s : Proc Sockbuf κ),
    rest.length ≤ depth →
    (writeLoop K depth rest wlen s).Sat
      (fun r s' => r = wlen + rest.length ∧ Handed s s' rest)
      (fun e s' => ∃ k, k < rest.length ∧ e = .int (wlen + k) ∧ Handed s s' (rest.take k) ∧
        ¬ K.WriteSucceeds) := by
  intro depth
  induction depth with
  | zero =>
      intro rest wlen s h
      obtain rfl := List.length_eq_zero_iff.mp (Nat.le_zero.mp h)
      exact ⟨rfl, Handed.refl s⟩
  | succ depth ih =>
      intro rest wlen s h
      cases rest with
      | nil => exact ⟨rfl, Handed.refl s⟩
      | cons b l =>
          simp only [writeLoop, Prog.bind_apply, Prog.get_apply, Outcome.andThen_ret]
          refine (write_call_sat b l s).andThen (fun r s₁ hr => ?_) (fun _ _ h => h.elim)
          cases r with
          | none =>
              obtain ⟨hK, h₁⟩ := hr
              exact ⟨0, by simp, rfl, h₁, hK⟩
          | some n =>
              obtain ⟨pos, le, h₁⟩ := hr
              have hlen : ((b :: l).drop n).length ≤ depth := by
                rw [List.length_drop]; omega
              refine (ih ((b :: l).drop n) (wlen + n) s₁ hlen).mono ?_ ?_
              · rintro r s' ⟨rfl, h₂⟩
                refine ⟨by rw [List.length_drop]; omega, ?_⟩
                simpa only [List.take_append_drop] using h₁.trans h₂
              · rintro e s' ⟨k, hk, rfl, h₂, hK⟩
                rw [List.length_drop] at hk
                refine ⟨n + k, by omega, by rw [Nat.add_assoc], ?_, hK⟩
                simpa only [List.take_add] using h₁.trans h₂

/-- A call that answers with a value, and throws where it returned -1. -/
theorem answer_sat {α : Type} {c : Option α → Syscall} {op : String} {s : Proc Sockbuf κ}
    (hc : ∀ r, (c r).sentOn s.obj.rep.sock = []) (a : Except Int α × κ) :
    ((((s.sys.enterAnswer c a : Outcome Thrown (Sys κ) (Option α)).mapState
        fun y => ({ s with sys := y } : Proc Sockbuf κ)).andThen fun r => checked op r)).Sat
      (fun v s' => Handed s s' [] ∧ ∃ k, a = (.ok v, k))
      (fun e s' => Handed s s' [] ∧ (∃ n, e = .err n op s.obj.sockname) ∧
        ∃ n k, a = (.error n, k)) := by
  obtain ⟨r, k⟩ := a
  cases r with
  | ok v => exact ⟨handed_nil rfl (hc _), k, rfl⟩
  | error n => exact ⟨handed_nil rfl (hc _), ⟨n, rfl⟩, n, k, rfl⟩

theorem awaitWriteready_sat (s : Proc Sockbuf κ) :
    (awaitWriteready K s).Sat (fun _ s' => Handed s s' [])
      (fun e s' => Handed s s' [] ∧ (∃ n op spec, e = .err n op spec) ∧ ¬ K.WriteSucceeds) := by
  simp only [awaitWriteready, Prog.bind_apply, Prog.get_apply, Outcome.andThen_ret, Prog.ite_apply]
  split
  · exact Handed.refl s
  · refine Outcome.Sat.andThen (answer_sat (fun _ => rfl) _) ?_ ?_
    · rintro n s₁ ⟨h₁, k, hk⟩
      simp only [Prog.ite_apply]
      split
      · rename_i h0
        refine ⟨h₁, ⟨_, _, _, rfl⟩, fun hK => ?_⟩
        obtain ⟨m, k', h⟩ := hK.selectWrite s.sys.kern s.obj.rep.sock s.obj.rep.stmo
        rw [hk] at h
        cases h
        exact absurd h0 (Nat.succ_ne_zero m)
      · exact h₁
    · rintro e s₁ ⟨h₁, ⟨n, rfl⟩, m, k, hk⟩
      refine ⟨h₁, ⟨_, _, _, rfl⟩, fun hK => ?_⟩
      obtain ⟨m', k', h⟩ := hK.selectWrite s.sys.kern s.obj.rep.sock s.obj.rep.stmo
      rw [hk] at h
      cases h

/-- **`write`** hands over all of `bs`, or throws the length of the prefix it has handed over, or
an error before the first byte. -/
theorem write_sat (bs : List Byte) (s : Proc Sockbuf κ) :
    (write K bs s).Sat
      (fun r s' => r = bs.length ∧ Handed s s' bs)
      (fun e s' => ((∃ k, k < bs.length ∧ e = .int k ∧ Handed s s' (bs.take k)) ∨
          (∃ n op spec, e = .err n op spec) ∧ Handed s s' []) ∧ ¬ K.WriteSucceeds) := by
  simp only [write, Prog.bind_apply]
  refine (awaitWriteready_sat s).andThen (fun _ s₁ h₁ => ?_) ?_
  · refine (writeLoop_sat bs.length bs 0 s₁ (Nat.le_refl _)).mono ?_ ?_
    · rintro r s' ⟨rfl, h₂⟩
      exact ⟨Nat.zero_add _, by simpa using h₁.trans h₂⟩
    · rintro e s' ⟨k, hk, rfl, h₂, hK⟩
      exact ⟨Or.inl ⟨k, hk, by rw [Nat.zero_add], by simpa using h₁.trans h₂⟩, hK⟩
  · rintro e s' ⟨h, he, hK⟩
    exact ⟨Or.inr ⟨he, h⟩, hK⟩

/-! ### The put functions as moves of the queue -/

/-- The put side has taken `xs`, the rest of the object is as it was. -/
structure Moved (s s' : Proc Sockbuf κ) (xs : List Byte) : Prop where
  writable : s'.obj.Writable
  moves    : (outQueue s).Moves xs (outQueue s')
  rep      : s'.obj.rep = s.obj.rep
  getArea  : s'.obj.getArea = s.obj.getArea
  sockname : s'.obj.sockname = s.obj.sockname

theorem Moved.refl {s : Proc Sockbuf κ} (h : s.obj.Writable) : Moved s s [] :=
  ⟨h, .refl, rfl, rfl, rfl⟩

theorem Moved.trans {s s₁ s' : Proc Sockbuf κ} {xs ys : List Byte} (h₁ : Moved s s₁ xs)
    (h₂ : Moved s₁ s' ys) : Moved s s' (xs ++ ys) :=
  ⟨h₂.writable, h₁.moves.trans h₂.moves, h₂.rep.trans h₁.rep, h₂.getArea.trans h₁.getArea,
    h₂.sockname.trans h₁.sockname⟩

/-- Bytes stored at `pptr ()` are pushed. -/
theorem moved_push {s : Proc Sockbuf κ} {f : PutArea → PutArea} {xs : List Byte}
    (hw : (s.obj.onPut f).Writable) (hp : (s.obj.onPut f).pending = s.obj.pending ++ xs) :
    Moved s (s.onObj (onPut f)) xs := by
  refine ⟨hw, ?_, rfl, rfl, rfl⟩
  have h : outQueue (s.onObj (onPut f)) = (outQueue s).push xs := Fifo.eq_of_popped_held rfl hp
  rw [h]
  exact Fifo.Moves.refl.push xs

/-- Bytes the kernel has accepted are popped, once the area is moved down behind them. -/
theorem moved_pop {s s₁ : Proc Sockbuf κ} {f : PutArea → PutArea} {k : Nat}
    (h₁ : Handed s s₁ (s.obj.pending.take k)) (hw : (s₁.obj.onPut f).Writable)
    (hp : (s₁.obj.onPut f).pending = s.obj.pending.drop k) :
    Moved s (s₁.onObj (onPut f)) [] := by
  have ho := h₁.1
  refine ⟨hw, ?_, by simp [Proc.onObj, onPut, ho], by simp [Proc.onObj, onPut, ho],
    by simp [Proc.onObj, onPut, ho]⟩
  have h : outQueue (s₁.onObj (onPut f)) = (outQueue s).pop k := Fifo.eq_of_popped_held h₁.2 hp
  rw [h]
  exact Fifo.Moves.refl.pop k

theorem moved_of_handed {s s' : Proc Sockbuf κ} (hw : s.obj.Writable) (h : Handed s s' []) :
    Moved s s' [] := by
  have hm : outQueue s' = outQueue s := by
    simp only [outQueue, h.2, h.1, List.append_nil]
  refine ⟨h.1 ▸ hw, ?_, by rw [h.1], by rw [h.1], by rw [h.1]⟩
  rw [hm]
  exact .refl

/-- The recovery of `sync`: the bytes accepted are popped, the others stay pending. -/
theorem syncCatch_sat {s s₁ : Proc Sockbuf κ} (hw : s.obj.Writable) {e : Thrown}
    (he : (∃ k, k < s.obj.pending.length ∧ e = .int k ∧ Handed s s₁ (s.obj.pending.take k)) ∨
      (∃ n op spec, e = .err n op spec) ∧ Handed s s₁ []) :
    (syncCatch e s₁).Sat (fun _ _ => False) (fun _ s' => Moved s s' []) := by
  rcases he with ⟨k, hk, rfl, h₁⟩ | ⟨⟨n, op, spec, rfl⟩, h₁⟩
  · simp only [syncCatch, Prog.bind_apply, Prog.modify_apply, Prog.get_apply, Prog.throw_apply,
      Outcome.andThen_ret, Outcome.sat_thrown]
    have ho := h₁.1
    by_cases h0 : k = 0
    · subst h0
      exact moved_of_handed hw (by simpa [Proc.onObj] using h₁)
    · obtain ⟨p, hp, -, -, -⟩ := id hw
      have hk' : k ≤ p.pptr := by
        rw [pending_eq hp, Mem.length_slice] at hk; omega
      have hpend := pending_keepUnwritten (ho ▸ hp : s₁.obj.putArea = some p) hk' s₁.obj.rep.pend
      have := moved_pop h₁ (Writable.keepUnwritten (ho ▸ hw) k) (by rw [hpend, ho])
      simpa only [Proc.onObj, h0, if_false] using this
  · exact moved_of_handed hw h₁

/-- **`sync`** empties the area; when it throws, what it has not handed over is still pending. -/
theorem sync_sat {s : Proc Sockbuf κ} (hw : s.obj.Writable) :
    (sync K s).Sat (fun r s' => r = 0 ∧ Moved s s' [] ∧ s'.obj.pending = [])
      (fun _ s' => Moved s s' [] ∧ ¬ K.WriteSucceeds) := by
  obtain ⟨p, hp, h₁, h₂, h₃⟩ := id hw
  have hpend := pending_eq hp
  simp only [sync, Prog.bind_apply, Prog.get_apply, Outcome.andThen_ret, hp, Prog.ite_apply]
  split
  · simp only [Prog.tryCatch_apply, ← hpend]
    refine Outcome.Sat.andThen (Q := fun _ s₁ => Handed s s₁ s.obj.pending)
      (E := fun _ s' => Moved s s' [] ∧ ¬ K.WriteSucceeds)
      ((write_sat s.obj.pending s).handle (fun r s₁ h => h.2) fun e s₁ he => ?_) ?_ fun _ _ h => h
    · exact (syncCatch_sat hw he.1).mono (fun _ _ h => h.elim) fun _ _ h => ⟨h, he.2⟩
    · intro _ s₁ hs₁
      have ho := hs₁.1
      have := moved_pop (k := s.obj.pending.length) (by rwa [List.take_length])
        (Writable.setp (ho ▸ hw : s₁.obj.Writable)) (by rw [pending_setp, List.drop_length])
      exact ⟨rfl, this, pending_setp _⟩
  · rename_i hc
    have h0 : p.pptr = 0 := by omega
    exact ⟨rfl, .refl hw, by rw [hpend, h0, Mem.slice_zero]⟩

/-- `overflow (EOF)` is `sync`. -/
theorem overflow_eof {s : Proc Sockbuf κ} (hw : s.obj.Writable) :
    overflow K eofValue s = sync K s := by
  obtain ⟨p, hp, -⟩ := hw
  simp only [overflow, Prog.bind_apply, Prog.get_apply, Outcome.andThen_ret, hp, if_true]

/-- **`overflow (c)`** takes `c`; when it throws, it has taken nothing. -/
theorem overflow_sat {s : Proc Sockbuf κ} (hw : s.obj.Writable) {c : Int} (hc : c ≠ eofValue) :
    (overflow K c s).Sat
      (fun r s' => r = c ∧ Moved s s' [UInt8.ofInt c] ∧ s'.obj.pending ≠ [])
      (fun _ s' => Moved s s' [] ∧ ¬ K.WriteSucceeds) := by
  -- the store, from a state with room for it
  have store : ∀ s₁ : Proc Sockbuf κ, Moved s s₁ [] → 0 < s₁.obj.room →
      Moved s (s₁.onObj (onPut fun p => p.putc (UInt8.ofInt c))) [UInt8.ofInt c] ∧
        (s₁.obj.onPut fun p => p.putc (UInt8.ofInt c)).pending ≠ [] := by
    intro s₁ h₁ hr
    obtain ⟨p₁, hp₁, -⟩ := id h₁.writable
    have hpc := pending_putc hp₁ (UInt8.ofInt c)
    exact ⟨h₁.trans (moved_push (h₁.writable.putc hr _) hpc), by rw [hpc]; simp⟩
  obtain ⟨p, hp, h₁, h₂, h₃⟩ := id hw
  simp only [overflow, Prog.bind_apply, Prog.get_apply, Outcome.andThen_ret, hp, hc, if_false,
    Prog.ite_apply]
  split
  · refine (sync_sat hw).andThen ?_ fun _ _ h => h
    rintro r s₁ ⟨-, hm, he⟩
    obtain ⟨hm', hne⟩ := store s₁ hm (hm.writable.room_pos he)
    exact ⟨rfl, hm', hne⟩
  · rename_i hne
    have hr : 0 < s.obj.room := by simp only [room, hp]; omega
    obtain ⟨hm', hne⟩ := store s (.refl hw) hr
    exact ⟨rfl, hm', hne⟩

theorem ofInt_toNat (c : Byte) : UInt8.ofInt c.toNat = c := by
  apply UInt8.toNat.inj
  have := c.toNat_lt
  simp only [UInt8.ofInt, UInt8.toNat_ofNat']
  omega

/-- **`sputc`** takes `c`; when it throws, it has taken nothing. -/
theorem sputc_sat {s : Proc Sockbuf κ} (hw : s.obj.Writable) (c : Byte) :
    (sputc K c s).Sat (fun r s' => r = (c.toNat : Int) ∧ Moved s s' [c] ∧ s'.obj.pending ≠ [])
      (fun _ s' => Moved s s' [] ∧ ¬ K.WriteSucceeds) := by
  obtain ⟨p, hp, h₁, h₂, h₃⟩ := id hw
  simp only [sputc, Prog.bind_apply, Prog.get_apply, Outcome.andThen_ret, hp, Prog.ite_apply]
  split
  · have hr : 0 < s.obj.room := by simp only [room, hp]; omega
    have hpc := pending_putc hp c
    exact ⟨rfl, moved_push (hw.putc hr c) hpc, by
      show (s.obj.onPut fun p => p.putc c).pending ≠ []
      rw [hpc]; simp⟩
  · simpa only [ofInt_toNat] using overflow_sat hw (byte_ne_eof c)

/-- The recursion of `xsputn`.  A call with nothing pending goes down `bs.length` levels at
most, since each of them takes at least one byte; a first one may only flush. -/
theorem xsputnRec_sat : ∀ (depth : Nat) (bs : List Byte) (s : Proc Sockbuf κ), s.obj.Writable →
    bs.length + (if s.obj.room = 0 then 1 else 0) < depth →
    (xsputnRec K depth bs s).Sat
      (fun r s' => r = bs.length ∧ Moved s s' bs ∧ (bs ≠ [] → s'.obj.pending ≠ []) ∧
        (bs = [] → s'.obj.pending = s.obj.pending))
      (fun _ s' => (∃ k, k < bs.length ∧ Moved s s' (bs.take k)) ∧ ¬ K.WriteSucceeds) := by
  intro depth
  induction depth with
  | zero => intro bs s _ h; omega
  | succ depth ih =>
      intro bs s hw hd
      obtain ⟨p, hp, -⟩ := id hw
      simp only [xsputnRec, Prog.bind_apply, Prog.get_apply, Outcome.andThen_ret, Prog.ite_apply,
        Prog.modify_apply]
      split
      · rename_i hfit
        -- the area has room for all bytes
        have hpf := pending_fill hp bs
        refine ⟨rfl, moved_push (hw.fill hfit) hpf, fun hne => ?_, fun he => ?_⟩
        · show (s.obj.onPut fun p => p.fill bs).pending ≠ []
          rw [hpf]; simp [hne]
        · show (s.obj.onPut fun p => p.fill bs).pending = _
          rw [hpf, he, List.append_nil]
      · rename_i hfit
        -- the area is filled up and flushed, and the rest goes one level down
        have hlt : s.obj.room < bs.length := Nat.lt_of_not_le hfit
        have hlen : (bs.take s.obj.room).length = s.obj.room := by
          rw [List.length_take]; omega
        have h₁ : Moved s (s.onObj (onPut fun p => p.fill (bs.take s.obj.room)))
            (bs.take s.obj.room) :=
          moved_push (hw.fill (by omega)) (pending_fill hp _)
        rw [overflow_eof h₁.writable]
        refine (sync_sat h₁.writable).andThen ?_ ?_
        · rintro r s₂ ⟨rfl, h₂, he⟩
          have hm : Moved s s₂ (bs.take s.obj.room) := by simpa using h₁.trans h₂
          have hr := h₂.writable.room_pos he
          simp only [show (0 : Int) ≠ eofValue by decide, Prog.ite_apply, ne_eq,
            not_false_eq_true, if_true, Prog.bind_apply]
          refine (ih (bs.drop s.obj.room) s₂ h₂.writable ?_).andThen ?_ ?_
          · rw [List.length_drop, if_neg (by omega)]
            split at hd <;> omega
          · rintro r s' ⟨rfl, h₃, hne, -⟩
            have hd : bs.drop s.obj.room ≠ [] := by
              intro h
              have := congrArg List.length h
              rw [List.length_drop, List.length_nil] at this
              omega
            refine ⟨by rw [List.length_drop]; omega, ?_, fun _ => hne hd, fun hb => ?_⟩
            · simpa only [List.take_append_drop] using hm.trans h₃
            · rw [hb] at hlt; exact absurd hlt (Nat.not_lt_zero _)
          · rintro e s' ⟨⟨k, hk, h₃⟩, hK⟩
            rw [List.length_drop] at hk
            refine ⟨⟨s.obj.room + k, by omega, ?_⟩, hK⟩
            simpa only [List.take_add] using hm.trans h₃
        · rintro e s' ⟨h₂, hK⟩
          -- the flush threw, with the bytes that filled the area taken
          exact ⟨⟨s.obj.room, hlt, by simpa using h₁.trans h₂⟩, hK⟩

/-- **`xsputn`** takes all of `bs`; when it throws, it has taken a proper prefix. -/
theorem xsputn_sat {s : Proc Sockbuf κ} (hw : s.obj.Writable) (bs : List Byte) :
    (xsputn K bs s).Sat
      (fun r s' => r = bs.length ∧ Moved s s' bs ∧ (bs ≠ [] → s'.obj.pending ≠ []) ∧
        (bs = [] → s'.obj.pending = s.obj.pending))
      (fun _ s' => (∃ k, k < bs.length ∧ Moved s s' (bs.take k)) ∧ ¬ K.WriteSucceeds) :=
  xsputnRec_sat (bs.length + 2) bs s hw (by split <;> omega)

end Sockbuf

/-! ### Sessions of put operations -/

/-- The operations of the put side. -/
inductive PutOp where
  | sputc (c : Byte)
  | overflow (c : Int)
  | sputn (s : List Byte)
  | sync
  | sendtimeout (wp : Int)

namespace PutOp
open Sockbuf

variable {κ : Type} {K : Kernel κ}

def exec (K : Kernel κ) : PutOp → SockM κ Int
  | .sputc c        => Sockbuf.sputc K c
  | .overflow c     => Sockbuf.overflow K c
  | .sputn s        => (fun n : Nat => (n : Int)) <$> Sockbuf.xsputn K s
  | .sync           => Sockbuf.sync K
  | .sendtimeout wp => Sockbuf.sendtimeout wp

/-- The bytes an operation is given to write. -/
def data : PutOp → List Byte
  | .sputc c    => [c]
  | .overflow c => if c = eofValue then [] else [UInt8.ofInt c]
  | .sputn s    => s
  | .sync | .sendtimeout _ => []

/-- The operation flushes the put area. -/
def flushes : PutOp → Bool
  | .overflow c => c = eofValue
  | .sync       => true
  | .sputc _ | .sputn _ | .sendtimeout _ => false

/-- The bytes `xs` an operation may take, by what it came to: all it was given when it returns,
a proper prefix when `sputn` throws, none when another one throws.  A flush that returns leaves
nothing pending. -/
def Takes (op : PutOp) (_ : Proc Sockbuf κ) (r : Except Thrown Int) (s' : Proc Sockbuf κ)
    (xs : List Byte) : Prop :=
  match op, r with
  | .sputc c,       .ok v    => v = (c.toNat : Int) ∧ xs = [c]
  | .overflow c,    .ok v    =>
      if c = eofValue then v = 0 ∧ xs = [] ∧ s'.obj.pending = [] else v = c ∧ xs = [UInt8.ofInt c]
  | .sputn s,       .ok v    => v = (s.length : Int) ∧ xs = s
  | .sync,          .ok v    => v = 0 ∧ xs = [] ∧ s'.obj.pending = []
  | .sendtimeout _, .ok _    => xs = []
  | .sputn s,       .error _ => xs <+: s ∧ xs.length < s.length
  | _,              .error _ => xs = []

/-- The state accounts for `D`: the bytes the kernel has accepted, followed by the pending
ones. -/
def Balanced (s : Proc Sockbuf κ) (D : List Byte) : Prop :=
  s.obj.Writable ∧ sent s ++ s.obj.pending = D

/-- The put side has taken `xs`, still on the same socket. -/
structure Taken (s s' : Proc Sockbuf κ) (xs : List Byte) : Prop where
  writable : s'.obj.Writable
  sock     : s'.obj.rep.sock = s.obj.rep.sock
  moves    : (outQueue s).Moves xs (outQueue s')

theorem Taken.of_moved {s s' : Proc Sockbuf κ} {xs : List Byte} (h : Moved s s' xs) :
    Taken s s' xs := ⟨h.writable, by rw [h.rep], h.moves⟩

theorem Taken.trans {s s₁ s' : Proc Sockbuf κ} {xs ys : List Byte} (h₁ : Taken s s₁ xs)
    (h₂ : Taken s₁ s' ys) : Taken s s' (xs ++ ys) :=
  ⟨h₂.writable, h₂.sock.trans h₁.sock, h₁.moves.trans h₂.moves⟩

theorem Taken.balanced {s s' : Proc Sockbuf κ} {xs D : List Byte} (h : Taken s s' xs)
    (hs : Balanced s D) : Balanced s' (D ++ xs) :=
  ⟨h.writable, by rw [← hs.2]; exact h.moves.pushed_eq⟩

/-- Setting the timeout takes nothing and changes no area. -/
theorem sendtimeout_sat {s : Proc Sockbuf κ} (hw : s.obj.Writable) (wp : Int) :
    (Sockbuf.sendtimeout wp s).Sat
      (fun _ s' => Taken s s' [] ∧ s'.obj.pending = s.obj.pending) (fun _ _ => False) := by
  obtain ⟨p, hp, h⟩ := hw
  exact ⟨⟨⟨p, hp, h⟩, rfl, .refl⟩, rfl⟩

/-- **One put operation.**  It takes its data, or throws and takes what `Takes` allows; and it
leaves nothing pending exactly when it flushes, or has no data and found nothing pending. -/
theorem exec_sat (op : PutOp) {s : Proc Sockbuf κ} (hw : s.obj.Writable) :
    (op.exec K s).Sat
      (fun v s' => op.Takes s (.ok v) s' op.data ∧ Taken s s' op.data ∧
        (s'.obj.pending = [] ↔ op.flushes = true ∨ op.data = [] ∧ s.obj.pending = []))
      (fun e s' => (∃ xs, op.Takes s (.error e) s' xs ∧ Taken s s' xs) ∧
        ¬ K.WriteSucceeds) := by
  cases op with
  | sputc c =>
      refine (sputc_sat hw c).mono ?_ ?_
      · rintro v s' ⟨rfl, hm, hne⟩
        exact ⟨⟨rfl, rfl⟩, .of_moved hm, by simp [hne, flushes, data]⟩
      · rintro e s' ⟨hm, hK⟩
        exact ⟨⟨[], rfl, .of_moved hm⟩, hK⟩
  | overflow c =>
      by_cases hc : c = eofValue
      · subst hc
        simp only [exec, overflow_eof hw]
        refine (sync_sat hw).mono ?_ ?_
        · rintro v s' ⟨rfl, hm, he⟩
          exact ⟨by simp [Takes, data, he], by simpa [data] using Taken.of_moved hm,
            by simp [he, flushes]⟩
        · rintro e s' ⟨hm, hK⟩
          exact ⟨⟨[], rfl, .of_moved hm⟩, hK⟩
      · refine (overflow_sat hw hc).mono ?_ ?_
        · rintro v s' ⟨rfl, hm, hne⟩
          exact ⟨by simp [Takes, data, hc], by simpa [data, hc] using Taken.of_moved hm,
            by simp [hne, flushes, data, hc]⟩
        · rintro e s' ⟨hm, hK⟩
          exact ⟨⟨[], rfl, .of_moved hm⟩, hK⟩
  | sputn bs =>
      simp only [exec, Prog.map_apply]
      refine (xsputn_sat hw bs).andThen ?_ ?_
      · rintro n s' ⟨rfl, hm, hne, he⟩
        refine ⟨⟨rfl, rfl⟩, .of_moved hm, ?_⟩
        by_cases hb : bs = []
        · simp [flushes, data, hb, he hb]
        · simp [flushes, data, hb, hne hb]
      · rintro e s' ⟨⟨k, hk, hm⟩, hK⟩
        have hl : (bs.take k).length < bs.length := by rw [List.length_take]; omega
        exact ⟨⟨bs.take k, ⟨List.take_prefix k bs, hl⟩, .of_moved hm⟩, hK⟩
  | sync =>
      refine (sync_sat hw).mono ?_ ?_
      · rintro v s' ⟨rfl, hm, he⟩
        exact ⟨⟨rfl, rfl, he⟩, .of_moved hm, by simp [he, flushes]⟩
      · rintro e s' ⟨hm, hK⟩
        exact ⟨⟨[], rfl, .of_moved hm⟩, hK⟩
  | sendtimeout wp =>
      refine (sendtimeout_sat hw wp).mono ?_ fun _ _ h => h.elim
      rintro v s' ⟨ht, he⟩
      exact ⟨rfl, ht, by simp [he, flushes, data]⟩

/-- Sessions on an open put side stay in balance. -/
theorem session_booked (K : Kernel κ) (ops : List PutOp) {s : Proc Sockbuf κ} {D : List Byte}
    (hs : Balanced s D) :
    Booked Balanced Takes s D ops (session (PutOp.exec K) ops s) := by
  refine booked_session (fun op s D hs => ?_) ops s D hs
  refine (exec_sat op hs.1).mono ?_ ?_
  · rintro v s' ⟨hp, ht, -⟩
    exact ⟨op.data, hp, ht.balanced hs⟩
  · rintro e s' ⟨⟨xs, hp, ht⟩, -⟩
    exact ⟨xs, hp, ht.balanced hs⟩

/-- **Output stream integrity.**  In every session of put operations on a sockbuf as constructed
for the descriptor `sd`, with any kernel: each operation runs to its end, and after it, returned
or thrown, the bytes the kernel has accepted followed by the pending ones are those accepted
before the session followed by the bytes each operation so far has taken. -/
theorem output_integrity (K : Kernel κ) (B : ℕ+) (sd : Int) (gbuf pbuf : Mem Byte) (y : Sys κ)
    (ops : List PutOp) :
    Booked Balanced Takes ⟨ofDesc B sd gbuf pbuf, y⟩ (sentOn sd y.trace) ops
      (session (PutOp.exec K) ops ⟨ofDesc B sd gbuf pbuf, y⟩) :=
  session_booked K ops ⟨ofDesc_writable B sd gbuf pbuf, List.append_nil _⟩

end PutOp

end Socketpp
