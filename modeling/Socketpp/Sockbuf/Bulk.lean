import Socketpp.Sockbuf.Reached

/-!
# Sockbuf — whole areas and single bytes

`xsgetn` copies whole areas and `xsputn` fills them.  Both come to what the same bytes come to one
by one, up to the first end of file or exception: the same value, the same exception, the same bytes
stored, the same areas and the same calls (`xsgetn_bytewise`, `xsputn_bytewise`).

A bulk function splits what it is asked for at the end of the area; a run of single bytes splits there
too, since only the byte behind the end of the area calls `underflow` or `overflow`.
-/

namespace Socketpp
open Lib

namespace Sockbuf
open Family

variable {κ : Type} {K : Kernel κ}

/-! ### Reading -/

/-- `sbumpc` up to `n` times, up to the first end of file; each byte is stored behind the one before. -/
def sbumpcs (K : Kernel κ) : Nat → Prog Thrown (Getting κ) Nat
  | 0     => return 0
  | n + 1 => do
    let v ← within (sbumpc K)
    if v = eofValue then return 0
    else do
      modify fun t => { t with dst := t.dst ++ [UInt8.ofInt v] }
      return 1 + (← sbumpcs K n)

theorem copyOut_zero (t : Getting κ) : copyOut 0 t = t := by
  cases ha : t.proc.obj.getArea with
  | none => simp only [copyOut, ha]
  | some a =>
      have hg : t.proc.obj.onGet (fun a => a.gbump 0) = t.proc.obj := by
        rw [onGet, ha, Option.map_some, GetArea.gbump, Nat.add_zero, ← ha]
      simp only [copyOut, ha, Proc.onObj, hg, Mem.slice_zero, List.append_nil]

theorem copyOut_succ (k : Nat) (t : Getting κ) : copyOut k (copyOut 1 t) = copyOut (k + 1) t := by
  cases ha : t.proc.obj.getArea with
  | none => simp only [copyOut, ha]
  | some a =>
      simp only [copyOut, ha, Proc.onObj, onGet, Option.map_some, GetArea.gbump, Mem.slice_succ,
        Mem.slice_zero, List.append_assoc, List.singleton_append, Nat.add_assoc, Nat.add_comm 1 k]

/-- A byte out of the area. -/
theorem sbumpcs_copyOut {t : Getting κ} (h : 0 < t.proc.obj.showmanyc) (n : Nat) :
    sbumpcs K (n + 1) t = (sbumpcs K n (copyOut 1 t)).andThen fun r => pure (1 + r) := by
  cases ha : t.proc.obj.getArea with
  | none => simp [showmanyc, ha] at h
  | some a =>
      have hlt : a.gptr < a.egptr := by
        by_contra hge
        simp [showmanyc, ha, hge] at h
      simp only [sbumpcs, within, sbumpc, Prog.bind_apply, Prog.zoom_apply, Prog.get_apply,
        Outcome.andThen_ret, ha, Prog.ite_apply, hlt, if_true, Prog.modify_apply, Prog.pure_apply,
        Outcome.mapState_ret, byte_ne_eof, if_false, ofInt_toNat, copyOut, Mem.slice_succ, Mem.slice_zero]

/-- The bytes of an area, one by one. -/
theorem sbumpcs_area : ∀ (k n : Nat) (t : Getting κ), k ≤ t.proc.obj.showmanyc →
    sbumpcs K (k + n) t = (sbumpcs K n (copyOut k t)).andThen fun r => pure (k + r) := by
  intro k
  induction k with
  | zero =>
      intro n t _
      rw [copyOut_zero, Nat.zero_add]
      cases sbumpcs K n t with
      | ret r t' => rw [Outcome.andThen_ret, Prog.pure_apply, Nat.zero_add]
      | thrown e t' => rfl
      | spin => rfl
  | succ k ih =>
      intro n t hk
      have hk' : k ≤ (copyOut 1 t).proc.obj.showmanyc := by
        cases ha : t.proc.obj.getArea with
        | none => rw [showmanyc, ha] at hk; exact absurd hk (Nat.not_succ_le_zero k)
        | some a =>
            simp only [showmanyc, copyOut, ha, Proc.onObj, onGet, Option.map_some, GetArea.gbump] at hk ⊢
            split at hk <;> split <;> omega
      rw [Nat.add_right_comm, sbumpcs_copyOut (by omega), ih n _ hk', copyOut_succ]
      cases sbumpcs K n (copyOut (k + 1) t) with
      | ret r t' => simp only [Outcome.andThen_ret, Prog.pure_apply]; congr 1; omega
      | thrown e t' => rfl
      | spin => rfl

/-- A second `underflow` finds what the first has found. -/
theorem underflow_again {s s₁ : Proc Sockbuf κ} {v : Int} (h : underflow K s = .ret v s₁)
    (hv : v ≠ eofValue) : s₁.obj.unread ≠ [] ∧ underflow K s₁ = .ret v s₁ := by
  cases ha : s.obj.getArea with
  | none =>
      rw [GetOp.underflow_none ha] at h
      cases h
      exact absurd rfl hv
  | some a =>
      obtain ⟨hp, ⟨heof, -⟩ | ⟨c, l, hu, rfl⟩⟩ := (underflow_sat ⟨a, ha⟩).ret h
      · exact absurd heof hv
      · obtain ⟨a₁, ha₁⟩ := hp.readable
        have hne : s₁.obj.unread ≠ [] := by rw [hu]; exact List.cons_ne_nil c l
        have hlt : a₁.gptr < a₁.egptr := by
          by_contra hge
          exact hne ((unread_nil_iff ha₁).mpr hge)
        rw [unread_cons ha₁ hlt] at hu
        cases hu
        exact ⟨hne, underflow_of_unread ha₁ hlt⟩

/-- The byte behind the end of the area calls `underflow`. -/
theorem sbumpcs_underflow (n : Nat) (t : Getting κ) :
    sbumpcs K (n + 1) t = (within (underflow K) t).andThen fun v =>
      if v ≠ eofValue then sbumpcs K (n + 1) else pure 0 := by
  simp only [sbumpcs, within, Prog.bind_apply, Prog.zoom_apply, sbumpc_eq, uflow]
  cases h : underflow K t.proc with
  | ret v s₁ =>
      by_cases hv : v = eofValue
      · subst hv
        simp only [Outcome.andThen_ret, Outcome.mapState_ret, ne_eq, not_true_eq_false, if_true,
          if_false, Prog.pure_apply]
      · have h₁ := (underflow_again h hv).2
        simp only [Outcome.andThen_ret, Outcome.mapState_ret, ne_eq, hv, not_false_eq_true, if_true,
          if_false, Prog.bind_apply, Prog.zoom_apply, Prog.modify_apply, Prog.pure_apply, h₁]
  | thrown e s₁ => rfl
  | spin => rfl

theorem xsgetnRec_bytewise : ∀ (depth n : Nat) (t : Getting κ),
    n + (if t.proc.obj.unread = [] then 1 else 0) < depth →
    xsgetnRec K depth n t = sbumpcs K n t := by
  intro depth
  induction depth with
  | zero => intro n t h; omega
  | succ depth ih =>
      intro n t hd
      simp only [xsgetnRec, Prog.bind_apply, Prog.get_apply, Outcome.andThen_ret, Prog.ite_apply,
        Prog.modify_apply]
      split
      · rename_i hn
        exact (sbumpcs_area n 0 t hn).symm
      · rename_i hn
        -- the first `sbumpc` behind the area is the one that refills it
        obtain ⟨m, hm⟩ : ∃ m, n = t.proc.obj.showmanyc + (m + 1) :=
          ⟨n - t.proc.obj.showmanyc - 1, by omega⟩
        have hrest : n - t.proc.obj.showmanyc = m + 1 := by omega
        rw [hrest]
        conv_rhs => rw [hm, sbumpcs_area _ (m + 1) t (Nat.le_refl _), sbumpcs_underflow]
        cases hu : within (underflow K) (copyOut t.proc.obj.showmanyc t) with
        | ret v t₂ =>
            by_cases hv : v = eofValue
            · simp only [Outcome.andThen_ret, hv, ne_eq, not_true_eq_false, if_false, Prog.pure_apply,
                Nat.add_zero]
            · have hne : t₂.proc.obj.unread ≠ [] := by
                have h := (within_result (r := .ok v) (congrArg Outcome.result hu)).1
                exact (underflow_again (Outcome.result_eq_ok h) hv).1
              have hdeep : m + 1 + (if t₂.proc.obj.unread = [] then 1 else 0) < depth := by
                rw [if_neg hne]
                rw [showmanyc_eq] at hm
                split at hd
                · omega
                · rename_i hne'
                  have := List.length_pos_of_ne_nil hne'
                  omega
              simp only [Outcome.andThen_ret, hv, ne_eq, not_false_eq_true, if_true, Prog.bind_apply,
                ih (m + 1) t₂ hdeep]
        | thrown e t₂ => rfl
        | spin => rfl

/-- **Reading in bulk.**  For every object, whatever the kernel answers, `xsgetn` comes to its end, and
comes to what as many `sbumpc` come to: the value, the exception, the bytes stored, the object, and the
system with all calls made. -/
theorem xsgetn_bytewise (K : Kernel κ) (n : Nat) (t : Getting κ) :
    xsgetn K n t = sbumpcs K n t ∧ ∃ r t', (xsgetn K n t).result = some (r, t') := by
  refine ⟨xsgetnRec_bytewise (n + 2) n t (by split <;> omega), ?_⟩
  cases ha : t.proc.obj.getArea with
  | none =>
      obtain ⟨r, t', h⟩ := (GetOp.exec_bare (K := K) (.sgetn n) ha).ends
      obtain ⟨r', h', -⟩ := Prog.map_result h
      exact ⟨r', t', h'⟩
  | some a => exact (xsgetn_sat ⟨a, ha⟩ n).ends

/-! ### Writing -/

/-- `sputc` on the bytes of `s` one after another, up to the first end of file. -/
def sputcs (K : Kernel κ) : List Byte → SockM κ Nat
  | []     => return 0
  | c :: s => do
    if (← sputc K c) = eofValue then return 0
    else return 1 + (← sputcs K s)

/-- A byte into the area. -/
theorem sputcs_putc {s : Proc Sockbuf κ} (h : 0 < s.obj.room) (c : Byte) (l : List Byte) :
    sputcs K (c :: l) s =
      (sputcs K l (s.onObj (onPut fun p => p.fill [c]))).andThen fun r => pure (1 + r) := by
  cases hp : s.obj.putArea with
  | none => simp [room, hp] at h
  | some p =>
      have hlt : p.pptr < p.epptr := by
        simp only [room, hp] at h
        omega
      simp only [sputcs, sputc, Prog.bind_apply, Prog.get_apply, Outcome.andThen_ret, hp,
        Prog.ite_apply, hlt, if_true, Prog.modify_apply, Prog.pure_apply, byte_ne_eof, if_false]
      rfl

theorem room_fill (s : Proc Sockbuf κ) (xs : List Byte) :
    (s.onObj (onPut fun p => p.fill xs)).obj.room = s.obj.room - xs.length := by
  cases hp : s.obj.putArea with
  | none => simp [room, Proc.onObj, onPut, hp]
  | some p => simp [room, Proc.onObj, onPut, hp, PutArea.fill, Nat.sub_sub]

theorem fill_cons (s : Proc Sockbuf κ) (c : Byte) (l : List Byte) :
    (s.onObj (onPut fun p => p.fill [c])).onObj (onPut fun p => p.fill l) =
      s.onObj (onPut fun p => p.fill (c :: l)) := by
  cases hp : s.obj.putArea with
  | none => simp [Proc.onObj, onPut, hp]
  | some p =>
      simp [Proc.onObj, onPut, hp, PutArea.fill, Mem.store, Nat.add_assoc, Nat.add_comm 1 l.length]

theorem fill_nil (s : Proc Sockbuf κ) : s.onObj (onPut fun p => p.fill []) = s := by
  cases hp : s.obj.putArea with
  | none => rw [Proc.onObj, onPut_none hp]
  | some p =>
      have ho : s.obj.onPut (fun p => p.fill []) = s.obj := by
        rw [onPut, hp, Option.map_some, PutArea.fill, Mem.store, List.length_nil, Nat.add_zero, ← hp]
      rw [Proc.onObj, ho]

/-- As many bytes as there is room for, one by one. -/
theorem sputcs_area : ∀ (xs l : List Byte) (s : Proc Sockbuf κ), xs.length ≤ s.obj.room →
    sputcs K (xs ++ l) s =
      (sputcs K l (s.onObj (onPut fun p => p.fill xs))).andThen fun r => pure (xs.length + r) := by
  intro xs
  induction xs with
  | nil =>
      intro l s _
      rw [fill_nil, List.nil_append, List.length_nil]
      cases sputcs K l s with
      | ret r s' => rw [Outcome.andThen_ret, Prog.pure_apply, Nat.zero_add]
      | thrown e s' => rfl
      | spin => rfl
  | cons c xs ih =>
      intro l s hs
      rw [List.length_cons] at hs
      rw [List.cons_append, sputcs_putc (by omega), ih l _ (by rw [room_fill, List.length_singleton]; omega),
        fill_cons]
      cases sputcs K l (s.onObj (onPut fun p => p.fill (c :: xs))) with
      | ret r s' =>
          simp only [Outcome.andThen_ret, Prog.pure_apply, List.length_cons]
          congr 1
          omega
      | thrown e s' => rfl
      | spin => rfl

/-- The byte behind the end of the area calls `overflow`. -/
theorem sputcs_overflow {s : Proc Sockbuf κ} (hs : PutSound s.obj) (h : s.obj.room = 0) (c : Byte)
    (l : List Byte) : sputcs K (c :: l) s = (overflow K eofValue s).andThen fun v =>
      if v ≠ eofValue then sputcs K (c :: l) else pure 0 := by
  rcases hs with hnone | hw
  · simp only [sputcs, sputc, Prog.bind_apply, Prog.get_apply, Outcome.andThen_ret, hnone,
      overflow_none hnone, if_true, ne_eq, not_true_eq_false, if_false]
  · obtain ⟨p, hp, hle, -⟩ := id hw
    have hfull : p.pptr = p.epptr := by
      simp only [room, hp] at h
      omega
    have hge : ¬ p.pptr < p.epptr := by omega
    have hne := byte_ne_eof c
    rw [overflow_eof hw]
    have hsat := sync_sat (K := K) hw
    have hsput : sputc K c s = (sync K s).andThen fun _ => do
        modify (Proc.onObj (onPut fun p => p.putc (UInt8.ofInt (c.toNat : Int))))
        return (c.toNat : Int) := by
      simp only [sputc, overflow, Prog.bind_apply, Prog.get_apply, Outcome.andThen_ret, hp,
        Prog.ite_apply, hfull, Nat.lt_irrefl, if_false, if_true, hne]
    conv_lhs => rw [sputcs, Prog.bind_apply, hsput]
    cases hsync : sync K s with
    | ret v s₁ =>
        rw [hsync] at hsat
        obtain ⟨rfl, hm, he⟩ := hsat
        have hroom := hm.writable.room_pos he
        simp only [Outcome.andThen_ret, Prog.bind_apply, Prog.modify_apply, Prog.pure_apply, hne,
          if_false, ofInt_toNat, show (0 : Int) ≠ eofValue by decide, ne_eq, not_false_eq_true, if_true,
          sputcs_putc hroom]
        rfl
    | thrown e s₁ => rfl
    | spin => rfl

theorem PutSound.fill {b : Sockbuf} (h : PutSound b) {xs : List Byte} (hxs : xs.length ≤ b.room) :
    PutSound (b.onPut fun p => p.fill xs) :=
  h.imp (fun hn => by rw [onPut_none hn]; exact hn) fun hw => hw.fill hxs

/-- A flush that returns more than `EOF` has made room. -/
theorem overflow_room {s s₁ : Proc Sockbuf κ} {v : Int} (hs : PutSound s.obj)
    (h : overflow K eofValue s = .ret v s₁) (hv : v ≠ eofValue) :
    PutSound s₁.obj ∧ 0 < s₁.obj.room := by
  rcases hs with hnone | hw
  · rw [overflow_none hnone] at h
    cases h
    exact absurd rfl hv
  · rw [overflow_eof hw] at h
    obtain ⟨-, hm, he⟩ := (sync_sat hw).ret h
    exact ⟨.inr hm.writable, hm.writable.room_pos he⟩

theorem xsputnRec_bytewise : ∀ (depth : Nat) (bs : List Byte) (s : Proc Sockbuf κ), PutSound s.obj →
    bs.length + (if s.obj.room = 0 then 1 else 0) < depth →
    xsputnRec K depth bs s = sputcs K bs s := by
  intro depth
  induction depth with
  | zero => intro bs s _ h; omega
  | succ depth ih =>
      intro bs s hs hd
      simp only [xsputnRec, Prog.bind_apply, Prog.get_apply, Outcome.andThen_ret, Prog.ite_apply,
        Prog.modify_apply]
      split
      · rename_i hfit
        have h := sputcs_area (K := K) bs [] s hfit
        rw [List.append_nil] at h
        rw [h]
        rfl
      · rename_i hfit
        have hlen : (bs.take s.obj.room).length = s.obj.room := by
          rw [List.length_take]
          omega
        have hroom : (s.onObj (onPut fun p => p.fill (bs.take s.obj.room))).obj.room = 0 := by
          rw [room_fill, hlen, Nat.sub_self]
        have hs₁ : PutSound (s.onObj (onPut fun p => p.fill (bs.take s.obj.room))).obj :=
          PutSound.fill hs (Nat.le_of_eq hlen)
        obtain ⟨c, l, hcl⟩ : ∃ c l, bs.drop s.obj.room = c :: l := by
          cases hdrop : bs.drop s.obj.room with
          | nil => exact absurd (List.drop_eq_nil_iff.mp hdrop) hfit
          | cons c l => exact ⟨c, l, rfl⟩
        -- the bytes that fit go into the area one by one, and the next one finds it full
        have hsplit : sputcs K bs s = (sputcs K (c :: l)
            (s.onObj (onPut fun p => p.fill (bs.take s.obj.room)))).andThen fun r =>
              pure (s.obj.room + r) := by
          have h := sputcs_area (K := K) (bs.take s.obj.room) (c :: l) s (Nat.le_of_eq hlen)
          rwa [← hcl, List.take_append_drop, hcl, hlen] at h
        rw [hsplit, hcl, sputcs_overflow hs₁ hroom]
        cases hov : overflow K eofValue (s.onObj (onPut fun p => p.fill (bs.take s.obj.room))) with
        | ret v s₂ =>
            by_cases hv : v = eofValue
            · simp only [Outcome.andThen_ret, hv, ne_eq, not_true_eq_false, if_false, Prog.pure_apply,
                Nat.add_zero]
            · obtain ⟨hs₂, hroom₂⟩ := overflow_room hs₁ hov hv
              have hdeep : (c :: l).length + (if s₂.obj.room = 0 then 1 else 0) < depth := by
                rw [if_neg (by omega), ← hcl, List.length_drop]
                split at hd <;> omega
              simp only [Outcome.andThen_ret, hv, ne_eq, not_false_eq_true, if_true, Prog.bind_apply,
                ih (c :: l) s₂ hs₂ hdeep]
        | thrown e s₂ => rfl
        | spin => rfl

/-- **Writing in bulk.**  For every object reached, its put side open or shut, whatever the kernel
answers, `xsputn` comes to its end, and comes to what `sputc` on the bytes one after another comes to:
the value, the exception, the object, and the system with all calls made. -/
theorem xsputn_bytewise {b : Sockbuf} (hb : Reached K b) (y : Sys κ) (bs : List Byte) :
    xsputn K bs ⟨b, y⟩ = sputcs K bs ⟨b, y⟩ ∧
      ∃ r s', (xsputn K bs ⟨b, y⟩).result = some (r, s') := by
  have hs : PutSound b := hb.putSound
  refine ⟨xsputnRec_bytewise (bs.length + 2) bs ⟨b, y⟩ hs (by split <;> omega), ?_⟩
  rcases hs with hnone | hw
  · obtain ⟨r, s', h⟩ := (PutOp.exec_bare (K := K) (.sputn bs) (s := ⟨b, y⟩) hnone).ends
    obtain ⟨r', h', -⟩ := Prog.map_result h
    exact ⟨r', s', h'⟩
  · exact (xsputn_sat (s := ⟨b, y⟩) hw bs).ends

/-- Three bytes through a buffer of two, on a fresh object. -/
theorem xsputn_bytewise_full :
    xsputn (Kernel.smooth 1024) [97, 98, 99] ⟨ofDesc 2 3 (fun _ => 0) (fun _ => 0), ⟨⟨[], ()⟩, 0, []⟩⟩ =
        sputcs (Kernel.smooth 1024) [97, 98, 99]
          ⟨ofDesc 2 3 (fun _ => 0) (fun _ => 0), ⟨⟨[], ()⟩, 0, []⟩⟩ ∧
      ∃ r s', (xsputn (Kernel.smooth 1024) [97, 98, 99]
        ⟨ofDesc 2 3 (fun _ => 0) (fun _ => 0), ⟨⟨[], ()⟩, 0, []⟩⟩).result = some (r, s') :=
  xsputn_bytewise (K := Kernel.smooth 1024) (.ofDesc 2 3 (fun _ => 0) fun _ => 0) ⟨⟨[], ()⟩, 0, []⟩ [97, 98, 99]

end Sockbuf

end Socketpp
