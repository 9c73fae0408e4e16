import Socketpp.Lib.Mem
import Socketpp.Lib.Prog

/-!
# Lib — Offers

A list is handed over in parts.  All that is left of it is offered, some items at its front are taken, and
so on, until nothing is left or an offer fails.  `Offers l os done` says that `os` are the offers made for
`l`; their parts are consecutive and make up a prefix of `l`, which is `l` exactly if no offer has failed.
Equal answers make equal offers (`Offers.unique`).

`offerLoop` is the loop that does so from a memory, with a counter for what is left and one for what has
been taken, and throws the second where an offer fails.
-/

namespace Lib

variable {β ε σ : Type}

/-- An offer, and how many items of it were taken; `none` is a failure. -/
structure Offer (β : Type) where
  offered : List β
  taken   : Option Nat
deriving DecidableEq

/-- The items taken. -/
def Offer.part (o : Offer β) : List β := o.offered.take (o.taken.getD 0)

/-- The items taken in all. -/
def parts (os : List (Offer β)) : List β := os.flatMap Offer.part

@[simp] theorem parts_nil : parts ([] : List (Offer β)) = [] := rfl

@[simp] theorem parts_cons (o : Offer β) (os : List (Offer β)) : parts (o :: os) = o.part ++ parts os :=
  List.flatMap_cons

/-- The offers made for a list, until all of it is taken or one fails. -/
inductive Offers : List β → List (Offer β) → Bool → Prop where
  | nil : Offers [] [] true
  | failed {l : List β} (h : l ≠ []) : Offers l [⟨l, none⟩] false
  | taken {l : List β} {os : List (Offer β)} {done : Bool} {n : Nat} (pos : 0 < n) (le : n ≤ l.length)
      (h : Offers (l.drop n) os done) : Offers l (⟨l, some n⟩ :: os) done

namespace Offers

variable {l : List β} {os os' : List (Offer β)} {done done' : Bool}

/-- What is taken at first is not offered again. -/
theorem part_taken {n : Nat} : (⟨l, some n⟩ : Offer β).part ++ l.drop n = l := List.take_append_drop n l

/-- **The parts make up a prefix.** -/
theorem parts_le (h : Offers l os done) : ∃ left, l = parts os ++ left ∧ (done = true ↔ left = []) := by
  induction h with
  | nil => exact ⟨[], rfl, by simp⟩
  | @failed l h => exact ⟨l, rfl, by simp [h]⟩
  | taken pos le _ ih =>
      obtain ⟨left, hl, hdone⟩ := ih
      refine ⟨left, ?_, hdone⟩
      rw [parts_cons, List.append_assoc, ← hl, part_taken]

/-- Something is left behind a failure. -/
theorem parts_lt (h : Offers l os false) : (parts os).length < l.length := by
  obtain ⟨left, rfl, hleft⟩ := h.parts_le
  have hne : left ≠ [] := fun hnil => Bool.false_ne_true (hleft.mpr hnil)
  rw [List.length_append]
  exact Nat.lt_add_of_pos_right (List.length_pos_iff.mpr hne)

/-- **The parts are consecutive**: each offer begins where the parts before it end.  Nothing is offered
behind a failure. -/
theorem at_offer (h : Offers l os done) : ∀ {pre post : List (Offer β)} {o : Offer β},
    os = pre ++ o :: post → o.offered = l.drop (parts pre).length ∧ (o.taken = none → post = []) := by
  induction h with
  | nil =>
      intro pre post o hos
      cases pre <;> cases hos
  | failed h =>
      intro pre post o hos
      obtain ⟨rfl, ho⟩ | ⟨c, rfl, hnil⟩ := List.cons_eq_append_iff.mp hos
      · cases ho
        exact ⟨rfl, fun _ => rfl⟩
      · cases c <;> cases hnil
  | @taken l os done n pos le _ ih =>
      intro pre post o hos
      obtain ⟨rfl, ho⟩ | ⟨c, rfl, hc⟩ := List.cons_eq_append_iff.mp hos
      · cases ho
        exact ⟨rfl, nofun⟩
      · have hlen : (⟨l, some n⟩ : Offer β).part.length = n := List.length_take_of_le le
        obtain ⟨ho, hstop⟩ := ih hc
        rw [ho, List.drop_drop, parts_cons, List.length_append, hlen]
        exact ⟨rfl, hstop⟩

theorem done_iff (h : Offers l os done) : done = true ↔ ∀ o ∈ os, o.taken ≠ none := by
  induction h with
  | nil => simp
  | failed h => simp
  | taken pos le _ ih => simp [ih]

theorem not_done (h : Offers l os done) (hfailed : ∃ o ∈ os, o.taken = none) : done = false := by
  obtain ⟨o, ho, hnone⟩ := hfailed
  rw [← Bool.not_eq_true, h.done_iff]
  exact fun hall => hall o ho hnone

/-- Each offer but a failed one takes an item. -/
theorem length_le (h : Offers l os done) : os.length ≤ l.length := by
  induction h with
  | nil => exact Nat.le_refl 0
  | failed h => exact List.length_pos_iff.mpr h
  | taken pos le _ ih =>
      rw [List.length_drop] at ih
      rw [List.length_cons]
      omega

/-- **Equal answers make equal offers**, as long as there are answers. -/
theorem unique (h : Offers l os done) : ∀ {os' : List (Offer β)} {done' : Bool} {rs : List (Option Nat)},
    Offers l os' done' → os.map Offer.taken <+: rs → os'.map Offer.taken <+: rs →
      os = os' ∧ done = done' := by
  induction h with
  | nil =>
      intro os' done' rs h' _ _
      cases h' with
      | nil => exact ⟨rfl, rfl⟩
      | failed h => exact absurd rfl h
      | taken pos le _ => exact absurd pos (Nat.not_lt.mpr le)
  | failed h =>
      intro os' done' rs h' hrs hrs'
      obtain ⟨rs, rfl⟩ := hrs
      cases h' with
      | nil => exact absurd rfl h
      | failed _ => exact ⟨rfl, rfl⟩
      | taken pos le _ => cases (List.cons_prefix_cons.mp hrs').1
  | taken pos le _ ih =>
      intro os' done' rs h' hrs hrs'
      obtain ⟨rs, rfl⟩ := hrs
      cases h' with
      | nil => exact absurd pos (Nat.not_lt.mpr le)
      | failed h => cases (List.cons_prefix_cons.mp hrs').1
      | taken pos' le' h' =>
          obtain ⟨hn, hrest⟩ := List.cons_prefix_cons.mp hrs'
          cases hn
          obtain ⟨rfl, rfl⟩ := ih h' (List.prefix_append _ _) hrest
          exact ⟨rfl, rfl⟩

end Offers

/-! ### The loop -/

section Loop

variable (offer : List β → Prog ε σ (Option Nat)) (fail : Nat → ε) (buf : Mem β)

/-- The body of `while (len > 0)`: the `len` items from `buf + took` on are offered. -/
def offerRound : Int × Nat → Prog ε σ (Int × Nat ⊕ Nat)
  | (len, took) => do
    if 0 < len then
      match ← offer (buf.slice took len.toNat) with
      | none   => throw (fail took)
      | some n => return .inl (len - n, took + n)
    else return .inr took

/-- The loop, for more iterations than there are items. -/
def offerLoop (len : Int) : Prog ε σ Nat :=
  Prog.loop (offerRound offer fail buf) (len.toNat + 1) (len, 0)

/-- An offer comes to an answer, and takes some items or none.  `R os s`: in `s`, the offers `os` have been
made. -/
def Answers (R : List (Offer β) → σ → Prop) : Prop := ∀ os s l, l ≠ [] → R os s →
  (offer l s).Sat (fun r s' => (∀ n, r = some n → 0 < n ∧ n ≤ l.length) ∧ R (os ++ [⟨l, r⟩]) s')
    fun _ _ => False

variable {offer fail buf}

theorem offerRound_none {len : Int} {took : Nat} {s s' : σ} (hlen : 0 < len)
    (h : offer (buf.slice took len.toNat) s = .ret none s') :
    offerRound offer fail buf (len, took) s = .thrown (fail took) s' := by
  simp only [offerRound, hlen, if_true, Prog.bind_apply, h, Outcome.andThen_ret, Prog.throw_apply]

theorem offerRound_some {len : Int} {took n : Nat} {s s' : σ} (hlen : 0 < len)
    (h : offer (buf.slice took len.toNat) s = .ret (some n) s') :
    offerRound offer fail buf (len, took) s = .ret (.inl (len - n, took + n)) s' := by
  simp only [offerRound, hlen, if_true, Prog.bind_apply, h, Outcome.andThen_ret, Prog.pure_apply]

/-- **The counters** move against each other, and stay where they are not negative. -/
theorem offerRounds_counters {R : List (Offer β) → σ → Prop} (hoffer : Answers offer R) {k : Nat} {c c' : Int × Nat}
    {s s' : σ} (hrounds : Prog.Rounds (offerRound offer fail buf) k c s c' s') :
    ∀ {os : List (Offer β)}, R os s → 0 ≤ c.1 → 0 ≤ c'.1 ∧ c'.1 + c'.2 = c.1 + c.2 := by
  induction hrounds with
  | refl c s => exact fun _ hlen => ⟨hlen, rfl⟩
  | @step k c c₁ c' s s₁ s' hround _ ih =>
      intro os hR hlen
      obtain ⟨len, took⟩ := c
      by_cases hpos : 0 < len
      · have hne : buf.slice took len.toNat ≠ [] := by
          refine List.length_pos_iff.mp ?_
          rw [Mem.length_slice]
          omega
        obtain ⟨r, s₂, hret, hr, hR₁⟩ := (hoffer os s _ hne hR).returns
        cases r with
        | none =>
            rw [offerRound_none hpos hret] at hround
            cases hround
        | some n =>
            rw [offerRound_some hpos hret] at hround
            cases hround
            have hle := (hr n rfl).2
            rw [Mem.length_slice] at hle
            have hc := ih hR₁ (show (0 : Int) ≤ len - n by omega)
            simp only at hc ⊢
            omega
      · simp only [offerRound, hpos, if_false] at hround
        cases hround

/-- **The loop from any point.** -/
theorem offerRounds_sat {R : List (Offer β) → σ → Prop} (hoffer : Answers offer R) :
    ∀ (k : Nat) {len took : Nat} {os : List (Offer β)} {s : σ}, R os s → len < k →
      (Prog.loop (offerRound offer fail buf) k ((len : Int), took) s).Sat
        (fun r s' => ∃ os', Offers (buf.slice took len) os' true ∧ R (os ++ os') s' ∧ r = took + len)
        (fun e s' => ∃ os', Offers (buf.slice took len) os' false ∧ R (os ++ os') s' ∧
          e = fail (took + (parts os').length)) := by
  intro k
  induction k with
  | zero => intro len took os s _ hk; exact absurd hk (Nat.not_lt_zero _)
  | succ k ih =>
      intro len took os s hR hk
      cases len with
      | zero =>
          refine ⟨[], .nil, ?_, rfl⟩
          rw [List.append_nil]
          exact hR
      | succ m =>
          have hpos : (0 : Int) < ((m + 1 : Nat) : Int) := by omega
          have hne : buf.slice took (m + 1) ≠ [] := List.cons_ne_nil _ _
          obtain ⟨r, s₁, hret, hr, hR₁⟩ := (hoffer os s _ hne hR).returns
          rw [← Int.toNat_natCast (m + 1)] at hret
          cases r with
          | none =>
              rw [Prog.loop_thrown k (offerRound_none hpos hret)]
              exact ⟨_, .failed hne, hR₁, rfl⟩
          | some n =>
              obtain ⟨pos, le⟩ := hr n rfl
              rw [Mem.length_slice] at le
              have hlen : ((m + 1 : Nat) : Int) - n = ((m + 1 - n : Nat) : Int) := by omega
              have htake : ((⟨buf.slice took (m + 1), some n⟩ : Offer β).part).length = n :=
                List.length_take_of_le (by rw [Mem.length_slice]; exact le)
              rw [Prog.loop_inl k (offerRound_some hpos hret), hlen]
              have more : ∀ {os' done}, Offers (buf.slice (took + n) (m + 1 - n)) os' done →
                  Offers (buf.slice took (m + 1)) (⟨buf.slice took (m + 1), some n⟩ :: os') done := by
                intro os' done h
                refine .taken pos (by rw [Mem.length_slice]; exact le) ?_
                rw [Mem.drop_slice _ _ le]
                exact h
              refine (ih hR₁ (by omega)).mono ?_ ?_
              · rintro r s' ⟨os', h, hR', rfl⟩
                refine ⟨_, more h, ?_, by omega⟩
                rwa [List.append_assoc] at hR'
              · rintro e s' ⟨os', h, hR', rfl⟩
                refine ⟨_, more h, by rwa [List.append_assoc] at hR', ?_⟩
                rw [parts_cons, List.length_append, htake, Nat.add_assoc]

/-- **The loop** makes offers for the first `len` items, and returns `len`, or throws how many have been
taken. -/
theorem offerLoop_sat {R : List (Offer β) → σ → Prop} (hoffer : Answers offer R) (len : Nat) {s : σ}
    (h : R [] s) :
    (offerLoop offer fail buf len s).Sat
      (fun r s' => ∃ os, Offers (buf.slice 0 len) os true ∧ R os s' ∧ r = len)
      (fun e s' => ∃ os, Offers (buf.slice 0 len) os false ∧ R os s' ∧ e = fail (parts os).length) := by
  have hsat : (Prog.loop (offerRound offer fail buf) (len + 1) ((len : Int), 0) s).Sat _ _ :=
    offerRounds_sat hoffer (len + 1) h (Nat.lt_succ_self len)
  simpa only [offerLoop, Int.toNat_natCast, Nat.zero_add, List.nil_append] using hsat

end Loop

end Lib
