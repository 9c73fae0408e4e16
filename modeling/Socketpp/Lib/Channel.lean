import Mathlib.Data.List.Basic
import Mathlib.Tactic.Cases

/-!
# Lib — Channels

A channel carries items one way between two parties that act independently: the writer puts items in and
shuts its end, the reader takes items out from the front.  The reader is told of the end only when the
writer has shut the channel and nothing is left in it, or when it has itself stopped listening.

A run is any list of events of the two, in any order that the channel allows.  In each run what has been
taken, followed by what is on the way, is what has been put (`Run.conserved`).  A reader that listens and
has been told of the end has taken everything, and nothing will follow (`Run.complete`).
-/

namespace Lib

/-- What the two parties do. -/
inductive ChannelEvent (β : Type) where
  | put (xs : List β)
  | shut
  | take (xs : List β)
  | ended
  | deafen

/-- The items on the way, whether the writer has shut its end, and whether the reader has stopped
listening. -/
structure Channel (β : Type) where
  queue : List β
  shut  : Bool
  deaf  : Bool
deriving DecidableEq

namespace ChannelEvent

variable {β : Type}

/-- The items that go in. -/
def puts : ChannelEvent β → List β
  | .put xs => xs
  | _       => []

/-- The items that come out. -/
def takes : ChannelEvent β → List β
  | .take xs => xs
  | _        => []

end ChannelEvent

namespace Channel

variable {β : Type} [DecidableEq β]

/-- The channel at the start. -/
def empty : Channel β := ⟨[], false, false⟩

/-- What an event does to the channel, where the channel allows it. -/
def step (c : Channel β) : ChannelEvent β → Option (Channel β)
  | .put xs  => if c.shut then none else some { c with queue := c.queue ++ xs }
  | .shut    => some { c with shut := true }
  | .take xs => if xs <+: c.queue then some { c with queue := c.queue.drop xs.length } else none
  | .ended   => if c.deaf ∨ c.shut ∧ c.queue = [] then some c else none
  | .deafen  => some { c with deaf := true }

/-- The runs. -/
inductive Run : Channel β → List (ChannelEvent β) → Channel β → Prop where
  | nil (c : Channel β) : Run c [] c
  | cons {c c₁ c' : Channel β} {e : ChannelEvent β} {es : List (ChannelEvent β)} (h : c.step e = some c₁)
      (hs : Run c₁ es c') : Run c (e :: es) c'

variable {c c₁ c' : Channel β} {e : ChannelEvent β} {es : List (ChannelEvent β)}

theorem step_put {xs : List β} (h : c.step (.put xs) = some c') :
    c.shut = false ∧ c' = { c with queue := c.queue ++ xs } := by
  rw [step] at h
  split at h
  · cases h
  · rename_i hshut
    exact ⟨Bool.not_eq_true _ ▸ hshut, (Option.some.inj h).symm⟩

theorem step_take {xs : List β} (h : c.step (.take xs) = some c') :
    ∃ left, c.queue = xs ++ left ∧ c' = { c with queue := left } := by
  rw [step] at h
  split at h
  · rename_i hprefix
    obtain ⟨left, hleft⟩ := hprefix
    rw [← hleft, List.drop_left] at h
    exact ⟨left, hleft.symm, (Option.some.inj h).symm⟩
  · cases h

theorem step_ended (h : c.step .ended = some c') :
    (c.deaf = true ∨ c.shut = true ∧ c.queue = []) ∧ c' = c := by
  rw [step] at h
  split at h
  · rename_i hend
    exact ⟨hend, (Option.some.inj h).symm⟩
  · cases h

/-- One event. -/
theorem step_conserved (h : c.step e = some c') : c.queue ++ e.puts = e.takes ++ c'.queue := by
  cases e with
  | put xs =>
      obtain ⟨-, rfl⟩ := step_put h
      rfl
  | take xs =>
      obtain ⟨left, hqueue, rfl⟩ := step_take h
      rw [hqueue]
      exact List.append_nil _
  | ended =>
      obtain ⟨-, rfl⟩ := step_ended h
      exact List.append_nil _
  | shut | deafen =>
      cases h
      exact List.append_nil _

/-- **Nothing is lost, duplicated or reordered.** -/
theorem Run.conserved (h : Run c es c') :
    c.queue ++ es.flatMap ChannelEvent.puts = es.flatMap ChannelEvent.takes ++ c'.queue := by
  induction h with
  | nil c => exact List.append_nil _
  | cons h _ ih =>
      rw [List.flatMap_cons, List.flatMap_cons, ← List.append_assoc, step_conserved h, List.append_assoc, ih,
        List.append_assoc]

/-- The writer has shut its end, and nothing is on the way. -/
def Over (c : Channel β) : Prop := c.shut = true ∧ c.queue = []

/-- Once over, always over, and nothing more is put. -/
theorem step_over (hc : c.Over) (h : c.step e = some c') : c'.Over ∧ e.puts = [] := by
  obtain ⟨hshut, hqueue⟩ := hc
  cases e with
  | put xs =>
      obtain ⟨hopen, -⟩ := step_put h
      rw [hshut] at hopen
      cases hopen
  | take xs =>
      obtain ⟨left, hleft, rfl⟩ := step_take h
      rw [hqueue] at hleft
      exact ⟨⟨hshut, (List.append_eq_nil_iff.mp hleft.symm).2⟩, rfl⟩
  | ended =>
      obtain ⟨-, rfl⟩ := step_ended h
      exact ⟨⟨hshut, hqueue⟩, rfl⟩
  | shut =>
      cases h
      exact ⟨⟨rfl, hqueue⟩, rfl⟩
  | deafen =>
      cases h
      exact ⟨⟨hshut, hqueue⟩, rfl⟩

theorem Run.over (h : Run c es c') (hc : c.Over) : c'.Over := by
  induction h with
  | nil c => exact hc
  | cons h _ ih => exact ih (step_over hc h).1

/-- So nothing has been put in a run that starts there. -/
theorem Run.over_puts (h : Run c es c') (hc : c.Over) : es.flatMap ChannelEvent.puts = [] := by
  induction h with
  | nil c => rfl
  | cons h _ ih =>
      obtain ⟨hover, hnone⟩ := step_over hc h
      rw [List.flatMap_cons, hnone, ih hover]
      rfl

/-- A run in two parts. -/
theorem Run.append_inv {es' : List (ChannelEvent β)} (h : Run c (es ++ es') c') :
    ∃ c₁, Run c es c₁ ∧ Run c₁ es' c' := by
  induction es generalizing c with
  | nil => exact ⟨c, .nil c, h⟩
  | cons e es ih =>
      cases h with
      | cons hstep hrest =>
          obtain ⟨c₁, h₁, h₂⟩ := ih hrest
          exact ⟨c₁, .cons hstep h₁, h₂⟩

/-- Only the reader makes itself deaf. -/
theorem step_deaf (hc : c.deaf = false) (he : e ≠ .deafen) (h : c.step e = some c') : c'.deaf = false := by
  cases e with
  | put xs =>
      obtain ⟨-, rfl⟩ := step_put h
      exact hc
  | take xs =>
      obtain ⟨left, -, rfl⟩ := step_take h
      exact hc
  | ended =>
      obtain ⟨-, rfl⟩ := step_ended h
      exact hc
  | shut =>
      cases h
      exact hc
  | deafen => exact absurd rfl he

/-- A reader that listens is told of the end where it is. -/
theorem Run.ended (h : Run c es c') (hc : c.deaf = false) (hlisten : .deafen ∉ es) (hend : .ended ∈ es) :
    c'.Over := by
  induction h with
  | nil c => cases hend
  | @cons c c₁ c' e es h hs ih =>
      have he : e ≠ .deafen := fun he => hlisten (he ▸ List.mem_cons_self)
      cases hend with
      | head =>
          obtain ⟨hover | hover, rfl⟩ := step_ended h
          · rw [hc] at hover
            cases hover
          · exact hs.over hover
      | tail _ hend =>
          exact ih (step_deaf hc he h) (fun hm => hlisten (List.mem_cons_of_mem _ hm)) hend

/-- **The end.**  A reader that listens and has been told of the end has taken all that has been put. -/
theorem Run.complete (h : Run empty es c') (hlisten : .deafen ∉ es) (hend : .ended ∈ es) :
    es.flatMap ChannelEvent.takes = es.flatMap ChannelEvent.puts := by
  have hconserved := h.conserved
  rw [(h.ended rfl hlisten hend).2, List.append_nil] at hconserved
  exact hconserved.symm

end Channel

end Lib
