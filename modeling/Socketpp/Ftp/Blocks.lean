import Socketpp.Lib.Trail
import Socketpp.Ftp.Data

/-!
# Ftp — Blocks

`Blocks` is a triple that tells an exception from `std::terminate`; its rule for `inBlock` runs the destructor
behind both ends of the block.
-/

namespace Socketpp
open Lib

variable {σ τ α β : Type}

/-- From states with `P`, the program returns in states with `Q`, throws in states with `E`, and is terminated
in states with `D`, if it comes to an end. -/
def Blocks (P : σ → Prop) (p : Prog Raised σ α) (Q E D : σ → Prop) : Prop :=
  ∀ s, P s → match p s with
    | .ret _ s'                 => Q s'
    | .thrown (.exception _) s' => E s'
    | .thrown .terminate s'     => D s'
    | .spin                     => True

namespace Blocks

variable {P Q R E F D : σ → Prop}

theorem raising {p : Prog Thrown σ α} (h : Prog.Triple P p Q E) : Blocks P (raising p) Q E D := by
  intro s hs
  have hp := h s hs
  rw [Socketpp.raising, Prog.mapThrown_apply]
  cases hx : p s with
  | ret a s' => rw [hx] at hp; exact hp
  | thrown e s' => rw [hx] at hp; exact hp
  | spin => trivial

theorem noexcept {p : Prog Thrown σ α} (h : Prog.Triple P p Q D) : Blocks P (noexcept p) Q E D := by
  intro s hs
  have hp := h s hs
  rw [Socketpp.noexcept, Prog.mapThrown_apply]
  cases hx : p s with
  | ret a s' => rw [hx] at hp; exact hp
  | thrown e s' => rw [hx] at hp; exact hp
  | spin => trivial

theorem pure (a : α) : Blocks P (pure a : Prog Raised σ α) P E D := fun _ h => h

theorem bind {p : Prog Raised σ α} {f : α → Prog Raised σ β} (hp : Blocks P p R E D)
    (hf : ∀ a, Blocks R (f a) Q E D) : Blocks P (p >>= f) Q E D := by
  intro s hs
  have h := hp s hs
  rw [Prog.bind_apply]
  cases hx : p s with
  | ret a s' => rw [hx] at h; exact hf a s' h
  | spin => trivial
  | thrown e s' => rw [hx] at h; cases e <;> exact h

/-- A program that starts by looking at the state. -/
theorem get_bind {f : σ → Prog Raised σ β} (hf : ∀ s, Blocks P (f s) Q E D) :
    Blocks P (MonadState.get >>= f) Q E D := fun s hs => hf s s hs

theorem ite {c : Prop} [Decidable c] {p q : Prog Raised σ α} (hp : Blocks P p Q E D) (hq : Blocks P q Q E D) :
    Blocks P (if c then p else q) Q E D := by
  split
  · exact hp
  · exact hq

theorem modify {f : σ → σ} (hf : ∀ s, P s → Q (f s)) :
    Blocks P (modify f : Prog Raised σ PUnit) Q E D := hf

theorem throw_exception (e : Thrown) : Blocks E (throw (.exception e) : Prog Raised σ α) Q E D := fun _ h => h

/-- **The rule of blocks**: the destructor runs behind a return and behind an exception, and if it throws,
nothing else runs. -/
theorem inBlock {p : Prog Raised σ α} {destructor : Prog Thrown σ Unit} (hp : Blocks P p R F D)
    (hret : Prog.Triple R destructor Q D) (hthrown : Prog.Triple F destructor E D) :
    Blocks P (inBlock destructor p) Q E D := by
  refine .bind (R := R) (fun s hs => ?_) fun a => .bind (.noexcept hret) fun _ => .pure a
  have h := hp s hs
  rw [Prog.tryCatch_apply]
  cases hx : p s with
  | ret a s' => rw [hx] at h; exact h
  | spin => trivial
  | thrown e s' =>
      rw [hx] at h
      cases e with
      | exception e =>
          have hquit : Blocks F (do
              Socketpp.noexcept destructor
              throw (.exception e) : Prog Raised σ α) R E D :=
            .bind (.noexcept hthrown) fun _ => .throw_exception e
          exact hquit s' h
      | terminate => exact h

theorem ret {p : Prog Raised σ α} {s s' : σ} {a : α} (h : Blocks P p Q E D) (hs : P s)
    (hret : p s = .ret a s') : Q s' := by
  have hp := h s hs
  rwa [hret] at hp

theorem exception {p : Prog Raised σ α} {s s' : σ} {e : Thrown} (h : Blocks P p Q E D) (hs : P s)
    (hthrown : p s = .thrown (.exception e) s') : E s' := by
  have hp := h s hs
  rwa [hthrown] at hp

theorem terminated {p : Prog Raised σ α} {s s' : σ} (h : Blocks P p Q E D) (hs : P s)
    (hend : p s = .thrown .terminate s') : D s' := by
  have hp := h s hs
  rwa [hend] at hp

/-- A program run inside another state. -/
theorem zoom {P' Q' E' D' : τ → Prop} {get : σ → τ} {put : τ → σ → σ} {p : Prog Raised τ α}
    (h : Blocks P' p Q' E' D') (hP : ∀ s, P s → P' (get s)) (hQ : ∀ s t, Q' t → Q (put t s))
    (hE : ∀ s t, E' t → E (put t s)) (hD : ∀ s t, D' t → D (put t s)) :
    Blocks P (Prog.zoom get put p) Q E D := by
  intro s hs
  have hp := h (get s) (hP s hs)
  rw [Prog.zoom_apply]
  cases hx : p (get s) with
  | ret a t => rw [hx] at hp; exact hQ s t hp
  | spin => trivial
  | thrown e t =>
      rw [hx] at hp
      cases e with
      | exception e => exact hE s t hp
      | terminate => exact hD s t hp

end Blocks

/-- What a program keeps, it keeps however it ends. -/
theorem triple_of_keeps {R : σ → σ → Prop} {P : σ → Prop} {p : Prog Thrown σ α} (h : Prog.Keeps R p)
    (hP : ∀ s s', R s s' → P s → P s') : Prog.Triple P p P P := fun s hs =>
  ((h s).mono fun s' hr => hP s s' hr hs).within

end Socketpp
