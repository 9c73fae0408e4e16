import Socketpp.Sockbuf.Ledger

/-!
# Sockbuf — the states reached

`SockOp` is every operation on one sockbuf.  `Reached K b`: the object `b` is reached from one as
constructed, by any operations, those that throw included.  Between two operations the system may
have done anything, other objects may have changed the settings in the shared record, and `b` may be
a copy.  So the put area of an object reached is closed or in order (`Reached.putSound`).
-/

namespace Socketpp
open Lib

/-- The operations on a sockbuf. -/
inductive SockOp where
  | put (op : PutOp)
  | get (op : GetOp)
  | sungetc
  | sputbackc (c : Byte)
  | shutdown (sh : Shuthow)

namespace SockOp
open Sockbuf

variable {κ : Type}

def exec (K : Kernel κ) : SockOp → Prog Thrown (Getting κ) Int
  | .put op      => within (op.exec K)
  | .get op      => op.exec K
  | .sungetc     => within Sockbuf.sungetc
  | .sputbackc c => within (Sockbuf.sputbackc c)
  | .shutdown sh => (fun _ => 0) <$> within (Sockbuf.shutdown K sh)

end SockOp

namespace Sockbuf
open Family

variable {κ : Type} {K : Kernel κ}

/-- The objects reached. -/
inductive Reached (K : Kernel κ) : Sockbuf → Prop where
  | ofDesc (B : ℕ+) (sd : Int) (gbuf pbuf : Mem Byte) : Reached K (ofDesc B sd gbuf pbuf)
  | step {b : Sockbuf} {y : Sys κ} {dst : List Byte} {op : SockOp} {r : Except Thrown Int}
      {t : Getting κ} (reached : Reached K b) (came : (op.exec K ⟨⟨b, y⟩, dst⟩).result = some (r, t)) :
      Reached K t.proc.obj
  | shared {b : Sockbuf} (stmo rtmo : Int) (oob : Bool) (reached : Reached K b) :
      Reached K { b with rep := { b.rep with stmo := stmo, rtmo := rtmo, oob := oob } }
  | setname {b : Sockbuf} (name : String) (reached : Reached K b) : Reached K { b with sockname := name }
  | copy {b : Sockbuf} (reached : Reached K b) :
      Reached K { b with getArea := none, putArea := none, sockname := "" }

/-- What a method comes to on the object alone. -/
theorem within_result {α : Type} {p : SockM κ α} {t t' : Getting κ} {r : Except Thrown α}
    (h : (within p t).result = some (r, t')) :
    (p t.proc).result = some (r, t'.proc) ∧ t'.dst = t.dst := by
  rw [within, Prog.zoom_apply] at h
  cases hp : p t.proc with
  | ret a s => rw [hp] at h; cases h; exact ⟨rfl, rfl⟩
  | thrown e s => rw [hp] at h; cases h; exact ⟨rfl, rfl⟩
  | spin => rw [hp] at h; cases h

/-- A shutdown comes to its end. -/
theorem shutdown_ends (sh : Shuthow) (s : Proc Sockbuf κ) :
    (shutdown K sh s).Sat (fun _ _ => True) (fun _ _ => True) := by
  have hcall : ∀ sh (s : Proc Sockbuf κ),
      (shutdownCall K sh s).Sat (fun _ _ => True) (fun _ _ => True) :=
    fun sh s => (shutdownCall_spec sh s).mono (fun _ _ _ => trivial) fun _ _ _ => trivial
  cases sh with
  | shut_read => exact hcall .shut_read (s.onObj dropGet)
  | shut_write => exact hcall .shut_write (s.onObj dropPut)
  | shut_readwrite =>
      refine (hcall .shut_read (s.onObj dropGet)).andThen (fun _ s₁ _ => ?_) fun _ _ h => h
      refine (hcall .shut_write (s₁.onObj dropPut)).andThen (fun _ s₂ _ => ?_) fun _ _ h => h
      exact hcall .shut_readwrite s₂

/-- `shutdown` drops areas, or leaves them. -/
def Dropped (b b' : Sockbuf) : Prop :=
  b'.rep = b.rep ∧ (b'.putArea = none ∨ b'.putArea = b.putArea)

theorem shutdown_leaves (sh : Shuthow) (s : Proc Sockbuf κ) :
    (shutdown K sh s).Leaves fun s' => Dropped s.obj s'.obj := by
  have drop : ∀ s₁ : Proc Sockbuf κ, Dropped s.obj s₁.obj → ∀ sh, (shutdownCall K sh s₁).Leaves
      fun s' => Dropped s.obj s'.obj := fun s₁ h₁ sh =>
    (shutdownCall_leaves sh s₁).mono fun s' h' => by rw [h'.obj]; exact h₁
  cases sh with
  | shut_read => exact drop (s.onObj dropGet) ⟨rfl, .inr rfl⟩ _
  | shut_write => exact drop (s.onObj dropPut) ⟨rfl, .inl rfl⟩ _
  | shut_readwrite =>
      refine (drop (s.onObj dropGet) ⟨rfl, .inr rfl⟩ _).andThen fun _ s₁ h₁ => ?_
      refine (drop (s₁.onObj dropPut) ⟨h₁.1, .inl rfl⟩ _).andThen fun _ s₂ h₂ => ?_
      exact drop s₂ h₂ _

theorem PutSound.congr {b b' : Sockbuf} (h : PutSound b) (hrep : b'.rep.pend = b.rep.pend)
    (hput : b'.putArea = b.putArea) : PutSound b' :=
  h.imp (fun hn => hput.trans hn) (writable_congr hput hrep)

/-- **The put area of an object reached** is closed or in order. -/
theorem Reached.putSound {b : Sockbuf} (h : Reached K b) : PutSound b := by
  induction h with
  | ofDesc B sd gbuf pbuf => exact .inr (ofDesc_writable B sd gbuf pbuf)
  | @step b y dst op r t _ came ih =>
      cases op with
      | put op => exact (put_holds op ih (within_result came).1).sound
      | get op => exact (get_holds op ih came).sound
      | sungetc =>
          have hk := (keeps_sungetc (getFrame_putSame K) ⟨b, y⟩).result (within_result came).1
          exact PutSound.congr ih (by rw [hk.rep]) hk.putArea
      | sputbackc c =>
          have hk := (keeps_sputbackc (getFrame_putSame K) c ⟨b, y⟩).result (within_result came).1
          exact PutSound.congr ih (by rw [hk.rep]) hk.putArea
      | shutdown sh =>
          obtain ⟨r', came', -⟩ := Prog.map_result came
          have hd := (shutdown_leaves sh ⟨b, y⟩).result (within_result came').1
          exact hd.2.elim .inl fun he => PutSound.congr ih (by rw [hd.1]) he
  | shared stmo rtmo oob _ ih => exact PutSound.congr ih rfl rfl
  | setname name _ ih => exact PutSound.congr ih rfl rfl
  | copy _ _ => exact .inl rfl

/-- A method that does not store through the caller's pointer comes to what it comes to. -/
theorem within_ends {α : Type} {p : SockM κ α} {t : Getting κ} {r : Except Thrown α}
    {s : Proc Sockbuf κ} (h : (p t.proc).result = some (r, s)) :
    (within p t).result = some (r, { t with proc := s }) := by
  rw [within, Prog.zoom_apply]
  cases hp : p t.proc with
  | ret a s => rw [hp] at h; cases h; rfl
  | thrown e s => rw [hp] at h; cases h; rfl
  | spin => rw [hp] at h; cases h

/-- **Every operation** on an object reached comes to its end. -/
theorem Reached.exec_ends {b : Sockbuf} (h : Reached K b) (y : Sys κ) (dst : List Byte) (op : SockOp) :
    ∃ r t, (op.exec K ⟨⟨b, y⟩, dst⟩).result = some (r, t) := by
  cases op with
  | put op =>
      obtain ⟨r, s, hs⟩ : ∃ r s, (op.exec K ⟨b, y⟩).result = some (r, s) := by
        rcases h.putSound with hnone | hw
        · exact (op.exec_bare (s := ⟨b, y⟩) hnone).ends
        · exact (op.exec_sat (s := ⟨b, y⟩) hw).ends
      exact ⟨r, _, within_ends hs⟩
  | get op =>
      cases hg : b.getArea with
      | none => exact (op.exec_bare (t := ⟨⟨b, y⟩, dst⟩) hg).ends
      | some a => exact (op.exec_obtains (t := ⟨⟨b, y⟩, dst⟩) ⟨a, hg⟩).ends
  | sungetc =>
      obtain ⟨v, s, hs⟩ := sungetc_ret (⟨b, y⟩ : Proc Sockbuf κ)
      exact ⟨.ok v, _, within_ends (congrArg Outcome.result hs)⟩
  | sputbackc c =>
      obtain ⟨v, s, hs⟩ := sputbackc_ret c (⟨b, y⟩ : Proc Sockbuf κ)
      exact ⟨.ok v, _, within_ends (congrArg Outcome.result hs)⟩
  | shutdown sh =>
      obtain ⟨r, s, hs⟩ := (shutdown_ends (K := K) sh ⟨b, y⟩).ends
      have hw := within_ends (t := ⟨⟨b, y⟩, dst⟩) hs
      simp only [SockOp.exec, Prog.map_apply]
      cases hx : within (Sockbuf.shutdown K sh) ⟨⟨b, y⟩, dst⟩ with
      | ret v t => exact ⟨_, _, rfl⟩
      | thrown e t => exact ⟨_, _, rfl⟩
      | spin => rw [hx] at hw; cases hw

end Sockbuf

end Socketpp
