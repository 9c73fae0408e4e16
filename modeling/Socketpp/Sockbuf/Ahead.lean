import Socketpp.Sockbuf.Output
import Socketpp.Sockbuf.Input

/-!
# Sockbuf — what is ahead

`Ahead K rest s`: the next bytes of the stream are `rest`, some of them unread in the area and the others
in the chunks that the next reads give, in whatever cuts.  Nothing is said about what comes behind them.
`sgetc` shows the first of them (`sgetc_ahead`), and `sbumpc` takes it (`sbumpc_ahead`).
-/

namespace Socketpp
open Lib

namespace Sockbuf

variable {κ : Type} {K : Kernel κ} {s s' : Proc Sockbuf κ} {c : Byte} {l rest : List Byte}

/-- The next reads with the settings `rep` give the chunks `cs`. -/
def Gives (K : Kernel κ) (rep : Sockcnt) : List (List Byte) → Sys κ → Prop
  | [],      _ => True
  | c :: cs, y => c ≠ [] ∧ ∃ y',
      (∀ b : Sockbuf, b.rep = rep → read K rep.gend ⟨b, y⟩ = .ret c ⟨b, y'⟩) ∧ Gives K rep cs y'

/-- The next bytes are `rest`. -/
structure Ahead (K : Kernel κ) (rest : List Byte) (s : Proc Sockbuf κ) : Prop where
  readable : s.obj.Readable
  chunks   : ∃ cs, Gives K s.obj.rep cs s.sys ∧ rest = s.obj.unread ++ cs.flatten

/-- `underflow` leaves them, the first one in the area. -/
theorem underflow_ahead (h : Ahead K (c :: l) s) :
    ∃ s', underflow K s = .ret (c.toNat : Int) s' ∧ Ahead K (c :: l) s' ∧ s'.obj.unread ≠ [] := by
  obtain ⟨a, ha⟩ := h.readable
  obtain ⟨cs, hcs, hrest⟩ := h.chunks
  by_cases hlt : a.gptr < a.egptr
  · have hu := unread_cons ha hlt
    have hc : c = a.mem a.gptr := by
      rw [hu] at hrest
      exact (List.cons.inj hrest).1
    refine ⟨s, hc ▸ underflow_of_unread ha hlt, h, ?_⟩
    rw [hu]
    exact List.cons_ne_nil _ _
  · have hu : s.obj.unread = [] := (unread_nil_iff ha).mpr hlt
    cases cs with
    | nil =>
        rw [hu] at hrest
        cases hrest
    | cons d cs =>
        obtain ⟨hne, y', hread, hcs'⟩ := hcs
        rw [hu, List.nil_append, List.flatten_cons] at hrest
        obtain ⟨b, bs, rfl⟩ := List.exists_cons_of_ne_nil hne
        obtain ⟨rfl, hl⟩ := List.cons.inj hrest
        have hr : (s.obj.onGet fun a => a.refill (c :: bs)).unread = c :: bs := unread_refill ha _
        refine ⟨_, underflow_of_read ha hlt (hread s.obj rfl), ⟨h.readable.onGet _, cs, hcs', ?_⟩, ?_⟩
        · rw [hr, hl]
          rfl
        · rw [hr]
          exact List.cons_ne_nil _ _

/-- **`sgetc`** shows the first one. -/
theorem sgetc_ahead (h : Ahead K (c :: l) s) :
    ∃ s', sgetc K s = .ret (c.toNat : Int) s' ∧ Ahead K (c :: l) s' ∧ Passed s s' [] := by
  obtain ⟨s', hret, h', -⟩ := underflow_ahead h
  exact ⟨s', sgetc_eq ▸ hret, h', ((underflow_sat h.readable).ret hret).1⟩

/-- **`sbumpc`** takes it. -/
theorem sbumpc_ahead (h : Ahead K (c :: l) s) :
    ∃ s', sbumpc K s = .ret (c.toNat : Int) s' ∧ Ahead K l s' ∧ Passed s s' [c] := by
  obtain ⟨s₁, hret, h₁, hne⟩ := underflow_ahead h
  obtain ⟨a, ha⟩ := h₁.readable
  obtain ⟨cs, hcs, hrest⟩ := h₁.chunks
  have hlen : 1 ≤ s₁.obj.unread.length := List.length_pos_iff.mpr hne
  have hu := unread_gbump ha hlen
  have hbump := sbumpc_of_underflow hret
  refine ⟨_, hbump, ⟨h₁.readable.onGet _, cs, hcs, ?_⟩, ?_⟩
  · show l = (s₁.obj.onGet fun a => a.gbump 1).unread ++ cs.flatten
    rw [hu, ← List.drop_append_of_le_length hlen, ← hrest]
    rfl
  · rw [sbumpc_eq] at hbump
    obtain ⟨xs, hp, ⟨hv, -⟩ | ⟨d, rfl, hv⟩⟩ := (uflow_sat h.readable).ret hbump
    · exact absurd hv (byte_ne_eof c)
    · obtain rfl : c = d := UInt8.toNat_inj.mp (by omega)
      exact hp

/-- The reads of a kernel that feeds give the chunks of its inbox. -/
theorem feed_gives {ω : Type} {B : Nat} {W : ω → (bs : List Byte) → WriteResult bs.length × ω}
    {rep : Sockcnt} (hr : rep.rtmo = -1) (ho : rep.oob = false) (hB : B ≤ rep.gend) :
    ∀ (cs : List (Chunk B)) (y : Sys (Peer B ω)), y.kern.inbox = cs →
      Gives (Kernel.feed B W) rep (cs.map fun c => c.1) y := by
  intro cs
  induction cs with
  | nil => intro y _; trivial
  | cons c cs ih =>
      intro y hy
      have hle : c.1.length ≤ rep.gend := Nat.le_trans c.2.2 hB
      let y' := y.enter { y.kern with inbox := cs } (.read rep.sock rep.gend (some c.1))
      refine ⟨c.2.1, y', fun b hb => ?_, ih y' rfl⟩
      subst hb
      rw [read_eq hr ho, call, Prog.zoom_apply, Sys.read]
      simp only [Kernel.feed, Peer.take, hy, hle, dif_pos]
      rfl

end Sockbuf

end Socketpp
