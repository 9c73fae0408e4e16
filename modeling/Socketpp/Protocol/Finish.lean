import Socketpp.Ftp.Reply
import Socketpp.Smtp.Reply

/-!
# Protocol — finishing

Where the reply readers finish, on a connection with everything sent.  `underflow` reads nothing
while there are unread bytes, so a look that neither takes a line nor ends the loop is repeated for
ever: at fewer than five bytes in both readers, and in smtp at a part of a line with a dash behind
the code.
-/

namespace Socketpp
open Lib Sockbuf

/-- **The reply readers** return exactly where no look that they take is one to repeat. -/
theorem getResponses_return_iff {B : Nat} {ω : Type}
    {W : ω → (bs : List Byte) → WriteResult bs.length × ω} {f : Proc Ftpbuf (Peer B ω)}
    {m : Proc Smtpbuf (Peer B ω)} (hf : Fed f.base) (hm : Fed m.base) :
    ((∃ c f', Returns (Ftpbuf.getResponse (Kernel.feed B W)) f c f') ↔
      ∀ v ∈ Ftpbuf.replyLooks (looks f.base), 5 ≤ v.1.length) ∧
    ((∃ m', Returns (Smtpbuf.getResponse (Kernel.feed B W)) m () m') ↔
      ∀ v ∈ Smtpbuf.replyLooks (looks m.base),
        5 ≤ v.1.length ∧ (v.1[3]? = some 45 → (eol.lineEnd v.1).isSome)) :=
  ⟨Ftpbuf.getResponse_returns_iff hf, Smtpbuf.getResponse_returns_iff hm⟩

/-- Two replies of two lines. -/
def twice : List (Chunk 1024) := [⟨ascii "220-a\r\n220 b\r\n", by decide⟩]

theorem getResponses_return_iff_twice :
    (∃ c f', Returns (Ftpbuf.getResponse (Kernel.smooth 1024)) (Ftpbuf.opened none twice) c f') ∧
    ∃ m', Returns (Smtpbuf.getResponse (Kernel.smooth 1024)) (Smtpbuf.opened none twice) () m' := by
  obtain ⟨hftp, hsmtp⟩ := getResponses_return_iff (W := fun (_ : Unit) bs => (.all bs, ()))
    (Ftpbuf.opened_fed none twice) (Smtpbuf.opened_fed none twice)
  exact ⟨hftp.mpr (by decide), hsmtp.mpr (by decide)⟩

/-- Four bytes. -/
def short : List (Chunk 1024) := [⟨ascii "220\n", by decide⟩]

/-- The readers spin at four bytes, and the reader of smtp at a part of a line. -/
theorem getResponses_spin :
    (∀ n, Ftpbuf.getResponse (Kernel.smooth 1024) n (Ftpbuf.opened none short) = .spin) ∧
    (∀ n, Smtpbuf.getResponse (Kernel.smooth 1024) n (Smtpbuf.opened none short) = .spin) ∧
    ∀ n, Smtpbuf.getResponse (Kernel.smooth 1024) n
      (Smtpbuf.opened none [⟨ascii "220-abc", by decide⟩]) = .spin := by
  have hsmtp : ∀ cs, Smtpbuf.replyScan (Smtpbuf.opened none cs) = none → ∀ n,
      Smtpbuf.getResponse (Kernel.smooth 1024) n (Smtpbuf.opened none cs) = .spin := by
    intro cs hnone n
    rcases LineReader.loop_at (W := fun (_ : Unit) bs => (.all bs, ()))
      (Smtpbuf.reader_at (Smtpbuf.opened_fed none cs)) n with h | ⟨r, vs, s', hs, -⟩
    · exact h
    · cases hnone.symm.trans hs
  refine ⟨fun n => ?_, hsmtp _ (by decide), hsmtp _ (by decide)⟩
  have hnone : (Ftpbuf.replyScan (Ftpbuf.opened none short)).isSome = false := by decide
  rcases Ftpbuf.getResponse_at (W := fun (_ : Unit) bs => (.all bs, ()))
    (Ftpbuf.opened_fed none short) n with h | ⟨r, vs, s', hs, -⟩
  · exact h
  · rw [hs] at hnone
    cases hnone

end Socketpp
