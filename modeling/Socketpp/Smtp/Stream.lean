import Socketpp.Lib.Istream
import Socketpp.Sockbuf.Ahead
import Socketpp.Protocol.Replies
import Socketpp.Smtp.Model

/-!
# Smtp — printing a reply from the stream

`operator<< (ostream&, smtp&)` takes line after line with `istream::getline` and prints them, as long as
the fourth byte of its buffer is a dash.  The buffer has 1024 bytes, and nobody looks whether the line
fitted.  A longer line is cut off and the stream fails (`round_long`), and on a failed stream `getline`
leaves an empty string and the zero that `get_response` has put at the fourth byte (`round_failed`): the
rest of the line and all lines behind it are neither printed nor taken.

So the reply is printed, and the stream left good behind it, exactly if each line fits (`prints_iff`).
-/

namespace Socketpp
open Lib

/-- An `smtp`, and the buffer passed to `get_response`. -/
abbrev SmtpStream (κ : Type) := Istream (Proc Smtpbuf κ) Byte

/-- `operator<<`: the stream with `char buf [1024]`, and what has been written to `output`. -/
structure Printing (κ : Type) where
  s      : SmtpStream κ
  output : List Byte

namespace Smtp
open Sockbuf

variable {κ : Type}

/-! ### The model -/

/-- `EOF`, or a character. -/
def toChar (v : Int) : Option Byte := if v = eofValue then none else some (UInt8.ofInt v)

def sgetc (K : Kernel κ) : SmtpM κ (Option Byte) := toChar <$> inherited (Sockbuf.sgetc K)

def sbumpc (K : Kernel κ) : SmtpM κ (Option Byte) := toChar <$> inherited (Sockbuf.sbumpc K)

/-- `getline (buf, len)`. -/
def getline (K : Kernel κ) (len : Int) : Prog Thrown (SmtpStream κ) Unit :=
  Istream.getline (sgetc K) (sbumpc K) 10 0 len.toNat

/-- `buf [3] = 0`. -/
def zeroFourth (r : SmtpStream κ) : SmtpStream κ := { r with s := r.s.write 3 0 }

/-- 1: output continues after this line. -/
def getResponse (K : Kernel κ) (len : Int) : Prog Thrown (SmtpStream κ) Int := do
  if len < 8 then do
    getline K len
    return 0
  else do
    modify zeroFourth
    getline K len
    let r ← get
    return if r.s 3 = 45 then 1 else 0

/-- The string in an array of `n` bytes. -/
def cString (m : Mem Byte) (n : Nat) : List Byte := (m.slice 0 n).takeWhile fun c => c ≠ 0

/-- The body of `while (cont)`, with the test behind it; `cont` is 1 before the first iteration. -/
def printRound (K : Kernel κ) (_ : Unit) : Prog Thrown (Printing κ) (Unit ⊕ Unit) := do
  let cont ← Prog.zoom Printing.s (fun t q => { q with s := t }) (getResponse K 1024)
  modify fun q => { q with output := q.output ++ (cString q.s.s 1024 ++ [10]) }
  return if cont = 0 then .inr () else .inl ()

/-- `output << s`. -/
def print (K : Kernel κ) (n : Nat) : Prog Thrown (Printing κ) Unit := Prog.loop (printRound K) n ()

/-! ### Replies -/

/-- A line of a reply: a code, then a dash or a blank, then a text without NUL and LF. -/
structure Line where
  code  : Code
  text  : List Byte
  clean : 0 ∉ text ∧ 10 ∉ text

def Line.bytes (x : Line) (sep : Byte) : List Byte := x.code.digits ++ sep :: x.text

/-- Lines `ddd-text`, and one line `ddd text`. -/
structure Reply where
  more : List Line
  last : Line

namespace Reply

/-- The lines without their ends. -/
def lines (r : Reply) : List (List Byte) := r.more.map (fun x => x.bytes 45) ++ [r.last.bytes 32]

def bytes (r : Reply) : List Byte := r.lines.flatMap fun l => l ++ [10]

/-- Each line fits in `buf`, with the NUL behind it. -/
def Fits (r : Reply) : Prop := ∀ l ∈ r.lines, l.length < 1024

theorem bytes_single (last : Line) : (⟨[], last⟩ : Reply).bytes = last.bytes 32 ++ [10] := by
  simp [bytes, lines]

theorem bytes_cons (x : Line) (more : List Line) (last : Line) :
    (⟨x :: more, last⟩ : Reply).bytes = x.bytes 45 ++ 10 :: (⟨more, last⟩ : Reply).bytes := by
  simp [bytes, lines]

theorem fits_single {last : Line} : (⟨[], last⟩ : Reply).Fits ↔ (last.bytes 32).length < 1024 := by
  simp [Fits, lines]

theorem fits_cons {x : Line} {more : List Line} {last : Line} :
    (⟨x :: more, last⟩ : Reply).Fits ↔ (x.bytes 45).length < 1024 ∧ (⟨more, last⟩ : Reply).Fits := by
  simp [Fits, lines]

end Reply

/-- What printing a line needs to know of it. -/
structure Clean (sep : Byte) (chars : List Byte) : Prop where
  nul : 0 ∉ chars
  lf  : 10 ∉ chars
  sep : chars[3]? = some sep

theorem Line.clean_bytes (x : Line) {sep : Byte} (h0 : sep ≠ 0) (h10 : sep ≠ 10) :
    Clean sep (x.bytes sep) := by
  have hnot : ∀ c : Byte, c < 48 → c ≠ sep → c ∉ x.text → c ∉ x.bytes sep := by
    intro c hc hs ht hmem
    rcases List.mem_append.mp hmem with hmem | hmem
    · exact absurd (Code.mem_digits hmem).1 (UInt8.not_le.mpr hc)
    · rcases List.mem_cons.mp hmem with h | h
      · exact hs h
      · exact ht h
  exact ⟨hnot 0 (by decide) h0.symm x.clean.1, hnot 10 (by decide) h10.symm x.clean.2, rfl⟩

/-! ### The string of a line -/

section Memory

variable {m : Mem Byte} {chars : List Byte} {n : Nat}

/-- The string stored is the line. -/
theorem cString_line (h0 : 0 ∉ chars) (hn : chars.length < n) :
    cString ((m.store 0 chars).write chars.length 0) n = chars := by
  obtain ⟨k, rfl⟩ : ∃ k, n = chars.length + (k + 1) := ⟨n - chars.length - 1, by omega⟩
  have hfront : ((m.store 0 chars).write chars.length 0).slice 0 chars.length = chars := by
    rw [Mem.slice_congr fun i _ hi => Mem.write_other (m.store 0 chars) (0 : Byte) (by omega),
      Mem.slice_store]
  rw [cString, Mem.slice_add, hfront, List.takeWhile_append_of_pos, Nat.zero_add, Mem.slice_succ,
    Mem.write_same]
  · simp
  · intro c hc
    exact decide_eq_true fun he => h0 (he ▸ hc)

/-- Its fourth byte. -/
theorem fourth_line {sep : Byte} (h3 : chars[3]? = some sep) :
    ((m.store 0 chars).write chars.length 0) 3 = sep := by
  have hlen : 3 < chars.length := (List.getElem?_eq_some_iff.mp h3).1
  have h := (m.store 0 chars).getElem?_slice 0 hlen
  rw [Mem.slice_store, h3] at h
  rw [Mem.write_other _ _ (Nat.ne_of_lt hlen), ← Nat.zero_add 3]
  exact (Option.some.inj h).symm

end Memory

/-! ### One line -/

section Rounds

variable {K : Kernel κ} {At : List Byte → Proc Smtpbuf κ → Prop}
  (hsrc : Istream.Source (sgetc K) (sbumpc K) At) {q : Printing κ} {chars rest : List Byte} {sep : Byte}

/-- A round, by what `getline` comes to. -/
theorem printRound_eq {r' : SmtpStream κ} (h : getline K 1024 (zeroFourth q.s) = .ret () r') :
    printRound K () q = .ret (if r'.s 3 = 45 then .inl () else .inr ())
      ⟨r', q.output ++ (cString r'.s 1024 ++ [10])⟩ := by
  simp only [printRound, getResponse, Prog.bind_apply, Prog.zoom_apply,
    show ¬ (1024 : Int) < 8 by decide, if_false, Prog.modify_apply, Outcome.andThen_ret, h,
    Prog.get_apply, Prog.pure_apply, Outcome.mapState_ret]
  by_cases h45 : r'.s 3 = 45
  · simp only [h45, if_true, show ¬ (1 : Int) = 0 by decide, if_false]
  · simp only [h45, if_false, if_true]

include hsrc

/-- **A line that fits** is printed, and taken with its end. -/
theorem round_fits (hgood : q.s.rdstate.Good) (h : At (chars ++ 10 :: rest) q.s.rdbuf)
    (hl : Clean sep chars) (hn : chars.length < 1024) :
    ∃ q', printRound K () q = .ret (if sep = 45 then .inl () else .inr ()) q' ∧
      q'.output = q.output ++ (chars ++ [10]) ∧ q'.s.rdstate.Good ∧ At rest q'.s.rdbuf := by
  obtain ⟨t', hget, h'⟩ : ∃ t', getline K 1024 (zeroFourth q.s) = .ret () ⟨t', q.s.rdstate,
      chars.length + 1, ((q.s.s.write 3 0).store 0 chars).write chars.length 0⟩ ∧ At rest t' :=
    Istream.getline_fits hsrc hgood h hl.lf hn
  have hround := printRound_eq hget
  simp only [fourth_line hl.sep, cString_line hl.nul hn] at hround
  exact ⟨_, hround, rfl, hgood, h'⟩

/-- **A line that does not fit** is cut off, and the stream fails. -/
theorem round_long (hgood : q.s.rdstate.Good) (h : At (chars ++ rest) q.s.rdbuf) (hl : Clean sep chars)
    (hn : 1024 ≤ chars.length) :
    ∃ q', printRound K () q = .ret (if sep = 45 then .inl () else .inr ()) q' ∧
      q'.output = q.output ++ (chars.take 1023 ++ [10]) ∧ ¬ q'.s.rdstate.Good := by
  obtain ⟨t', hget⟩ : ∃ t', getline K 1024 (zeroFourth q.s) = .ret () (.setFail ⟨t', q.s.rdstate, 1023,
      ((q.s.s.write 3 0).store 0 (chars.take 1023)).write 1023 0⟩) :=
    Istream.getline_long hsrc hgood h hl.lf hn (by decide)
  have hlen : (chars.take 1023).length = 1023 := by
    rw [List.length_take]
    omega
  have h0 : 0 ∉ chars.take 1023 := fun hmem => hl.nul (List.mem_of_mem_take hmem)
  have h3 : (chars.take 1023)[3]? = some sep := by
    rw [List.getElem?_take_of_lt (by decide), hl.sep]
  have hfourth := fourth_line (m := q.s.s.write 3 0) h3
  have hstring := cString_line (m := q.s.s.write 3 0) (n := 1024) h0 (by omega)
  rw [hlen] at hfourth hstring
  have hround := printRound_eq hget
  simp only [Istream.setFail, hfourth, hstring] at hround
  refine ⟨_, hround, rfl, fun hg => ?_⟩
  have := congrArg Iostate.failbit hg
  cases this

omit hsrc in
/-- **On a failed stream** nothing but a line end is printed, and the loop ends. -/
theorem round_failed (hbad : ¬ q.s.rdstate.Good) :
    ∃ q', printRound K () q = .ret (.inr ()) q' ∧ q'.output = q.output ++ [10] ∧
      ¬ q'.s.rdstate.Good := by
  have hget : getline K 1024 (zeroFourth q.s) = .ret () (.setFail
      { zeroFourth q.s with gcount := 0, s := (q.s.s.write 3 0).write 0 0 }) :=
    Istream.getline_failed hbad (by decide)
  have hround := printRound_eq hget
  have hstring : cString ((q.s.s.write 3 0).write 0 0) 1024 = [] :=
    cString_line (m := q.s.s.write 3 0) (n := 1024) List.not_mem_nil (by decide)
  have hfourth : (q.s.s.write 3 (0 : Byte)).write 0 0 3 = 0 := rfl
  simp only [Istream.setFail, hfourth, hstring] at hround
  refine ⟨_, hround, rfl, fun hg => ?_⟩
  have := congrArg Iostate.failbit hg
  cases this

/-! ### The reply -/

/-- All rounds, on a reply whose lines fit. -/
theorem print_fits (last : Line) : ∀ (more : List Line) (q : Printing κ), q.s.rdstate.Good →
    At ((⟨more, last⟩ : Reply).bytes ++ rest) q.s.rdbuf → (⟨more, last⟩ : Reply).Fits →
    ∃ q', (∀ n, more.length < n → print K n q = .ret () q') ∧
      q'.output = q.output ++ (⟨more, last⟩ : Reply).bytes ∧ q'.s.rdstate.Good ∧
      At rest q'.s.rdbuf := by
  intro more
  induction more with
  | nil =>
      intro q hgood h hfits
      rw [Reply.bytes_single, List.append_assoc] at h
      obtain ⟨q', hround, hout, hgood', h'⟩ := round_fits hsrc hgood h
        (last.clean_bytes (by decide) (by decide)) (Reply.fits_single.mp hfits)
      refine ⟨q', fun n hn => ?_, by rw [hout, Reply.bytes_single], hgood', h'⟩
      obtain ⟨n, rfl⟩ : ∃ k, n = k + 1 := ⟨n - 1, by omega⟩
      exact Prog.loop_inr n hround
  | cons x more ih =>
      intro q hgood h hfits
      obtain ⟨hx, hmore⟩ := Reply.fits_cons.mp hfits
      rw [Reply.bytes_cons, List.append_assoc] at h
      obtain ⟨q₁, hround, hout₁, hgood₁, h₁⟩ := round_fits hsrc hgood h
        (x.clean_bytes (by decide) (by decide)) hx
      obtain ⟨q', hprint, hout, hgood', h'⟩ := ih q₁ hgood₁ h₁ hmore
      refine ⟨q', fun n hn => ?_, ?_, hgood', h'⟩
      · rw [List.length_cons] at hn
        obtain ⟨n, rfl⟩ : ∃ k, n = k + 1 := ⟨n - 1, by omega⟩
        rw [print, Prog.loop_inl n hround]
        exact hprint n (by omega)
      · rw [hout, hout₁, Reply.bytes_cons]
        simp

/-- Where a line does not fit, the loop ends on a failed stream. -/
theorem print_long (last : Line) : ∀ (more : List Line) (q : Printing κ), q.s.rdstate.Good →
    At ((⟨more, last⟩ : Reply).bytes ++ rest) q.s.rdbuf → ¬ (⟨more, last⟩ : Reply).Fits →
    ∃ q', (∀ n, more.length + 1 < n → print K n q = .ret () q') ∧ ¬ q'.s.rdstate.Good := by
  intro more
  induction more with
  | nil =>
      intro q hgood h hfits
      rw [Reply.bytes_single, List.append_assoc] at h
      obtain ⟨q', hround, -, hbad⟩ := round_long hsrc hgood h
        (last.clean_bytes (by decide) (by decide)) (Nat.le_of_not_lt fun hn => hfits (Reply.fits_single.mpr hn))
      refine ⟨q', fun n hn => ?_, hbad⟩
      obtain ⟨n, rfl⟩ : ∃ k, n = k + 1 := ⟨n - 1, by omega⟩
      exact Prog.loop_inr n hround
  | cons x more ih =>
      intro q hgood h hfits
      have hclean : Clean 45 (x.bytes 45) := x.clean_bytes (by decide) (by decide)
      rw [Reply.bytes_cons, List.append_assoc] at h
      by_cases hx : (x.bytes 45).length < 1024
      · obtain ⟨q₁, hround, -, hgood₁, h₁⟩ := round_fits hsrc hgood h hclean hx
        obtain ⟨q', hprint, hbad⟩ := ih q₁ hgood₁ h₁ fun hmore => hfits (Reply.fits_cons.mpr ⟨hx, hmore⟩)
        refine ⟨q', fun n hn => ?_, hbad⟩
        rw [List.length_cons] at hn
        obtain ⟨n, rfl⟩ : ∃ k, n = k + 1 := ⟨n - 1, by omega⟩
        rw [print, Prog.loop_inl n hround]
        exact hprint n (by omega)
      · -- the line is cut off, and the next round finds the stream failed
        obtain ⟨q₁, hround, -, hbad₁⟩ := round_long hsrc hgood h hclean (Nat.le_of_not_lt hx)
        obtain ⟨q', hround', -, hbad⟩ := round_failed (K := K) hbad₁
        refine ⟨q', fun n hn => ?_, hbad⟩
        obtain ⟨n, rfl⟩ : ∃ k, n = k + 2 := ⟨n - 2, by omega⟩
        rw [print, Prog.loop_inl _ hround]
        exact Prog.loop_inr n hround'

end Rounds

/-! ### On a socket -/

section Socket

variable {K : Kernel κ} {s₀ : Proc Sockbuf κ} {whole tail : List Byte} {q : Printing κ} {r : Reply}

/-- Since `s₀`, all of `whole` but `l` has been taken, and `l` comes next. -/
def Left (K : Kernel κ) (s₀ : Proc Sockbuf κ) (whole l : List Byte) (t : Proc Smtpbuf κ) : Prop :=
  ∃ xs, xs ++ l = whole ∧ Passed s₀ t.base xs ∧ Ahead K l t.base

/-- The sockbuf of the stream is a source of what is ahead. -/
theorem source_left (K : Kernel κ) (s₀ : Proc Sockbuf κ) (whole : List Byte) :
    Istream.Source (sgetc K) (sbumpc K) (Left K s₀ whole) := by
  have char : ∀ c : Byte, toChar c.toNat = some c := fun c => by
    rw [toChar, if_neg (byte_ne_eof c), ofInt_toNat]
  refine ⟨?_, ?_⟩
  · rintro c l t ⟨xs, hw, hp, ha⟩
    obtain ⟨s', hret, ha', hp'⟩ := sgetc_ahead ha
    refine ⟨t.rebase s', ?_, xs, hw, ?_, ?_⟩
    · rw [sgetc, Prog.map_apply, inherited_ret hret, Outcome.andThen_ret, char]
      rfl
    · rw [Proc.base_rebase]
      simpa using hp.trans hp'
    · rwa [Proc.base_rebase]
  · rintro c l t ⟨xs, hw, hp, ha⟩
    obtain ⟨s', hret, ha', hp'⟩ := sbumpc_ahead ha
    refine ⟨t.rebase s', ?_, xs ++ [c], ?_, ?_, ?_⟩
    · rw [sbumpc, Prog.map_apply, inherited_ret hret, Outcome.andThen_ret, char]
      rfl
    · rw [List.append_assoc]
      exact hw
    · rw [Proc.base_rebase]
      exact hp.trans hp'
    · rwa [Proc.base_rebase]

theorem left_all {t : Proc Smtpbuf κ} (h : Ahead K whole t.base) : Left K t.base whole whole t :=
  ⟨[], rfl, .refl h.readable, h⟩

/-- `output << s` ends, has printed the reply and nothing else, and leaves the stream good; exactly the
reply has been taken out of it. -/
def Prints (K : Kernel κ) (r : Reply) (q : Printing κ) : Prop :=
  ∃ N q', (∀ n, N ≤ n → print K n q = .ret () q') ∧ q'.output = q.output ++ r.bytes ∧
    q'.s.rdstate.Good ∧ Passed q.s.rdbuf.base q'.s.rdbuf.base r.bytes

/-- A line that does not fit is not printed. -/
theorem not_prints (hgood : q.s.rdstate.Good) (h : Ahead K (r.bytes ++ tail) q.s.rdbuf.base)
    (hlong : ¬ r.Fits) : ¬ Prints K r q := by
  rintro ⟨N, q', hprint, -, hgood', -⟩
  obtain ⟨q₁, hprint₁, hbad⟩ := print_long (source_left K q.s.rdbuf.base (r.bytes ++ tail)) r.last r.more q
    hgood (left_all h) hlong
  have h₁ := hprint₁ (max N (r.more.length + 2)) (by omega)
  rw [hprint _ (by omega)] at h₁
  cases h₁
  exact hbad hgood'

/-- **Printing a reply.**  A reply is at the head of a good stream, in any chunks and with any bytes
behind it.  It is printed as it should be exactly if each of its lines, without its end, is shorter than
the buffer. -/
theorem prints_iff (hgood : q.s.rdstate.Good) (h : Ahead K (r.bytes ++ tail) q.s.rdbuf.base) :
    Prints K r q ↔ r.Fits := by
  constructor
  · intro hprints
    by_contra hlong
    exact not_prints hgood h hlong hprints
  · intro hfits
    obtain ⟨q', hprint, hout, hgood', xs, hxs, hpassed, -⟩ :=
      print_fits (source_left K q.s.rdbuf.base (r.bytes ++ tail)) r.last r.more q hgood (left_all h) hfits
    obtain rfl := List.append_cancel_right hxs
    exact ⟨r.more.length + 1, q', fun n hn => hprint n hn, hout, hgood', hpassed⟩

end Socket

/-! ### Two replies -/

/-- A stream on the descriptor 3, whose peer has sent `cs`. -/
def streamOn (cs : List (Chunk 1024)) : Printing (Peer 1024 Unit) where
  s      := ⟨⟨Smtpbuf.ofDesc bufsiz 3 (fun _ => 0) (fun _ => 0) none, ⟨⟨cs, ()⟩, 0, []⟩⟩, .goodbit, 0,
    fun _ => 0⟩
  output := []

theorem streamOn_ahead (cs : List (Chunk 1024)) :
    Ahead (Kernel.smooth 1024) (cs.map fun c => c.1).flatten (streamOn cs).s.rdbuf.base := by
  have hgives : Gives (Kernel.feed 1024 fun (_ : Unit) bs => (.all bs, ()))
      (streamOn cs).s.rdbuf.base.obj.rep (cs.map fun c => c.1) (streamOn cs).s.rdbuf.base.sys :=
    feed_gives rfl rfl (Nat.le_refl 1024) cs _ rfl
  exact ⟨⟨_, rfl⟩, _, hgives, rfl⟩

/-- Two lines, the second one cut by a read, and a byte behind them. -/
theorem prints_iff_two :
    Prints (Kernel.smooth 1024) ⟨[⟨codeOfNat 250, [97], by decide⟩], ⟨codeOfNat 250, [98], by decide⟩⟩
      (streamOn [⟨[50, 53, 48, 45, 97, 10, 50, 53], by decide⟩, ⟨[48, 32, 98, 10, 120], by decide⟩]) := by
  let r : Reply := ⟨[⟨codeOfNat 250, [97], by decide⟩], ⟨codeOfNat 250, [98], by decide⟩⟩
  let cs : List (Chunk 1024) :=
    [⟨[50, 53, 48, 45, 97, 10, 50, 53], by decide⟩, ⟨[48, 32, 98, 10, 120], by decide⟩]
  have hgood : (streamOn cs).s.rdstate.Good := rfl
  have hahead : Ahead (Kernel.smooth 1024) (r.bytes ++ [120]) (streamOn cs).s.rdbuf.base :=
    streamOn_ahead cs
  have hfits : r.Fits := by
    unfold Reply.Fits
    decide
  exact (prints_iff hgood hahead).mpr hfits

/-- A line of 1024 characters. -/
def longLine : Line where
  code := codeOfNat 250
  text := List.replicate 1020 97
  clean := ⟨fun h => absurd (List.eq_of_mem_replicate h) (by decide),
    fun h => absurd (List.eq_of_mem_replicate h) (by decide)⟩

theorem length_longLine (sep : Byte) : (longLine.bytes sep).length = 1024 := by
  simp only [Line.bytes, longLine, Code.digits, List.length_append, List.length_cons, List.length_nil,
    List.length_replicate]

/-- The long line, and one that fits. -/
def longReply : Reply := ⟨[longLine], ⟨codeOfNat 250, [111, 107], by decide⟩⟩

/-- The stream that begins with `longReply`. -/
def longStream : Printing (Peer 1024 Unit) :=
  streamOn [⟨longLine.bytes 45, List.cons_ne_nil _ _, Nat.le_of_eq (length_longLine 45)⟩,
    ⟨10 :: (longReply.last.bytes 32 ++ [10]), List.cons_ne_nil _ _, by decide⟩]

/-- **A line of 1024 characters.**  Of the reply the first 1023 characters are printed, and an empty
line. -/
theorem longReply_cut :
    longStream.s.rdstate.Good ∧ Ahead (Kernel.smooth 1024) (longReply.bytes ++ []) longStream.s.rdbuf.base ∧
      ¬ Prints (Kernel.smooth 1024) longReply longStream ∧
      ∃ q', (∀ n, 2 ≤ n → print (Kernel.smooth 1024) n longStream = .ret () q') ∧
        q'.output = (longLine.bytes 45).take 1023 ++ [10] ++ [10] ∧ ¬ q'.s.rdstate.Good := by
  have hbytes : longReply.bytes = longLine.bytes 45 ++ 10 :: (longReply.last.bytes 32 ++ [10]) := by
    rw [← Reply.bytes_single, ← Reply.bytes_cons]
    rfl
  have h : Ahead (Kernel.smooth 1024) (longReply.bytes ++ []) longStream.s.rdbuf.base := by
    have h := streamOn_ahead [⟨longLine.bytes 45, List.cons_ne_nil _ _, Nat.le_of_eq (length_longLine 45)⟩,
      ⟨10 :: (longReply.last.bytes 32 ++ [10]), List.cons_ne_nil _ _, by decide⟩]
    rw [hbytes, List.append_nil, longStream]
    simpa only [List.map_cons, List.map_nil, List.flatten_cons, List.flatten_nil, List.append_nil] using h
  have hlong : ¬ longReply.Fits := fun hfits => by
    have := (Reply.fits_cons.mp hfits).1
    rw [length_longLine] at this
    omega
  refine ⟨rfl, h, not_prints rfl h hlong, ?_⟩
  have hall := left_all h
  rw [hbytes, List.append_assoc] at hall
  obtain ⟨q₁, hround, hout₁, hbad₁⟩ := round_long (source_left _ _ _) (q := longStream) rfl hall
    (longLine.clean_bytes (by decide) (by decide)) (Nat.le_of_eq (length_longLine 45).symm)
  obtain ⟨q', hround', hout, hbad⟩ := round_failed (K := Kernel.smooth 1024) hbad₁
  refine ⟨q', fun n hn => ?_, ?_, hbad⟩
  · obtain ⟨n, rfl⟩ : ∃ k, n = k + 2 := ⟨n - 2, by omega⟩
    rw [print, Prog.loop_inl _ hround]
    exact Prog.loop_inr n hround'
  · rw [hout, hout₁]
    rfl

end Smtp

end Socketpp
