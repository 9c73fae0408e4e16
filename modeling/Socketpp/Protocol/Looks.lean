import Socketpp.Lib.Scan
import Socketpp.Protocol.Derived

/-!
# Protocol — looks

A reply reader takes one look at the get area in each iteration: it sees the unread bytes, and the
byte that lies behind them in the buffer.  On a connection whose peer has sent its bytes and
closed, the looks to come are determined by the unread bytes and by how the rest is cut into
reads (`looks`); so is the stream ahead, which does not depend on the cutting (`ahead`).

`underflow_feed` says that `underflow` changes neither, and `looks_gbump` how moving `gptr ()`
behind the first line does.
-/

namespace Socketpp
open Lib

/-- The unread bytes, and the byte behind them. -/
abbrev Look := List Byte × Byte

namespace Sockbuf

/-- The looks at bytes in the area with the byte `x` behind it. -/
def looksAt (l : List Byte) (x : Byte) : List Look := (eol.looks l).map fun v => (v, x)

/-- The looks at chunks still to be read into the memory. -/
def looksIn {B : Nat} : Mem Byte → List (Chunk B) → List Look
  | _,   []      => []
  | mem, c :: cs => looksAt c.1 (mem c.1.length) ++ looksIn (mem.store 0 c.1) cs

/-- The bytes of the chunks. -/
def bytesIn {B : Nat} (cs : List (Chunk B)) : List Byte := cs.flatMap fun c => c.1

variable {B : Nat} {ω : Type} {W : ω → (bs : List Byte) → WriteResult bs.length × ω}

/-- The looks to come. -/
def looks (s : Proc Sockbuf (Peer B ω)) : List Look :=
  match s.obj.getArea with
  | none   => []
  | some a => looksAt s.obj.unread (a.mem a.egptr) ++ looksIn a.mem s.sys.kern.inbox

/-- The stream ahead. -/
def ahead (s : Proc Sockbuf (Peer B ω)) : List Byte := s.obj.unread ++ bytesIn s.sys.kern.inbox

/-- The get side is open, and takes any chunk as a whole. -/
structure Fed (s : Proc Sockbuf (Peer B ω)) : Prop where
  readable : s.obj.Readable
  gend     : s.obj.rep.gend = B

@[simp] theorem looksAt_nil (x : Byte) : looksAt [] x = [] := rfl

theorem looksAt_ne_nil {l : List Byte} (h : l ≠ []) (x : Byte) : looksAt l x ≠ [] := by
  cases l with
  | nil => exact absurd rfl h
  | cons c l => simp [looksAt, Eol.looks]

theorem looksAt_lineEnd {l : List Byte} {e : Nat} (h : eol.lineEnd l = some e) (x : Byte) :
    looksAt l x = (l, x) :: looksAt (l.drop e) x := by
  simp only [looksAt, Eol.looks_of_lineEnd h, List.map_cons]

theorem looksAt_none {l : List Byte} (hl : l ≠ []) (h : eol.lineEnd l = none) (x : Byte) :
    looksAt l x = [(l, x)] := by
  simp only [looksAt, Eol.looks_of_none hl h, List.map_cons, List.map_nil]

/-- Unread bytes are looked at. -/
theorem looks_ne_nil {s : Proc Sockbuf (Peer B ω)} (hr : s.obj.Readable) (hu : s.obj.unread ≠ []) :
    looks s ≠ [] := by
  obtain ⟨a, ha⟩ := hr
  simp only [looks, ha]
  exact List.append_ne_nil_of_left_ne_nil (looksAt_ne_nil hu _) _

/-! ### `underflow` -/

theorem awaitReadready_feed (s : Proc Sockbuf (Peer B ω)) :
    ∃ y, awaitReadready (Kernel.feed B W) s = .ret () { s with sys := y } ∧ y.kern = s.sys.kern := by
  simp only [awaitReadready, Prog.bind_apply, Prog.get_apply, Outcome.andThen_ret, Prog.ite_apply]
  split
  · exact ⟨s.sys, rfl, rfl⟩
  · exact ⟨s.sys.enter s.sys.kern (.selectRead s.obj.rep.sock s.obj.rep.rtmo (some 1)), rfl, rfl⟩

theorem checkOob_feed (s : Proc Sockbuf (Peer B ω)) :
    ∃ y, checkOob (Kernel.feed B W) s = .ret () { s with sys := y } ∧ y.kern = s.sys.kern := by
  simp only [checkOob, Prog.bind_apply, Prog.get_apply, Outcome.andThen_ret, Prog.ite_apply]
  split
  · exact ⟨s.sys.enter s.sys.kern (.sockatmark s.obj.rep.sock (some false)), rfl, rfl⟩
  · exact ⟨s.sys, rfl, rfl⟩

/-- `::read` gives the next chunk, and nothing once there are none. -/
theorem sysRead_feed (fd : Int) (y : Sys (Peer B ω)) :
    ∃ bs y', Sys.read (ε := Thrown) (Kernel.feed B W) fd B y = .ret (some bs) y' ∧
      y'.kern.inbox = y.kern.inbox.tail ∧
      bs = (match y.kern.inbox with | [] => [] | c :: _ => c.1) := by
  simp only [Sys.read, Kernel.feed, Peer.take]
  cases hi : y.kern.inbox with
  | nil => exact ⟨[], _, rfl, by rw [Sys.kern_enter, hi]; rfl, rfl⟩
  | cons c cs =>
      simp only [dif_pos c.2.2]
      exact ⟨c.1, _, rfl, rfl, rfl⟩

theorem read_feed (s : Proc Sockbuf (Peer B ω)) :
    ∃ bs y, read (Kernel.feed B W) B s = .ret bs { s with sys := y } ∧
      y.kern.inbox = s.sys.kern.inbox.tail ∧
      bs = (match s.sys.kern.inbox with | [] => [] | c :: _ => c.1) := by
  obtain ⟨y₁, h₁, hk₁⟩ := awaitReadready_feed (W := W) s
  obtain ⟨y₂, h₂, hk₂⟩ := checkOob_feed (W := W) { s with sys := y₁ }
  obtain ⟨bs, y, h, hy, hbs⟩ := sysRead_feed (W := W) s.obj.rep.sock y₂
  rw [hk₂, hk₁] at hy hbs
  refine ⟨bs, y, ?_, hy, hbs⟩
  simp only [read, Prog.bind_apply, h₁, h₂, Outcome.andThen_ret, Prog.get_apply, call,
    Prog.zoom_apply, h, Outcome.mapState_ret]
  rfl

/-- **`underflow`**, with the bytes still to come in the inbox: they and the looks stay the same.
It reports end of file when there are none left. -/
theorem underflow_feed {s : Proc Sockbuf (Peer B ω)} (hf : Fed s) :
    ∃ v s', underflow (Kernel.feed B W) s = .ret v s' ∧ Fed s' ∧ looks s' = looks s ∧
      ahead s' = ahead s ∧
      (v = eofValue ∧ looks s' = [] ∧ ahead s' = [] ∨ v ≠ eofValue ∧ s'.obj.unread ≠ []) := by
  obtain ⟨⟨a, ha⟩, hg⟩ := id hf
  by_cases hlt : a.gptr < a.egptr
  · refine ⟨_, s, underflow_of_unread ha hlt, hf, rfl, rfl, Or.inr ⟨byte_ne_eof _, ?_⟩⟩
    rw [unread_cons ha hlt]
    exact List.cons_ne_nil _ _
  · have hu : s.obj.unread = [] := (unread_nil_iff ha).mpr hlt
    obtain ⟨bs, y, hread, hy, hbs⟩ := read_feed (W := W) s
    have hr : read (Kernel.feed B W) s.obj.rep.gend s = .ret bs ⟨s.obj, y⟩ := by
      rw [hg]
      exact hread
    cases hi : s.sys.kern.inbox with
    | nil =>
        rw [hi] at hy hbs
        subst hbs
        refine ⟨eofValue, ⟨s.obj, y⟩, underflow_of_end ha hlt hr, ⟨⟨a, ha⟩, hg⟩, ?_, ?_, Or.inl ⟨rfl, ?_, ?_⟩⟩
        · simp only [looks, ha, hy, hi, List.tail_nil]
        · simp only [ahead, hy, hi, List.tail_nil]
        · simp only [looks, ha, hu, hy, List.tail_nil, looksAt_nil, looksIn, List.append_nil]
        · simp only [ahead, hu, hy, List.tail_nil, bytesIn, List.flatMap_nil, List.append_nil]
    | cons c cs =>
        obtain ⟨c, hne, hle⟩ := c
        obtain ⟨b, l, rfl⟩ := List.exists_cons_of_ne_nil hne
        rw [hi] at hy hbs
        subst hbs
        rw [List.tail_cons] at hy
        have hu' : (s.obj.onGet fun a => a.refill (b :: l)).unread = b :: l := unread_refill ha _
        have ha' : (s.obj.onGet fun a => a.refill (b :: l)).getArea = some (a.refill (b :: l)) := by
          simp only [onGet, ha, Option.map_some]
        refine ⟨b.toNat, ⟨s.obj.onGet fun a => a.refill (b :: l), y⟩, underflow_of_read ha hlt hr,
          ⟨⟨_, ha'⟩, hg⟩, ?_, ?_, Or.inr ⟨byte_ne_eof b, ?_⟩⟩
        · -- the byte behind the bytes read is the old one
          have hx : (a.mem.store 0 (b :: l)) (b :: l).length = a.mem (b :: l).length :=
            Mem.store_other a.mem (Or.inr (by simp))
          simp only [looks, ha, ha', hu, hu', hy, hi, looksAt_nil, List.nil_append, looksIn]
          show looksAt (b :: l) ((a.mem.store 0 (b :: l)) (b :: l).length) ++ _ = _
          rw [hx]
          rfl
        · simp only [ahead, hu, hu', hy, hi, List.nil_append, bytesIn, List.flatMap_cons]
        · rw [hu']
          exact List.cons_ne_nil b l

/-! ### Taking a line -/

/-- Where a reader moves `gptr ()`, which takes the first line: behind it, or, where there is no
line end, one past all that is there. -/
def bump (v : Look) : Nat := (eol.lineEnd v.1).getD (v.1.length + 1)

/-- **A line taken.**  One look is gone, the other looks are the same. -/
theorem looks_gbump {s : Proc Sockbuf (Peer B ω)} {a : GetArea} (ha : s.obj.getArea = some a)
    (hu : s.obj.unread ≠ []) {v : Look} (hv : v = (s.obj.unread, a.mem a.egptr)) :
    looks s = v :: looks (s.onObj (onGet fun a => a.gbump (bump v))) ∧
      ahead s = v.1.take (bump v) ++ ahead (s.onObj (onGet fun a => a.gbump (bump v))) := by
  have hi : bump v = (eol.lineEnd s.obj.unread).getD (s.obj.unread.length + 1) := by rw [hv]; rfl
  have hl : v.1 = s.obj.unread := by rw [hv]
  generalize bump v = i at hi ⊢
  have ha' : (s.onObj (onGet fun a => a.gbump i)).obj.getArea = some (a.gbump i) := by
    simp only [Proc.onObj, onGet, ha, Option.map_some]
  have hu' : (s.onObj (onGet fun a => a.gbump i)).obj.unread = s.obj.unread.drop i := by
    by_cases hle : i ≤ s.obj.unread.length
    · exact unread_gbump ha hle
    · have h0 : (s.onObj (onGet fun a => a.gbump i)).obj.unread = [] := by
        rw [unread_nil_iff ha']
        rw [unread_eq ha, Mem.length_slice] at hle
        simp only [GetArea.gbump]
        omega
      rw [h0, List.drop_eq_nil_of_le (by omega)]
  constructor
  · simp only [looks, ha, ha', hu']
    rw [hv]
    show _ = (_, _) :: (looksAt (s.obj.unread.drop i) (a.mem a.egptr) ++ looksIn a.mem s.sys.kern.inbox)
    cases he : eol.lineEnd s.obj.unread with
    | some e =>
        rw [he, Option.getD_some] at hi
        rw [looksAt_lineEnd he, hi]
        rfl
    | none =>
        rw [he, Option.getD_none] at hi
        rw [looksAt_none hu he, hi, List.drop_eq_nil_of_le (Nat.le_succ _)]
        rfl
  · simp only [ahead, hu', hl]
    show _ = s.obj.unread.take i ++ (s.obj.unread.drop i ++ bytesIn s.sys.kern.inbox)
    rw [← List.append_assoc, List.take_append_drop]

/-- The looks show the stream: each one its head, behind what the ones before it have taken. -/
inductive Shows : List Byte → List Look → Prop where
  | nil : Shows [] []
  | cons {A : List Byte} {v : Look} {vs : List Look} (ne : v.1 ≠ [])
      (head : v.1 <+: v.1.take (bump v) ++ A) (tail : Shows A vs) :
      Shows (v.1.take (bump v) ++ A) (v :: vs)

theorem Shows.looksAt {A : List Byte} {vs : List Look} (h : Shows A vs) (x : Byte) (l : List Byte) :
    Shows (l ++ A) (looksAt l x ++ vs) := by
  -- by the lines of `l`
  induction hn : l.length using Nat.strong_induction_on generalizing l with
  | _ n ih =>
      by_cases hl : l = []
      · subst hl
        exact h
      · cases he : eol.lineEnd l with
        | none =>
            have hb : l.take (bump (l, x)) = l := by
              simp only [bump, he, Option.getD_none]
              exact List.take_of_length_le (Nat.le_succ _)
            have hc : Shows ((l, x).1.take (bump (l, x)) ++ A) ((l, x) :: vs) :=
              .cons hl (by rw [hb]; exact List.prefix_append l A) h
            rw [hb] at hc
            rw [looksAt_none hl he]
            exact hc
        | some e =>
            obtain ⟨h2, hle⟩ := Eol.lineEnd_bounds he
            have hb : bump (l, x) = e := by simp only [bump, he, Option.getD_some]
            have hrest := ih (l.drop e).length (by rw [List.length_drop]; omega) (l.drop e) rfl
            have hsplit : l ++ A = l.take e ++ (l.drop e ++ A) := by
              rw [← List.append_assoc, List.take_append_drop]
            have hc : Shows ((l, x).1.take (bump (l, x)) ++ (l.drop e ++ A))
                ((l, x) :: (Sockbuf.looksAt (l.drop e) x ++ vs)) := by
              refine .cons hl ?_ hrest
              rw [hb, ← hsplit]
              exact List.prefix_append l A
            rw [hb, ← hsplit] at hc
            rw [looksAt_lineEnd he]
            exact hc

/-- **The looks to come show the stream ahead.** -/
theorem shows_looks {s : Proc Sockbuf (Peer B ω)} (hr : s.obj.Readable) :
    Shows (ahead s) (looks s) := by
  have chunks : ∀ (cs : List (Chunk B)) (mem : Mem Byte), Shows (bytesIn cs) (looksIn mem cs) := by
    intro cs
    induction cs with
    | nil => intro mem; exact .nil
    | cons c cs ih =>
        intro mem
        exact (ih (mem.store 0 c.1)).looksAt (mem c.1.length) c.1
  obtain ⟨a, ha⟩ := hr
  simp only [looks, ha]
  exact (chunks s.sys.kern.inbox a.mem).looksAt (a.mem a.egptr) s.obj.unread

theorem Shows.uncons {A : List Byte} {v : Look} {vs : List Look} (h : Shows A (v :: vs)) :
    ∃ A', v.1 <+: A ∧ A = v.1.take (bump v) ++ A' ∧ Shows A' vs := by
  cases h with
  | cons _ head tail => exact ⟨_, head, rfl, tail⟩

/-- Where a look shows a whole line, it is the first line of the stream. -/
theorem lineEnd_of_prefix {A A' : List Byte} {v : Look} {e : Nat} (hp : v.1 <+: A)
    (he : eol.lineEnd v.1 = some e) (hA : A = v.1.take (bump v) ++ A') :
    eol.lineEnd A = some e ∧ A.drop e = A' := by
  have hle := (Eol.lineEnd_bounds he).2
  have hb : bump v = e := by rw [bump, he, Option.getD_some]
  constructor
  · obtain ⟨t, rfl⟩ := hp
    exact Eol.lineEnd_append he t
  · rw [hA, hb, List.drop_append_of_le_length (by rw [List.length_take]; omega),
      List.drop_of_length_le (by rw [List.length_take]; omega), List.nil_append]

theorem Shows.eq_nil {A : List Byte} {vs : List Look} (h : Shows A vs) : A = [] ↔ vs = [] := by
  cases h with
  | nil => exact iff_of_true rfl rfl
  | cons ne head tail =>
      refine iff_of_false (fun h0 => ?_) (List.cons_ne_nil _ _)
      rw [h0] at head
      exact ne (List.prefix_nil.mp head)

end Sockbuf

/-! ### Readers -/

section Readers
open Sockbuf

variable {β κ τ α : Type} [Derived β]

/-- A round after an `underflow` that has found a byte is its body. -/
theorem readRound_body {K : Kernel κ} {body : τ → Prog Thrown (Proc β κ) (τ ⊕ Unit)}
    {s : Proc β κ} {v : Int} {t : Proc Sockbuf κ} (h : underflow K s.base = .ret v t)
    (hv : v ≠ eofValue) (i : τ) : readRound K body i s = body i (s.rebase t) := by
  simp only [readRound, Prog.bind_apply, inherited_ret h, Outcome.andThen_ret, if_neg hv]

theorem readRound_eof {K : Kernel κ} {body : τ → Prog Thrown (Proc β κ) (τ ⊕ Unit)}
    {s : Proc β κ} {t : Proc Sockbuf κ} (h : underflow K s.base = .ret eofValue t) (i : τ) :
    readRound K body i s = .ret (.inr ()) (s.rebase t) := by
  simp only [readRound, Prog.bind_apply, inherited_ret h, Outcome.andThen_ret, if_true]
  rfl

/-- With bytes in the area a round is its body. -/
theorem readRound_of_unread {K : Kernel κ} {body : τ → Prog Thrown (Proc β κ) (τ ⊕ Unit)}
    {s : Proc β κ} (hu : s.base.obj.unread ≠ []) (i : τ) : readRound K body i s = body i s := by
  obtain ⟨a, ha, hlt⟩ : ∃ a, s.base.obj.getArea = some a ∧ a.gptr < a.egptr := by
    cases ha : s.base.obj.getArea with
    | none => exact absurd (by simp only [unread, ha]) hu
    | some a => exact ⟨a, rfl, by_contra fun h => hu ((unread_nil_iff ha).mpr h)⟩
  rw [readRound_body (underflow_of_unread ha hlt) (byte_ne_eof _), Proc.rebase_base]

/-- A reader of lines: the body of its loop, and what the body makes of a look, with what it
carries from round to round and what it has taken out of the stream.  `own` says that an object
is where the reader is, apart from the sockbuf part. -/
structure LineReader (β κ τ α : Type) [Derived β] where
  body : τ → Prog Thrown (Proc β κ) (τ ⊕ Unit)
  look : α → Look → Glance α
  carried : α → τ
  taken : α → List Byte
  own : Proc β κ → α → Prop
  own_rebase : ∀ {s r} (t : Proc Sockbuf κ), own s r → own (s.rebase t) r
  reads : ∀ {s : Proc β κ} {r : α} {a : GetArea}, own s r → s.base.obj.getArea = some a →
    s.base.obj.unread ≠ [] → ∀ v : Look, v = (s.base.obj.unread, a.mem a.egptr) →
    match look r v with
    | .stall    => body (carried r) s = .ret (.inl (carried r)) s
    | .leave r' => ∃ s', body (carried r) s = .ret (.inr ()) s' ∧ own s' r' ∧ s'.base = s.base ∧
        taken r' = taken r
    | .stop r'  => ∃ s', body (carried r) s = .ret (.inr ()) s' ∧ own s' r' ∧
        s'.base = s.base.onObj (onGet fun a => a.gbump (bump v)) ∧
        taken r' = taken r ++ v.1.take (bump v)
    | .go r'    => ∃ s', body (carried r) s = .ret (.inl (carried r')) s' ∧ own s' r' ∧
        s'.base = s.base.onObj (onGet fun a => a.gbump (bump v)) ∧
        taken r' = taken r ++ v.1.take (bump v)

namespace LineReader

variable {B : Nat} {ω : Type} {W : ω → (bs : List Byte) → WriteResult bs.length × ω}
  {L : LineReader β (Peer B ω) τ α}

/-- The object is where the reader `r` is in the stream `S`, with the looks `vs` to come. -/
structure At (L : LineReader β (Peer B ω) τ α) (S : List Byte) (s : Proc β (Peer B ω)) (r : α)
    (vs : List Look) : Prop where
  fed   : Fed s.base
  looks : Sockbuf.looks s.base = vs
  own   : L.own s r
  ahead : L.taken r ++ Sockbuf.ahead s.base = S

theorem At.rebase {S : List Byte} {s : Proc β (Peer B ω)} {r : α} {vs : List Look}
    (h : L.At S s r vs) {t : Proc Sockbuf (Peer B ω)} (hf : Fed t)
    (hl : Sockbuf.looks t = Sockbuf.looks s.base) (hA : Sockbuf.ahead t = Sockbuf.ahead s.base) :
    L.At S (s.rebase t) r vs := by
  refine ⟨?_, ?_, L.own_rebase t h.own, ?_⟩
  · rw [Proc.base_rebase]; exact hf
  · rw [Proc.base_rebase, hl]; exact h.looks
  · rw [Proc.base_rebase, hA]; exact h.ahead

/-- A look taken. -/
theorem At.taken {S : List Byte} {s s' : Proc β (Peer B ω)} {r r' : α} {v : Look} {vs : List Look}
    (h : L.At S s r (v :: vs)) {a : GetArea} (ha : s.base.obj.getArea = some a)
    (hu : s.base.obj.unread ≠ []) (hv : v = (s.base.obj.unread, a.mem a.egptr)) (ho : L.own s' r')
    (hs : s'.base = s.base.onObj (onGet fun a => a.gbump (bump v)))
    (ht : L.taken r' = L.taken r ++ v.1.take (bump v)) : L.At S s' r' vs := by
  obtain ⟨hl, hA⟩ := looks_gbump ha hu hv
  refine ⟨?_, ?_, ho, ?_⟩
  · rw [hs]
    exact ⟨h.fed.readable.onGet _, h.fed.gend⟩
  · rw [hs]
    exact (List.cons.inj (hl.symm.trans h.looks)).2
  · rw [hs, ht, List.append_assoc, ← hA]
    exact h.ahead

/-- With looks to come, a round is the body on an area that shows the first of them. -/
theorem At.filled {S : List Byte} {s : Proc β (Peer B ω)} {r : α} {v : Look} {vs : List Look}
    (h : L.At S s r (v :: vs)) :
    ∃ s₁ a, L.At S s₁ r (v :: vs) ∧ s₁.base.obj.getArea = some a ∧ s₁.base.obj.unread ≠ [] ∧
      v = (s₁.base.obj.unread, a.mem a.egptr) ∧
      ∀ i, readRound (Kernel.feed B W) L.body i s = L.body i s₁ := by
  obtain ⟨x, t, hunder, hf, hl, hA, ⟨-, h0, -⟩ | ⟨hx, hu⟩⟩ := underflow_feed (W := W) h.fed
  · rw [hl, h.looks] at h0
    exact absurd h0 (List.cons_ne_nil v vs)
  · obtain ⟨a, ha⟩ := id hf.readable
    have h₁ := h.rebase hf hl hA
    have hv : v = (t.obj.unread, a.mem a.egptr) := by
      obtain ⟨hl', -⟩ := looks_gbump ha hu rfl
      rw [hl, h.looks] at hl'
      exact (List.cons.inj hl').1
    refine ⟨s.rebase t, a, h₁, ?_, ?_, ?_, readRound_body hunder hx⟩
    · rw [Proc.base_rebase]; exact ha
    · rw [Proc.base_rebase]; exact hu
    · rw [Proc.base_rebase]; exact hv

/-- **A reader follows its looks**, on a connection with everything sent. -/
theorem follows (L : LineReader β (Peer B ω) τ α) (S : List Byte) :
    Follows (readRound (Kernel.feed B W) L.body) L.look
      (fun i s r vs => L.carried r = i ∧ L.At S s r vs) (fun _ s r vs => L.At S s r vs) where
  nil := by
    rintro _ s r ⟨rfl, h⟩
    obtain ⟨x, t, hunder, hf, hl, hA, ⟨rfl, -, -⟩ | ⟨-, hu⟩⟩ := underflow_feed (W := W) h.fed
    · exact ⟨(), _, readRound_eof hunder _, h.rebase hf hl hA⟩
    · have := looks_ne_nil hf.readable hu
      rw [hl, h.looks] at this
      exact absurd rfl this
  stall := by
    rintro _ s r v vs ⟨rfl, h⟩ hlook
    obtain ⟨s₁, a, h₁, ha, hu, hv, hbody⟩ := h.filled (W := W)
    have := L.reads h₁.own ha hu v hv
    rw [hlook] at this
    exact ⟨_, s₁, (hbody _).trans this, rfl, h₁⟩
  leave := by
    rintro _ s r v vs r' ⟨rfl, h⟩ hlook
    obtain ⟨s₁, a, h₁, ha, hu, hv, hbody⟩ := h.filled (W := W)
    have := L.reads h₁.own ha hu v hv
    rw [hlook] at this
    obtain ⟨s', hs, ho, hb, ht⟩ := this
    refine ⟨(), s', (hbody _).trans hs, ?_, ?_, ho, ?_⟩
    · rw [hb]; exact h₁.fed
    · rw [hb]; exact h₁.looks
    · rw [hb, ht]; exact h₁.ahead
  stop := by
    rintro _ s r v vs r' ⟨rfl, h⟩ hlook
    obtain ⟨s₁, a, h₁, ha, hu, hv, hbody⟩ := h.filled (W := W)
    have := L.reads h₁.own ha hu v hv
    rw [hlook] at this
    obtain ⟨s', hs, ho, hb, ht⟩ := this
    exact ⟨(), s', (hbody _).trans hs, h₁.taken ha hu hv ho hb ht⟩
  go := by
    rintro _ s r v vs r' ⟨rfl, h⟩ hlook
    obtain ⟨s₁, a, h₁, ha, hu, hv, hbody⟩ := h.filled (W := W)
    have := L.reads h₁.own ha hu v hv
    rw [hlook] at this
    obtain ⟨s', hs, ho, hb, ht⟩ := this
    exact ⟨_, s', (hbody _).trans hs, rfl, h₁.taken ha hu hv ho hb ht⟩

/-- **The loop of a reader** ends where the scan of the looks to come does, in at most one round
for each look and one more. -/
theorem loop_ret {S : List Byte} {s : Proc β (Peer B ω)} {r r' : α} {vs vs' : List Look}
    (h : L.At S s r vs) (hs : scan L.look r vs = some (r', vs')) :
    ∃ s', L.At S s' r' vs' ∧ ∀ n, vs.length < n →
      Prog.loop (readRound (Kernel.feed B W) L.body) n (L.carried r) s = .ret () s' := by
  have hscan := loop_scan (L.follows (W := W) S) ⟨rfl, h⟩
  rw [hs] at hscan
  obtain ⟨_, s', h', hn⟩ := hscan
  exact ⟨s', h', hn⟩

/-- However many rounds it is given, it is cut off or ends there. -/
theorem loop_at {S : List Byte} {s : Proc β (Peer B ω)} {r : α} {vs : List Look}
    (h : L.At S s r vs) (n : Nat) :
    Prog.loop (readRound (Kernel.feed B W) L.body) n (L.carried r) s = .spin ∨
    ∃ r' vs' s', scan L.look r vs = some (r', vs') ∧ L.At S s' r' vs' ∧
      Prog.loop (readRound (Kernel.feed B W) L.body) n (L.carried r) s = .ret () s' := by
  cases hs : scan L.look r vs with
  | none =>
      have hscan := loop_scan (L.follows (W := W) S) ⟨rfl, h⟩
      rw [hs] at hscan
      exact Or.inl (hscan n)
  | some p =>
      obtain ⟨s', hat, hret⟩ := loop_ret (W := W) h hs
      refine or_iff_not_imp_left.mpr fun hne => ⟨p.1, p.2, s', rfl, hat, ?_⟩
      rw [← hret _ (Nat.le_max_right n (vs.length + 1)),
        Prog.loop_mono (Nat.le_max_left n (vs.length + 1)) hne]

/-- A loop that has ended. -/
theorem returns_loop {S : List Byte} {s s' : Proc β (Peer B ω)} {r : α} {vs : List Look}
    (h : L.At S s r vs)
    (hn : Returns (fun n => Prog.loop (readRound (Kernel.feed B W) L.body) n (L.carried r)) s () s') :
    ∃ r' vs', scan L.look r vs = some (r', vs') ∧ L.At S s' r' vs' := by
  obtain ⟨n, hn⟩ := hn
  rcases loop_at (W := W) h n with hspin | ⟨r', vs', s₁, hs, hat, hret⟩
  · cases hspin.symm.trans hn
  · cases hret.symm.trans hn
    exact ⟨r', vs', hs, hat⟩

end LineReader

end Readers

end Socketpp
