import Socketpp.Lib.Talk
import Socketpp.Protocol.Looks
import Socketpp.Protocol.Replies

/-!
# Protocol — servers

A connection to a server that answers what it receives.  `Kernel.serve` accepts writes in any portions,
hands the bytes to the server, and puts what the server says in answer into the inbox, cut into reads in
the server's way.

`AtDesk` says where an object of a derived class is in the talk with its server: the replies on the desk
are in the get area and the inbox, and each look to come shows five bytes and a whole line.  What a flush
does to it is `say_ret`, and `AtDesk.hear` what a reply reader has to do.
-/

namespace Socketpp
open Lib Sockbuf

/-- A look that both reply readers can take: it shows five bytes and a whole line. -/
def Whole (l : List Byte) : Prop := 5 ≤ l.length ∧ (eol.lineEnd l).isSome

instance (l : List Byte) : Decidable (Whole l) :=
  inferInstanceAs (Decidable (5 ≤ l.length ∧ (eol.lineEnd l).isSome))

/-- The chunks give the bytes of the replies, and each look at them is whole: no read ends inside a line,
or with a line shorter than five bytes. -/
structure CutAs {B : Nat} {ρ : Type} (bytes : ρ → List Byte) (rs : List ρ) (cs : List (Chunk B)) : Prop where
  bytes : bytesIn cs = rs.flatMap bytes
  whole : ∀ c ∈ cs, ∀ l ∈ eol.looks c.1, Whole l

/-- The look at a line, where each look is whole. -/
theorem line_whole {t : Text} {rest : List Byte} {vs : List Look} (hs : Shows (t.line ++ rest) vs)
    (hw : ∀ v ∈ vs, Whole v.1) :
    ∃ v ws, vs = v :: ws ∧ 5 ≤ v.1.length ∧ (∃ u, v.1 = t.line ++ u) ∧
      eol.lineEnd v.1 = some t.line.length ∧ v.1.take (bump v) = t.line ∧ Shows rest ws := by
  cases vs with
  | nil =>
      have h0 := congrArg List.length (hs.eq_nil.mpr rfl)
      simp [Text.line] at h0
  | cons v ws =>
      obtain ⟨h5, he⟩ := hw v List.mem_cons_self
      obtain ⟨e, he⟩ := Option.isSome_iff_exists.mp he
      obtain ⟨A', hp, hA, hws⟩ := hs.uncons
      obtain ⟨hlen, hdrop⟩ := lineEnd_of_prefix hp he hA
      obtain rfl : t.line.length = e := Option.some.inj ((t.lineEnd_line_append rest).symm.trans hlen)
      obtain rfl : rest = A' := by
        rw [← hdrop]
        exact List.drop_left.symm
      have htake : v.1.take (bump v) = t.line := (List.append_cancel_right hA).symm
      exact ⟨v, ws, rfl, h5, ⟨v.1.drop (bump v), by rw [← htake, List.take_append_drop]⟩, he, htake, hws⟩

section Kernel

variable {B : Nat} {ω : Type}

/-- The kernel of a connection to the server `S`, whose part of the state is what it has received.  `W`
decides how much of a write is accepted; no wait times out. -/
def Kernel.serve (S : Answerer Byte (Chunk B)) (W : ω → (bs : List Byte) → WriteResult bs.length × ω) :
    Kernel (Peer B (List Byte × ω)) where
  write k _ bs :=
    match W k.outbox.2 bs with
    | (.accepted n pos le, o) => (.accepted n pos le,
        ⟨k.inbox ++ S.more k.outbox.1 (bs.take n), (k.outbox.1 ++ bs.take n, o)⟩)
    | (.failed e, o) => (.failed e, ⟨k.inbox, (k.outbox.1, o)⟩)
  read k _ len      := k.take len
  selectRead k _ _  := (.ok 1, k)
  selectWrite k _ _ := (.ok 1, k)
  sockatmark k _    := (.ok false, k)
  shutdown k _ _    := (.ok (), k)
  open_ k _         := (.error 2, k)

/-- A write is never refused. -/
def Accepting (W : ω → (bs : List Byte) → WriteResult bs.length × ω) : Prop :=
  ∀ o b l, ∃ n pos le o', W o (b :: l) = (.accepted n pos le, o')

variable {S : Answerer Byte (Chunk B)} {W : ω → (bs : List Byte) → WriteResult bs.length × ω}

theorem Kernel.serve_writeSucceeds (hW : Accepting W) : (Kernel.serve S W).WriteSucceeds where
  write k fd b l := by
    obtain ⟨n, pos, le, o, h⟩ := hW k.outbox.2 b l
    refine ⟨n, pos, le, ((Kernel.serve S W).write k fd (b :: l)).2, ?_⟩
    simp only [Kernel.serve, h]
  selectWrite k _ _ := ⟨0, k, rfl⟩

/-! ### What a flush does -/

/-- Between the two states the server has received `w`, and the get side is the same. -/
structure Conveyed (S : Answerer Byte (Chunk B)) (w : List Byte) (s s' : Proc Sockbuf (Peer B (List Byte × ω))) :
    Prop where
  rep     : s'.obj.rep = s.obj.rep
  getArea : s'.obj.getArea = s.obj.getArea
  heard   : s'.sys.kern.outbox.1 = s.sys.kern.outbox.1 ++ w
  inbox   : s'.sys.kern.inbox = s.sys.kern.inbox ++ S.more s.sys.kern.outbox.1 w
  sent    : Sockbuf.sent s' = Sockbuf.sent s ++ w

theorem Conveyed.of_kern {s s' : Proc Sockbuf (Peer B (List Byte × ω))} (hrep : s'.obj.rep = s.obj.rep)
    (hget : s'.obj.getArea = s.obj.getArea) (hheard : s'.sys.kern.outbox.1 = s.sys.kern.outbox.1)
    (hinbox : s'.sys.kern.inbox = s.sys.kern.inbox) (hsent : Sockbuf.sent s' = Sockbuf.sent s) :
    Conveyed S [] s s' :=
  ⟨hrep, hget, by rw [hheard, List.append_nil], by rw [hinbox, S.more_nil, List.append_nil],
    by rw [hsent, List.append_nil]⟩

theorem Conveyed.trans {w w' : List Byte} {s s₁ s' : Proc Sockbuf (Peer B (List Byte × ω))}
    (h : Conveyed S w s s₁) (h' : Conveyed S w' s₁ s') : Conveyed S (w ++ w') s s' :=
  ⟨h'.rep.trans h.rep, h'.getArea.trans h.getArea, by rw [h'.heard, h.heard, List.append_assoc],
    by rw [h'.inbox, h.inbox, h.heard, S.more_append, List.append_assoc],
    by rw [h'.sent, h.sent, List.append_assoc]⟩

/-- Some bytes have passed. -/
def Served (S : Answerer Byte (Chunk B)) (s s' : Proc Sockbuf (Peer B (List Byte × ω))) : Prop :=
  ∃ w, Conveyed S w s s'

/-- **The put functions** hand the server what they send. -/
theorem ownFrame_served (S : Answerer Byte (Chunk B)) (W : ω → (bs : List Byte) → WriteResult bs.length × ω) :
    OwnFrame (Kernel.serve S W) (Served S) where
  refl _ := ⟨[], .of_kern rfl rfl rfl rfl rfl⟩
  trans _ _ _ := fun ⟨w, h⟩ ⟨w', h'⟩ => ⟨w ++ w', h.trans h'⟩
  write s bs := by
    simp only [call, Prog.zoom_apply, Sys.write, Kernel.serve]
    rcases hw : W s.sys.kern.outbox.2 bs with ⟨r, o⟩
    cases r with
    | accepted n pos le =>
        refine ⟨bs.take n, rfl, rfl, rfl, rfl, ?_⟩
        show sentOn _ (s.sys.trace ++ [_]) = _
        rw [sentOn_append]
        simp [Sockbuf.sent, sentOn, Syscall.sentOn]
    | failed e =>
        refine ⟨[], .of_kern rfl rfl rfl rfl ?_⟩
        show sentOn _ (s.sys.trace ++ [_]) = _
        rw [sentOn_append]
        simp [Sockbuf.sent, sentOn, Syscall.sentOn]
  selectWrite fd sec := by
    refine keeps_answer fun s y r hk ht => ⟨[], .of_kern rfl rfl ?_ ?_ ?_⟩
    · exact congrArg (fun k : Peer B (List Byte × ω) => k.outbox.1) hk
    · exact congrArg Peer.inbox hk
    · show sentOn _ y.trace = _
      rw [ht, sentOn_append]
      simp [Sockbuf.sent, sentOn, Syscall.sentOn]
  put _ _ := ⟨[], .of_kern rfl rfl rfl rfl rfl⟩

end Kernel

/-! ### Where an object is in its talk -/

section Desk

variable {β γ : Type} [Derived β] {B : Nat} {ω ρ : Type} {S : Answerer Byte (Chunk B)}
  {W : ω → (bs : List Byte) → WriteResult bs.length × ω} {V : Answerer Byte ρ} {bytes : ρ → List Byte}
  {out : β → Option (List Byte)} {o : Option (List Byte)}

/-- The server `S` gives the replies of `V`, cut as the readers need them. -/
def Speaks (S : Answerer Byte (Chunk B)) (V : Answerer Byte ρ) (bytes : ρ → List Byte) : Prop :=
  ∀ a b, CutAs bytes (V.more a b) (S.more a b)

/-- Any policy is spoken by a server that has its replies cut as they need be, each by itself. -/
theorem speaks_each {q : Type} {requests : List Byte → List q} {mono : ∀ a b, requests a <+: requests (a ++ b)}
    {answer : List q → q → ρ} {cut : List q → q → List (Chunk B)}
    (h : ∀ hist x, CutAs bytes [answer hist x] (cut hist x)) :
    Speaks (Answerer.each requests mono cut).flat (.each requests mono answer) bytes := by
  have all : ∀ xs hist, CutAs bytes (Answerer.answers answer hist xs) (Answerer.answers cut hist xs).flatten := by
    intro xs
    induction xs with
    | nil => exact fun hist => ⟨rfl, List.forall_mem_nil _⟩
    | cons x xs ih =>
        intro hist
        obtain ⟨hb, hw⟩ := h hist x
        obtain ⟨hb', hw'⟩ := ih (hist ++ [x])
        refine ⟨?_, fun c hc => ?_⟩
        · rw [Answerer.answers, Answerer.answers, List.flatten_cons, bytesIn, List.flatMap_append, ← bytesIn,
            ← bytesIn, hb, hb', List.flatMap_singleton, List.flatMap_cons]
        · rw [Answerer.answers, List.flatten_cons] at hc
          exact (List.mem_append.mp hc).elim (hw c) (hw' c)
  intro a b
  obtain ⟨xs, hxs⟩ := mono a b
  rw [Answerer.more_flat, Answerer.more_each xs hxs.symm, Answerer.more_each xs hxs.symm]
  exact all xs _

/-- The object is at the desk `d`: nothing is pending, what is unread is ahead, and what has been read has
gone to the stream `out`, behind `o`. -/
structure AtDesk (bytes : ρ → List Byte) (out : β → Option (List Byte)) (o : Option (List Byte))
    (s : Proc β (Peer B (List Byte × ω))) (d : Desk Byte ρ) : Prop where
  writable : s.base.obj.Writable
  pending  : s.base.obj.pending = []
  fed      : Fed s.base
  heard    : s.sys.kern.outbox.1 = d.heard
  ahead    : ahead s.base = d.unread.flatMap bytes
  whole    : ∀ v ∈ looks s.base, Whole v.1
  told     : out s.obj = o.map fun out => out ++ d.read.flatMap bytes

/-- What the looks to come show. -/
theorem map_fst_looks {s : Proc Sockbuf (Peer B ω)} (h : s.obj.Readable) :
    (looks s).map Prod.fst = eol.looks s.obj.unread ++ s.sys.kern.inbox.flatMap fun c => eol.looks c.1 := by
  have at_ : ∀ (l : List Byte) (x : Byte), (looksAt l x).map Prod.fst = eol.looks l := fun l x => by
    simp [looksAt, Function.comp_def]
  have inbox : ∀ (cs : List (Chunk B)) (mem : Mem Byte),
      (looksIn mem cs).map Prod.fst = cs.flatMap fun c => eol.looks c.1 := by
    intro cs
    induction cs with
    | nil => intro _; rfl
    | cons c cs ih => intro mem; rw [looksIn, List.map_append, at_, ih, List.flatMap_cons]
  obtain ⟨a, ha⟩ := h
  simp only [looks, ha, List.map_append, at_, inbox]

theorem whole_iff {s : Proc Sockbuf (Peer B ω)} (h : s.obj.Readable) :
    (∀ v ∈ looks s, Whole v.1) ↔
      ∀ l ∈ eol.looks s.obj.unread ++ s.sys.kern.inbox.flatMap fun c => eol.looks c.1, Whole l := by
  rw [← map_fst_looks h, List.forall_mem_map]

/-- A desk at which the server has received `w`. -/
theorem AtDesk.say {s s' : Proc β (Peer B (List Byte × ω))} {d : Desk Byte ρ} {w : List Byte}
    (h : AtDesk bytes out o s d) (hS : Speaks S V bytes) (hw : s'.base.obj.Writable)
    (hp : s'.base.obj.pending = []) (hpassed : Conveyed S w s.base s'.base) (hout : out s'.obj = out s.obj) :
    AtDesk bytes out o s' (d.say V w) := by
  obtain ⟨a, ha⟩ := h.fed.readable
  have hread : s'.base.obj.Readable := ⟨a, hpassed.getArea.trans ha⟩
  have hunread : s'.base.obj.unread = s.base.obj.unread := by simp only [unread, hpassed.getArea]
  have hinbox := hpassed.inbox
  have hcut := hS d.heard w
  rw [show s.base.sys.kern.outbox.1 = d.heard from h.heard] at hinbox
  refine ⟨hw, hp, ⟨hread, by rw [hpassed.rep]; exact h.fed.gend⟩, ?_, ?_, ?_, ?_⟩
  · show s'.base.sys.kern.outbox.1 = d.heard ++ w
    rw [hpassed.heard, show s.base.sys.kern.outbox.1 = d.heard from h.heard]
  · have hahead := h.ahead
    rw [Sockbuf.ahead] at hahead
    rw [Sockbuf.ahead, hunread, hinbox, bytesIn, List.flatMap_append, ← List.append_assoc, ← bytesIn, hahead,
      ← bytesIn, hcut.bytes, ← List.flatMap_append]
    rfl
  · have hold := (whole_iff h.fed.readable).mp h.whole
    rw [whole_iff hread, hunread, hinbox, List.flatMap_append, ← List.append_assoc]
    intro l hl
    rcases List.mem_append.mp hl with hl | hl
    · exact hold l hl
    · obtain ⟨c, hc, hlc⟩ := List.mem_flatMap.mp hl
      exact hcut.whole c hc l hlc
  · rw [hout, h.told]
    rfl

/-- **A flush** behind some puts is a say. -/
theorem say_ret {p : Prog Thrown (Proc β (Peer B (List Byte × ω))) γ} {w : List Byte}
    (hp : Puts (Kernel.serve S W) p w) (hk : Prog.Keeps (OnBase (Served S)) p) (hW : Accepting W)
    (hS : Speaks S V bytes) (hout : ∀ x b, out (Derived.rebase x b) = out x)
    {s : Proc β (Peer B (List Byte × ω))} {d : Desk Byte ρ} (hs : AtDesk bytes out o s d) :
    ∃ v s', (p >>= fun _ => inherited (Sockbuf.sync (Kernel.serve S W))) s = .ret v s' ∧
      AtDesk bytes out o s' (d.say V w) := by
  have hframe := ownFrame_served S W
  have hc := hframe.toClosed.onBase (β := β)
  have hsat : ((p >>= fun _ => inherited (Sockbuf.sync (Kernel.serve S W))) s).Sat
      (fun _ t => Flushed s.base t.base w ∧ SameRest s t) (fun _ _ => ¬ (Kernel.serve S W).WriteSucceeds) := by
    refine (hp s hs.writable).andThen (fun _ s₁ h₁ => ?_) fun _ _ h => h
    refine (sync_flushes h₁.moved.writable).mono (fun _ t h₂ => ?_) fun _ _ h => h
    have hput := h₁.trans h₂.1
    rw [List.append_nil] at hput
    exact ⟨hput.flushed h₂.2, hput.rest⟩
  have hkeeps : Prog.Keeps (OnBase (Served S)) (p >>= fun _ => inherited (Sockbuf.sync (Kernel.serve S W))) :=
    hc.keeps_bind hk fun _ => keeps_inherited hframe.sync
  obtain ⟨v, s', hret, ⟨hfl, hrest⟩, w', hpassed⟩ := ((hsat.and_leaves (hkeeps s)).mono
    (fun _ _ h => h) fun _ _ h => absurd (Kernel.serve_writeSucceeds hW) h.1).returns
  -- what has been sent is what was put
  have hsent := hfl.sent
  rw [hpassed.sent, hs.pending, List.append_nil] at hsent
  obtain rfl := List.append_cancel_left hsent
  refine ⟨v, s', hret, hs.say hS hfl.writable hfl.pending hpassed ?_⟩
  rw [show s'.obj = Derived.rebase s.obj s'.base.obj from congrArg Proc.obj hrest, hout]

/-- The server has received nothing in between. -/
def SameHearing (s s' : Proc Sockbuf (Peer B ω)) : Prop := s'.sys.kern.outbox = s.sys.kern.outbox

/-- **A reply read.**  What a reader has to do to the stream and the looks; the rest it keeps. -/
theorem AtDesk.hear {s s' : Proc β (Peer B (List Byte × ω))} {d : Desk Byte ρ} {r : ρ} {rs : List ρ}
    (h : AtDesk bytes out o s d) (hput : PutSame s.base s'.base) (hfed : Fed s'.base)
    (hheard : SameHearing s.base s'.base) (hahead : Sockbuf.ahead s'.base = rs.flatMap bytes)
    (hlooks : ∀ v ∈ looks s'.base, v ∈ looks s.base)
    (hout : out s'.obj = (out s.obj).map fun out => out ++ bytes r) :
    AtDesk bytes out o s' (d.hear r rs) := by
  refine ⟨writable_of_putSame hput h.writable, ?_, hfed, ?_, hahead, fun v hv => h.whole v (hlooks v hv), ?_⟩
  · rw [Sockbuf.pending, hput.putArea]
    exact h.pending
  · rw [show s'.sys.kern.outbox = _ from hheard]
    exact h.heard
  · rw [hout, h.told, Option.map_map]
    simp [Desk.hear, Function.comp_def]

/-- **The get functions** tell the server nothing. -/
theorem getFrame_sameHearing (S : Answerer Byte (Chunk B)) (W : ω → (bs : List Byte) → WriteResult bs.length × ω) :
    GetFrame (Kernel.serve S W) SameHearing where
  refl _ := rfl
  trans _ _ _ h h' := h'.trans h
  read s len := leaves_readCall fun y _ hk _ => by
    show y.kern.outbox = s.sys.kern.outbox
    rw [hk]
    simp only [Kernel.serve, Peer.take]
    split
    · rfl
    · split
      · rfl
      · split <;> rfl
  selectRead _ _ := keeps_answer fun _ _ _ hk _ => congrArg Peer.outbox hk
  sockatmark _ := keeps_answer fun _ _ _ hk _ => congrArg Peer.outbox hk
  get _ _ := rfl

end Desk

end Socketpp
