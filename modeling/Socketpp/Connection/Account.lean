import Socketpp.Sockbuf.Inert

/-!
# Connection — the account of an endpoint

Puts, gets and shutdowns on one sockbuf, in any order.  The account of a run lists the bytes that its
puts have accepted, those that its gets have delivered, and what went away with an area: bytes that
were accepted and not sent (`lost`), and bytes that were received and not delivered (`dropped`).  A
state accounts for it (`Accounts`) where

* what has been accepted is what the kernel has taken, what is pending and what is lost, and
* what the kernel has given is what has been delivered, what is unread and what is dropped.

Each operation keeps this, also one that throws, and enters what its result says (`kept_after`).
Put-backs are left out: a `sungetc` before the first refill returns a byte that was never received.
-/

namespace Socketpp
open Lib

variable {κ : Type} {K : Kernel κ}

/-- What a run has accepted and delivered, and what it has thrown away. -/
structure Account where
  accepted  : List Byte
  lost      : List Byte
  delivered : List Byte
  dropped   : List Byte

/-- The account at the start. -/
def Account.empty : Account := ⟨[], [], [], []⟩

/-- The bytes `xs` a put accepts.  Without a put area there are none, and it reports none. -/
def PutOp.Accepts (op : PutOp) (s : Proc Sockbuf κ) (r : Except Thrown Int) (s' : Proc Sockbuf κ)
    (xs : List Byte) : Prop :=
  if s.obj.putArea.isSome then op.Takes s r s' xs else xs = [] ∧ ∃ v, r = .ok v ∧ op.reported v = []

/-- The bytes `xs` a get delivers.  Without a get area there are none, and it reports none. -/
def GetOp.Delivers (op : GetOp) (t : Sockbuf.Getting κ) (r : Except Thrown Int) (t' : Sockbuf.Getting κ)
    (xs : List Byte) : Prop :=
  if t.proc.obj.getArea.isSome then op.Gives t r t' xs else xs = [] ∧ ∃ v, r = .ok v ∧ op.obtained v = 0

namespace Sockbuf

/-- The pending bytes that went with the put area. -/
def lostIn (b b' : Sockbuf) : List Byte := if b'.putArea.isSome then [] else b.pending

/-- The unread bytes that went with the get area. -/
def droppedIn (b b' : Sockbuf) : List Byte := if b'.getArea.isSome then [] else b.unread

end Sockbuf

namespace SockOp
open Sockbuf

/-- The operations that take no byte back. -/
def forward : SockOp → Bool
  | .sungetc | .sputbackc _            => false
  | .put _   | .get _     | .shutdown _ => true

/-- What an operation that comes to `r` books. -/
def Books (op : SockOp) (t : Getting κ) (r : Except Thrown Int) (t' : Getting κ) (a a' : Account) :
    Prop :=
  match op with
  | .put p      => ∃ xs, p.Accepts t.proc r t'.proc xs ∧ a' = { a with accepted := a.accepted ++ xs }
  | .get g      => ∃ xs, g.Delivers t r t' xs ∧ a' = { a with delivered := a.delivered ++ xs }
  | .shutdown _ => a' = { a with
      lost    := lostIn t.proc.obj t'.proc.obj ++ a.lost
      dropped := droppedIn t.proc.obj t'.proc.obj ++ a.dropped }
  | .sungetc | .sputbackc _ => a' = a

end SockOp

namespace Sockbuf

/-- Run the operations in turn, also behind one that throws. -/
def after (K : Kernel κ) : List SockOp → Getting κ → Getting κ
  | [],        t => t
  | op :: ops, t =>
    match op.exec K t with
    | .ret _ t'    => after K ops t'
    | .thrown _ t' => after K ops t'
    | .spin        => t

/-- The operations run in turn from `t` to `t'`, and take the account from `a` to `a'`. -/
inductive Kept (K : Kernel κ) : Getting κ → Account → List SockOp → Account → Getting κ → Prop where
  | nil (t : Getting κ) (a : Account) : Kept K t a [] a t
  | cons {t t₁ t' : Getting κ} {a a₁ a' : Account} {op : SockOp} {ops : List SockOp}
      {r : Except Thrown Int} (came : (op.exec K t).result = some (r, t₁)) (books : op.Books t r t₁ a a₁)
      (rest : Kept K t₁ a₁ ops a' t') : Kept K t a (op :: ops) a' t'

/-- **The state accounts for `a`**, on the descriptor `sd`. -/
structure Accounts (sd : Int) (t : Getting κ) (a : Account) : Prop where
  sock      : t.proc.obj.rep.sock = sd
  sound     : Family.PutSound t.proc.obj
  accepted  : a.accepted = sentOn sd t.proc.sys.trace ++ t.proc.obj.pending ++ a.lost
  lost      : t.proc.obj.putArea.isSome → a.lost = []
  delivered : receivedOn sd t.proc.sys.trace = a.delivered ++ t.proc.obj.unread ++ a.dropped
  dropped   : t.proc.obj.getArea.isSome → a.dropped = []

variable {sd : Int} {t t' : Getting κ} {a : Account} {r : Except Thrown Int}

/-! ### One operation -/

theorem pending_of_none {b : Sockbuf} (h : b.putArea = none) : b.pending = [] := by
  simp only [pending, h]

theorem unread_of_none {b : Sockbuf} (h : b.getArea = none) : b.unread = [] := by
  simp only [unread, h]

/-- An operation on a side that is closed. -/
theorem Accounts.untouched (h : Accounts sd t a) (hu : Untouched t.proc t'.proc) : Accounts sd t' a := by
  have hpending : t'.proc.obj.pending = t.proc.obj.pending := by rw [pending, pending, hu.putArea]
  have hunread : t'.proc.obj.unread = t.proc.obj.unread := by rw [unread, unread, hu.getArea]
  refine ⟨hu.sock.trans h.sock, h.sound.imp hu.putArea.trans (Family.writable_congr hu.putArea hu.pend), ?_, ?_,
    ?_, ?_⟩
  · rw [hu.sys, hpending]
    exact h.accepted
  · rw [hu.putArea]
    exact h.lost
  · rw [hu.sys, hunread]
    exact h.delivered
  · rw [hu.getArea]
    exact h.dropped

/-- A put receives nothing. -/
theorem put_received (p : PutOp) (h : (SockOp.exec K (.put p) t).result = some (r, t')) (fd : Int) :
    receivedOn fd t'.proc.sys.trace = receivedOn fd t.proc.sys.trace := by
  by_cases hop : (SockOp.put p).puts = true
  · exact ((exec_puts_frame (putFrame_received K) hop t).result h).1.2 fd
  · cases p with
    | sendtimeout wp =>
        cases h
        rfl
    | sputc _ | overflow _ | sputn _ | sync => exact absurd rfl hop

/-- **A put** accepts what it reports; when it throws, it has accepted a prefix. -/
theorem Accounts.put (h : Accounts sd t a) (p : PutOp)
    (came : (SockOp.exec K (.put p) t).result = some (r, t')) :
    ∃ a', (SockOp.put p).Books t r t' a a' ∧ Accounts sd t' a' := by
  have hres := (within_result came).1
  rcases h.sound with hnone | hw
  · have hclosed : ¬ t.proc.obj.putArea.isSome := by
      rw [hnone]
      exact Bool.false_ne_true
    rcases (p.exec_bare hnone).result hres with ⟨v, rfl, hv, hu⟩ | ⟨e, -, hnot⟩
    · refine ⟨a, ⟨[], ?_, by rw [List.append_nil]⟩, h.untouched hu⟩
      rw [PutOp.Accepts, if_neg hclosed]
      exact ⟨rfl, v, rfl, hv⟩
    · exact hnot.elim
  · have hopen : t.proc.obj.putArea.isSome := by
      obtain ⟨p, hp, -⟩ := hw
      rw [hp]
      rfl
    have hk := (p.exec_frame t.proc).result hres
    obtain ⟨xs, htakes, htaken⟩ : ∃ xs, p.Takes t.proc r t'.proc xs ∧ PutOp.Taken t.proc t'.proc xs := by
      rcases (p.exec_sat hw).result hres with ⟨v, rfl, hv, ht, -⟩ | ⟨e, rfl, ⟨xs, he, ht⟩, -⟩
      · exact ⟨_, hv, ht⟩
      · exact ⟨xs, he, ht⟩
    have hsock : t'.proc.obj.rep.sock = sd := htaken.sock.trans h.sock
    have hmoved : sentOn sd t'.proc.sys.trace ++ t'.proc.obj.pending =
        sentOn sd t.proc.sys.trace ++ t.proc.obj.pending ++ xs := by
      have heq := htaken.moves.pushed_eq
      simp only [outQueue, sent, hsock, h.sock] at heq
      exact heq
    have hunread : t'.proc.obj.unread = t.proc.obj.unread := by rw [unread, unread, hk.getArea]
    refine ⟨{ a with accepted := a.accepted ++ xs }, ⟨xs, ?_, rfl⟩, hsock, .inr htaken.writable, ?_,
      fun _ => h.lost hopen, ?_, ?_⟩
    · rw [PutOp.Accepts, if_pos hopen]
      exact htakes
    · rw [h.lost hopen, List.append_nil, hmoved, h.accepted, h.lost hopen, List.append_nil]
    · rw [put_received p came, hunread]
      exact h.delivered
    · rw [hk.getArea]
      exact h.dropped

/-- **A get** delivers what it reports; what `sgetn` has stored when it throws is delivered too. -/
theorem Accounts.get (h : Accounts sd t a) (g : GetOp)
    (came : (SockOp.exec K (.get g) t).result = some (r, t')) :
    ∃ a', (SockOp.get g).Books t r t' a a' ∧ Accounts sd t' a' := by
  cases hget : t.proc.obj.getArea with
  | none =>
      have hclosed : ¬ t.proc.obj.getArea.isSome := by
        rw [hget]
        exact Bool.false_ne_true
      rcases (g.exec_bare hget).result came with ⟨v, rfl, hv, hu⟩ | ⟨e, -, hnot⟩
      · refine ⟨a, ⟨[], ?_, by rw [List.append_nil]⟩, h.untouched hu⟩
        rw [GetOp.Delivers, if_neg hclosed]
        exact ⟨rfl, v, rfl, hv⟩
      · exact hnot.elim
  | some area =>
      have hopen : t.proc.obj.getArea.isSome := by
        rw [hget]
        rfl
      have hk := (g.exec_frame t).result came
      have hbal : GetOp.Balanced t a.delivered := by
        refine ⟨⟨area, hget⟩, ?_⟩
        rw [received, h.sock, h.delivered, h.dropped hopen, List.append_nil]
      obtain ⟨xs, hgives, -, hreceived⟩ : ∃ xs, g.Gives t r t' xs ∧ GetOp.Balanced t' (a.delivered ++ xs) := by
        rcases (GetOp.posts_exec K g t _ hbal).result came with ⟨v, rfl, hv⟩ | ⟨e, rfl, he⟩
        · exact hv
        · exact he
      have hsock : t'.proc.obj.rep.sock = sd := hk.sock.trans h.sock
      rw [received, hsock] at hreceived
      have hpending : t'.proc.obj.pending = t.proc.obj.pending := by rw [pending, pending, hk.putArea]
      refine ⟨{ a with delivered := a.delivered ++ xs }, ⟨xs, ?_, rfl⟩, hsock,
        h.sound.imp hk.putArea.trans (Family.writable_congr hk.putArea hk.pend), ?_, ?_, ?_, fun _ => h.dropped hopen⟩
      · rw [GetOp.Delivers, if_pos hopen]
        exact hgives
      · rw [hk.sent, hpending]
        exact h.accepted
      · rw [hk.putArea]
        exact h.lost
      · rw [hreceived, h.dropped hopen, List.append_nil]

/-- What a shutdown leaves. -/
structure Shut (s s' : Proc Sockbuf κ) : Prop where
  rep      : s'.obj.rep = s.obj.rep
  putArea  : s'.obj.putArea = none ∨ s'.obj.putArea = s.obj.putArea
  getArea  : s'.obj.getArea = none ∨ s'.obj.getArea = s.obj.getArea
  sent     : ∀ fd, sentOn fd s'.sys.trace = sentOn fd s.sys.trace
  received : ∀ fd, receivedOn fd s'.sys.trace = receivedOn fd s.sys.trace

/-- A shutdown sends nothing and receives nothing. -/
theorem shutdown_shut (sh : Shuthow) (s : Proc Sockbuf κ) : (shutdown K sh s).Leaves (Shut s) := by
  have drop : ∀ s₁ : Proc Sockbuf κ, Shut s s₁ → ∀ sh, (shutdownCall K sh s₁).Leaves (Shut s) :=
    fun s₁ h₁ sh => (shutdownCall_leaves sh s₁).mono fun s' h' =>
      ⟨by rw [h'.obj, h₁.rep], by rw [h'.obj]; exact h₁.putArea, by rw [h'.obj]; exact h₁.getArea,
        fun fd => (h'.sentOn fd).trans (h₁.sent fd), fun fd => (h'.receivedOn fd).trans (h₁.received fd)⟩
  have hget : Shut s (s.onObj dropGet) := ⟨rfl, .inr rfl, .inl rfl, fun _ => rfl, fun _ => rfl⟩
  have hput : ∀ s₁ : Proc Sockbuf κ, Shut s s₁ → Shut s (s₁.onObj dropPut) := fun s₁ h₁ =>
    ⟨h₁.rep, .inl rfl, h₁.getArea, h₁.sent, h₁.received⟩
  cases sh with
  | shut_read => exact drop _ hget _
  | shut_write => exact drop _ (hput s ⟨rfl, .inr rfl, .inr rfl, fun _ => rfl, fun _ => rfl⟩) _
  | shut_readwrite =>
      refine (drop _ hget _).andThen fun _ s₁ h₁ => ?_
      refine (drop _ (hput s₁ h₁) _).andThen fun _ s₂ h₂ => ?_
      exact drop s₂ h₂ _

/-- What goes with the put area is no longer pending. -/
theorem lostIn_eq {b b' : Sockbuf} (h : b'.putArea = none ∨ b'.putArea = b.putArea) :
    b'.pending ++ lostIn b b' = b.pending := by
  cases hp : b'.putArea with
  | none => simp [lostIn, pending_of_none hp, hp]
  | some p =>
      have hb : b.putArea = some p := h.elim (fun hn => by rw [hp] at hn; cases hn) fun he => he ▸ hp
      simp [lostIn, pending, hp, hb]

/-- What goes with the get area is no longer unread. -/
theorem droppedIn_eq {b b' : Sockbuf} (h : b'.getArea = none ∨ b'.getArea = b.getArea) :
    b'.unread ++ droppedIn b b' = b.unread := by
  cases hg : b'.getArea with
  | none => simp [droppedIn, unread_of_none hg, hg]
  | some g =>
      have hb : b.getArea = some g := h.elim (fun hn => by rw [hg] at hn; cases hn) fun he => he ▸ hg
      simp [droppedIn, unread, hg, hb]

/-- **A shutdown** loses what is pending and drops what is unread, with the areas it drops. -/
theorem Accounts.shutdown (h : Accounts sd t a) (sh : Shuthow)
    (came : (SockOp.exec K (.shutdown sh) t).result = some (r, t')) :
    ∃ a', (SockOp.shutdown sh).Books t r t' a a' ∧ Accounts sd t' a' := by
  obtain ⟨r₀, hcame, -⟩ := Prog.map_result came
  have hs := (shutdown_shut sh t.proc).result (within_result hcame).1
  refine ⟨_, rfl, by rw [hs.rep]; exact h.sock, ?_, ?_, fun hsome => ?_, ?_, fun hsome => ?_⟩
  · exact hs.putArea.elim .inl fun he =>
      h.sound.imp he.trans (Family.writable_congr he (congrArg Sockcnt.pend hs.rep))
  · rw [hs.sent, List.append_assoc, ← List.append_assoc t'.proc.obj.pending, lostIn_eq hs.putArea,
      ← List.append_assoc]
    exact h.accepted
  · rcases hs.putArea with hnone | hsame
    · rw [hnone] at hsome
      cases hsome
    · rw [lostIn, if_pos hsome, h.lost (hsame ▸ hsome)]
      rfl
  · rw [hs.received, List.append_assoc, ← List.append_assoc t'.proc.obj.unread, droppedIn_eq hs.getArea,
      ← List.append_assoc]
    exact h.delivered
  · rcases hs.getArea with hnone | hsame
    · rw [hnone] at hsome
      cases hsome
    · rw [droppedIn, if_pos hsome, h.dropped (hsame ▸ hsome)]
      rfl

/-- **Every operation** books what it reports. -/
theorem Accounts.step (h : Accounts sd t a) {op : SockOp} (hop : op.forward = true)
    (came : (op.exec K t).result = some (r, t')) : ∃ a', op.Books t r t' a a' ∧ Accounts sd t' a' := by
  cases op with
  | put p => exact h.put p came
  | get g => exact h.get g came
  | shutdown sh => exact h.shutdown sh came
  | sungetc | sputbackc c => cases hop

/-! ### Runs -/

/-- The first operation of a run, and the rest. -/
theorem after_cons {op : SockOp} {ops : List SockOp} (came : (op.exec K t).result = some (r, t')) :
    after K (op :: ops) t = after K ops t' := by
  rw [after]
  cases hx : op.exec K t with
  | ret v t₁ => rw [hx] at came; cases came; rfl
  | thrown e t₁ => rw [hx] at came; cases came; rfl
  | spin => rw [hx] at came; cases came

/-- **Every run** has an account, which the state it ends in accounts for. -/
theorem kept_after : ∀ (ops : List SockOp) {t : Getting κ} {a : Account}, (∀ op ∈ ops, op.forward = true) →
    Reached K t.proc.obj → Accounts sd t a →
    ∃ a', Kept K t a ops a' (after K ops t) ∧ Accounts sd (after K ops t) a' := by
  intro ops
  induction ops with
  | nil => exact fun {t a} _ _ h => ⟨a, .nil t a, h⟩
  | cons op ops ih =>
      intro t a hops hreached h
      obtain ⟨r, t₁, came⟩ := hreached.exec_ends t.proc.sys t.dst op
      obtain ⟨a₁, hbooks, h₁⟩ := h.step (hops op List.mem_cons_self) came
      obtain ⟨a', hkept, h'⟩ := ih (fun op hop => hops op (List.mem_cons_of_mem _ hop)) (hreached.step came) h₁
      rw [after_cons came]
      exact ⟨a', .cons came hbooks hkept, h'⟩

/-- A sockbuf as constructed accounts for nothing. -/
theorem ofDesc_accounts (B : ℕ+) (sd : Int) (gbuf pbuf : Mem Byte) (k : κ) (errno : Int) :
    Accounts sd ⟨⟨ofDesc B sd gbuf pbuf, ⟨k, errno, []⟩⟩, []⟩ .empty := by
  refine ⟨rfl, .inr (ofDesc_writable B sd gbuf pbuf), rfl, fun _ => rfl, ?_, fun _ => rfl⟩
  rw [ofDesc_unread]
  rfl

end Sockbuf

end Socketpp
