import Mathlib.Data.Nat.Find
import Socketpp.Sockinet.Model

/-!
# Sockinet — binding to a port

`Ports` is what the kernel answers to `::bind` on one socket, port by port; `Serves` says that a kernel
answers so, and keeps `Binding`, the port the socket is bound to and the ports asked for.

`bind_until_success` asks for one port after another until the answer is not `EADDRINUSE`.  It counts in an
`int` and the address holds 16 bits, so behind 65535 it asks for port 0, which lets the kernel choose, and
then for 1, 2 and so on, and returns the number it has counted to (`bind_until_success_iff`).
-/

namespace Socketpp
open Lib

/-- The answers to `::bind` for each port: the port bound to, or an errno. -/
structure Ports where
  answer : Nat → Except Int Nat
  named  : ∀ p q, p ≠ 0 → answer p = .ok q → q = p
  chosen : ∀ q, answer 0 = .ok q → q ≠ 0 ∧ q < 65536 ∧ answer q = .ok q

/-- What the kernel keeps of a socket: the port it is bound to, and the ports asked for. -/
structure Binding where
  bound : Option Nat
  tried : List Nat

namespace Ports

/-- The port is occupied; for port 0, there is none left to choose. -/
def InUse (P : Ports) (p : Nat) : Prop := P.answer p = .error EADDRINUSE

/-- One `::bind`. -/
def try_ (P : Ports) (p : Nat) (b : Binding) : Except Int Unit × Binding :=
  match P.answer p with
  | .ok q    => (.ok (), ⟨some q, b.tried ++ [p]⟩)
  | .error e => (.error e, ⟨b.bound, b.tried ++ [p]⟩)

/-- What finding the first port from `p` on comes to: it is free and the socket is bound to it, or it
raises another errno, or all are occupied.  Only in the first case is the socket bound. -/
inductive FindsFirst (P : Ports) (p : Nat) (b : Binding) : Except Thrown Int → Binding → Prop where
  | free (q : Nat) (hp : p ≤ q) (hq : q < 65536) (first : ∀ j, p ≤ j → j < q → P.InUse j)
      (answer : P.answer q = .ok q) :
      FindsFirst P p b (.ok q) ⟨some q, b.tried ++ List.range' p (q - p + 1)⟩
  | refused (q : Nat) (e : Int) (operation specification : String) (hp : p ≤ q) (hq : q < 65536)
      (first : ∀ j, p ≤ j → j < q → P.InUse j) (answer : P.answer q = .error e)
      (other : e ≠ EADDRINUSE) :
      FindsFirst P p b (.error (.err e operation specification))
        ⟨none, b.tried ++ List.range' p (q - p + 1)⟩
  | occupied (e : Int) (operation specification : String) (tried : List Nat)
      (all : ∀ j, p ≤ j → j < 65536 → P.InUse j) :
      FindsFirst P p b (.error (.err e operation specification)) ⟨none, tried⟩

end Ports

variable {κ : Type} {N : NetKernel κ} {P : Ports} {fd : Int} {view : κ → Binding}

/-- The kernel answers to `::bind` on the unbound socket as `P` says. -/
def Serves (N : NetKernel κ) (P : Ports) (fd : Int) (view : κ → Binding) : Prop :=
  ∀ k sa, (view k).bound = none →
    ((N.bind k fd sa).1, view (N.bind k fd sa).2) = P.try_ (ntohs sa.sin_port) (view k)

/-- The port that counting up to `m` asks for. -/
def asked (m : Int) : Nat := (m % 65536).toNat

theorem ntohs_sockinetaddr (addr : Nat) (m : Int) :
    ntohs (sockinetaddr addr m).sin_port = asked m := by
  have h := ntohs_htons m
  show ntohs (htons m) = (m % 65536).toNat
  omega

namespace Sockinetbuf

/-- **One round**, the socket unbound. -/
theorem bindRound_eq {s : Proc Sockbuf κ} (h : Serves N P s.obj.rep.sock view)
    (hb : (view s.sys.kern).bound = none) (m : Int) :
    ∃ y : Sys κ, view y.kern = (P.try_ (asked m) (view s.sys.kern)).2 ∧
      bindRound N m s = match P.answer (asked m) with
        | .ok _    => .ret (.inr m) { s with sys := y }
        | .error e =>
          if e ≠ EADDRINUSE then .thrown (.err e "sockbuf::bind" s.obj.sockname) { s with sys := y }
          else .ret (.inl (m + 1)) { s with sys := y } := by
  have hserves := h s.sys.kern (sockinetaddr INADDR_ANY m) hb
  rw [ntohs_sockinetaddr] at hserves
  rcases hbind : N.bind s.sys.kern s.obj.rep.sock (sockinetaddr INADDR_ANY m) with ⟨r, k⟩
  rw [hbind] at hserves
  simp only [bindRound, bindPort, Sockbuf.bind, Prog.tryCatch_apply, Prog.bind_apply, Prog.get_apply,
    Outcome.andThen_ret]
  cases hp : P.answer (asked m) with
  | ok q =>
      rw [Ports.try_, hp] at hserves ⊢
      obtain ⟨rfl, hview⟩ := Prod.mk.inj hserves
      rw [netCall_ok hbind]
      exact ⟨{ s.sys with kern := k }, hview, rfl⟩
  | error e =>
      rw [Ports.try_, hp] at hserves ⊢
      obtain ⟨rfl, hview⟩ := Prod.mk.inj hserves
      rw [netCall_error hbind]
      refine ⟨{ s.sys with kern := k, errno := e }, hview, ?_⟩
      simp only [Sockbuf.checked, bindCatch, Outcome.andThen_ret, Outcome.andThen_thrown, Prog.bind_apply,
        Prog.get_apply, Prog.throw_apply, Outcome.handle_thrown, Prog.ite_apply, Prog.pure_apply]

/-- As long as all ports are occupied, the loop goes on. -/
theorem bind_inUse (p : Nat) : ∀ (k : Nat) {s : Proc Sockbuf κ}, Serves N P s.obj.rep.sock view →
    (view s.sys.kern).bound = none → (∀ i < k, P.InUse (asked (p + i : Nat))) →
    ∃ s', s'.obj = s.obj ∧ (view s'.sys.kern).bound = none ∧
      (view s'.sys.kern).tried =
        (view s.sys.kern).tried ++ (List.range k).map (fun i => asked (p + i : Nat)) ∧
      ∀ n, bind_until_success N (n + k) p s = bind_until_success N n (p + k : Nat) s' := by
  intro k
  induction k with
  | zero => exact fun _ hb _ => ⟨_, rfl, hb, by simp, fun _ => rfl⟩
  | succ k ih =>
      intro s h hb hin
      obtain ⟨s₁, hobj, hb₁, htried, hloop⟩ := ih h hb fun i hi => hin i (Nat.lt_succ_of_lt hi)
      obtain ⟨y, hy, hround⟩ := bindRound_eq (hobj ▸ h) hb₁ (p + k : Nat)
      have hk : P.answer (asked (p + k : Nat)) = .error EADDRINUSE := hin k (Nat.lt_succ_self k)
      rw [Ports.try_, hk] at hy
      rw [hk] at hround
      refine ⟨{ s₁ with sys := y }, hobj, by rw [hy]; exact hb₁, ?_, fun n => ?_⟩
      · rw [hy, htried, List.range_succ, List.map_append, List.append_assoc]
        rfl
      · rw [show n + (k + 1) = n + 1 + k by omega, hloop]
        exact Prog.loop_inl n hround

/-- The ports asked for up to 65535. -/
theorem asked_of_lt {m : Nat} (h : m < 65536) : asked (m : Int) = m := by
  rw [asked]
  omega

theorem map_asked {p k : Nat} (h : p + k ≤ 65536) :
    (List.range k).map (fun i => asked (p + i : Nat)) = List.range' p k := by
  rw [List.range'_eq_map_range]
  refine List.map_congr_left fun i hi => asked_of_lt ?_
  have := List.mem_range.mp hi
  omega

/-- **The first port that is not occupied** ends the loop. -/
theorem bind_ends {p k : Nat} {s : Proc Sockbuf κ} (h : Serves N P s.obj.rep.sock view)
    (hb : (view s.sys.kern).bound = none) (hin : ∀ i < k, P.InUse (asked (p + i : Nat)))
    (hnot : ¬ P.InUse (asked (p + k : Nat))) :
    ∃ r s', (bind_until_success N (k + 1) p s).result = some (r, s') ∧
      (view s'.sys.kern).tried =
        (view s.sys.kern).tried ++ (List.range (k + 1)).map (fun i => asked (p + i : Nat)) ∧
      ((∃ q, P.answer (asked (p + k : Nat)) = .ok q ∧ r = .ok (p + k : Nat) ∧
          (view s'.sys.kern).bound = some q) ∨
        ∃ e, P.answer (asked (p + k : Nat)) = .error e ∧ e ≠ EADDRINUSE ∧
          r = .error (.err e "sockbuf::bind" s.obj.sockname) ∧ (view s'.sys.kern).bound = none) := by
  obtain ⟨s₁, hobj, hb₁, htried, hloop⟩ := bind_inUse p k h hb hin
  obtain ⟨y, hy, hround⟩ := bindRound_eq (hobj ▸ h) hb₁ (p + k : Nat)
  have htried' : ∀ t : List Nat, t = (view s₁.sys.kern).tried ++ [asked (p + k : Nat)] →
      t = (view s.sys.kern).tried ++ (List.range (k + 1)).map (fun i => asked (p + i : Nat)) := by
    rintro t rfl
    rw [htried, List.range_succ, List.map_append, List.append_assoc]
    rfl
  have hloop₁ : bind_until_success N (k + 1) p s = bind_until_success N 1 (p + k : Nat) s₁ := by
    rw [Nat.add_comm k 1]
    exact hloop 1
  rw [hloop₁]
  cases hans : P.answer (asked (p + k : Nat)) with
  | ok q =>
      rw [Ports.try_, hans] at hy
      rw [hans] at hround
      rw [show bind_until_success N 1 (p + k : Nat) s₁ = _ from Prog.loop_inr 0 hround]
      refine ⟨_, _, rfl, htried' _ ?_, .inl ⟨q, rfl, rfl, ?_⟩⟩
      · rw [hy]
      · rw [hy]
  | error e =>
      -- the port is not occupied, so the error is another, which `bind` throws
      have he : e ≠ EADDRINUSE := fun he => hnot (by rw [Ports.InUse, hans, he])
      rw [Ports.try_, hans] at hy
      rw [hans] at hround
      simp only [if_pos he] at hround
      rw [show bind_until_success N 1 (p + k : Nat) s₁ = _ from Prog.loop_thrown 0 hround]
      refine ⟨_, _, rfl, htried' _ ?_, .inr ⟨e, rfl, he, by rw [hobj], ?_⟩⟩
      · rw [hy]
      · rw [hy]
        exact hb₁

/-- Where every port is occupied, the loop never ends. -/
theorem bind_spins (h : Serves N P fd view) (hall : ∀ j < 65536, P.InUse j) (n : Nat) (m : Int)
    {s : Proc Sockbuf κ} (hfd : s.obj.rep.sock = fd) (hb : (view s.sys.kern).bound = none) :
    bind_until_success N n m s = .spin := by
  refine Prog.loop_spins
    (I := fun _ s => s.obj.rep.sock = fd ∧ (view s.sys.kern).bound = none) ?_ n m s ⟨hfd, hb⟩
  rintro m s ⟨hfd, hb⟩
  obtain ⟨y, hy, hround⟩ := bindRound_eq (hfd ▸ h) hb m
  have hm : P.answer (asked m) = .error EADDRINUSE := hall _ (by rw [asked]; omega)
  rw [Ports.try_, hm] at hy
  rw [hm] at hround
  exact ⟨_, _, hround, hfd, by rw [hy]; exact hb⟩

/-- Below 65536 counting up asks for the port it has come to. -/
theorem inUse_below {p k : Nat} (hk : p + k ≤ 65536) :
    (∀ i < k, P.InUse (asked (p + i : Nat))) ↔ ∀ j, p ≤ j → j < p + k → P.InUse j := by
  constructor
  · intro h j hpj hj
    obtain ⟨i, rfl⟩ := Nat.exists_eq_add_of_le hpj
    have := h i (by omega)
    rwa [asked_of_lt (by omega)] at this
  · intro h i hi
    rw [asked_of_lt (by omega)]
    exact h (p + i) (Nat.le_add_right p i) (by omega)

/-- **A port from `p` on that is not occupied** is found, and the result is the right one. -/
theorem bind_finds {p q : Nat} {s : Proc Sockbuf κ} (h : Serves N P s.obj.rep.sock view)
    (hb : (view s.sys.kern).bound = none) (h1 : 0 < p) (hpq : p ≤ q) (hq : q < 65536)
    (first : ∀ j, p ≤ j → j < q → P.InUse j) (hnot : ¬ P.InUse q) :
    ∃ n r s', (bind_until_success N n p s).result = some (r, s') ∧
      P.FindsFirst p (view s.sys.kern) r (view s'.sys.kern) := by
  obtain ⟨k, rfl⟩ := Nat.exists_eq_add_of_le hpq
  have hin : ∀ i < k, P.InUse (asked (p + i : Nat)) := (inUse_below (Nat.le_of_lt hq)).mpr first
  have hasked : asked (p + k : Nat) = p + k := asked_of_lt hq
  obtain ⟨r, s', hres, htried, hcame⟩ := bind_ends h hb hin (by rwa [hasked])
  rw [map_asked (by omega), show k + 1 = p + k - p + 1 by omega] at htried
  refine ⟨k + 1, r, s', hres, ?_⟩
  rw [hasked] at hcame
  rcases hview : view s'.sys.kern with ⟨bound, tried⟩
  rw [hview] at htried hcame
  obtain rfl : tried = _ := htried
  rcases hcame with ⟨q', hans, rfl, hbound⟩ | ⟨e, hans, he, rfl, hbound⟩
  · obtain rfl : bound = _ := hbound
    obtain rfl := P.named (p + k) q' (by omega) hans
    exact .free (p + k) (Nat.le_add_right p k) hq first hans
  · obtain rfl : bound = _ := hbound
    exact .refused (p + k) e _ _ (Nat.le_add_right p k) hq first hans he

/-- Behind 65535 counting up starts again at 0. -/
theorem inUse_around {p : Nat} (hp : p < 65536) {m : Nat} (hm : m ≤ p)
    (hall : ∀ j, p ≤ j → j < 65536 → P.InUse j) (hlow : ∀ j < m, P.InUse j) :
    (∀ i < 65536 - p + m, P.InUse (asked (p + i : Nat))) ∧ asked (p + (65536 - p + m) : Nat) = m % 65536 := by
  refine ⟨fun i hi => ?_, by rw [asked]; omega⟩
  by_cases hlt : p + i < 65536
  · rw [asked_of_lt hlt]
    exact hall (p + i) (Nat.le_add_right p i) hlt
  · have hasked : asked (p + i : Nat) = p + i - 65536 := by
      rw [asked]
      omega
    rw [hasked]
    exact hlow _ (by omega)

/-- **No port from `p` on.**  The first port `m` below `p` that is not occupied ends the loop, under a
number behind 65535, which is the wrong answer unless the bind of `m` raises. -/
theorem bind_around_iff {p m : Nat} {s : Proc Sockbuf κ} (h : Serves N P s.obj.rep.sock view)
    (hb : (view s.sys.kern).bound = none) (hp : p < 65536) (hall : ∀ j, p ≤ j → j < 65536 → P.InUse j)
    (hm : m < p) (hmin : ∀ j < m, P.InUse j) (hnot : ¬ P.InUse m) :
    (∃ n r s', (bind_until_success N n p s).result = some (r, s') ∧
        P.FindsFirst p (view s.sys.kern) r (view s'.sys.kern)) ↔
      ∃ e, P.answer m = .error e ∧ e ≠ EADDRINUSE := by
  obtain ⟨hin, hasked⟩ := inUse_around hp (Nat.le_of_lt hm) hall hmin
  rw [Nat.mod_eq_of_lt (Nat.lt_trans hm hp)] at hasked
  obtain ⟨r, s', hres, -, hcame⟩ := bind_ends h hb hin (by rwa [hasked])
  rw [hasked] at hcame
  have hunique : ∀ {n r₁ s₁}, (bind_until_success N n p s).result = some (r₁, s₁) →
      r₁ = r ∧ s₁ = s' := fun hr => Prod.mk.inj (Prog.loop_unique hr hres)
  rcases hcame with ⟨q, hans, rfl, hbound⟩ | ⟨e, hans, he, rfl, hbound⟩
  · refine iff_of_false ?_ ?_
    · rintro ⟨n, r₁, s₁, hr, hfinds⟩
      obtain ⟨rfl, rfl⟩ := hunique hr
      rcases hview : view s₁.sys.kern with ⟨bound, tried⟩
      rw [hview] at hfinds
      cases hfinds with
      | free q hpq hq _ hfree => omega
    · rintro ⟨e, herr, -⟩
      rw [hans] at herr
      cases herr
  · refine iff_of_true ⟨_, _, s', hres, ?_⟩ ⟨e, hans, he⟩
    rcases hview : view s'.sys.kern with ⟨bound, tried⟩
    rw [hview] at hbound
    obtain rfl : bound = _ := hbound
    exact .occupied e _ _ tried hall

/-- **Finding a port.**  For a kernel that answers as `P` says, a socket not bound yet and a port `p` from
1 to 65535: the call ends, and is bound and reports as it should, exactly when some port from `p` on is
not occupied, or, of the ports 0, 1 and so on below `p`, the first one that is not occupied raises
another errno. -/
theorem bind_until_success_iff {s : Proc Sockbuf κ} (h : Serves N P s.obj.rep.sock view)
    (hb : (view s.sys.kern).bound = none) {p : Nat} (h1 : 0 < p) (hp : p < 65536) :
    (∃ n r s', (bind_until_success N n p s).result = some (r, s') ∧
        P.FindsFirst p (view s.sys.kern) r (view s'.sys.kern)) ↔
      (∃ q, p ≤ q ∧ q < 65536 ∧ ¬ P.InUse q) ∨
        ∃ m e, m < p ∧ (∀ j < m, P.InUse j) ∧ P.answer m = .error e ∧ e ≠ EADDRINUSE := by
  classical
  by_cases hsome : ∃ q, p ≤ q ∧ q < 65536 ∧ ¬ P.InUse q
  · -- the least such port ends the loop
    refine iff_of_true ?_ (.inl hsome)
    obtain ⟨hpq, hq, hnot⟩ := Nat.find_spec hsome
    refine bind_finds h hb h1 hpq hq (fun j hpj hj => ?_) hnot
    by_contra hfree
    exact Nat.find_min hsome hj ⟨hpj, Nat.lt_trans hj hq, hfree⟩
  · have hall : ∀ j, p ≤ j → j < 65536 → P.InUse j := fun j hpj hj => by
      by_contra hfree
      exact hsome ⟨j, hpj, hj, hfree⟩
    rw [or_iff_right hsome]
    by_cases hlow : ∃ m, m < p ∧ ¬ P.InUse m
    · obtain ⟨hm, hnot⟩ := Nat.find_spec hlow
      have hmin : ∀ j < Nat.find hlow, P.InUse j := fun j hj => by
        by_contra hfree
        exact Nat.find_min hlow hj ⟨Nat.lt_trans hj hm, hfree⟩
      rw [bind_around_iff h hb hp hall hm hmin hnot]
      constructor
      · rintro ⟨e, hans, he⟩
        exact ⟨_, e, hm, hmin, hans, he⟩
      · -- no other port is the first one
        rintro ⟨m', e, hm', hlow', herr, he⟩
        rcases Nat.lt_trichotomy m' (Nat.find hlow) with hlt | rfl | hgt
        · exact absurd (Except.error.inj (herr.symm.trans (hmin m' hlt))) he
        · exact ⟨e, herr, he⟩
        · exact absurd (hlow' _ hgt) hnot
    · -- every port is occupied
      have hnone : ∀ j < 65536, P.InUse j := fun j hj => by
        by_contra hfree
        rcases Nat.lt_or_ge j p with hlt | hge
        · exact hlow ⟨j, hlt, hfree⟩
        · exact hfree (hall j hge hj)
      refine iff_of_false ?_ ?_
      · rintro ⟨n, r, s', hr, -⟩
        rw [bind_spins h hnone n p rfl hb] at hr
        cases hr
      · rintro ⟨m, e, hm, -, herr, he⟩
        exact he (Except.error.inj (herr.symm.trans (hnone m (Nat.lt_trans hm hp))))

/-! ### A host with one port left -/

/-- A host with one socket, whose ports answer as `P` says. -/
def host (P : Ports) : NetKernel Binding where
  write b _ bs      := (.all bs, b)
  read b _ _        := (.eof, b)
  selectRead b _ _  := (.ok 1, b)
  selectWrite b _ _ := (.ok 1, b)
  sockatmark b _    := (.ok false, b)
  shutdown b _ _    := (.ok (), b)
  open_ b _         := (.error 2, b)
  socket b _ _ _    := (.ok 3, b)
  bind b _ sa       := if b.bound = none then P.try_ (ntohs sa.sin_port) b else (.error EINVAL, b)
  listen b _ _      := (.ok (), b)
  accept b _        := (.error 11, b)
  getsockname b _   := (.ok (sockinetaddr INADDR_ANY (b.bound.getD 0)), b)
  close b _         := (.ok (), b)
  gethostname b     := (.ok [], b)
  gethostbyname b _ := (none, b)

theorem host_serves (P : Ports) (fd : Int) : Serves (host P) P fd id := fun k sa hb => by
  have hb' : k.bound = none := hb
  simp only [host, hb', if_true, id]

/-- Every port but 7 is occupied, and 7 is what the kernel chooses. -/
def onlySeven : Ports where
  answer p := if p = 0 ∨ p = 7 then .ok 7 else .error EADDRINUSE
  named p q hp h := by
    split at h
    · cases h
      omega
    · cases h
  chosen q h := by
    cases h
    exact ⟨by decide, by decide, rfl⟩

/-- Two occupied ports before the free one. -/
theorem bind_until_success_iff_seven :
    (∃ n r s', (bind_until_success (host onlySeven) n (5 : Nat)
        ⟨Sockbuf.ofDesc 1024 3 (fun _ => 0) (fun _ => 0), ⟨⟨none, []⟩, 0, []⟩⟩).result = some (r, s') ∧
      onlySeven.FindsFirst 5 ⟨none, []⟩ r s'.sys.kern) ↔
    (∃ q, 5 ≤ q ∧ q < 65536 ∧ ¬ onlySeven.InUse q) ∨
      ∃ m e, m < 5 ∧ (∀ j < m, onlySeven.InUse j) ∧ onlySeven.answer m = .error e ∧ e ≠ EADDRINUSE :=
  bind_until_success_iff (s := ⟨Sockbuf.ofDesc 1024 3 (fun _ => 0) (fun _ => 0), ⟨⟨none, []⟩, 0, []⟩⟩)
    (host_serves onlySeven 3) rfl (by decide) (by decide)

/-- From port 65535, which is occupied, the call returns 65536, and the socket is bound to 7. -/
theorem bind_until_success_wraps :
    ∃ s', bind_until_success (host onlySeven) 2 65535
        ⟨Sockbuf.ofDesc 1024 3 (fun _ => 0) (fun _ => 0), ⟨⟨none, []⟩, 0, []⟩⟩ = .ret 65536 s' ∧
      s'.sys.kern.bound = some 7 ∧ s'.sys.kern.tried = [65535, 0] :=
  ⟨_, rfl, rfl, rfl⟩

end Sockinetbuf

end Socketpp
