import Socketpp.Sockbuf.Direct

/-!
# Sockbuf — every call in its turn

`Obeys rep made r`: the calls `made` of one method with the settings `rep`, which came to `r`, are in order.
Data is asked for only directly behind a wait of `rtmo` that has succeeded and a check that there is no mark,
where those are asked for; it is handed over only behind a wait of `stmo` that has succeeded, with nothing
since but parts of the same; all on the descriptor of the object.  A call that is refused is the last one, and
a method throws exactly if one was.

`calls_in_turn`: so it is in every run of stream functions and direct calls, against every kernel, for the
settings as they were last set.
-/

namespace Socketpp
open Lib

@[simp] def SendCall.demand (c : SendCall) : Demand := .hand c.fd c.offered.length c.accepted

@[simp] def WireCall.demand {α μ : Type} : WireCall α μ → Demand
  | .sys c              => c.demand
  | .recv fd _ _ r      => .receive fd (r.map List.length)
  | .recvfrom fd _ _ _ r => .receive fd (r.map fun b => b.1.length)
  | .recvmsg fd _ _ r   => .receive fd (r.map Prod.fst)
  | .send c             => c.demand
  | .sendto _ c         => c.demand
  | .sendmsg fd _ _ r   => .post fd r

/-- The settings behind an operation. -/
def SockOp.sets : SockOp → Sockcnt → Sockcnt
  | .put (.sendtimeout wp), rep => { rep with stmo := if wp < 0 then -1 else wp }
  | .get (.recvtimeout wp), rep => { rep with rtmo := if wp < 0 then -1 else wp }
  | .get (.oob b), rep          => { rep with oob := b }
  | _, rep                      => rep

namespace Sockbuf

variable {α μ κ β : Type}

def WireOp.sets : WireOp α μ → Sockcnt → Sockcnt
  | .stream op, rep => op.sets rep
  | _, rep          => rep

namespace Wire

/-- The calls made, as the machine reads them. -/
def demands (w : Wire α μ κ) : List Demand := w.calls.map WireCall.demand

/-- `P` holds of the object, its settings are `rep`, and the calls made since `base` lead from `q₀` to `q`. -/
structure At (P : Sockbuf → Prop) (rep : Sockcnt) (base : List Demand) (q₀ q : Stage) (w : Wire α μ κ) :
    Prop where
  holds    : P w.obj
  settings : w.obj.rep = rep
  left     : Left (Leads rep) demands base q₀ q w

variable {N : SocketKernel α μ κ} {P : Sockbuf → Prop} {rep : Sockcnt} {base : List Demand}
  {q₀ q q₁ q₂ q' : Stage} {w : Wire α μ κ}

theorem demands_behind (s : Proc Sockbuf κ) (w : Wire α μ κ) :
    demands (w.behind s) = demands w ++ Sockbuf.demands s := by
  rw [demands, behind, List.map_append, List.map_map]
  rfl

theorem At.behind (hw : At P rep base q₀ q w) {s : Proc Sockbuf κ} (hs : Sockbuf.At P rep [] q q' s) :
    At P rep base q₀ q' (w.behind s) :=
  ⟨hs.holds, hs.settings, hw.left.inside hs.left (demands_behind s w)⟩

theorem At.proc (hw : At P rep base q₀ q w) : Sockbuf.At P rep [] q q w.proc :=
  ⟨hw.holds, hw.settings, .start w.proc q⟩

/-- A method run inside. -/
theorem inside_at {p : SockM κ β} (hw : At P rep base q₀ q w)
    (h : (p w.proc).Sat (fun _ => Sockbuf.At P rep [] q q₁) fun _ => Sockbuf.At P rep [] q q₂) :
    (inside p w).Sat (fun _ => At P rep base q₀ q₁) fun _ => At P rep base q₀ q₂ := by
  rw [inside, Prog.zoom_apply, Outcome.sat_mapState]
  exact h.mono (fun _ _ hs => hw.behind hs) fun _ _ hs => hw.behind hs

theorem At.enter (h : At P rep base q₀ q w) {c : WireCall α μ} {k : κ} {e : Int} (hc : Leads rep q c.demand q') :
    At P rep base q₀ q' { w with kern := k, errno := e, calls := w.calls ++ [c] } :=
  ⟨h.holds, h.settings, h.left.enter (c := c.demand) (by rw [demands, demands, List.map_append]; rfl) hc⟩

/-! ### Input -/

/-- **A call that asks for data.** -/
theorem receive_at (operation : String) {c : κ → Int → Except Int β × κ} {entry : Int → Option β → WireCall α μ}
    (size : β → Nat) (hentry : ∀ fd r, (entry fd r).demand = .receive fd (r.map size))
    (h : At P rep base q₀ .idle w) :
    (receive N operation c entry w).Sat (fun _ => At P rep base q₀ .idle) fun _ => At P rep base q₀ .over := by
  refine (inside_at h (guardRead_at operation h.proc)).andThen (fun _ w₁ h₁ => ?_) fun _ _ h => h
  rw [Prog.bind_apply, ask, h₁.settings]
  have leads : ∀ r, Allows rep rep.cleared (entry rep.sock r).demand .idle := fun r => by
    rw [hentry]
    exact .receive rfl _
  rcases c w₁.kern rep.sock with ⟨a, k⟩
  cases a with
  | ok b =>
      have h₂ := h₁.enter (k := k) (e := w₁.errno) (.granted (leads (some b)) (by rw [hentry]; simp))
      exact h₂.behind h₂.proc
  | error e =>
      have h₂ := h₁.enter (k := k) (e := e) (.refused (leads none) (by rw [hentry]; rfl))
      exact h₂.behind h₂.proc

theorem At.store (h : At P rep base q₀ q w) (bs : List Byte) : At P rep base q₀ q (w.store bs) :=
  ⟨h.holds, h.settings, h.left.congr rfl⟩

theorem read_at (len : Nat) (h : At P rep base q₀ .idle w) :
    (read N len w).Sat (fun _ => At P rep base q₀ .idle) fun _ => At P rep base q₀ .over :=
  (inside_at h (Sockbuf.read_at len h.proc)).andThen (fun bs _ h₁ => h₁.store bs) fun _ _ h => h

theorem recv_at (len : Nat) (msgf : Int) (h : At P rep base q₀ .idle w) :
    (recv N len msgf w).Sat (fun _ => At P rep base q₀ .idle) fun _ => At P rep base q₀ .over :=
  (receive_at "sockbuf::recv" List.length (fun _ _ => rfl) h).andThen (fun bs _ h₁ => h₁.store bs) fun _ _ h => h

theorem recvfrom_at (sa : α) (len : Nat) (msgf : Int) (h : At P rep base q₀ .idle w) :
    (recvfrom N sa len msgf w).Sat (fun _ => At P rep base q₀ .idle) fun _ => At P rep base q₀ .over :=
  (receive_at "sockbuf::recvfrom" (fun b : List Byte × α => b.1.length) (fun _ _ => rfl) h).andThen
    (fun b _ h₁ => h₁.store b.1) fun _ _ h => h

theorem recvmsg_at (msg : μ) (msgf : Int) (h : At P rep base q₀ .idle w) :
    (recvmsg N msg msgf w).Sat (fun _ => At P rep base q₀ .idle) fun _ => At P rep base q₀ .over :=
  receive_at "sockbuf::recvmsg" Prod.fst (fun _ _ => rfl) h

/-! ### Output -/

theorem write_at (buf : Mem Byte) (len : Int) (h : At P rep base q₀ .idle w) :
    (write N buf len w).Sat (fun _ => At P rep base q₀ (written rep len.toNat)) fun _ => At P rep base q₀ .over :=
  inside_at h (writeCounted_at buf len h.proc)

theorem callSendto_at {sa : α} {msgf : Int} (w₁ : Wire α μ κ) : Answers (callSendto N sa msgf) fun os w' =>
    (P w'.obj ∧ w'.obj.rep = rep) ∧ demands w' = demands w₁ ++ os.map (handed rep.sock) := by
  rintro os w' l hl ⟨hobj, hlog⟩
  have entered : ∀ r, (w'.calls ++ [WireCall.sendto sa ⟨w'.obj.rep.sock, l, msgf, r⟩]).map WireCall.demand =
      demands w₁ ++ (os ++ [Offer.mk l r]).map (handed rep.sock) := by
    intro r
    rw [List.map_append, List.map_append, ← List.append_assoc, ← hlog, hobj.2]
    rfl
  rw [callSendto]
  rcases N.sendto w'.kern w'.obj.rep.sock l msgf sa with ⟨a, k⟩
  cases a with
  | accepted n pos le =>
      refine ⟨fun m hm => ?_, hobj, entered (some n)⟩
      cases hm
      exact ⟨pos, le⟩
  | failed e => exact ⟨by simp, hobj, entered none⟩

theorem sendto_at (sa : α) (buf : Mem Byte) (len msgf : Int) (h : At P rep base q₀ .idle w) :
    (sendto N sa buf len msgf w).Sat (fun _ => At P rep base q₀ (written rep len.toNat))
      fun _ => At P rep base q₀ .over := by
  refine (inside_at h (awaitFor_at "sockbuf::sendto" h.proc)).andThen (fun _ w₁ h₁ => ?_) fun _ _ h => h
  have hloop : (offerLoop (callSendto N sa msgf) .int buf len w₁).Sat _ _ :=
    offerLoop_left (callSendto_at w₁) buf len ⟨h₁.holds, h₁.settings⟩ h₁.left
  exact hloop.mono (fun _ _ h => ⟨h.1.1, h.1.2, h.2⟩) fun _ _ h => ⟨h.1.1, h.1.2, h.2⟩

theorem sendmsg_at (msg : μ) (msgf : Int) (h : At P rep base q₀ .idle w) :
    (sendmsg N msg msgf w).Sat (fun _ => At P rep base q₀ .idle) fun _ => At P rep base q₀ .over := by
  refine (inside_at h (awaitFor_at "sockbuf::sendmsg" h.proc)).andThen (fun _ w₁ h₁ => ?_) fun _ _ h => h
  rw [Prog.bind_apply, ask, h₁.settings]
  rcases N.sendmsg w₁.kern rep.sock msg msgf with ⟨a, k⟩
  cases a with
  | ok n => exact h₁.enter (.granted (.post rfl _) (by simp))
  | error e => exact h₁.enter (.refused (.post rfl _) rfl)

/-- The calls of a sender, as the machine reads them. -/
def sent (t : Sender κ) : List Demand := Sockbuf.demands t.proc ++ t.sends.map SendCall.demand

theorem callSend_at {M : SendKernel κ} {msgf : Int} (t₁ : Sender κ) : Answers (callSend M msgf) fun os t =>
    (P t.proc.obj ∧ t.proc.obj.rep = rep) ∧ sent t = sent t₁ ++ os.map (handed rep.sock) := by
  rintro os t l hl ⟨hobj, hlog⟩
  refine (callSend_answers msgf t [] t l hl (.refl msgf t)).mono ?_ fun _ _ h => h
  rintro r t' ⟨hr, hobj', htrace, hsends⟩
  have hsent : sent t' = sent t ++ [handed rep.sock ⟨l, r⟩] := by
    rw [sent, sent, Sockbuf.demands, htrace, hsends, List.map_append, ← List.append_assoc, ← hobj.2]
    rfl
  refine ⟨hr, by rw [hobj']; exact hobj, ?_⟩
  rw [hsent, hlog, List.append_assoc, List.map_append]
  rfl

/-- The same for a sender that has started with no calls. -/
def SentAt (P : Sockbuf → Prop) (rep : Sockcnt) (q : Stage) (t : Sender κ) : Prop :=
  (P t.proc.obj ∧ t.proc.obj.rep = rep) ∧ Left (Leads rep) sent [] .idle q t

theorem SentAt.of_proc {s : Proc Sockbuf κ} (h : Sockbuf.At P rep [] .idle q s) : SentAt P rep q ⟨s, []⟩ :=
  ⟨⟨h.holds, h.settings⟩, h.left.congr (List.append_nil _)⟩

theorem send_alone {M : SendKernel κ} {s : Proc Sockbuf κ} (buf : Mem Byte) (len msgf : Int)
    (h : Sockbuf.At P rep [] .idle .idle s) :
    (Sockbuf.send M buf len msgf ⟨s, []⟩).Sat (fun _ => SentAt P rep (written rep len.toNat))
      fun _ => SentAt P rep .over := by
  have hwait : (Prog.zoom Sender.proc (fun s t => { t with proc := s }) (awaitFor "sockbuf::send" M.toKernel)
      ⟨s, []⟩).Sat (fun _ => SentAt P rep rep.awaitedWrite) fun _ => SentAt P rep .over := by
    rw [Prog.zoom_apply, Outcome.sat_mapState]
    exact (awaitFor_at "sockbuf::send" h).mono (fun _ _ h₁ => .of_proc h₁) fun _ _ h₁ => .of_proc h₁
  exact hwait.andThen (fun _ t₁ h₁ => offerLoop_left (callSend_at t₁) buf len h₁.1 h₁.2) fun _ _ h => h

theorem send_at (buf : Mem Byte) (len msgf : Int) (h : At P rep base q₀ .idle w) :
    (send N buf len msgf w).Sat (fun _ => At P rep base q₀ (written rep len.toNat))
      fun _ => At P rep base q₀ .over := by
  have after : ∀ (t : Sender κ) q, SentAt P rep q t →
      At P rep base q₀ q { w.behind t.proc with calls := (w.behind t.proc).calls ++ t.sends.map .send } := by
    rintro t q ⟨hobj, ht⟩
    refine ⟨hobj.1, hobj.2, h.left.inside ht ?_⟩
    rw [demands, List.map_append, List.map_map, ← demands, demands_behind, List.append_assoc]
    rfl
  rw [send, sending, Prog.zoom_apply, Outcome.sat_mapState]
  exact (send_alone buf len msgf h.proc).mono (fun _ t ht => after t _ ht) fun _ t ht => after t _ ht

end Wire

/-! ### The stream functions -/

section Stream

variable {K : Kernel κ} {rep : Sockcnt} {base : List Demand} {q₀ : Stage}

theorem sungetc_streaming : Prog.Triple (Streaming rep base q₀ .idle) (sungetc : SockM κ Int)
    (Streaming rep base q₀ .idle) (Streaming rep base q₀ .over) := by
  refine .bind .get fun s => ?_
  cases s.obj.getArea with
  | none => exact .pure _
  | some a => exact .ite (.bind (.modify fun s hs => hs.onObj _ rfl) fun _ => .pure _) (.pure _)

theorem sputbackc_streaming (c : Byte) : Prog.Triple (Streaming rep base q₀ .idle) (sputbackc c : SockM κ Int)
    (Streaming rep base q₀ .idle) (Streaming rep base q₀ .over) := by
  refine .bind .get fun s => ?_
  cases s.obj.getArea with
  | none => exact .pure _
  | some a => exact .ite (.bind (.modify fun s hs => hs.onObj _ rfl) fun _ => .pure _) (.pure _)

/-- **A stream function** leaves the calls where the machine allows it. -/
theorem stream_exec (op : SockOp) (t : Getting κ) :
    (op.exec K t).Within
      (fun t' => t'.proc.obj.rep = op.sets t.proc.obj.rep ∧
        Left (Leads t.proc.obj.rep) demands (demands t.proc) .idle .idle t'.proc)
      (fun t' => t'.proc.obj.rep = op.sets t.proc.obj.rep ∧
        Left (Leads t.proc.obj.rep) demands (demands t.proc) .idle .over t'.proc) := by
  have of_triple : ∀ {p : Prog Thrown (Getting κ) Int}, op.sets t.proc.obj.rep = t.proc.obj.rep →
      Prog.Triple (fun t₁ : Getting κ => Streaming t.proc.obj.rep (demands t.proc) .idle .idle t₁.proc) p
        (fun t' => Streaming t.proc.obj.rep (demands t.proc) .idle .idle t'.proc)
        (fun t' => Streaming t.proc.obj.rep (demands t.proc) .idle .over t'.proc) →
      (p t).Within
        (fun t' => t'.proc.obj.rep = op.sets t.proc.obj.rep ∧
          Left (Leads t.proc.obj.rep) demands (demands t.proc) .idle .idle t'.proc)
        (fun t' => t'.proc.obj.rep = op.sets t.proc.obj.rep ∧
          Left (Leads t.proc.obj.rep) demands (demands t.proc) .idle .over t'.proc) := by
    intro p hsets h
    rw [hsets]
    exact (h t ⟨trivial, rfl, .start _ _⟩).mono (fun _ h => ⟨h.settings, h.left⟩) fun _ h => ⟨h.settings, h.left⟩
  have hput := putGate_streaming K t.proc.obj.rep (demands t.proc) .idle
  have hget := getGate_streaming K t.proc.obj.rep (demands t.proc) .idle
  cases op with
  | put op =>
      cases op with
      | sputc c => exact of_triple rfl (triple_within (hput.sputc c))
      | overflow c => exact of_triple rfl (triple_within (hput.overflow c))
      | sputn bs => exact of_triple rfl (triple_within (.bind (hput.xsputn bs) fun _ => .pure _))
      | sync => exact of_triple rfl (triple_within hput.sync)
      | sendtimeout wp => exact ⟨rfl, .start _ _⟩
  | get op =>
      cases op with
      | sgetc => exact of_triple rfl (triple_within hget.sgetc)
      | underflow => exact of_triple rfl (triple_within hget.underflow)
      | sbumpc => exact of_triple rfl (triple_within hget.sbumpc)
      | uflow => exact of_triple rfl (triple_within hget.uflow)
      | sgetn n => exact of_triple rfl (.bind (hget.xsgetn n) fun _ => .pure _)
      | recvtimeout wp => exact ⟨rfl, .start _ _⟩
      | oob b => exact ⟨rfl, .start _ _⟩
  | sungetc => exact of_triple rfl (triple_within sungetc_streaming)
  | sputbackc c => exact of_triple rfl (triple_within (sputbackc_streaming c))
  | shutdown sh =>
      exact of_triple rfl (.bind (triple_within fun s hs => (shutdown_streaming sh hs).within) fun _ => .pure _)

end Stream

/-! ### What the machine has seen -/

section Seen

variable {rep : Sockcnt} {q q' : Stage} {c d : Demand} {pre made : List Demand}

theorem leads_allows (h : Leads rep q c q') :
    ∃ q₁, Allows rep q c q₁ ∧ ((¬ c.Refused ∧ q' = q₁) ∨ (c.Refused ∧ q' = .over)) := by
  rcases h with ⟨h, hc⟩ | ⟨h, hc⟩
  · exact ⟨_, h, .inl ⟨hc, rfl⟩⟩
  · exact ⟨_, h, .inr ⟨hc, rfl⟩⟩

theorem leads_granted (h : Leads rep q c q') (hq : q' ≠ .over) : Allows rep q c q' ∧ ¬ c.Refused := by
  obtain ⟨q₁, h, ⟨hc, rfl⟩ | ⟨-, rfl⟩⟩ := leads_allows h
  · exact ⟨h, hc⟩
  · exact absurd rfl hq

theorem leads_refused (h : Leads rep q c q') (hc : c.Refused) : q' = .over := by
  obtain ⟨q₁, -, ⟨hn, -⟩ | ⟨-, hq⟩⟩ := leads_allows h
  · exact absurd hc hn
  · exact hq

theorem leads_unrefused (h : Leads rep q c .over) : c.Refused := by
  obtain ⟨q₁, h, ⟨-, rfl⟩ | ⟨hc, -⟩⟩ := leads_allows h
  · cases h
  · exact hc

theorem granted_ready {r : Option Nat} (h : ¬ (r = none ∨ r = some 0)) : ∃ n, r = some (n + 1) := by
  rcases r with _ | _ | n
  · exact absurd (.inl rfl) h
  · exact absurd (.inr rfl) h
  · exact ⟨n, rfl⟩

theorem leads_readable (h : Leads rep q c .readable) : ∃ n, c = .awaitRead rep.sock rep.rtmo (some (n + 1)) := by
  obtain ⟨h, hc⟩ := leads_granted h (by decide)
  cases h with
  | awaitRead _ r =>
      obtain ⟨n, rfl⟩ := granted_ready hc
      exact ⟨n, rfl⟩

theorem leads_unmarked (h : Leads rep q c .unmarked) : q = rep.awaitedRead ∧ c = .mark rep.sock (some false) := by
  obtain ⟨h, hc⟩ := leads_granted h (by decide)
  cases h with
  | mark hq _ r => exact ⟨hq, by rw [show r = some false from not_not.mp hc]⟩

theorem leads_writable (h : Leads rep q c .writable) :
    q = .idle ∧ ∃ n, c = .awaitWrite rep.sock rep.stmo (some (n + 1)) := by
  obtain ⟨h, hc⟩ := leads_granted h (by decide)
  cases h with
  | awaitWrite _ r =>
      obtain ⟨n, rfl⟩ := granted_ready hc
      exact ⟨rfl, n, rfl⟩

theorem leads_handing (h : Leads rep q c .handing) : (q = rep.awaitedWrite ∨ q = .handing) ∧ c.Short := by
  obtain ⟨h, -⟩ := leads_granted h (by decide)
  cases h with
  | part hq hlt => exact ⟨hq, _, rfl, hlt⟩

/-- Behind a part there is the next offer. -/
theorem leads_short (h : Leads rep q c q') (hc : c.Short) : q' = .handing := by
  obtain ⟨q₁, h, hq⟩ := leads_allows h
  cases h with
  | hand _ hwhole =>
      obtain ⟨n, rfl, hlt⟩ := hc
      exact absurd (hwhole n rfl) (Nat.not_le.mpr hlt)
  | part _ _ =>
      obtain ⟨-, hq⟩ | ⟨hr, -⟩ := hq
      · exact hq
      · simp at hr
  | awaitRead | mark | receive | awaitWrite | post | shut => exact hc.elim

theorem leads_settings (h : Leads rep q c q') : c.On rep.sock ∧ c.Wanted rep := by
  obtain ⟨q₁, h, -⟩ := leads_allows h
  cases h with
  | awaitRead hr _ => exact ⟨rfl, hr, rfl⟩
  | awaitWrite hw _ => exact ⟨rfl, hw, rfl⟩
  | mark _ ho _ => exact ⟨rfl, ho⟩
  | receive | hand | part | post | shut => exact ⟨rfl, trivial⟩

/-- The calls end with the wait and the check that the settings ask for. -/
def Cleared (rep : Sockcnt) (pre : List Demand) : Prop :=
  ∃ n before, pre = before ++ (if rep.rtmo = -1 then [] else [.awaitRead rep.sock rep.rtmo (some (n + 1))]) ++
    if rep.oob then [.mark rep.sock (some false)] else []

theorem trail_awaitedRead (h : Trail (Leads rep) .idle pre rep.awaitedRead) : ∃ n before,
    pre = before ++ if rep.rtmo = -1 then [] else [.awaitRead rep.sock rep.rtmo (some (n + 1))] := by
  by_cases hr : rep.rtmo = -1
  · exact ⟨0, pre, by rw [if_pos hr, List.append_nil]⟩
  · rw [Sockcnt.awaitedRead, if_neg hr] at h
    obtain ⟨-, hq⟩ | ⟨before, c, q, rfl, -, hc⟩ := h.last
    · cases hq
    · obtain ⟨n, rfl⟩ := leads_readable hc
      exact ⟨n, before, by rw [if_neg hr]⟩

theorem trail_cleared (h : Trail (Leads rep) .idle pre rep.cleared) : Cleared rep pre := by
  by_cases ho : rep.oob = true
  · rw [Sockcnt.cleared, if_pos ho] at h
    obtain ⟨-, hq⟩ | ⟨before, c, q, rfl, hbefore, hc⟩ := h.last
    · cases hq
    · obtain ⟨rfl, rfl⟩ := leads_unmarked hc
      obtain ⟨n, before, rfl⟩ := trail_awaitedRead hbefore
      exact ⟨n, before, by rw [if_pos ho]⟩
  · rw [Sockcnt.cleared, if_neg ho] at h
    obtain ⟨n, before, hpre⟩ := trail_awaitedRead h
    exact ⟨n, before, by rw [if_neg ho, List.append_nil, ← hpre]⟩

/-- The calls end with the wait that the settings ask for, and parts of one buffer. -/
def Awaited (rep : Sockcnt) (pre : List Demand) : Prop :=
  ∃ n before parts, pre = before ++ .awaitWrite rep.sock rep.stmo (some (n + 1)) :: parts ∧ ∀ d ∈ parts, d.Short

theorem trail_awaited (hw : rep.stmo ≠ -1) (h : Trail (Leads rep) .idle pre q)
    (hq : q = rep.awaitedWrite ∨ q = .handing) : Awaited rep pre := by
  rw [Sockcnt.awaitedWrite, if_neg hw] at hq
  have hstep : ∀ q₁ c q₂, Leads rep q₁ c q₂ → (q₂ = .writable ∨ q₂ = .handing) →
      (¬ (q₁ = .writable ∨ q₁ = .handing) ∧ ∃ n, c = .awaitWrite rep.sock rep.stmo (some (n + 1))) ∨
        ((q₁ = .writable ∨ q₁ = .handing) ∧ c.Short) := by
    rintro q₁ c q₂ hc (rfl | rfl)
    · obtain ⟨rfl, hawait⟩ := leads_writable hc
      exact .inl ⟨by simp, hawait⟩
    · obtain ⟨hq₁, hshort⟩ := leads_handing hc
      rw [Sockcnt.awaitedWrite, if_neg hw] at hq₁
      exact .inr ⟨hq₁, hshort⟩
  obtain ⟨before, c, parts, rfl, ⟨n, rfl⟩, hparts⟩ :=
    h.since (S := fun q => q = .writable ∨ q = .handing) hstep (by simp) hq
  exact ⟨n, before, parts, rfl, hparts⟩

theorem allows_handing (h : Allows rep .handing d q') : d.Hands := by
  cases h with
  | hand | part => trivial
  | mark hq _ _ => rcases rep.awaitedRead_eq with h | h <;> rw [h] at hq <;> cases hq
  | receive hq _ => rcases rep.cleared_eq with h | h | h <;> rw [h] at hq <;> cases hq
  | post => trivial

theorem allows_hands (h : Allows rep q c q') (hc : c.Hands) : q = rep.awaitedWrite ∨ q = .handing := by
  cases h with
  | hand hq _ | part hq _ => exact hq
  | post hq _ => exact .inl hq
  | awaitRead | mark | receive | awaitWrite | shut => exact hc.elim

theorem allows_receive {fd : Int} {got : Option Nat} (h : Allows rep q (.receive fd got) q') : q = rep.cleared := by
  cases h with
  | receive hq _ => exact hq

end Seen

/-! ### In order -/

/-- The calls `made` of a method that came to `r` are in order. -/
structure Obeys (rep : Sockcnt) (made : List Demand) (r : Except Thrown Int) : Prop where
  settings : ∀ c ∈ made, c.On rep.sock ∧ c.Wanted rep
  reads    : ∀ pre fd got post, made = pre ++ .receive fd got :: post → Cleared rep pre
  writes   : rep.stmo ≠ -1 → ∀ pre c post, made = pre ++ c :: post → c.Hands → Awaited rep pre
  next     : ∀ pre c d post, made = pre ++ c :: d :: post → c.Short → d.Hands
  whole    : ∀ a, r = .ok a → ∀ pre c, made = pre ++ [c] → ¬ c.Short
  last     : ∀ pre c post, made = pre ++ c :: post → c.Refused → post = []
  throws   : (∃ e, r = .error e) ↔ ∃ c ∈ made, c.Refused

/-- **What the machine allows is in order.** -/
theorem obeys_of_trail {rep : Sockcnt} {made : List Demand} {q : Stage} {r : Except Thrown Int}
    (h : Trail (Leads rep) .idle made q) (hok : ∀ a, r = .ok a → q = .idle ∨ q = .writable)
    (herror : ∀ e, r = .error e → q = .over) : Obeys rep made r where
  settings := by
    intro c hc
    obtain ⟨pre, post, rfl⟩ := List.append_of_mem hc
    obtain ⟨q₁, q₂, -, hleads, -⟩ := h.at_letter rfl
    exact leads_settings hleads
  reads := by
    rintro pre fd got post rfl
    obtain ⟨q₁, q₂, hpre, hleads, -⟩ := h.at_letter rfl
    obtain ⟨q₃, hallows, -⟩ := leads_allows hleads
    rw [allows_receive hallows] at hpre
    exact trail_cleared hpre
  writes := by
    rintro hw pre c post rfl hc
    obtain ⟨q₁, q₂, hpre, hleads, -⟩ := h.at_letter rfl
    obtain ⟨q₃, hallows, -⟩ := leads_allows hleads
    exact trail_awaited hw hpre (allows_hands hallows hc)
  next := by
    rintro pre c d post rfl hc
    obtain ⟨q₁, q₂, -, hleads, hpost⟩ := h.at_letter rfl
    rw [leads_short hleads hc] at hpost
    obtain ⟨q₃, q₄, hnil, hleads', -⟩ := hpost.at_letter (show d :: post = [] ++ d :: post from rfl)
    rw [hnil.of_nil] at hleads'
    obtain ⟨q₅, hallows, -⟩ := leads_allows hleads'
    exact allows_handing hallows
  whole := by
    rintro a hr pre c rfl hc
    obtain ⟨q₁, q₂, -, hleads, hnil⟩ := h.at_letter rfl
    rw [leads_short hleads hc] at hnil
    have hq := hok a hr
    rw [hnil.of_nil] at hq
    obtain hq | hq := hq <;> cases hq
  last := by
    rintro pre c post rfl hc
    obtain ⟨q₁, q₂, -, hleads, hpost⟩ := h.at_letter rfl
    rw [leads_refused hleads hc] at hpost
    exact hpost.stuck (leads_over rep)
  throws := by
    constructor
    · rintro ⟨e, hr⟩
      rw [herror e hr] at h
      obtain ⟨-, hq⟩ | ⟨pre, c, q₁, rfl, -, hleads⟩ := h.last
      · cases hq
      · exact ⟨c, List.mem_append_right _ (List.mem_singleton_self c), leads_unrefused hleads⟩
    · rintro ⟨c, hmem, hc⟩
      obtain ⟨pre, post, rfl⟩ := List.append_of_mem hmem
      obtain ⟨q₁, q₂, -, hleads, hpost⟩ := h.at_letter rfl
      rw [leads_refused hleads hc] at hpost
      obtain rfl := hpost.stuck (leads_over rep)
      cases r with
      | error e => exact ⟨e, rfl⟩
      | ok a =>
          have hq := hok a rfl
          rw [hpost.of_nil] at hq
          obtain hq | hq := hq <;> cases hq

/-! ### Every run -/

theorem reached_leaves {K : Kernel κ} {b : Sockbuf} (hb : Reached K b) (op : SockOp) (y : Sys κ)
    (dst : List Byte) : (op.exec K ⟨⟨b, y⟩, dst⟩).Leaves fun t => Reached K t.proc.obj := by
  have hstep : ∀ r t, (op.exec K ⟨⟨b, y⟩, dst⟩).result = some (r, t) → Reached K t.proc.obj :=
    fun _ _ h => Reached.step hb h
  cases hx : op.exec K ⟨⟨b, y⟩, dst⟩ with
  | ret a t => exact hstep (.ok a) t (by rw [hx]; rfl)
  | thrown e t => exact hstep (.error e) t (by rw [hx]; rfl)
  | spin => trivial

namespace WireOp

variable {N : SocketKernel α μ κ}

/-- An operation has kept the object among those reached, set what it sets, and left its calls in `q`. -/
structure Follows (N : SocketKernel α μ κ) (op : WireOp α μ) (w : Wire α μ κ) (q : Stage) (w' : Wire α μ κ) :
    Prop where
  reached : Reached N.toKernel w'.obj
  sets    : w'.obj.rep = op.sets w.obj.rep
  left    : Left (Leads w.obj.rep) Wire.demands w.demands .idle q w'

/-- A direct call sets nothing. -/
theorem Follows.of_at {op : WireOp α μ} {w w' : Wire α μ κ} {q : Stage} (hsets : op.sets w.obj.rep = w.obj.rep)
    (h : Wire.At (Reached N.toKernel) w.obj.rep w.demands .idle q w') : Follows N op w q w' :=
  ⟨h.holds, by rw [hsets]; exact h.settings, h.left⟩

theorem written_rests (rep : Sockcnt) (len : Nat) :
    written rep len = Stage.idle ∨ written rep len = Stage.writable := by
  rw [written]
  split
  · exact rep.awaitedWrite_eq
  · exact .inl rfl

/-- **One operation**: it comes to an end, with its calls in an order the machine allows. -/
theorem exec_follows (op : WireOp α μ) {w : Wire α μ κ} (hw : Reached N.toKernel w.obj) :
    (op.exec N w).Sat (fun _ w' => ∃ q, (q = .idle ∨ q = .writable) ∧ Follows N op w q w')
      fun _ w' => Follows N op w .over w' := by
  have hstart : Wire.At (Reached N.toKernel) w.obj.rep w.demands .idle .idle w := ⟨hw, rfl, .start _ _⟩
  have direct : ∀ {β : Type} {p : WireM α μ κ β} {q : Stage} (f : β → Int),
      op.sets w.obj.rep = w.obj.rep → (q = .idle ∨ q = .writable) →
      (p w).Sat (fun _ => Wire.At (Reached N.toKernel) w.obj.rep w.demands .idle q)
        (fun _ => Wire.At (Reached N.toKernel) w.obj.rep w.demands .idle .over) →
      ((f <$> p) w).Sat (fun _ w' => ∃ q, (q = .idle ∨ q = .writable) ∧ Follows N op w q w')
        fun _ w' => Follows N op w .over w' := by
    intro β p q f hsets hq h
    exact h.andThen (fun _ w' h' => ⟨q, hq, .of_at hsets h'⟩) fun _ w' h' => .of_at hsets h'
  cases op with
  | stream op =>
      obtain ⟨r, t, hres⟩ := hw.exec_ends w.proc.sys w.dst op
      have hsat := ((stream_exec (K := N.toKernel) op ⟨w.proc, w.dst⟩).sat ⟨_, hres⟩).and_leaves
        (reached_leaves hw op w.proc.sys w.dst)
      rw [exec, Wire.getting, Prog.zoom_apply, Outcome.sat_mapState]
      have after : ∀ (t : Getting κ) q, (t.proc.obj.rep = op.sets w.obj.rep ∧
          Left (Leads w.obj.rep) demands [] .idle q t.proc) ∧ Reached N.toKernel t.proc.obj →
          Follows N (.stream op) w q { w.behind t.proc with dst := t.dst } := fun t q h =>
        ⟨h.2, h.1.1, hstart.left.inside h.1.2 (Wire.demands_behind t.proc w)⟩
      exact hsat.mono (fun _ t h => ⟨.idle, .inl rfl, after t _ h⟩) fun _ t h => after t _ h
  | read len => exact direct _ rfl (.inl rfl) (Wire.read_at len hstart)
  | recv len msgf => exact direct _ rfl (.inl rfl) (Wire.recv_at len msgf hstart)
  | recvfrom sa len msgf => exact direct _ rfl (.inl rfl) (Wire.recvfrom_at sa len msgf hstart)
  | recvmsg msg msgf => exact direct _ rfl (.inl rfl) (Wire.recvmsg_at msg msgf hstart)
  | write buf len => exact direct _ rfl (written_rests _ _) (Wire.write_at buf len hstart)
  | send buf len msgf => exact direct _ rfl (written_rests _ _) (Wire.send_at buf len msgf hstart)
  | sendto sa buf len msgf => exact direct _ rfl (written_rests _ _) (Wire.sendto_at sa buf len msgf hstart)
  | sendmsg msg msgf => exact direct _ rfl (.inl rfl) (Wire.sendmsg_at msg msgf hstart)

/-- What an operation has to do with the calls `made` by it. -/
def Turn (op : WireOp α μ) (w : Wire α μ κ) (r : Except Thrown Int) (w' : Wire α μ κ) (made : List Demand) :
    Prop := Obeys w.obj.rep made r ∧ w'.obj.rep = op.sets w.obj.rep

theorem Follows.turn {op : WireOp α μ} {w w' : Wire α μ κ} {q : Stage} (h : Follows N op w q w')
    {r : Except Thrown Int} (hok : ∀ a, r = .ok a → q = .idle ∨ q = .writable)
    (herror : ∀ e, r = .error e → q = .over) :
    ∃ made, op.Turn w r w' made ∧ Reached N.toKernel w'.obj ∧ w'.demands = w.demands ++ made := by
  obtain ⟨made, hlog, htrail⟩ := h.left
  exact ⟨made, ⟨obeys_of_trail htrail hok herror, h.sets⟩, h.reached, hlog⟩

end WireOp

/-- **Every call in its turn.**  In every run of stream functions and direct calls, on any object reached and
against every kernel, each operation makes its calls in order for the settings as they were last set. -/
theorem calls_in_turn (N : SocketKernel α μ κ) (ops : List (WireOp α μ)) {w : Wire α μ κ}
    (hw : Reached N.toKernel w.obj) :
    Booked (fun w D => Reached N.toKernel w.obj ∧ w.demands = D) WireOp.Turn w w.demands ops
      (session (WireOp.exec N) ops w) := by
  refine booked_session ?_ ops w w.demands ⟨hw, rfl⟩
  rintro op w D ⟨hw, rfl⟩
  refine (WireOp.exec_follows op hw).mono ?_ ?_
  · rintro a w' ⟨q, hq, h⟩
    exact h.turn (fun _ _ => hq) fun e he => by cases he
  · rintro e w' h
    exact h.turn (fun a ha => by cases ha) fun _ _ => rfl

/-- A peer that sends one byte for each call of `::recv`, and nothing else. -/
def trickling : SocketKernel Unit Unit Nat :=
  { breaking with
    recv     := fun k _ len _ => if h : 0 < len then (.data [88] Nat.one_pos h, k) else (.eof, k)
    recvfrom := fun k _ _ _ _ => (.eof, (), k)
    recvmsg  := fun k _ _ _ => (.ok (0, ()), k)
    sendto   := fun k fd bs _ _ => breaking.write k fd bs
    sendmsg  := fun k _ _ _ => (.error 32, k) }

/-- A sockbuf on the descriptor 3 that has made no calls; the connection takes two bytes. -/
def fresh : Wire Unit Unit Nat := ⟨ofDesc bufsiz 3 (fun _ => 0) fun _ => 0, 2, 0, [], []⟩

/-- Timeouts are set, a byte is received beside the stream, and three are written through it. -/
def chat : List (WireOp Unit Unit) :=
  [.stream (.get (.recvtimeout 5)), .stream (.get (.oob true)), .recv 4 0, .stream (.put (.sendtimeout 7)),
    .stream (.put (.sputn [72, 105, 33])), .stream (.put .sync)]

theorem calls_in_turn_chat :
    Booked (fun w D => Reached trickling.toKernel w.obj ∧ w.demands = D) WireOp.Turn fresh [] chat
      (session (WireOp.exec trickling) chat fresh) :=
  calls_in_turn trickling chat (.ofDesc bufsiz 3 _ _)

example : ((session (WireOp.exec trickling) chat fresh).getLast?.map fun c => c.2.demands) = some
    [.awaitRead 3 5 (some 1), .mark 3 (some false), .receive 3 (some 1), .awaitWrite 3 7 (some 1),
      .hand 3 3 (some 1), .hand 3 2 (some 1), .hand 3 1 none] := by decide +kernel

end Sockbuf

end Socketpp
