import Socketpp.Ftp.Reply

/-!
# Ftp — end of file

What `get_response` and `send_cmd` return on a connection that reaches end of file.  The value
returned is the first byte shown, if there is one; else it is the class that `replycode` holds from
before (`scan_class`).  So behind a success an end of file is reported as one (`noop_after_eof`).
-/

namespace Socketpp
open Lib

namespace Ftpbuf
open Sockbuf

variable {B : Nat} {ω : Type} {W : ω → (bs : List Byte) → WriteResult bs.length × ω}

/-! ### The value returned -/

/-- Behind the first line the code is kept. -/
theorem scan_replycode {r r' : Reader} {vs vs' : List Look} (hr : r.firstline = false)
    (hs : scan Reader.look r vs = some (r', vs')) : r'.replycode = r.replycode := by
  refine (scan_keeps (I := fun b => b.firstline = false ∧ b.replycode = r.replycode) ?_
    ⟨hr, rfl⟩ hs).2
  rintro b b' v ⟨hf, hc⟩ h
  have hlook : b.look v = .stop b' ∨ b.look v = .go b' :=
    h.resolve_left (b.look_ne_leave b' v)
  rw [Reader.look, hf, if_neg Bool.false_ne_true] at hlook
  split at hlook
  · rcases hlook with h | h <;> cases h
  · split at hlook <;> rcases hlook with h | h <;> cases h <;> exact ⟨hf, hc⟩

/-- The code of a first line begins with its first byte. -/
theorem keepCode_class (r : Reader) {v : Look} {b : Byte} {l : List Byte} (hv : v.1 = b :: l)
    (h5 : 5 ≤ v.1.length) : (r.keepCode v).replycode 0 = b := by
  have hs := r.slice_keepCode h5
  have hhead : (codeOf v).head? = some b := by
    rw [codeOf, hv, List.take_succ_cons, strncpyCells]
    split
    · rename_i h0
      rw [h0]
      rfl
    · rfl
  rw [← hs] at hhead
  exact Option.some.inj hhead

/-- The first byte shown. -/
def firstByte : List Look → Option Byte
  | []     => none
  | v :: _ => v.1.head?

/-- **The value returned** is the first byte shown, or the class of the code kept. -/
theorem scan_class {s : Proc Ftpbuf (Peer B ω)} {r : Reader} {vs : List Look}
    (h : replyScan s = some (r, vs)) :
    r.replycode 0 = (firstByte (looks s.base)).getD (s.obj.replycode 0) := by
  rw [replyScan] at h
  cases hl : looks s.base with
  | nil =>
      rw [hl] at h
      cases h
      rfl
  | cons v ws =>
      rw [hl] at h
      have h5 : 5 ≤ v.1.length := by
        by_contra h5
        rw [scan_stall ((Reader.look_stall_iff _ v).mpr h5)] at h
        cases h
      obtain ⟨b, l, hv⟩ : ∃ b l, v.1 = b :: l :=
        List.exists_cons_of_length_pos (Nat.lt_of_lt_of_le (by decide) h5)
      have hfirst : firstByte (v :: ws) = some b := by
        rw [firstByte, hv]
        rfl
      rw [hfirst, Option.getD_some]
      have hclass := keepCode_class ((reader true s []).take v) hv h5
      by_cases h3 : v.1[3]? = some 32
      · rw [scan_stop (Reader.look_first_stop rfl h5 h3)] at h
        cases h
        exact hclass
      · rw [scan_go (Reader.look_first_go rfl h5 h3)] at h
        rw [scan_replycode rfl h]
        exact hclass

/-! ### One reply -/

/-- The looks at the next reply show at least five bytes each. -/
abbrev Ends (vs : List Look) : Prop := ∀ v ∈ replyLooks vs, 5 ≤ v.1.length

/-- The looks behind those at the next reply. -/
def behindReply (vs : List Look) : List Look := vs.drop (replyLooks vs).length

theorem nil_of_firstByte {vs : List Look} (h : Ends vs) (h0 : firstByte vs = none) : vs = [] := by
  cases vs with
  | nil => rfl
  | cons v vs =>
      have h5 : 5 ≤ v.1.length := h v List.mem_cons_self
      rw [List.head?_eq_none_iff.mp h0] at h5
      exact absurd h5 (by decide)

/-- One reply has been read, with the value `c`. -/
structure Replied (s : Proc Ftpbuf (Peer B ω)) (c : Byte) (s' : Proc Ftpbuf (Peer B ω)) : Prop where
  fed      : Fed s'.base
  writable : s'.base.obj.Writable
  ends     : Ends (looks s.base)
  value    : c = (firstByte (looks s.base)).getD (s.obj.replycode 0)
  kept     : s'.obj.replycode 0 = c
  looks    : looks s'.base = behindReply (looks s.base)

theorem keeps_readLine {κ : Type} {K : Kernel κ} {R : Proc Sockbuf κ → Proc Sockbuf κ → Prop}
    (h : GetFrame K R) (firstline : Bool) : Prog.Keeps (OnBase R) (readLine firstline) := by
  have hc : Closed (OnBase (β := Ftpbuf) R) := h.toClosed.onBase
  refine hc.keeps_bind hc.keeps_get fun s => ?_
  cases s.obj.getArea with
  | none => exact hc.keeps_pure _
  | some a =>
      refine Prog.Keeps.ite (hc.keeps_pure _) (hc.keeps_bind ?_ fun _ => hc.keeps_bind ?_ fun _ => ?_)
      · exact Prog.Keeps.modify fun s => h.refl s.base
      · exact keeps_inherited (keeps_onGet h fun a => a.gbump _)
      · refine Prog.Keeps.ite (hc.keeps_bind ?_ fun _ => ?_) (hc.keeps_bind hc.keeps_get fun s => ?_)
        · exact Prog.Keeps.modify fun s => h.refl s.base
        · exact Prog.Keeps.ite (hc.keeps_pure _) (hc.keeps_pure _)
        · exact Prog.Keeps.ite (hc.keeps_pure _) (hc.keeps_pure _)

theorem keeps_getResponse {κ : Type} {K : Kernel κ} {R : Proc Sockbuf κ → Proc Sockbuf κ → Prop}
    (h : GetFrame K R) (n : Nat) : Prog.Keeps (OnBase R) (getResponse K n) := by
  have hc : Closed (OnBase (β := Ftpbuf) R) := h.toClosed.onBase
  exact hc.keeps_bind (keeps_readLoop h (keeps_readLine h) n true) fun _ =>
    hc.keeps_bind hc.keeps_get fun s => hc.keeps_pure _

/-- However many iterations it is given, `get_response` is cut off or reads one reply. -/
theorem getResponse_replied {s : Proc Ftpbuf (Peer B ω)} (hf : Fed s.base)
    (hw : s.base.obj.Writable) (n : Nat) :
    getResponse (Kernel.feed B W) n s = .spin ∨
    ∃ c s', getResponse (Kernel.feed B W) n s = .ret c s' ∧ Replied s c s' := by
  refine (getResponse_at (W := W) hf n).imp_right ?_
  rintro ⟨r, vs, s', hs, hat, hret⟩
  have hsame := (keeps_getResponse (getFrame_putSame (Kernel.feed B W)) n).ret hret
  have hrest := scan_rest (fun a v a' => Reader.look_ne_leave a a' v) hs
  rw [Reader.seen_look rfl] at hrest
  exact ⟨_, s', hret, hat.fed, writable_of_putSame hsame hw,
    isSome_replyScan_iff.mp (Option.isSome_of_eq_some hs), scan_class hs, congrFun hat.own.1 0,
    hat.looks.trans hrest⟩

/-- With enough iterations it is not cut off. -/
theorem getResponse_ends {s : Proc Ftpbuf (Peer B ω)} (hf : Fed s.base) (hw : s.base.obj.Writable)
    (h : Ends (looks s.base)) {n : Nat} (hn : (looks s.base).length < n) :
    ∃ c s', getResponse (Kernel.feed B W) n s = .ret c s' ∧ Replied s c s' := by
  refine (getResponse_replied hf hw n).resolve_left ?_
  obtain ⟨p, hp⟩ := Option.isSome_iff_exists.mp (isSome_replyScan_iff.mpr h)
  obtain ⟨s', -, hret⟩ := getResponse_ret (W := W) hf hp
  rw [hret n hn]
  nofun

/-! ### Commands -/

/-- What `send_cmd` does before it waits for the reply. -/
def putCmd {κ : Type} (K : Kernel κ) (cmd : List Byte) (arg : Option (List Byte)) : FtpM κ Int := do
  let _ ← xsputn K cmd
  let _ ← putArg K arg
  let _ ← xsputn K [13, 10]
  sync K

theorem sendCmd_eq {κ : Type} (K : Kernel κ) (n : Nat) (cmd : List Byte) (arg : Option (List Byte)) :
    sendCmd K n cmd arg = putCmd K cmd arg >>= fun _ => getResponse K n := by
  simp only [sendCmd, putCmd, Prog.bind_assoc]

/-- **The methods that send a command** keep what the put functions and the get functions keep. -/
theorem keeps_putCmd {κ : Type} {K : Kernel κ} {R : Proc Sockbuf κ → Proc Sockbuf κ → Prop}
    (h : OwnFrame K R) (cmd : List Byte) (arg : Option (List Byte)) :
    Prog.Keeps (OnBase R) (putCmd K cmd arg) := by
  have hc : Closed (OnBase (β := Ftpbuf) R) := h.toClosed.onBase
  have put : ∀ bs, Prog.Keeps (OnBase R) (xsputn K bs) := fun bs => keeps_inherited (h.xsputn bs)
  refine hc.keeps_bind (put cmd) fun _ => hc.keeps_bind ?_ fun _ => hc.keeps_bind (put _) fun _ => ?_
  · cases arg with
    | none => exact hc.keeps_pure _
    | some arg => exact hc.keeps_bind (put _) fun _ => put arg
  · exact keeps_inherited h.sync

theorem keeps_sendCmd {κ : Type} {K : Kernel κ} {R : Proc Sockbuf κ → Proc Sockbuf κ → Prop}
    (hput : OwnFrame K R) (hget : GetFrame K R) (n : Nat) (cmd : List Byte) (arg : Option (List Byte)) :
    Prog.Keeps (OnBase R) (sendCmd K n cmd arg) := by
  rw [sendCmd_eq]
  exact hput.toClosed.onBase.keeps_bind (keeps_putCmd hput cmd arg) fun _ => keeps_getResponse hget n

/-- Between the two states nothing has happened to the replies. -/
structure SameReplies (s s' : Proc Ftpbuf (Peer B ω)) : Prop where
  fed       : Fed s'.base
  writable  : s'.base.obj.Writable
  looks     : looks s'.base = looks s.base
  replycode : s'.obj.replycode = s.obj.replycode

/-- What has been put before a reply does not change it. -/
theorem sameReplies_of_put {s s' : Proc Ftpbuf (Peer B ω)} {xs : List Byte} (hf : Fed s.base)
    (h : Put s s' xs) (hg : GetSame Peer.inbox s.base s'.base) : SameReplies s s' := by
  obtain ⟨⟨a, ha⟩, hend⟩ := hf
  have hunread : s'.base.obj.unread = s.base.obj.unread := by simp only [unread, hg.getArea]
  refine ⟨⟨⟨a, hg.getArea.trans ha⟩, by rw [hg.rep, hend]⟩, h.moved.writable, ?_, ?_⟩
  · simp only [Sockbuf.looks, hg.getArea, hunread, hg.kern]
  · rw [h.rest]
    rfl

theorem SameReplies.replied {s s₁ s' : Proc Ftpbuf (Peer B ω)} {c : Byte} (h : SameReplies s s₁)
    (hr : Replied s₁ c s') : Replied s c s' := by
  obtain ⟨hf, hw, hends, hvalue, hkept, hlooks⟩ := hr
  rw [h.looks] at hends hlooks hvalue
  rw [h.replycode] at hvalue
  exact ⟨hf, hw, hends, hvalue, hkept, hlooks⟩

/-- The bytes of an argument, with the space in front of it. -/
def argBytes : Option (List Byte) → List Byte
  | none     => []
  | some arg => 32 :: arg

theorem puts_putCmd {κ : Type} {K : Kernel κ} (cmd : List Byte) (arg : Option (List Byte)) :
    Puts K (putCmd K cmd arg) (cmd ++ (argBytes arg ++ ([13, 10] ++ []))) := by
  have harg : Puts K (putArg K arg) (argBytes arg) := by
    cases arg with
    | none => exact .pure 0
    | some arg => exact (puts_xsputn [32]).bind fun _ => puts_xsputn arg
  refine (puts_xsputn cmd).bind fun _ => harg.bind fun _ => (puts_xsputn [13, 10]).bind fun _ => ?_
  exact fun s hw => (sync_flushes hw).mono (fun _ _ h => h.1) fun _ _ h => h

theorem putCmd_sat {s : Proc Ftpbuf (Peer B ω)} (hf : Fed s.base) (hw : s.base.obj.Writable)
    (cmd : List Byte) (arg : Option (List Byte)) :
    (putCmd (Kernel.feed B W) cmd arg s).Sat (fun _ s' => SameReplies s s')
      (fun _ _ => ¬ (Kernel.feed B W).WriteSucceeds) := by
  have hframe : PutFrame (Kernel.feed B W) (GetSame Peer.inbox) :=
    putFrame_getSame (fun _ _ _ => rfl) fun _ _ _ => rfl
  have hc : Closed (OnBase (β := Ftpbuf) (GetSame (κ := Peer B ω) Peer.inbox)) :=
    hframe.toClosed.onBase
  have hputs : ∀ bs, Prog.Keeps (OnBase (GetSame Peer.inbox)) (xsputn (Kernel.feed B W) bs) :=
    fun bs => keeps_inherited (keeps_xsputn hframe bs)
  have hkeeps : Prog.Keeps (OnBase (GetSame Peer.inbox)) (putCmd (Kernel.feed B W) cmd arg) := by
    refine hc.keeps_bind (hputs _) fun _ => hc.keeps_bind ?_ fun _ =>
      hc.keeps_bind (hputs _) fun _ => keeps_inherited (keeps_sync hframe)
    cases arg with
    | none => exact hc.keeps_pure _
    | some arg => exact hc.keeps_bind (hputs _) fun _ => hputs _
  exact ((puts_putCmd cmd arg s hw).and_leaves (hkeeps s)).mono
    (fun _ _ h => sameReplies_of_put hf h.1 h.2) fun _ _ h => h.1

/-- `send_cmd` throws because a write has failed, or it is `get_response` with the same replies to
come. -/
theorem sendCmd_cases {s : Proc Ftpbuf (Peer B ω)} (hf : Fed s.base) (hw : s.base.obj.Writable)
    (cmd : List Byte) (arg : Option (List Byte)) :
    (∃ e s₁, ¬ (Kernel.feed B W).WriteSucceeds ∧
      ∀ n, sendCmd (Kernel.feed B W) n cmd arg s = .thrown e s₁) ∨
    ∃ s₁, SameReplies s s₁ ∧
      ∀ n, sendCmd (Kernel.feed B W) n cmd arg s = getResponse (Kernel.feed B W) n s₁ := by
  have hputs := putCmd_sat (W := W) hf hw cmd arg
  simp only [sendCmd_eq, Prog.bind_apply]
  cases hp : putCmd (Kernel.feed B W) cmd arg s with
  | spin =>
      rw [hp] at hputs
      exact hputs.elim
  | thrown e s₁ =>
      rw [hp] at hputs
      exact Or.inl ⟨e, s₁, hputs, fun n => rfl⟩
  | ret v s₁ =>
      rw [hp] at hputs
      exact Or.inr ⟨s₁, hputs, fun n => rfl⟩

/-- However many iterations it is given, `send_cmd` is cut off, reads one reply, or throws. -/
theorem sendCmd_replied {s : Proc Ftpbuf (Peer B ω)} (hf : Fed s.base) (hw : s.base.obj.Writable)
    (n : Nat) (cmd : List Byte) (arg : Option (List Byte)) :
    sendCmd (Kernel.feed B W) n cmd arg s = .spin ∨
    (sendCmd (Kernel.feed B W) n cmd arg s).Sat (Replied s)
      (fun _ _ => ¬ (Kernel.feed B W).WriteSucceeds) := by
  rcases sendCmd_cases (W := W) hf hw cmd arg with ⟨e, s₁, hK, h⟩ | ⟨s₁, hsame, h⟩
  · rw [h]
    exact Or.inr hK
  · rw [h]
    refine (getResponse_replied (W := W) hsame.fed hsame.writable n).imp_right ?_
    rintro ⟨c, s', hret, hr⟩
    rw [hret]
    exact hsame.replied hr

/-- With enough iterations it is not cut off. -/
theorem sendCmd_ends {s : Proc Ftpbuf (Peer B ω)} (hf : Fed s.base) (hw : s.base.obj.Writable)
    (h : Ends (looks s.base)) {n : Nat} (hn : (looks s.base).length < n) (cmd : List Byte)
    (arg : Option (List Byte)) :
    (sendCmd (Kernel.feed B W) n cmd arg s).Sat (Replied s)
      (fun _ _ => ¬ (Kernel.feed B W).WriteSucceeds) := by
  rcases sendCmd_cases (W := W) hf hw cmd arg with ⟨e, s₁, hK, hs⟩ | ⟨s₁, hsame, hs⟩
  · rw [hs]
    exact hK
  · rw [← hsame.looks] at h hn
    obtain ⟨c, s', hret, hr⟩ := getResponse_ends (W := W) hsame.fed hsame.writable h hn
    rw [hs, hret]
    exact hsame.replied hr

/-! ### A success of an earlier command -/

theorem opened_writable (out : Option (List Byte)) (cs : List (Chunk 1024)) :
    (opened out cs).base.obj.Writable := ofDesc_writable bufsiz 3 (fun _ => 0) fun _ => 0

def greeted : List (Chunk 1024) := [⟨ascii "220 hi\r\n", by decide⟩]

/-- The server has greeted and then closed; a NOOP returns the class of the greeting. -/
theorem noop_after_eof :
    ∃ s₁ s₂, Returns (getResponse (Kernel.smooth 1024)) (opened none greeted) 50 s₁ ∧
      ahead s₁.base = [] ∧
      Returns (fun n => noop (Kernel.smooth 1024) n) s₁ 50 s₂ ∧ ¬ IsError 50 := by
  obtain ⟨c₁, s₁, h₁, hr₁⟩ := getResponse_ends (W := fun (_ : Unit) bs => (.all bs, ())) (n := 2)
    (opened_fed none greeted) (opened_writable none greeted) (by decide) (by decide)
  obtain rfl : c₁ = 50 := hr₁.value.trans (by decide)
  have hlooks : looks s₁.base = [] := hr₁.looks.trans (by decide)
  have hsat := sendCmd_ends (W := fun (_ : Unit) bs => (.all bs, ())) (n := 1) hr₁.fed
    hr₁.writable (by rw [hlooks]; nofun) (by rw [hlooks]; decide) (ascii "NOOP") none
  obtain ⟨c₂, s₂, h₂, hr₂⟩ :=
    (hsat.mono (fun _ _ h => h) fun _ _ h => h (Kernel.smooth_writeSucceeds 1024)).returns
  -- nothing is left in the stream, so the value is the one kept
  obtain rfl : c₂ = 50 := by
    rw [hr₂.value, hlooks, hr₁.kept]
    rfl
  exact ⟨s₁, s₂, ⟨2, h₁⟩, (shows_looks hr₁.fed.readable).eq_nil.mpr hlooks, ⟨1, h₂⟩, by decide⟩

end Ftpbuf

end Socketpp
