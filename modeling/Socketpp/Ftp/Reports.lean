import Socketpp.Ftp.Dead
import Socketpp.Ftp.Wire

/-!
# Ftp — what is reported at end of file

`Visit.Takes` is what a call comes to on a control connection that reaches end of file, where the class kept
from before is known; `exec_ways` is that the code comes to it.  `Visit.Refused` says which replies a call has
to find for what it returns to be an error, and the same one whatever was there before (`refused_iff`).
-/

namespace Socketpp
open Lib

/-! ### The replies of a transfer -/

namespace Ftpbuf.Line
open Transfer

variable {l l' l₁ l₂ : Line} {o : Bool} {c c₁ c₂ : Byte}

/-- A transfer is refused: the reply to PORT ends, and that to the command is an error; or it is none, and the
last reply is one.  Behind a download that is granted no reply is read. -/
def DataRefused (o : Bool) (l : Line) : Prop :=
  l.Ends ∧ (l.next.Refused ∨ o = false ∧ l.next.Granted ∧ l.next.next.Refused)

theorem dataRefused_iff : l.DataRefused o ↔ ∃ c l', Data o l c l' ∧ IsError c := by
  constructor
  · rintro ⟨hends, hcmd | ⟨ho, hcmd, hlast, c, hc, herr⟩⟩
    · exact ⟨_, _, .refused hends hcmd, isError_rca_error⟩
    · exact ⟨c, _, .granted ho hends hcmd hlast hc, herr⟩
  · rintro ⟨c, l', hdata, herr⟩
    cases hdata with
    | refused hends hcmd => exact ⟨hends, .inl hcmd⟩
    | granted ho hends hcmd hlast hc => exact ⟨hends, .inr ⟨ho, hcmd, hlast, c, hc, herr⟩⟩

theorem Granted.not_refused (h : l.Granted) : ¬ l.Refused := by
  obtain ⟨-, b, hb, herr⟩ := h
  rintro ⟨-, b', hb', herr'⟩
  exact herr (Option.some.inj (hb'.symm.trans hb) ▸ herr')

/-- Behind a reply that has a class the next one has one. -/
theorem Granted.next_value (h : l.Granted) : ∃ b, l.next.value = some b := by
  obtain ⟨-, b, hb, -⟩ := h
  rw [value, next, hb]
  cases firstByte (behindReply l.looks) with
  | none => exact ⟨b, rfl⟩
  | some b' => exact ⟨b', rfl⟩

theorem value_fill_of_eq (h : l.value = some c) (x : Byte) : (l.fill x).value = some c := by
  rw [value_fill, h]
  rfl

/-- What is known from the stream alone holds for every class kept. -/
theorem data_fill (h : Data o l c l') (x : Byte) : Data o (l.fill x) c (l'.fill x) := by
  cases h with
  | refused hends hcmd =>
      have h := Data.refused (o := o) (l := l.fill x) hends (next_fill (l := l) ▸ hcmd.fill x)
      rwa [next_fill, next_fill] at h
  | granted ho hends hcmd hlast hc =>
      have h := Data.granted (l := l.fill x) ho hends (next_fill (l := l) ▸ hcmd.fill x)
        (by rw [next_fill, next_fill]; exact hlast) (by rw [next_fill, next_fill]; exact value_fill_of_eq hc x)
      rwa [next_fill, next_fill, next_fill] at h

/-- What a class of 0 leads to is known from the stream alone, or nothing is to come and the class is still
the one kept. -/
theorem data_of_fill (h : Data o (l.fill 0) c l₁) :
    ∃ l', l₁ = l'.fill 0 ∧ (Data o l c l' ∨ l'.Blank ∧ ¬ IsError c) := by
  cases h with
  | refused hends hcmd =>
      rw [next_fill] at hcmd
      exact ⟨l.next.next, by rw [next_fill, next_fill], .inl (.refused hends (refused_of_fill hcmd))⟩
  | granted ho hends hcmd hlast hc =>
      refine ⟨l.next.next.next, by rw [next_fill, next_fill, next_fill], ?_⟩
      rw [next_fill] at hcmd
      rw [next_fill, next_fill, value_fill] at hc
      rw [next_fill, next_fill] at hlast
      rcases granted_of_fill hcmd with hcmd | hblank
      · obtain ⟨b, hb⟩ := hcmd.next_value
        rw [hb] at hc
        obtain rfl : b = c := Option.some.inj hc
        exact .inl (.granted ho hends hcmd hlast hb)
      · refine .inr ⟨hblank.next, ?_⟩
        rw [value, hblank.1, hblank.2] at hc
        obtain rfl : 0 = c := Option.some.inj hc
        decide

theorem Blank.not_dataRefused (h : l.Blank) : ¬ l.DataRefused true := by
  rintro ⟨-, hcmd | ⟨ho, -⟩⟩
  · exact h.next.not_refused hcmd
  · cases ho

theorem data_unique (h₁ : Data o l c₁ l₁) (h₂ : Data o l c₂ l₂) : c₁ = c₂ ∧ l₁ = l₂ := by
  cases h₁ with
  | refused _ hcmd =>
      cases h₂ with
      | refused => exact ⟨rfl, rfl⟩
      | granted _ _ hcmd' => exact absurd hcmd hcmd'.not_refused
  | granted _ _ hcmd _ hc =>
      cases h₂ with
      | refused _ hcmd' => exact absurd hcmd' hcmd.not_refused
      | granted _ _ _ _ hc' => exact ⟨Option.some.inj (hc.symm.trans hc'), rfl⟩

theorem data_length (h : Data o l c l') : l'.looks.length ≤ l.looks.length := by
  cases h with
  | refused => simp only [next, behindReply, List.length_drop]; omega
  | granted => simp only [next, behindReply, List.length_drop]; omega

end Ftpbuf.Line

/-! ### The calls -/

namespace Visit
open Client Transfer Ftpbuf Sockbuf

variable {o : Bool} {l : Line} {v : Visit} {c c' : Byte}

/-- **What a call comes to.**  `o` says whether the ftpbuf has a stream `o`. -/
def Takes (o : Bool) (l : Line) (c : Byte) : Visit → Prop
  | control (.rename (some _) (some _)) =>
      l.Refused ∧ c = rca_error ∨ l.Granted ∧ l.next.Ends ∧ l.next.value = some c
  | control (.rename _ _) => c = rca_error
  | control _ | get_response | useraddr _ => l.Ends ∧ l.value = some c
  | list _ _           => ∃ l', Data o l c l'
  | getfile (some _) _ => ∃ l', Data true l c l'
  | getfile none _     => ∃ c₁ l₁, Data o l c₁ l₁ ∧ ∃ l', Data true l₁ c l'
  | putfile (some _) _ | putunique (some _) | append (some _) _ => ∃ l', Data false l c l'
  | putfile none _ | putunique none | append none _ => c = rca_error

/-- **A call is refused**: its replies end, and the one that decides begins as an error does.  A call without
a path is refused at once; `rename` and the transfers read another reply where the one before is no error,
and `getfile` without a path lists the directory first. -/
def Refused (o : Bool) (l : Line) : Visit → Prop
  | control (.rename (some _) (some _)) => l.Refused ∨ l.Granted ∧ l.next.Refused
  | control (.rename _ _) => True
  | control _ | get_response | useraddr _ => l.Refused
  | list _ _           => l.DataRefused o
  | getfile (some _) _ => l.DataRefused true
  | getfile none _     => l.Ends ∧ (l.next.Refused ∧ l.next.next.DataRefused true ∨
      o = false ∧ l.next.Granted ∧ l.next.next.Ends ∧ l.next.next.next.DataRefused true)
  | putfile (some _) _ | putunique (some _) | append (some _) _ => l.DataRefused false
  | putfile none _ | putunique none | append none _ => True

/-- One value, whatever class is kept from before. -/
def Settles (P : Line → Byte → Prop) (l : Line) : Prop := ∃ c, IsError c ∧ ∀ x, P (l.fill x) c

theorem settles_reply : Settles (fun l c => l.Ends ∧ l.value = some c) l ↔ l.Refused := by
  constructor
  · rintro ⟨c, herr, h⟩
    obtain ⟨hends, hc⟩ := h 0
    exact Line.refused_of_fill ⟨hends, c, hc, herr⟩
  · rintro ⟨hends, c, hc, herr⟩
    exact ⟨c, herr, fun x => ⟨hends, Line.value_fill_of_eq hc x⟩⟩

theorem settles_at_once : Settles (fun _ c => c = rca_error) l ↔ True :=
  iff_true_intro ⟨rca_error, isError_rca_error, fun _ => rfl⟩

theorem settles_data : Settles (fun l c => ∃ l', Data o l c l') l ↔ l.DataRefused o := by
  rw [Line.dataRefused_iff]
  constructor
  · rintro ⟨c, herr, h⟩
    obtain ⟨l₁, hdata⟩ := h 0
    obtain ⟨l', -, hdata | ⟨-, hno⟩⟩ := Line.data_of_fill hdata
    · exact ⟨c, l', hdata, herr⟩
    · exact absurd herr hno
  · rintro ⟨c, l', hdata, herr⟩
    exact ⟨c, herr, fun x => ⟨_, Line.data_fill hdata x⟩⟩

theorem settles_rename :
    Settles (fun l c => l.Refused ∧ c = rca_error ∨ l.Granted ∧ l.next.Ends ∧ l.next.value = some c) l ↔
      l.Refused ∨ l.Granted ∧ l.next.Refused := by
  constructor
  · rintro ⟨c, herr, h⟩
    rcases h 0 with ⟨hfirst, -⟩ | ⟨hfirst, hends, hc⟩
    · exact .inl (Line.refused_of_fill hfirst)
    · rw [Line.next_fill] at hends hc
      have hsecond : l.next.Refused := Line.refused_of_fill ⟨hends, c, hc, herr⟩
      rcases Line.granted_of_fill hfirst with hfirst | hblank
      · exact .inr ⟨hfirst, hsecond⟩
      · exact absurd hsecond hblank.not_refused
  · rintro (hfirst | ⟨hfirst, hends, c, hc, herr⟩)
    · exact ⟨rca_error, isError_rca_error, fun x => .inl ⟨hfirst.fill x, rfl⟩⟩
    · refine ⟨c, herr, fun x => .inr ⟨hfirst.fill x, ?_⟩⟩
      rw [Line.next_fill]
      exact ⟨hends, Line.value_fill_of_eq hc x⟩

theorem settles_listing :
    Settles (fun l c => ∃ c₁ l₁, Data o l c₁ l₁ ∧ ∃ l', Data true l₁ c l') l ↔
      l.Ends ∧ (l.next.Refused ∧ l.next.next.DataRefused true ∨
        o = false ∧ l.next.Granted ∧ l.next.next.Ends ∧ l.next.next.next.DataRefused true) := by
  constructor
  · rintro ⟨c, herr, h⟩
    obtain ⟨c₁, l₁, hfirst, l₂, hdata⟩ := h 0
    obtain ⟨l', rfl, hlist⟩ := Line.data_of_fill hfirst
    have hrefused : l'.DataRefused true := by
      obtain ⟨l'', -, hdata | ⟨-, hno⟩⟩ := Line.data_of_fill hdata
      · exact Line.dataRefused_iff.mpr ⟨c, l'', hdata, herr⟩
      · exact absurd herr hno
    rcases hlist with hlist | ⟨hblank, -⟩
    · cases hlist with
      | refused hends hcmd => exact ⟨hends, .inl ⟨hcmd, hrefused⟩⟩
      | granted ho hends hcmd hlast => exact ⟨hends, .inr ⟨ho, hcmd, hlast, hrefused⟩⟩
    · exact absurd hrefused hblank.not_dataRefused
  · have run : ∀ {c₁ l₁}, Data o l c₁ l₁ → l₁.DataRefused true →
        Settles (fun l c => ∃ c₁ l₁, Data o l c₁ l₁ ∧ ∃ l', Data true l₁ c l') l := by
      intro c₁ l₁ hlist hrefused
      obtain ⟨c, l', hdata, herr⟩ := Line.dataRefused_iff.mp hrefused
      exact ⟨c, herr, fun x => ⟨c₁, _, Line.data_fill hlist x, _, Line.data_fill hdata x⟩⟩
    rintro ⟨hends, ⟨hcmd, hrefused⟩ | ⟨ho, hcmd, hlast, hrefused⟩⟩
    · exact run (.refused hends hcmd) hrefused
    · obtain ⟨b, hb⟩ := hcmd.next_value
      exact run (.granted ho hends hcmd hlast hb) hrefused

/-- **A call is refused** where it returns an error that does not depend on what was there before. -/
theorem refused_iff : v.Refused o l ↔ ∃ c, IsError c ∧ ∀ x, v.Takes o (l.fill x) c := by
  change _ ↔ Settles (fun l c => v.Takes o l c) l
  cases v with
  | control call =>
      cases call with
      | rename rpath newrpath =>
          cases rpath with
          | none => exact settles_at_once.symm
          | some rpath =>
              cases newrpath with
              | none => exact settles_at_once.symm
              | some newrpath => exact settles_rename.symm
      | _ => exact settles_reply.symm
  | get_response => exact settles_reply.symm
  | useraddr sa => exact settles_reply.symm
  | list rpath just => exact settles_data.symm
  | getfile rpath lpath =>
      cases rpath with
      | none => exact settles_listing.symm
      | some rpath => exact settles_data.symm
  | putfile lpath rpath =>
      cases lpath with
      | none => exact settles_at_once.symm
      | some lpath => exact settles_data.symm
  | putunique lpath =>
      cases lpath with
      | none => exact settles_at_once.symm
      | some lpath => exact settles_data.symm
  | append lpath rpath =>
      cases lpath with
      | none => exact settles_at_once.symm
      | some lpath => exact settles_data.symm

/-- There is one value. -/
theorem takes_unique (h : v.Takes o l c) (h' : v.Takes o l c') : c = c' := by
  have hvalue : ∀ {l : Line}, l.value = some c → l.value = some c' → c = c' := fun h h' =>
    Option.some.inj (h.symm.trans h')
  have hdata : ∀ {o l}, (∃ l', Data o l c l') → (∃ l', Data o l c' l') → c = c' := fun ⟨_, h⟩ ⟨_, h'⟩ =>
    (Line.data_unique h h').1
  cases v with
  | control call =>
      cases call with
      | rename rpath newrpath =>
          cases rpath with
          | none => exact h.trans h'.symm
          | some rpath =>
              cases newrpath with
              | none => exact h.trans h'.symm
              | some newrpath =>
                  rcases h with ⟨hr, rfl⟩ | ⟨hg, -, hc⟩
                  · rcases h' with ⟨-, rfl⟩ | ⟨hg, -, -⟩
                    · rfl
                    · exact absurd hr hg.not_refused
                  · rcases h' with ⟨hr, -⟩ | ⟨-, -, hc'⟩
                    · exact absurd hr hg.not_refused
                    · exact hvalue hc hc'
      | _ => exact hvalue h.2 h'.2
  | get_response => exact hvalue h.2 h'.2
  | useraddr sa => exact hvalue h.2 h'.2
  | list rpath just => exact hdata h h'
  | getfile rpath lpath =>
      cases rpath with
      | none =>
          obtain ⟨c₁, l₁, hlist, h⟩ := h
          obtain ⟨c₂, l₂, hlist', h'⟩ := h'
          obtain ⟨rfl, rfl⟩ := Line.data_unique hlist hlist'
          exact hdata h h'
      | some rpath => exact hdata h h'
  | putfile lpath rpath =>
      cases lpath with
      | none => exact h.trans h'.symm
      | some lpath => exact hdata h h'
  | putunique lpath =>
      cases lpath with
      | none => exact h.trans h'.symm
      | some lpath => exact hdata h h'
  | append lpath rpath =>
      cases lpath with
      | none => exact h.trans h'.symm
      | some lpath => exact hdata h h'

/-- The call opens sockets of its own. -/
def Connects : Visit → Prop
  | control _ | get_response | useraddr _ => False
  | list _ _ | getfile _ _ | putfile _ _ | putunique _ | append _ _ => True

section Exec

variable {b : Nat} {B : ℕ+} {ω α : Type} {ctl : Int} {A : NetKernel ω} {m m' k k' : Alloc} {n : Nat} {S : Prop}
  {l' : Line} {P : α → Prop} {s : Proc Client (Peer b ω)}

theorem onTransfer_ways {p : Prog Raised (Proc Transfer (Peer b ω)) α} {P : α → Line → Prop} {E : Prop}
    (h : (p s.transfer).Ways (fun a t => ∃ l', P a l' ∧ Hears ctl l' ⟨t.obj.ftp, t.sys⟩) (fun _ _ => E) S) :
    (onTransfer p s).Ways (fun a s' => ∃ l', P a l' ∧ Hears ctl l' s'.ftpbuf) (fun _ _ => E) S := by
  rw [onTransfer, Prog.zoom_apply, Outcome.ways_mapState]
  exact h

theorem onControl_ways {p : FtpM (Peer b ω) α} {E : Prop}
    (h : (p s.ftpbuf).Ways (fun a _ => P a) (fun _ _ => E) S) :
    (onControl p s).Ways (fun a _ => P a) (fun _ _ => E) S := by
  rw [onControl, onTransfer, Prog.zoom_apply, Outcome.ways_mapState]
  refine raising_ways ?_
  rw [onFtp, Prog.zoom_apply, Outcome.ways_mapState]
  exact h

/-- A reply that the call waits for. -/
theorem reply_ways {p : FtpM (Peer b ω) Byte} {E : Prop} {t : Proc Ftpbuf (Peer b ω)}
    (h : (p t).Ways (fun c t' => l.Ends ∧ l.value = some c ∧ Hears ctl l.next t') (fun _ _ => E)
      (n ≤ l.looks.length ∨ ¬ l.Ends)) :
    (p t).Ways (fun c _ => l.Ends ∧ l.value = some c) (fun _ _ => E)
      (n ≤ l.looks.length ∨ ¬ ∃ c, l.Ends ∧ l.value = some c) := by
  refine h.mono (fun _ _ h => ⟨h.1, h.2.1⟩) (fun _ _ h => h) (Or.imp_right fun hends => ?_)
  rintro ⟨c, h, -⟩
  exact hends h

theorem rename_ways {t : Proc Ftpbuf (Peer b ω)} (h : Hears ctl l t) (rpath newrpath : List Byte) :
    (Ftpbuf.rename (A.feed b ctl).toKernel n (some rpath) (some newrpath) t).Ways
      (fun c _ => (control (.rename (some rpath) (some newrpath))).Takes o l c) (fun _ _ => ¬ A.toKernel.WriteSucceeds)
      (n ≤ l.looks.length ∨ ¬ ∃ c, (control (.rename (some rpath) (some newrpath))).Takes o l c) := by
  have hlen : l.next.looks.length ≤ l.looks.length := by
    rw [Line.next, behindReply, List.length_drop]
    omega
  rw [Ftpbuf.rename, Prog.bind_apply]
  refine Outcome.Ways.andThen (Q := fun c t' => (l.Ends ∧ l.value = some c) ∧ Hears ctl l.next t') ?_
    fun c₁ t₁ h₁ => ?_
  · refine (sendCmd_ways h _ _).mono (fun _ _ h => ⟨⟨h.1, h.2.1⟩, h.2.2⟩) (fun _ _ h => h) ?_
    refine Or.imp_right fun hends => ?_
    rintro ⟨c, ⟨hr, -⟩ | ⟨hg, -⟩⟩
    · exact hends hr.1
    · exact hends hg.1
  obtain ⟨hfirst, h₁⟩ := h₁
  rw [Prog.ite_apply]
  split
  · rename_i herr
    exact .inl ⟨⟨hfirst.1, c₁, hfirst.2, herr⟩, rfl⟩
  · rename_i herr
    have hg : l.Granted := ⟨hfirst.1, c₁, hfirst.2, herr⟩
    refine (sendCmd_ways h₁ _ _).mono (fun _ _ h => .inr ⟨hg, h.1, h.2.1⟩) (fun _ _ h => h) ?_
    refine Or.imp (fun h => Nat.le_trans h hlen) fun hends => ?_
    rintro ⟨c, ⟨hr, -⟩ | ⟨-, hends', -⟩⟩
    · exact absurd hr hg.not_refused
    · exact hends hends'

/-- A transfer. -/
theorem onTransfer_ftpdata_ways (h : Hears ctl l s.ftpbuf) (i : Bool) (os : Option OStream) (cmd : List Byte)
    (arg : Option (List Byte)) :
    (onTransfer (ftpdata (A.feed b ctl) B m m' n 10000 i os cmd arg) s).Ways
      (fun c s' => ∃ l', Data os.isSome l c l' ∧ Hears ctl l' s'.ftpbuf) (fun _ _ => ¬ A.Serves)
      (n ≤ l.looks.length ∨ Stuck A b ctl n ∨ ¬ ∃ c l', Data os.isSome l c l') :=
  onTransfer_ways (ftpdata_ways (s := s.transfer) h i os cmd arg)

theorem list_ways (h : Hears ctl l s.ftpbuf) (rpath : Option (List Byte)) (just : Bool) :
    (Client.list (A.feed b ctl) B m m' n rpath just s).Ways
      (fun c s' => ∃ l', Data s.ftpbuf.obj.o.isSome l c l' ∧ Hears ctl l' s'.ftpbuf) (fun _ _ => ¬ A.Serves)
      (n ≤ l.looks.length ∨ Stuck A b ctl n ∨ ¬ ∃ c l', Data s.ftpbuf.obj.o.isSome l c l') := by
  have hdata : ∀ cmd, (onTransfer (ftpdata (A.feed b ctl) B m m' n 10000 false
      (s.obj.transfer.ftp.o.map fun _ => OStream.own) cmd rpath) s).Ways _ _ _ := fun cmd =>
    onTransfer_ftpdata_ways h false _ cmd rpath
  simp only [Option.isSome_map] at hdata
  cases just with
  | true => exact hdata (ascii "NLST")
  | false => exact hdata (ascii "LIST")

/-- A download, with the file it goes to. -/
theorem inBlock_ftpdata_ways (h : Hears ctl l s.ftpbuf) (rpath : Option (List Byte)) :
    (inBlock (modify (Proc.onObj closeOut))
      (onTransfer (ftpdata (A.feed b ctl) B m m' n 10000 false (some .file) (ascii "RETR") rpath)) s).Ways
      (fun c _ => ∃ l', Data true l c l') (fun _ _ => ¬ A.Serves)
      (n ≤ l.looks.length ∨ Stuck A b ctl n ∨ ¬ ∃ c l', Data true l c l') := by
  refine inBlock_ways (P := fun c _ => ∃ l', Data true l c l') (F := fun _ => ¬ A.Serves) (D := fun _ => ¬ A.Serves)
    ?_ (fun c _ hc => hc) (fun _ hA => hA) fun _ hA => hA
  exact (onTransfer_ftpdata_ways h _ _ _ _).mono (fun _ _ ⟨l', hdata, _⟩ => ⟨l', hdata⟩) (fun _ _ h => h) id

/-- Without a path the directory is listed first. -/
theorem getfile_ways (h : Hears ctl l s.ftpbuf) (rpath lpath : Option (List Byte)) :
    (Client.getfile (A.feed b ctl) B m m' k k' n rpath lpath s).Ways
      (fun c _ => (getfile rpath lpath).Takes s.ftpbuf.obj.o.isSome l c) (fun _ _ => ¬ A.Serves)
      (n ≤ l.looks.length ∨ Stuck A b ctl n ∨ ¬ ∃ c, (getfile rpath lpath).Takes s.ftpbuf.obj.o.isSome l c) := by
  have hfile : ∀ {l : Line} {s : Proc Client (Peer b ω)}, Hears ctl l s.ftpbuf →
      Hears ctl l (s.onObj (openOut (lpath.or rpath))).ftpbuf := fun h => h.of_inbox (openOut_ftp _ _) rfl
  rw [Client.getfile, openFile, Prog.bind_apply]
  cases rpath with
  | some rpath =>
      exact inBlock_ftpdata_ways (hfile h) (some rpath)
  | none =>
      rw [if_pos rfl]
      refine Outcome.Ways.andThen
        (Q := fun _ s' => ∃ c₁ l₁, Data s.ftpbuf.obj.o.isSome l c₁ l₁ ∧ Hears ctl l₁ s'.ftpbuf) ?_ ?_
      · rw [Prog.bind_apply]
        refine ((list_ways h none false).mono (fun _ _ h => h) (fun _ _ h => h) ?_).andThen fun c₁ s₁ hlist => ?_
        · refine Or.imp_right (Or.imp_right fun hlist => ?_)
          rintro ⟨c, c₁, l₁, hdata, -⟩
          exact hlist ⟨c₁, l₁, hdata⟩
        · obtain ⟨l₁, hlist, h₁⟩ := hlist
          exact ⟨c₁, l₁, hlist, hfile h₁⟩
      · rintro - s₁ ⟨c₁, l₁, hlist, h₁⟩
        refine (inBlock_ftpdata_ways h₁ none).mono (fun c _ h => ⟨c₁, l₁, hlist, h⟩) (fun _ _ h => h) ?_
        refine Or.imp (fun h => Nat.le_trans h (Line.data_length hlist)) (Or.imp_right fun hdata => ?_)
        rintro ⟨c, c₂, l₂, hlist', h⟩
        obtain ⟨rfl, rfl⟩ := Line.data_unique hlist hlist'
        exact hdata ⟨c, h⟩

/-- What a call needs of the kernel besides the connection. -/
def Served (A : NetKernel ω) : Visit → Prop
  | get_response => True
  | control _    => A.toKernel.WriteSucceeds
  | _            => A.Serves

/-- **A call** is cut off, or returns what `Takes` says. -/
theorem exec_ways (h : Hears ctl l s.ftpbuf) (v : Visit) :
    (v.exec (A.feed b ctl) B m m' k k' n s).Ways (fun c _ => v.Takes s.ftpbuf.obj.o.isSome l c)
      (fun _ _ => ¬ v.Served A)
      (n ≤ l.looks.length ∨ v.Connects ∧ Stuck A b ctl n ∨ ¬ ∃ c, v.Takes s.ftpbuf.obj.o.isSome l c) := by
  have hsend : ∀ cmd arg, (Ftpbuf.sendCmd (A.feed b ctl).toKernel n cmd arg s.ftpbuf).Ways
      (fun c _ => l.Ends ∧ l.value = some c) (fun _ _ => ¬ A.toKernel.WriteSucceeds)
      (n ≤ l.looks.length ∨ False ∧ Stuck A b ctl n ∨ ¬ ∃ c, l.Ends ∧ l.value = some c) := fun cmd arg =>
    (reply_ways (sendCmd_ways h cmd arg)).mono (fun _ _ h => h) (fun _ _ h => h) (Or.imp_right .inr)
  have hupload : ∀ (cmd : List Byte) (arg : Option (List Byte)) (f : Client → Client), (∀ x, (f x).transfer.ftp = x.transfer.ftp) →
      (onTransfer (ftpdata (A.feed b ctl) B m m' n 10000 true none cmd arg) (s.onObj f)).Ways
        (fun c _ => ∃ l', Data false l c l') (fun _ _ => ¬ A.Serves)
        (n ≤ l.looks.length ∨ True ∧ Stuck A b ctl n ∨ ¬ ∃ c l', Data false l c l') := by
    intro cmd arg f hf
    have hs : Hears ctl l (s.onObj f).ftpbuf := h.of_inbox (hf s.obj) rfl
    exact (onTransfer_ftpdata_ways hs true none cmd arg).mono (fun _ _ ⟨l', hdata, _⟩ => ⟨l', hdata⟩)
      (fun _ _ h => h) (Or.imp_right (Or.imp_left fun h => ⟨trivial, h⟩))
  cases v with
  | control call =>
      refine onControl_ways ?_
      cases hc : call.sends with
      | some p =>
          rw [Ftpbuf.Call.exec_of_sends _ _ hc]
          cases call <;> cases hc <;> exact hsend _ _
      | none =>
          cases call with
          | rename rpath newrpath =>
              cases rpath with
              | none => rfl
              | some rpath =>
                  cases newrpath with
                  | none => rfl
                  | some newrpath =>
                      exact (rename_ways h rpath newrpath).mono (fun _ _ h => h) (fun _ _ h => h) (Or.imp_right .inr)
          | _ => cases hc
  | get_response =>
      refine onControl_ways ?_
      exact (reply_ways (getResponse_ways h)).mono (fun _ _ h => h) (fun _ _ h => h.elim) (Or.imp_right .inr)
  | useraddr sa =>
      refine onControl_ways ?_
      exact (reply_ways (useraddr_ways h sa)).mono (fun _ _ h => h) (fun _ _ h => h) (Or.imp_right .inr)
  | list rpath just =>
      exact (list_ways h rpath just).mono (fun _ _ ⟨l', hdata, _⟩ => ⟨l', hdata⟩) (fun _ _ h => h)
        (Or.imp_right (Or.imp_left fun h => ⟨trivial, h⟩))
  | getfile rpath lpath =>
      exact (getfile_ways h rpath lpath).mono (fun _ _ h => h) (fun _ _ h => h)
        (Or.imp_right (Or.imp_left fun h => ⟨trivial, h⟩))
  | putfile lpath rpath =>
      cases lpath with
      | none => rfl
      | some lpath => exact hupload _ _ _ fun _ => rfl
  | putunique lpath =>
      cases lpath with
      | none => rfl
      | some lpath => exact hupload _ _ _ fun _ => rfl
  | append lpath rpath =>
      cases lpath with
      | none => rfl
      | some lpath => exact hupload _ _ _ fun _ => rfl

/-! ### Reports -/

/-- The search for a free port ends. -/
def Binds (A : NetKernel ω) (b : Nat) (ctl : Int) : Prop := ∃ n, ¬ Stuck A b ctl n

theorem stuck_of_le {n' : Nat} (h : Stuck A b ctl n') (hn : n ≤ n') : Stuck A b ctl n := by
  obtain ⟨t, hspin⟩ := h
  refine ⟨t, ?_⟩
  by_contra hne
  exact hne ((Prog.loop_mono hn hne).symm.trans hspin)

theorem Served.binds (h : v.Served A) (hv : v.Connects) : Binds A b ctl := by
  have hserves : A.Serves := by
    cases v with
    | control call => exact hv.elim
    | get_response => exact hv.elim
    | _ => exact h
  refine ⟨1, ?_⟩
  rintro ⟨t, hspin⟩
  have hbind : (Sockbuf.bind (A.feed b ctl) (sockinetaddr INADDR_ANY 10000) t).Sat _ _ := bind_idle _ t
  obtain ⟨u, t', hret, -⟩ := (hbind.mono (fun _ _ h => h) fun _ _ h => h.2 hserves).returns
  have hround : Sockinetbuf.bindRound (A.feed b ctl) 10000 t = .ret (.inr 10000) t' := by
    rw [Sockinetbuf.bindRound, Prog.tryCatch_apply, Prog.bind_apply, Sockinetbuf.bindPort, hret]
    rfl
  rw [Sockinetbuf.bind_until_success, Prog.loop_succ, hround] at hspin
  cases hspin

/-- The same client with another `replycode`; the earlier commands determine what it holds, and before the
first one it is not initialised. -/
def holding (s : Proc Client (Peer b ω)) (x : Mem Byte) : Proc Client (Peer b ω) :=
  s.onObj fun o => { o with transfer := { o.transfer with ftp := { o.transfer.ftp with replycode := x } } }

/-- The call ends, and if it returns it returns `c`. -/
def Gives (p : Nat → ClientM (Peer b ω) Byte) (s : Proc Client (Peer b ω)) (c : Byte) : Prop :=
  ∃ n, (p n s).Sat (fun c' _ => c' = c) fun _ _ => True

/-- Whatever `replycode` holds, the call ends, and if it returns it returns the same error. -/
def Reports (p : Nat → ClientM (Peer b ω) Byte) (s : Proc Client (Peer b ω)) : Prop :=
  ∃ c, IsError c ∧ ∀ x : Mem Byte, Gives p (holding s x) c

theorem gives_of_takes (h : Hears ctl l s.ftpbuf) (hbind : v.Connects → Binds A b ctl)
    (htakes : v.Takes s.ftpbuf.obj.o.isSome l c) :
    Gives (fun n => v.exec (A.feed b ctl) B m m' k k' n) s c := by
  obtain ⟨n₀, hn₀⟩ : ∃ n₀, ¬ (v.Connects ∧ Stuck A b ctl n₀) := by
    by_cases hv : v.Connects
    · obtain ⟨n₀, hn₀⟩ := hbind hv
      exact ⟨n₀, fun h => hn₀ h.2⟩
    · exact ⟨0, fun h => hv h.1⟩
  refine ⟨max n₀ (l.looks.length + 1), ((exec_ways h v).sat ?_).mono
    (fun c' _ h => takes_unique h htakes) fun _ _ _ => trivial⟩
  rintro (hlooks | ⟨hv, hstuck⟩ | hno)
  · exact absurd (Nat.le_trans (Nat.le_max_right _ _) hlooks) (Nat.not_succ_le_self _)
  · exact hn₀ ⟨hv, stuck_of_le hstuck (Nat.le_max_left _ _)⟩
  · exact hno ⟨c, htakes⟩

theorem takes_of_gives (h : Hears ctl l s.ftpbuf) (hA : v.Served A)
    (hgives : Gives (fun n => v.exec (A.feed b ctl) B m m' k k' n) s c) : v.Takes s.ftpbuf.obj.o.isSome l c := by
  obtain ⟨n, hn⟩ := hgives
  have hways : (v.exec (A.feed b ctl) B m m' k k' n s).Ways _ _ _ := exec_ways h v
  have hsat := hways.sat_of_sat hn
  obtain ⟨c', s', -, htakes, rfl⟩ := (hsat.mono (fun _ _ h => h) fun _ _ h => h.1 hA).returns
  exact htakes

/-- **A dead control connection.**  On a connection that ends, a call reports an error, whatever was there
before, if it finds the replies of a refusal, and only then, unless some other call on the kernel fails.  A
transfer looks for a free port first. -/
theorem eof_reports_iff (hsock : OnFd ctl s.control) (hf : Fed s.control) (hw : s.control.obj.Writable)
    (v : Visit) :
    (v.Refused s.ftpbuf.obj.o.isSome ⟨looks s.control, none⟩ → (v.Connects → Binds A b ctl) →
      Reports (fun n => v.exec (A.feed b ctl) B m m' k k' n) s) ∧
    (v.Served A → (Reports (fun n => v.exec (A.feed b ctl) B m m' k k' n) s ↔
      v.Refused s.ftpbuf.obj.o.isSome ⟨looks s.control, none⟩)) := by
  have hears : ∀ x : Mem Byte, Hears ctl (Line.fill (x 0) ⟨looks s.control, none⟩) (holding s x).ftpbuf := fun x =>
    ⟨hsock, ⟨hf.readable, hf.gend⟩, hw, rfl, rfl⟩
  have hreports : v.Refused s.ftpbuf.obj.o.isSome ⟨looks s.control, none⟩ → (v.Connects → Binds A b ctl) →
      Reports (fun n => v.exec (A.feed b ctl) B m m' k k' n) s := by
    intro h hbind
    obtain ⟨c, herr, htakes⟩ := refused_iff.mp h
    exact ⟨c, herr, fun x => gives_of_takes (hears x) hbind (htakes (x 0))⟩
  refine ⟨hreports, fun hA => ⟨?_, fun h => hreports h fun hv => hA.binds hv⟩⟩
  rintro ⟨c, herr, hgives⟩
  exact refused_iff.mpr ⟨c, herr, fun x => takes_of_gives (s := holding s fun _ => x) (hears fun _ => x) hA (hgives fun _ => x)⟩

end Exec

/-- A client on whose control connection the chunks are to come. -/
def calling (cs : List (Chunk 1024)) : Proc Client (Peer 1024 (Peer 1024 Unit × Peer 1024 Unit)) where
  obj := { (Client.downloading true).obj with transfer := Transfer.client.obj }
  sys := ⟨⟨cs, (⟨[], ()⟩, ⟨[], ()⟩)⟩, 0, []⟩

/-- A refusal whose last line is missing. -/
def goodbye : List (Chunk 1024) := [⟨ascii "421-good", by decide⟩, ⟨ascii "bye\r\n", by decide⟩]

/-- PORT is refused, and then the transfer is. -/
def unwelcome : List (Chunk 1024) := [⟨ascii "500 no\r\n", by decide⟩, ⟨ascii "425 no\r\n", by decide⟩]

/-- A NOOP at a refusal; an upload at a refusal, and at the reply to PORT alone, be it an error; and a NOOP
where nothing is to come. -/
theorem eof_reports_iff_calls :
    let run := fun (v : Visit) n => v.exec ((server 5).feed 1024 3) bufsiz scratch scratch scratch scratch n
    Reports (run (.control .noop)) (calling goodbye) ∧
    Reports (run (.putfile (some (ascii "f")) none)) (calling unwelcome) ∧
    Reports (run (.putfile (some (ascii "f")) none)) (calling (unwelcome.take 1)) ∧
    ¬ Reports (run (.control .noop)) (calling []) := by
  intro run
  have hsock : ∀ cs, OnFd 3 (calling cs).control := fun _ => rfl
  have hiff : ∀ (cs : List (Chunk 1024)) (v : Visit),
      (v.Refused false ⟨looks (calling cs).control, none⟩ → (v.Connects → Binds (server 5) 1024 3) →
        Reports (run v) (calling cs)) ∧
      (v.Served (server 5) → (Reports (run v) (calling cs) ↔ v.Refused false ⟨looks (calling cs).control, none⟩)) :=
    fun cs v => eof_reports_iff (hsock cs) ⟨⟨_, rfl⟩, rfl⟩ (ofDesc_writable bufsiz 3 (fun _ => 0) fun _ => 0) v
  have hbinds : Binds (server 5) 1024 3 := ⟨1, fun ⟨t, hspin⟩ => by cases hspin⟩
  refine ⟨?_, ?_, ?_, ?_⟩
  · exact (hiff goodbye (.control .noop)).1 ⟨by decide, 52, by decide, by decide⟩ fun h => h.elim
  · exact (hiff unwelcome _).1 ⟨by decide, .inl ⟨by decide, 52, by decide, by decide⟩⟩ fun _ => hbinds
  · exact (hiff (unwelcome.take 1) _).1 ⟨by decide, .inl ⟨by decide, 53, by decide, by decide⟩⟩ fun _ => hbinds
  · intro h
    obtain ⟨-, b, hb, -⟩ := ((hiff [] (.control .noop)).2
      (Kernel.withFile_writeSucceeds (Kernel.smooth_writeSucceeds 1024) 5)).mp h
    cases hb

end Visit

end Socketpp
