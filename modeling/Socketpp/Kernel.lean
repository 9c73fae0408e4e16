import Socketpp.Lib.Prog

/-!
# Kernel — the system calls a sockbuf makes

A kernel is a machine with states of any type `κ`: each call takes it to a next state and gives
an answer.  What an answer can be is part of its type: `::write` accepts a non-empty prefix of
the bytes offered or fails, `::read` gives between 1 and the requested number of bytes, end of
file, or fails.  Nothing else is assumed of a kernel, so a theorem about all kernels is one about
all ways of cutting the data, all failures and all delays.

`Sys κ` is the kernel with `errno` and the list of calls made so far (`trace`); `sentOn` and
`receivedOn` read the accepted and the received bytes of a descriptor off the trace.
-/

namespace Socketpp
open Lib

abbrev Byte := UInt8

/-- An answer of `::write` to `len` bytes. -/
inductive WriteResult (len : Nat) where
  | accepted (n : Nat) (pos : 0 < n) (le : n ≤ len)
  | failed (errno : Int)

/-- An answer of `::read` with room for `len` bytes. -/
inductive ReadResult (len : Nat) where
  | data (bs : List Byte) (pos : 0 < bs.length) (le : bs.length ≤ len)
  | eof
  | failed (errno : Int)

/-- `sockbuf::shuthow`. -/
inductive Shuthow where
  | shut_read
  | shut_write
  | shut_readwrite
deriving DecidableEq

/-- The answers of a kernel.  `select` waits for one descriptor and answers with the number of
ready descriptors, 0 on a timeout; `sockatmark` is `ioctl (SIOCATMARK)`. -/
structure Kernel (κ : Type) where
  write       : κ → (fd : Int) → (bs : List Byte) → WriteResult bs.length × κ
  read        : κ → (fd : Int) → (len : Nat) → ReadResult len × κ
  selectRead  : κ → (fd : Int) → (sec : Int) → Except Int Nat × κ
  selectWrite : κ → (fd : Int) → (sec : Int) → Except Int Nat × κ
  sockatmark  : κ → (fd : Int) → Except Int Bool × κ
  shutdown    : κ → (fd : Int) → Shuthow → Except Int Unit × κ
  open_       : κ → (path : String) → Except Int Int × κ

/-- A call made, with what it gave: `none` is the return value -1. -/
inductive Syscall where
  | write (fd : Int) (offered : List Byte) (accepted : Option Nat)
  | read (fd : Int) (len : Nat) (received : Option (List Byte))
  | selectRead (fd : Int) (sec : Int) (ready : Option Nat)
  | selectWrite (fd : Int) (sec : Int) (ready : Option Nat)
  | sockatmark (fd : Int) (mark : Option Bool)
  | shutdown (fd : Int) (how : Shuthow) (ok : Bool)
  | open_ (path : String) (fd : Option Int)
deriving DecidableEq

/-- The kernel, `errno` and the calls made so far. -/
structure Sys (κ : Type) where
  kern  : κ
  errno : Int
  trace : List Syscall

/-- The bytes a call hands to the kernel on `fd`. -/
def Syscall.sentOn (fd : Int) : Syscall → List Byte
  | .write fd' bs (some n) => if fd' = fd then bs.take n else []
  | _ => []

/-- The bytes a call receives from the kernel on `fd`. -/
def Syscall.receivedOn (fd : Int) : Syscall → List Byte
  | .read fd' _ (some bs) => if fd' = fd then bs else []
  | _ => []

/-- The bytes the kernel has accepted on `fd`. -/
def sentOn (fd : Int) (calls : List Syscall) : List Byte := calls.flatMap (Syscall.sentOn fd)

/-- The bytes received from the kernel on `fd`. -/
def receivedOn (fd : Int) (calls : List Syscall) : List Byte :=
  calls.flatMap (Syscall.receivedOn fd)

@[simp] theorem sentOn_append (fd : Int) (a b : List Syscall) :
    sentOn fd (a ++ b) = sentOn fd a ++ sentOn fd b := List.flatMap_append

@[simp] theorem receivedOn_append (fd : Int) (a b : List Syscall) :
    receivedOn fd (a ++ b) = receivedOn fd a ++ receivedOn fd b := List.flatMap_append

namespace Sys

variable {κ ε α : Type}

/-- Enter a call and its answer. -/
def enter (y : Sys κ) (k : κ) (c : Syscall) : Sys κ := { y with kern := k, trace := y.trace ++ [c] }

/-- Enter a call that returned -1. -/
def enterFailed (y : Sys κ) (k : κ) (e : Int) (c : Syscall) : Sys κ :=
  { kern := k, errno := e, trace := y.trace ++ [c] }

/-- Enter a call that answers with a number or -1. -/
def enterAnswer (y : Sys κ) (c : Option α → Syscall) : Except Int α × κ → Outcome ε (Sys κ) (Option α)
  | (.ok a, k)    => .ret (some a) (y.enter k (c (some a)))
  | (.error e, k) => .ret none (y.enterFailed k e (c none))

/-- `::write`; `none` is -1. -/
def write (K : Kernel κ) (fd : Int) (bs : List Byte) : Prog ε (Sys κ) (Option Nat) := fun y =>
  match K.write y.kern fd bs with
  | (.accepted n _ _, k) => .ret (some n) (y.enter k (.write fd bs (some n)))
  | (.failed e, k)       => .ret none (y.enterFailed k e (.write fd bs none))

/-- `::read`; `none` is -1, `some []` is 0. -/
def read (K : Kernel κ) (fd : Int) (len : Nat) : Prog ε (Sys κ) (Option (List Byte)) := fun y =>
  match K.read y.kern fd len with
  | (.data bs _ _, k) => .ret (some bs) (y.enter k (.read fd len (some bs)))
  | (.eof, k)         => .ret (some []) (y.enter k (.read fd len (some [])))
  | (.failed e, k)    => .ret none (y.enterFailed k e (.read fd len none))

def selectRead (K : Kernel κ) (fd sec : Int) : Prog ε (Sys κ) (Option Nat) := fun y =>
  y.enterAnswer (.selectRead fd sec) (K.selectRead y.kern fd sec)

def selectWrite (K : Kernel κ) (fd sec : Int) : Prog ε (Sys κ) (Option Nat) := fun y =>
  y.enterAnswer (.selectWrite fd sec) (K.selectWrite y.kern fd sec)

def sockatmark (K : Kernel κ) (fd : Int) : Prog ε (Sys κ) (Option Bool) := fun y =>
  y.enterAnswer (.sockatmark fd) (K.sockatmark y.kern fd)

def shutdown (K : Kernel κ) (fd : Int) (how : Shuthow) : Prog ε (Sys κ) (Option Unit) := fun y =>
  y.enterAnswer (fun r => .shutdown fd how r.isSome) (K.shutdown y.kern fd how)

def open_ (K : Kernel κ) (path : String) : Prog ε (Sys κ) (Option Int) := fun y =>
  y.enterAnswer (.open_ path) (K.open_ y.kern path)

@[simp] theorem trace_enter (y : Sys κ) (k : κ) (c : Syscall) :
    (y.enter k c).trace = y.trace ++ [c] := rfl
@[simp] theorem kern_enter (y : Sys κ) (k : κ) (c : Syscall) : (y.enter k c).kern = k := rfl
@[simp] theorem trace_enterFailed (y : Sys κ) (k : κ) (e : Int) (c : Syscall) :
    (y.enterFailed k e c).trace = y.trace ++ [c] := rfl
@[simp] theorem kern_enterFailed (y : Sys κ) (k : κ) (e : Int) (c : Syscall) :
    (y.enterFailed k e c).kern = k := rfl

end Sys

/-! ### Success -/

/-- The writability wait succeeds and `::write` does not fail.  `::write` may still be short. -/
structure Kernel.WriteSucceeds {κ : Type} (K : Kernel κ) : Prop where
  write : ∀ k fd b l, ∃ n pos le k', K.write k fd (b :: l) = (.accepted n pos le, k')
  selectWrite : ∀ k fd sec, ∃ n k', K.selectWrite k fd sec = (.ok (n + 1), k')

/-! ### A peer -/

/-- The bytes one `::read` gives, at most `B` of them. -/
abbrev Chunk (B : Nat) := { c : List Byte // c ≠ [] ∧ c.length ≤ B }

/-- The state of a kernel with one connection: what the peer has sent, cut into the reads that
will give it, and what decides about writes. -/
structure Peer (B : Nat) (ω : Type) where
  inbox  : List (Chunk B)
  outbox : ω

/-- Take the next chunk, or as much of it as there is room for. -/
def Peer.take {B : Nat} {ω : Type} (k : Peer B ω) (len : Nat) : ReadResult len × Peer B ω :=
  match k.inbox with
  | []      => (.eof, k)
  | c :: cs =>
    if h : c.1.length ≤ len then
      (.data c.1 (List.length_pos_iff.mpr c.2.1) h, { k with inbox := cs })
    else if h0 : 0 < len then
      (.data (c.1.take len) (by rw [List.length_take]; omega) (by rw [List.length_take]; omega),
        { k with inbox := ⟨c.1.drop len, by
            rw [← List.length_pos_iff, List.length_drop]; omega, by
            have := c.2.2; rw [List.length_drop]; omega⟩ :: cs })
    else (.eof, k)

/-- The kernel of a connection whose peer has sent what is in the inbox and then closes.  Writes
are answered by `W`; no wait times out. -/
def Kernel.feed {ω : Type} (B : Nat) (W : ω → (bs : List Byte) → WriteResult bs.length × ω) :
    Kernel (Peer B ω) where
  write k _ bs      := ((W k.outbox bs).1, { k with outbox := (W k.outbox bs).2 })
  read k _ len      := k.take len
  selectRead k _ _  := (.ok 1, k)
  selectWrite k _ _ := (.ok 1, k)
  sockatmark k _    := (.ok false, k)
  shutdown k _ _    := (.ok (), k)
  open_ k _         := (.error 2, k)

/-- Accept all that is offered. -/
def WriteResult.all (bs : List Byte) : WriteResult bs.length :=
  if h : 0 < bs.length then .accepted bs.length h (Nat.le_refl _) else .failed 0

/-- The kernel of a connection that accepts every write as a whole. -/
def Kernel.smooth (B : Nat) : Kernel (Peer B Unit) := .feed B fun _ bs => (.all bs, ())

theorem Kernel.smooth_writeSucceeds (B : Nat) : (Kernel.smooth B).WriteSucceeds where
  write k _ _ l := ⟨_, Nat.succ_pos l.length, Nat.le_refl _, k, rfl⟩
  selectWrite k _ _ := ⟨0, k, rfl⟩

/-! ### A file -/

/-- The kernel `K` where every path opens a file on the descriptor `fd`.  A read of the file gives
its next chunk; all else is answered by `K`. -/
def Kernel.withFile {κ : Type} (K : Kernel κ) (fd : Int) : Kernel (κ × Peer 1024 Unit) where
  write k fd' bs := ((K.write k.1 fd' bs).1, (K.write k.1 fd' bs).2, k.2)
  read k fd' len :=
    if fd' = fd then ((k.2.take len).1, k.1, (k.2.take len).2)
    else ((K.read k.1 fd' len).1, (K.read k.1 fd' len).2, k.2)
  selectRead k fd' sec := ((K.selectRead k.1 fd' sec).1, (K.selectRead k.1 fd' sec).2, k.2)
  selectWrite k fd' sec := ((K.selectWrite k.1 fd' sec).1, (K.selectWrite k.1 fd' sec).2, k.2)
  sockatmark k fd' := ((K.sockatmark k.1 fd').1, (K.sockatmark k.1 fd').2, k.2)
  shutdown k fd' how := ((K.shutdown k.1 fd' how).1, (K.shutdown k.1 fd' how).2, k.2)
  open_ k _ := (.ok fd, k)

theorem Kernel.withFile_writeSucceeds {κ : Type} {K : Kernel κ} (h : K.WriteSucceeds) (fd : Int) :
    (K.withFile fd).WriteSucceeds where
  write k fd' b l := by
    obtain ⟨n, pos, le, k', hw⟩ := h.write k.1 fd' b l
    exact ⟨n, pos, le, (k', k.2), by simp only [withFile, hw]⟩
  selectWrite k fd' sec := by
    obtain ⟨n, k', hs⟩ := h.selectWrite k.1 fd' sec
    exact ⟨n, (k', k.2), by simp only [withFile, hs]⟩

end Socketpp
