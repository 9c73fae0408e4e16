import Mathlib.Data.List.Infix
import Socketpp.Lib.Channel
import Socketpp.Connection.Account

/-!
# Connection — two sockbufs and the link between them

Each end of a connection is a process with a sockbuf on its descriptor; each makes its system calls by
itself.  What couples them is the connection: two channels, one in each direction.  A `::write` puts
bytes into one, and a `::read` at the other end takes them out.

An `Event` is a system call at one end, or the end of the process that holds it.  A list of events is one
order in which the two made their calls; `Linked` says that the connection allows it.  Nothing is said
about when a call is made, how the bytes are cut, or which calls fail.
-/

namespace Socketpp
open Lib

/-! ### What a call does to the connection -/

namespace Syscall

/-- What a call on `fd` does to the channel that leads away. -/
def outgoing (fd : Int) : Syscall → Option (ChannelEvent Byte)
  | .write fd' bs (some n)  => if fd' = fd then some (.put (bs.take n)) else none
  | .shutdown fd' how true  => if fd' = fd ∧ how ≠ .shut_read then some .shut else none
  | _                       => none

/-- What a call on `fd` does to the channel that leads here. -/
def incoming (fd : Int) : Syscall → Option (ChannelEvent Byte)
  | .read fd' _ (some [])       => if fd' = fd then some .ended else none
  | .read fd' _ (some (b :: l)) => if fd' = fd then some (.take (b :: l)) else none
  | .shutdown fd' how true      => if fd' = fd ∧ how ≠ .shut_write then some .deafen else none
  | _                           => none

variable {fd : Int} {c : Syscall}

/-- A call puts in what it hands to the kernel, and takes nothing out. -/
theorem outgoing_puts (fd : Int) (c : Syscall) : ((c.outgoing fd).toList.flatMap ChannelEvent.puts) = c.sentOn fd ∧
    ((c.outgoing fd).toList.flatMap ChannelEvent.takes) = [] := by
  cases c with
  | write fd' bs r =>
      cases r with
      | none => exact ⟨rfl, rfl⟩
      | some n =>
          by_cases h : fd' = fd
          · simp [outgoing, sentOn, h, ChannelEvent.puts, ChannelEvent.takes]
          · simp [outgoing, sentOn, h]
  | shutdown fd' how ok =>
      cases ok with
      | false => exact ⟨rfl, rfl⟩
      | true =>
          by_cases h : fd' = fd ∧ how ≠ .shut_read
          · simp [outgoing, sentOn, h, ChannelEvent.puts, ChannelEvent.takes]
          · simp [outgoing, sentOn, h]
  | read | selectRead | selectWrite | sockatmark | open_ => exact ⟨rfl, rfl⟩

/-- A call takes out what it receives from the kernel, and puts nothing in. -/
theorem incoming_takes (fd : Int) (c : Syscall) : ((c.incoming fd).toList.flatMap ChannelEvent.takes) = c.receivedOn fd ∧
    ((c.incoming fd).toList.flatMap ChannelEvent.puts) = [] := by
  cases c with
  | read fd' len r =>
      cases r with
      | none => exact ⟨rfl, rfl⟩
      | some bs =>
          by_cases h : fd' = fd
          · cases bs <;> simp [incoming, receivedOn, h, ChannelEvent.puts, ChannelEvent.takes]
          · cases bs <;> simp [incoming, receivedOn, h]
  | shutdown fd' how ok =>
      cases ok with
      | false => exact ⟨rfl, rfl⟩
      | true =>
          by_cases h : fd' = fd ∧ how ≠ .shut_write
          · simp [incoming, receivedOn, h, ChannelEvent.puts, ChannelEvent.takes]
          · simp [incoming, receivedOn, h]
  | write | selectRead | selectWrite | sockatmark | open_ => exact ⟨rfl, rfl⟩

/-- Only a call at the end that a channel leads to makes it deaf. -/
theorem outgoing_ne_deafen : c.outgoing fd ≠ some .deafen := by
  cases c with
  | write fd' bs r => cases r <;> simp [outgoing]
  | shutdown fd' how ok => cases ok <;> simp [outgoing]
  | read | selectRead | selectWrite | sockatmark | open_ => simp [outgoing]

theorem incoming_deafen (h : c.incoming fd = some .deafen) :
    ∃ how, c = .shutdown fd how true ∧ how ≠ .shut_write := by
  cases c with
  | read fd' len r => rcases r with _ | _ | _ <;> simp [incoming] at h
  | shutdown fd' how ok =>
      cases ok with
      | false => simp [incoming] at h
      | true =>
          obtain ⟨⟨rfl, hhow⟩, -⟩ := Option.ite_none_right_eq_some.mp h
          exact ⟨how, rfl, hhow⟩
  | write | selectRead | selectWrite | sockatmark | open_ => simp [incoming] at h

end Syscall

/-! ### The connection -/

/-- The ends of a connection. -/
inductive End where
  | near
  | far
deriving DecidableEq

/-- The other end. -/
def End.other : End → End
  | near => far
  | far  => near

@[simp] theorem End.other_other (e : End) : e.other.other = e := by cases e <;> rfl

@[simp] theorem End.other_ne (e : End) : e.other ≠ e := by cases e <;> decide

@[simp] theorem End.ne_other (e : End) : e ≠ e.other := by cases e <;> decide

/-- What happens at an end: a system call, or the end of its process. -/
inductive Event where
  | call (e : End) (c : Syscall)
  | exit (e : End)

namespace Event

/-- The call of an event at the end `e`. -/
def callOf (e : End) : Event → Option Syscall
  | .call e' c => if e' = e then some c else none
  | .exit _    => none

/-- What an event does to the channel from the end `e`, with the descriptors `fd`. -/
def on (fd : End → Int) (e : End) : Event → Option (ChannelEvent Byte)
  | .call e' c => if e' = e then c.outgoing (fd e) else c.incoming (fd e.other)
  | .exit e'   => if e' = e then some .shut else some .deafen

end Event

/-- The calls made at an end. -/
def callsAt (e : End) (w : List Event) : List Syscall := w.filterMap (Event.callOf e)

/-- What happens on the channel from an end. -/
def channelOf (fd : End → Int) (e : End) (w : List Event) : List (ChannelEvent Byte) :=
  w.filterMap (Event.on fd e)

/-- The connection allows the events, and they leave its channels as `ℓ`. -/
def Linked (fd : End → Int) (w : List Event) (ℓ : End → Channel Byte) : Prop :=
  ∀ e, Channel.Run Channel.empty (channelOf fd e w) (ℓ e)

variable {fd : End → Int} {e : End} {w : List Event} {ℓ : End → Channel Byte}

theorem flatMap_filterMap {α β γ : Type} (g : α → Option β) (f : β → List γ) (l : List α) :
    (l.filterMap g).flatMap f = l.flatMap fun a => (g a).toList.flatMap f := by
  induction l with
  | nil => rfl
  | cons a l ih => cases h : g a <;> simp [h, ih]

theorem End.eq_other {e e' : End} (h : e' ≠ e) : e' = e.other := by
  cases e with
  | near =>
      cases e' with
      | near => exact absurd rfl h
      | far => rfl
  | far =>
      cases e' with
      | near => rfl
      | far => exact absurd rfl h

/-- The bytes put into a channel are those sent at its end. -/
theorem channelOf_puts (fd : End → Int) (e : End) (w : List Event) :
    (channelOf fd e w).flatMap ChannelEvent.puts = sentOn (fd e) (callsAt e w) := by
  rw [channelOf, sentOn, callsAt, flatMap_filterMap, flatMap_filterMap]
  congr 1
  funext v
  cases v with
  | call e' c =>
      by_cases he : e' = e
      · simpa [Event.on, Event.callOf, he] using (c.outgoing_puts (fd e)).1
      · simpa [Event.on, Event.callOf, he] using (c.incoming_takes (fd e.other)).2
  | exit e' => by_cases he : e' = e <;> simp [Event.on, Event.callOf, he, ChannelEvent.puts]

/-- The bytes taken out of it are those received at the other. -/
theorem channelOf_takes (fd : End → Int) (e : End) (w : List Event) :
    (channelOf fd e w).flatMap ChannelEvent.takes = receivedOn (fd e.other) (callsAt e.other w) := by
  rw [channelOf, receivedOn, callsAt, flatMap_filterMap, flatMap_filterMap]
  congr 1
  funext v
  cases v with
  | call e' c =>
      by_cases he : e' = e
      · simpa [Event.on, Event.callOf, he] using (c.outgoing_puts (fd e)).2
      · have hother := End.eq_other he
        simpa [Event.on, Event.callOf, hother] using (c.incoming_takes (fd e.other)).1
  | exit e' => by_cases he : e' = e <;> simp [Event.on, Event.callOf, he, ChannelEvent.takes]

/-- **The link**: what has been received at one end, and what is on the way to it, is what has been
sent at the other. -/
theorem Linked.conserved (h : Linked fd w ℓ) (e : End) :
    sentOn (fd e) (callsAt e w) = receivedOn (fd e.other) (callsAt e.other w) ++ (ℓ e).queue := by
  have hrun := (h e).conserved
  rw [channelOf_puts, channelOf_takes] at hrun
  exact hrun

end Socketpp
