import Mathlib.Logic.Function.Basic
import Socketpp.Sockbuf.Input
import Socketpp.Sockbuf.Shutdown

/-!
# Sockbuf — copies, the model

`sockbuf (const sockbuf&)` copies the pointer `rep` and nothing else: the base `std::streambuf` of a
copy is default-constructed, so all its pointers are null, and its `sockname` is empty.

A `Family` is the objects that share one `sockcnt`, and the system they make their calls to.  Its
first object, with the number 0, is the one constructed for the descriptor, all others are copies.  A
method of an object runs on what is the object's own and what is shared (`through`).  The family keeps
a ledger of the buffers released and the descriptors closed.
-/

namespace Socketpp
open Lib

/-- The buffers that the constructor allocates. -/
inductive Buffer where
  | gbuf
  | pbuf
deriving DecidableEq

/-- What an object does not share. -/
structure Own where
  getArea  : Option GetArea
  putArea  : Option PutArea
  sockname : String

/-- The objects that share one `sockcnt`. -/
structure Family (κ : Type) where
  rep      : Sockcnt
  own      : Nat → Own
  /-- the objects that exist -/
  live     : List Nat
  fresh    : Nat
  sys      : Sys κ
  released : List Buffer
  closed   : List Int

abbrev FamilyM (κ : Type) := Prog Thrown (Family κ)

/-- What a kernel answers to `::close`. -/
abbrev Closing (κ : Type) := κ → (fd : Int) → Except Int Unit × κ

namespace Family

variable {κ : Type}

/-- The object with the number `i`. -/
def sockbuf (f : Family κ) (i : Nat) : Sockbuf where
  rep      := f.rep
  getArea  := (f.own i).getArea
  putArea  := (f.own i).putArea
  sockname := (f.own i).sockname

def proc (i : Nat) (f : Family κ) : Proc Sockbuf κ := ⟨f.sockbuf i, f.sys⟩

/-- The family, with what a method of the object `i` has left. -/
def back (i : Nat) (s : Proc Sockbuf κ) (f : Family κ) : Family κ :=
  { f with
    rep := s.obj.rep
    own := Function.update f.own i ⟨s.obj.getArea, s.obj.putArea, s.obj.sockname⟩
    sys := s.sys }

/-- Run a method of the object `i`. -/
def through {α : Type} (i : Nat) (p : SockM κ α) : FamilyM κ α := Prog.zoom (proc i) (back i) p

/-- Run a method that stores through its caller's pointer. -/
def throughGet {α : Type} (i : Nat) (p : Prog Thrown (Sockbuf.Getting κ) α) : FamilyM κ α :=
  Prog.zoom (fun f => ⟨f.proc i, []⟩) (fun t f => f.back i t.proc) p

/-- `sockbuf (sd)`, the first of its family. -/
def ofDesc (BUFSIZ : ℕ+) (sd : Int) (gbuf pbuf : Mem Byte) (y : Sys κ) : Family κ :=
  let b := Sockbuf.ofDesc BUFSIZ sd gbuf pbuf
  { rep      := b.rep
    own      := fun _ => ⟨b.getArea, b.putArea, b.sockname⟩
    live     := [0]
    fresh    := 1
    sys      := y
    released := []
    closed   := [] }

/-- `sockbuf (sb)`. -/
def copy (_sb : Nat) : FamilyM κ Unit :=
  modify fun f => { f with
    own   := Function.update f.own f.fresh ⟨none, none, ""⟩
    live  := f.fresh :: f.live
    fresh := f.fresh + 1 }

/-- `delete [] eback ()`. -/
def deleteGet (i : Nat) : FamilyM κ Unit :=
  modify fun f => { f with
    released := if (f.own i).getArea.isSome then f.released ++ [.gbuf] else f.released }

/-- `delete [] pbase ()`. -/
def deletePut (i : Nat) : FamilyM κ Unit :=
  modify fun f => { f with
    released := if (f.own i).putArea.isSome then f.released ++ [.pbuf] else f.released }

/-- `delete [] eback (); setg (0, 0, 0)`. -/
def dropGet (i : Nat) : FamilyM κ Unit := do
  deleteGet i
  through i (modify (Proc.onObj Sockbuf.dropGet))

/-- `delete [] pbase (); setp (0, 0)`. -/
def dropPut (i : Nat) : FamilyM κ Unit := do
  deletePut i
  through i (modify (Proc.onObj Sockbuf.dropPut))

/-- `shutdown (shut_read)`. -/
def shutdownRead (K : Kernel κ) (i : Nat) : FamilyM κ Unit := do
  dropGet i
  through i (Sockbuf.shutdownCall K .shut_read)

/-- `shutdown (shut_write)`. -/
def shutdownWrite (K : Kernel κ) (i : Nat) : FamilyM κ Unit := do
  dropPut i
  through i (Sockbuf.shutdownCall K .shut_write)

def shutdown (K : Kernel κ) (i : Nat) : Shuthow → FamilyM κ Unit
  | .shut_read      => shutdownRead K i
  | .shut_write     => shutdownWrite K i
  | .shut_readwrite => do
    shutdownRead K i
    shutdownWrite K i
    through i (Sockbuf.shutdownCall K .shut_readwrite)

/-- `::close (rep->sock)`, and the check of its result. -/
def close (C : Closing κ) (i : Nat) : FamilyM κ Unit := do
  let f ← get
  match C f.sys.kern f.rep.sock with
  | (.ok (), k)   => set { f with
      sys    := { f.sys with kern := k }
      closed := f.closed ++ [f.rep.sock] }
  | (.error e, k) => do
    set { f with sys := { f.sys with kern := k, errno := e } }
    throw (.err e "sockbuf::~sockbuf" (f.own i).sockname)

/-- The rest of `~sockbuf ()`, after the flush; `rep.use_count ()` is the number of objects that
exist. -/
def release (C : Closing κ) (i : Nat) : FamilyM κ Unit := do
  if (← get).live.length = 1 then do
    deletePut i
    deleteGet i
    close C i
  modify fun f => { f with live := f.live.erase i }

/-- `~sockbuf ()`. -/
def destroy (K : Kernel κ) (C : Closing κ) (i : Nat) : FamilyM κ Unit := do
  let _ ← through i (Sockbuf.overflow K eofValue)
  release C i

/-! ### Runs -/

/-- An operation on one of the objects. -/
inductive Op where
  | copy (i : Nat)
  | put (i : Nat) (op : PutOp)
  | get (i : Nat) (op : GetOp)
  | shutdown (i : Nat) (sh : Shuthow)
  | destroy (i : Nat)

/-- The object that an operation is called on, or copies. -/
def Op.object : Op → Nat
  | .copy i | .put i _ | .get i _ | .shutdown i _ | .destroy i => i

def Op.exec (K : Kernel κ) (C : Closing κ) : Op → FamilyM κ Int
  | .copy i        => (fun _ => 0) <$> Family.copy i
  | .put i op      => through i (op.exec K)
  | .get i op      => throughGet i (op.exec K)
  | .shutdown i sh => (fun _ => 0) <$> Family.shutdown K i sh
  | .destroy i     => (fun _ => 0) <$> Family.destroy K C i

/-- A run on objects that exist, in which every step meets `P`: an operation and what it came to. -/
inductive Run (K : Kernel κ) (C : Closing κ)
    (P : Op → Except Thrown Int → Family κ → Family κ → Prop) (f₀ : Family κ) :
    List (Op × Except Thrown Int) → Family κ → Prop where
  | start : Run K C P f₀ [] f₀
  | step {es : List (Op × Except Thrown Int)} {f f' : Family κ} {op : Op} {r : Except Thrown Int}
      (run : Run K C P f₀ es f) (live : op.object ∈ f.live) (meets : P op r f f')
      (came : (op.exec K C f).result = some (r, f')) : Run K C P f₀ (es ++ [(op, r)]) f'

section Run

variable {K : Kernel κ} {C : Closing κ} {P P' : Op → Except Thrown Int → Family κ → Family κ → Prop}
  {f₀ f f' : Family κ} {es : List (Op × Except Thrown Int)} {op : Op} {r : Except Thrown Int}

/-- One more operation. -/
theorem Run.snoc (h : Run K C P f₀ es f) (op : Op) (r : Except Thrown Int) (hlive : op.object ∈ f.live)
    (hmeets : P op r f f') (hcame : (op.exec K C f).result = some (r, f')) :
    Run K C P f₀ (es ++ [(op, r)]) f' := .step h hlive hmeets hcame

theorem Run.concat_inv (h : Run K C P f₀ (es ++ [(op, r)]) f') :
    ∃ f, Run K C P f₀ es f ∧ op.object ∈ f.live ∧ P op r f f' ∧
      (op.exec K C f).result = some (r, f') := by
  generalize hl : es ++ [(op, r)] = l at h
  cases h with
  | start => simp at hl
  | step hrun hlive hmeets hcame =>
      obtain ⟨rfl, h⟩ := List.append_inj' hl rfl
      cases h
      exact ⟨_, hrun, hlive, hmeets, hcame⟩

/-- A run is determined by what it came to. -/
theorem Run.unique (h : Run K C P f₀ es f) : ∀ {f'}, Run K C P' f₀ es f' → f = f' := by
  induction h with
  | start =>
      intro f' h'
      generalize hl : ([] : List (Op × Except Thrown Int)) = l at h'
      cases h' with
      | start => rfl
      | step => simp at hl
  | step _ _ _ hcame ih =>
      intro f' h'
      obtain ⟨f₁, h₁, -, -, hcame'⟩ := h'.concat_inv
      rw [← ih h₁, hcame] at hcame'
      exact (Prod.mk.inj (Option.some.inj hcame')).2

end Run

end Family

end Socketpp
