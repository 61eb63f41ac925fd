import PgPipeline.Bytes
import PgPipeline.Failure

/-!
An arena of buffers of one size.

Buffers are lent out by handle. A handle carries the generation of its buffer's slot; giving the
buffer back starts a new generation, so a handle that is used later is recognised as stale.
-/

namespace PgPipeline

structure BufferHandle where
  slot : Nat
  generation : Nat
  deriving DecidableEq, Repr

def BufferHandle.stale (h : BufferHandle) : Failure := .staleBuffer h.slot h.generation

structure Slot where
  generation : Nat
  lent : Bool
  data : Bytes
  deriving DecidableEq, Repr

structure Arena where
  size : Nat
  slots : List Slot
  free : List Nat
  leased : Nat
  reused : Nat
  deriving DecidableEq, Repr

namespace Arena

def defaultSize : Nat := 16384

/-- Generations wrap at 32 bits. -/
def generations : Nat := 4294967296

def empty (size : Nat) : Arena := ⟨max size 1, [], [], 0, 0⟩

def allocated (a : Arena) : Nat := a.slots.length

def allocate (a : Arena) : BufferHandle × Arena :=
  (⟨a.slots.length, 0⟩,
    { a with
      slots := a.slots ++ [⟨0, true, List.replicate a.size 0⟩]
      leased := a.leased + 1 })

def acquire (a : Arena) : BufferHandle × Arena :=
  match a.free with
  | slot :: rest =>
    match a.slots[slot]? with
    | some s =>
      (⟨slot, s.generation⟩,
        { a with
          slots := a.slots.set slot { s with lent := true }
          free := rest
          leased := a.leased + 1
          reused := a.reused + 1 })
    | none => allocate { a with free := rest }
  | [] => a.allocate

def slot? (a : Arena) (h : BufferHandle) : Option Slot :=
  match a.slots[h.slot]? with
  | some s => if s.lent ∧ s.generation = h.generation then some s else none
  | none => none

def release (a : Arena) (h : BufferHandle) : Except Failure Arena :=
  match a.slot? h with
  | none => .error h.stale
  | some s =>
    .ok { a with
      slots :=
        a.slots.set h.slot { s with lent := false, generation := (s.generation + 1) % generations }
      free := h.slot :: a.free
      leased := a.leased - 1 }

def lease (a : Arena) : BufferHandle × Arena := a.acquire

/-- Ends a lease: its buffer is given back, unless its handle is stale already. -/
def endLease (a : Arena) (h : BufferHandle) : Arena :=
  match a.release h with
  | .ok rest => rest
  | .error _ => a

def use {α : Type} (a : Arena) (h : BufferHandle) (f : Bytes → α × Bytes) :
    Except Failure (α × Arena) :=
  match a.slot? h with
  | none => .error h.stale
  | some s =>
    .ok ((f s.data).1, { a with slots := a.slots.set h.slot { s with data := (f s.data).2 } })

def read (a : Arena) (h : BufferHandle) : Except Failure Bytes :=
  (a.use h fun data => (data, data)).map Prod.fst

def overwrite (buffer : Bytes) (at_ : Nat) (data : Bytes) : Bytes :=
  let taken := data.take (buffer.length - at_)
  buffer.take at_ ++ taken ++ buffer.drop (at_ + taken.length)

def write (a : Arena) (h : BufferHandle) (at_ : Nat) (data : Bytes) :
    Except Failure (Nat × Arena) :=
  a.use h fun buffer =>
    ((data.take (buffer.length - at_)).length, overwrite buffer at_ data)

end Arena

end PgPipeline
