namespace PgPipeline

structure Sequencer (α : Type) where
  next : Nat
  held : List (Nat × α)
  deriving DecidableEq, Repr

namespace Sequencer

variable {α : Type}

def start (first : Nat) : Sequencer α := ⟨first, []⟩

/-- Enters an item in the order of the numbers; it takes the place of an item with its number. -/
def insert (n : Nat) (a : α) : List (Nat × α) → List (Nat × α)
  | [] => [(n, a)]
  | (k, b) :: rest =>
    if n < k then (n, a) :: (k, b) :: rest
    else if n = k then (n, a) :: rest
    else (k, b) :: insert n a rest

def releaseFrom (next : Nat) : List (Nat × α) → List α × Sequencer α
  | [] => ([], ⟨next, []⟩)
  | (k, a) :: rest =>
    if k = next then
      let (released, s) := releaseFrom (next + 1) rest
      (a :: released, s)
    else ([], ⟨next, (k, a) :: rest⟩)

def resolve (s : Sequencer α) (n : Nat) (a : α) : List α × Sequencer α :=
  if n < s.next then ([a], s) else releaseFrom s.next (insert n a s.held)

def flush (s : Sequencer α) : List α × Sequencer α := (s.held.map (·.2), { s with held := [] })

def run (s : Sequencer α) : List (Nat × α) → List α × Sequencer α
  | [] => ([], s)
  | (n, a) :: items =>
    let (released, next) := s.resolve n a
    let (later, last) := next.run items
    (released ++ later, last)

end Sequencer

end PgPipeline
