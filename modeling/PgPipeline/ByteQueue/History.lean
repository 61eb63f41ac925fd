import PgPipeline.Socket

namespace PgPipeline.ByteQueue

inductive Call where
  | pushPiece (data : Bytes)
  | pushRegion (capacity : Nat)
  | put (data : Bytes)
  | get (count : Nat)
  | advance (count : Nat)
  | clear
  | writeTo (answers : List WriteAnswer)
  deriving DecidableEq, Repr

inductive Outcome where
  | queued
  | refused
  | stored (count : Nat)
  | given (data : Bytes)
  | dropped (count : Nat)
  | sent (data : Bytes) (ending : WriteEnd)
  deriving DecidableEq, Repr

def perform (q : ByteQueue) : Call → Outcome × ByteQueue
  | .pushPiece data => (.queued, q.pushPiece data)
  | .pushRegion capacity => (.queued, q.pushRegion capacity)
  | .put data =>
    match q.put? data with
    | none => (.refused, q)
    | some (count, filled) => (.stored count, filled)
  | .get count =>
    let (data, rest) := q.get count
    (.given data, rest)
  | .advance count => (.dropped (min count q.remaining), q.advance count)
  | .clear => (.dropped q.remaining, empty)
  | .writeTo answers =>
    let w := q.writeTo answers
    (.sent w.sent w.ending, w.queue)

def run (q : ByteQueue) : List Call → List (Call × Outcome) × ByteQueue
  | [] => ([], q)
  | call :: calls =>
    let (outcome, next) := q.perform call
    let (trace, last) := next.run calls
    ((call, outcome) :: trace, last)

end PgPipeline.ByteQueue
