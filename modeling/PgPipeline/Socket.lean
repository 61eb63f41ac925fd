import PgPipeline.ByteQueue

namespace PgPipeline

inductive WriteAnswer where
  | takes (count : Nat)
  | interrupted
  | blocked
  | failed (text : String)
  deriving DecidableEq, Repr

inductive WriteEnd where
  | drained
  | blocked
  | failed (text : String)
  deriving DecidableEq, Repr

structure Written where
  sent : Bytes
  queue : ByteQueue
  ending : WriteEnd
  deriving DecidableEq, Repr

def ByteQueue.slicesPerWrite : Nat := 64

/-- Writes a queue to a socket that gives these answers, and blocks when they are used up. A socket
that takes nothing of what it is offered has failed. -/
def ByteQueue.writeTo (q : ByteQueue) (answers : List WriteAnswer) : Written :=
  if q.isEmpty then ⟨[], q, .drained⟩
  else
    match answers with
    | [] => ⟨[], q, .blocked⟩
    | .blocked :: _ => ⟨[], q, .blocked⟩
    | .failed text :: _ => ⟨[], q, .failed text⟩
    | .interrupted :: rest => q.writeTo rest
    | .takes count :: rest =>
      let (sent, q) := q.writeSlices slicesPerWrite count
      if sent.isEmpty then ⟨[], q, .failed "write zero"⟩
      else
        let w := q.writeTo rest
        { w with sent := sent ++ w.sent }

inductive ReadEnd where
  | blocked
  | finished
  | failed (text : String)
  deriving DecidableEq, Repr

structure Socket where
  /-- The bytes that have come in, as they are read; those of an encrypted channel are plain. -/
  incoming : List Bytes
  readEnd : ReadEnd
  certificate : Option Bytes
  writes : List WriteAnswer
  deriving DecidableEq, Repr

namespace Socket

def quiet (writes : List WriteAnswer) : Socket := ⟨[], .blocked, none, writes⟩

def giving (piece : Bytes) (writes : List WriteAnswer) : Socket :=
  { quiet writes with incoming := [piece] }

end Socket

end PgPipeline
