import PgPipeline.Bytes

/-!
A queue of bytes in segments.

A segment is either a finished piece of data or a region of fixed size that is filled piece by
piece. Reading takes from the front; writing fills regions behind the last piece that was queued,
so the bytes keep their order. `ByteQueue.toBytes` is the queue as one byte string.
-/

namespace PgPipeline

/-- A segment: its bytes that have not been read, and, for a region, the room that is left. -/
inductive Segment where
  | piece (unread : Bytes)
  | region (unread : Bytes) (room : Nat)
  deriving DecidableEq, Repr

namespace Segment

def unread : Segment → Bytes
  | piece data => data
  | region data _ => data

def room : Segment → Nat
  | piece _ => 0
  | region _ n => n

def consume (n : Nat) : Segment → Segment
  | piece data => piece (data.drop n)
  | region data room => region (data.drop n) room

def isExhausted (s : Segment) : Bool := s.unread.isEmpty && s.room = 0

def isRegion : Segment → Bool
  | piece _ => false
  | region _ _ => true

end Segment

structure ByteQueue where
  segments : List Segment
  /-- Segments in front of this position take no more bytes. -/
  writeFrom : Nat
  deriving DecidableEq, Repr

namespace ByteQueue

def empty : ByteQueue := ⟨[], 0⟩

/-- Queues a piece of data behind everything that is queued; regions before it are closed. -/
def pushPiece (q : ByteQueue) (data : Bytes) : ByteQueue :=
  if data.isEmpty then q
  else
    let segments := q.segments ++ [.piece data]
    ⟨segments, segments.length⟩

def pushRegion (q : ByteQueue) (capacity : Nat) : ByteQueue :=
  { q with segments := q.segments ++ [.region [] capacity] }

def ofCapacities (capacities : List Nat) : ByteQueue := capacities.foldl pushRegion empty

def toBytes (q : ByteQueue) : Bytes := q.segments.flatMap Segment.unread

def remaining (q : ByteQueue) : Nat :=
  q.segments.foldr (fun s total => s.unread.length + total) 0

def isEmpty (q : ByteQueue) : Bool := q.remaining = 0

def writable (q : ByteQueue) : Nat :=
  (q.segments.drop q.writeFrom).foldr (fun s total => s.room + total) 0

def isReadOnly (q : ByteQueue) : Bool := !(q.segments.drop q.writeFrom).any Segment.isRegion

structure Filled where
  segments : List Segment
  closed : Nat
  left : Bytes
  deriving DecidableEq, Repr

def fill : List Segment → Bytes → Filled
  | segments, [] => ⟨segments, 0, []⟩
  | [], data => ⟨[], 0, data⟩
  | .piece unread :: rest, data =>
    let f := fill rest data
    ⟨.piece unread :: f.segments, f.closed + 1, f.left⟩
  | .region unread room :: rest, data =>
    if room ≤ data.length then
      let f := fill rest (data.drop room)
      ⟨.region (unread ++ data.take room) 0 :: f.segments, f.closed + 1, f.left⟩
    else ⟨.region (unread ++ data) (room - data.length) :: rest, 0, []⟩

/-- Writes as many bytes as find room and says how many; a queue without a region refuses. -/
def put? (q : ByteQueue) (data : Bytes) : Option (Nat × ByteQueue) :=
  if data.isEmpty then some (0, q)
  else if q.isReadOnly then none
  else
    let f := fill (q.segments.drop q.writeFrom) data
    some (data.length - f.left.length,
      ⟨q.segments.take q.writeFrom ++ f.segments, q.writeFrom + f.closed⟩)

def consume : Nat → List Segment → List Segment
  | _, [] => []
  | n, s :: rest => s.consume n :: consume (n - s.unread.length) rest

def compact (q : ByteQueue) : ByteQueue :=
  let kept := q.segments.dropWhile Segment.isExhausted
  ⟨kept, q.writeFrom - (q.segments.length - kept.length)⟩

def advance (q : ByteQueue) (n : Nat) : ByteQueue :=
  compact { q with segments := consume n q.segments }

def copy : Nat → List Segment → Bytes
  | _, [] => []
  | n, s :: rest => s.unread.take n ++ copy (n - s.unread.length) rest

def get (q : ByteQueue) (n : Nat) : Bytes × ByteQueue := (copy n q.segments, q.advance n)

def chunks (q : ByteQueue) : List Bytes :=
  (q.segments.map Segment.unread).filter fun c => !c.isEmpty

def slices (q : ByteQueue) (count : Nat) : List Bytes := q.chunks.take count

def writeSlices (q : ByteQueue) (count accepted : Nat) : Bytes × ByteQueue :=
  let offered := (q.slices count).flatten
  let sent := offered.take accepted
  (sent, q.advance sent.length)

def summary (q : ByteQueue) : String :=
  "BufferSet \x7b segments: " ++ toString q.segments.length ++ ", remaining: "
    ++ toString q.remaining ++ ", writable: " ++ toString q.writable ++ " \x7d"

end ByteQueue

end PgPipeline
