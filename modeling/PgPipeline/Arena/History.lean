import PgPipeline.Arena

namespace PgPipeline.Arena

inductive Call (α : Type) where
  | acquire
  | lease
  | release (h : BufferHandle)
  | endLease (h : BufferHandle)
  | use (h : BufferHandle) (f : Bytes → α × Bytes)

/-- What becomes of a call. Nobody sees it of a lease that ends, a history keeps it all the same. -/
inductive Answer (α : Type) where
  | lent (h : BufferHandle)
  | returned (h : BufferHandle)
  | used (result : α)
  | refused (failure : Failure)
  deriving DecidableEq, Repr

variable {α : Type}

def Call.handle? : Call α → Option BufferHandle
  | .acquire | .lease => none
  | .release h | .endLease h | .use h _ => some h

def perform (a : Arena) : Call α → Answer α × Arena
  | .acquire => (.lent a.acquire.1, a.acquire.2)
  | .lease => (.lent a.lease.1, a.lease.2)
  | .release h =>
    match a.release h with
    | .ok rest => (.returned h, rest)
    | .error failure => (.refused failure, a)
  | .endLease h =>
    match a.release h with
    | .ok _ => (.returned h, a.endLease h)
    | .error failure => (.refused failure, a.endLease h)
  | .use h f =>
    match a.use h f with
    | .ok (result, left) => (.used result, left)
    | .error failure => (.refused failure, a)

def run (a : Arena) : List (Call α) → List (Answer α) × Arena
  | [] => ([], a)
  | call :: calls =>
    let (answer, next) := a.perform call
    let (answers, last) := next.run calls
    (answer :: answers, last)

namespace Answer

def lent? : Answer α → Option BufferHandle
  | .lent h => some h
  | .returned _ | .used _ | .refused _ => none

def returned? : Answer α → Option BufferHandle
  | .returned h => some h
  | .lent _ | .used _ | .refused _ => none

end Answer

def ofSlot (slot : Nat) (handles : List BufferHandle) : List BufferHandle :=
  handles.filter fun h => h.slot = slot

def issued (answers : List (Answer α)) : List BufferHandle := answers.filterMap Answer.lent?

def returned (answers : List (Answer α)) : List BufferHandle := answers.filterMap Answer.returned?

/-- A handle is live while it is the last one given out for its slot and its buffer has not come
back. -/
def Live (answers : List (Answer α)) (h : BufferHandle) : Prop :=
  (ofSlot h.slot (issued answers)).getLast? = some h ∧ h ∉ returned answers

instance (answers : List (Answer α)) (h : BufferHandle) : Decidable (Live answers h) :=
  inferInstanceAs (Decidable (_ ∧ _))

def live (answers : List (Answer α)) : List BufferHandle := (issued answers).filter (Live answers)

end PgPipeline.Arena
