import PgPipeline.Connection

namespace PgPipeline.Connection

variable {ρ : Type}

def refuseAll (c : Connection ρ) (cause : Failure) : Connection ρ :=
  let inbox := { c.inbox with closedBy := some cause }
  match c.inbox.readiness with
  | .pending waiters =>
    { c with inbox := { inbox with readiness := .failed cause } }.enter
      (waiters.map fun w => .informed w (.error cause))
  | _ => { c with inbox }

def outstanding (c : Connection ρ) : List (Submission ρ) :=
  c.inFlight.map (·.submission) ++ c.pending ++ c.inbox.queue

def releaseHeld (c : Connection ρ) : Connection ρ :=
  let (released, sequencer) := c.sequencer.flush
  { c with sequencer }.enter (released.map .resolved)

def failAll (c : Connection ρ) (cause : Failure) : Connection ρ :=
  let c := c.refuseAll cause
  let emptied :=
    { c with inFlight := [], pending := [], inbox := { c.inbox with queue := [] } }
  (emptied.resolveAll c.outstanding (.error cause)).releaseHeld

/-- Closes at once; bytes that are queued are dropped. -/
def abort (c : Connection ρ) (cause : Failure) : Connection ρ :=
  if c.stage = .closed then c
  else { (c.moveTo .closed).failAll cause with outbound := .empty }

def endChannel (c : Connection ρ) : Connection ρ :=
  match c.transport with
  | .plain => c
  | .encrypted _ => c.enter [.endedChannel]

/-- Closes as callers have asked for. A connection that is ready takes leave of the server and stays
until its bytes are written. -/
def beginClose (c : Connection ρ) : Connection ρ :=
  if c.stage = .ready then
    (((c.failAll .closed).queue [.terminate]).endChannel).moveTo .closing
  else c.abort .closed

end PgPipeline.Connection
