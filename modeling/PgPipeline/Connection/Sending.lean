import PgPipeline.Connection.Ending

namespace PgPipeline

structure Batch where
  evicted : Option String
  statement : Statement
  prepares : Bool
  params : EncodedParams

namespace Batch

def execution (b : Batch) (values : List (Option Bytes)) : List FrontendMessage :=
  [.bind "" b.statement.name b.params.formats values [.binary], .execute "" 0]

def messages (b : Batch) : List FrontendMessage :=
  (b.evicted.map (.close .statement)).toList
    ++ (if b.prepares then
          [.parse b.statement.name b.statement.query b.statement.types,
            .describe .statement b.statement.name]
        else [])
    ++ b.params.rows.flatMap b.execution ++ [.sync]

end Batch

namespace Connection

variable {ρ : Type}

structure Prepared where
  batch : Batch
  lookup : CacheLookup
  cache : StatementCache

def prepare (c : Connection ρ) (s : Submission ρ) : Except Failure Prepared := do
  let params ← (Param.encodeAll s.params).mapError ParameterError.failure
  let (lookup, cache) ← (c.cache.lookup s.query params.types).mapError QueryError.failure
  let statement := (cache.statement? lookup.id).getD (.create lookup.id lookup.key)
  return ⟨⟨lookup.evicted, statement, !statement.prepared, params⟩, lookup,
    cache.markPrepared lookup.id⟩

def send (c : Connection ρ) (s : Submission ρ) : Connection ρ :=
  match c.prepare s with
  | .ok p =>
    let c := { c with cache := p.cache }.queue p.batch.messages
    let flight := Flight.start s p.lookup.id p.lookup.key p.batch.prepares
    { c with inFlight := c.inFlight ++ [flight] }.enter [.sent s.number p.batch.statement.name]
  | .error f => c.resolve s.number (.error f)

def collect (c : Connection ρ) : Connection ρ :=
  { c with pending := c.pending ++ c.inbox.queue, inbox := { c.inbox with queue := [] } }

def dropCancelled (c : Connection ρ) : Connection ρ :=
  let (dropped, kept) := c.pending.partition fun s => c.isCancelled s.number
  { c with pending := kept }.resolveAll dropped (.error .cancelled)

def sendPending (c : Connection ρ) : Connection ρ :=
  c.pending.foldl send { c with pending := [] }

/-- Attends to what callers have left: closes if that was asked for, drops what was given up, and
sends the rest once the connection is ready. -/
def pump (c : Connection ρ) : Connection ρ :=
  let c := c.collect
  if c.inbox.closeRequested ∧ ¬ c.stage.isEnding then c.beginClose
  else
    let c := c.dropCancelled
    if c.stage = .ready then c.sendPending else c

end Connection

end PgPipeline
