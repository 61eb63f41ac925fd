import PgPipeline.Statement.Cache

namespace PgPipeline.StatementCache

inductive Call where
  | lookup (query : String) (signature : Signature)
  | peek (key : StatementKey)
  | invalidate (key : StatementKey) (name : String)
  | markPrepared (id : StatementId)
  | clear
  deriving DecidableEq, Repr

inductive Answer where
  | refused (e : QueryError)
  | found (l : CacheLookup)
  | peeked (id : Option StatementId)
  | invalidated (matched : Bool)
  | marked (first : Bool)
  | unknown
  | cleared
  deriving DecidableEq, Repr

def perform (c : StatementCache) : Call → Answer × StatementCache
  | .lookup query signature =>
    match c.lookup query signature with
    | .error e => (.refused e, c)
    | .ok (l, next) => (.found l, next)
  | .peek key => (.peeked (c.peek? key), c)
  | .invalidate key name => (.invalidated (c.holds key name), c.invalidate key name)
  | .markPrepared id =>
    if (c.statement? id).isSome then (.marked (!c.isPrepared id), c.markPrepared id)
    else (.unknown, c)
  | .clear => (.cleared, c.clear)

def run (c : StatementCache) : List Call → List (Call × Answer) × StatementCache
  | [] => ([], c)
  | call :: calls =>
    let (answer, next) := c.perform call
    let (trace, last) := next.run calls
    ((call, answer) :: trace, last)

def Answer.lookup? : Answer → Option CacheLookup
  | .found l => some l
  | .refused _ | .peeked _ | .invalidated _ | .marked _ | .unknown | .cleared => none

def lookups (trace : List (Call × Answer)) : List CacheLookup :=
  trace.filterMap fun e => e.2.lookup?

def uses (trace : List (Call × Answer)) : List StatementKey := (lookups trace).map (·.key)

def created (trace : List (Call × Answer)) : List CacheLookup :=
  (lookups trace).filter (·.created)

def UsedBefore (uses : List StatementKey) (key other : StatementKey) : Prop :=
  ∃ later, later <:+ uses ∧ other ∈ later ∧ key ∉ later

def Oldest (c : StatementCache) (uses : List StatementKey) (key : StatementKey) : Prop :=
  c.peek? key ≠ none ∧ ∀ other, c.peek? other ≠ none → other ≠ key → UsedBefore uses key other

def Removes (c : StatementCache) (call : Call) (key : StatementKey) : Prop :=
  c.peek? key ≠ none ∧ (c.perform call).2.peek? key = none

def Spares (key : StatementKey) : StatementCache → List Call → Prop
  | _, [] => True
  | c, call :: calls => ¬ c.Removes call key ∧ Spares key (c.perform call).2 calls

end PgPipeline.StatementCache
