import PgPipeline.Failure
import PgPipeline.Statement.Parameters
import PgPipeline.Wire.Backend

/-!
Prepared statements and the cache that holds them.

A statement is known by the number of its creation. The table keeps what has been learned of every
statement; the cache proper maps query text and signature to such a number, the most recently used
entry first, and drops the last entry when it grows beyond its capacity.
-/

namespace PgPipeline

inductive QueryError where
  | empty
  | containsNul
  deriving DecidableEq, Repr

namespace QueryError

def message : QueryError → String
  | empty => "query text is empty"
  | containsNul => "query text contains a NUL byte"

def failure (e : QueryError) : Failure := .argument e.message

end QueryError

structure StatementKey where
  query : String
  signature : Signature
  deriving DecidableEq, Repr

/-- A query text without the blanks around it; it is neither empty nor holds a zero character. -/
def normalizeQuery (query : String) : Except QueryError String :=
  let trimmed := Text.trim query.toList
  if trimmed.isEmpty then .error .empty
  else if trimmed.any fun c => c.toNat = 0 then .error .containsNul
  else .ok (String.ofList trimmed)

def StatementKey.ofQuery (query : String) (signature : Signature) :
    Except QueryError StatementKey :=
  (normalizeQuery query).map fun q => ⟨q, signature⟩

structure Statement where
  name : String
  query : String
  types : Signature
  columns : Option (List Column)
  prepared : Bool
  deriving DecidableEq, Repr

namespace Statement

/-- The name of the `n`th statement; the number wraps at 32 bits. -/
def nameOf (n : Nat) : String := s!"__pm_{n % 4294967296}"

def create (n : Nat) (key : StatementKey) : Statement :=
  ⟨nameOf n, key.query, key.signature, none, false⟩

/-- Learns the columns; only the first description counts. -/
def learnColumns (s : Statement) (columns : List Column) : Statement :=
  match s.columns with
  | some _ => s
  | none => { s with columns := some columns }

def returnsRows (s : Statement) : Bool :=
  match s.columns with
  | some columns => !columns.isEmpty
  | none => false

end Statement

abbrev StatementId := Nat

structure StatementCache where
  /-- How many statements are kept; none or zero stands for no limit. -/
  capacity : Option Nat
  entries : List (StatementKey × StatementId)
  /-- All statements ever created, in the order of their creation. -/
  table : List Statement
  deriving Repr

structure CacheLookup where
  key : StatementKey
  id : StatementId
  created : Bool
  /-- The name of a prepared statement that had to make room. -/
  evicted : Option String
  deriving DecidableEq, Repr

namespace StatementCache

def empty (capacity : Option Nat) : StatementCache := ⟨capacity, [], []⟩

def size (c : StatementCache) : Nat := c.entries.length

def statement? (c : StatementCache) (id : StatementId) : Option Statement :=
  if id = 0 then none else c.table[id - 1]?

def update (c : StatementCache) (id : StatementId) (f : Statement → Statement) : StatementCache :=
  if id = 0 then c else { c with table := c.table.modify (id - 1) f }

def nameOf (c : StatementCache) (id : StatementId) : String :=
  ((c.statement? id).map (·.name)).getD ""

def peek? (c : StatementCache) (key : StatementKey) : Option StatementId := c.entries.lookup key

def isFull (c : StatementCache) : Bool :=
  match c.capacity with
  | none => false
  | some n => 0 < n && n ≤ c.entries.length

def oldest? (c : StatementCache) : Option (StatementKey × StatementId) := c.entries.getLast?

def lookupKey (c : StatementCache) (key : StatementKey) : CacheLookup × StatementCache :=
  match c.peek? key with
  | some id =>
    let others := c.entries.filter fun e => e.1 ≠ key
    (⟨key, id, false, none⟩, { c with entries := (key, id) :: others })
  | none =>
    let id := c.table.length + 1
    let kept := if c.isFull then c.entries.dropLast else c.entries
    let evicted := if c.isFull then c.oldest? else none
    let closed := do
      let (_, old) ← evicted
      let s ← c.statement? old
      if s.prepared then some s.name else none
    (⟨key, id, true, closed⟩,
      { c with entries := (key, id) :: kept, table := c.table ++ [Statement.create id key] })

def lookup (c : StatementCache) (query : String) (signature : Signature) :
    Except QueryError (CacheLookup × StatementCache) :=
  (StatementKey.ofQuery query signature).map c.lookupKey

def holds (c : StatementCache) (key : StatementKey) (name : String) : Bool :=
  match c.peek? key with
  | some id => c.nameOf id == name
  | none => false

def invalidate (c : StatementCache) (key : StatementKey) (name : String) : StatementCache :=
  if c.holds key name then { c with entries := c.entries.filter fun e => e.1 ≠ key } else c

def isPrepared (c : StatementCache) (id : StatementId) : Bool :=
  ((c.statement? id).map (·.prepared)).getD false

def markPrepared (c : StatementCache) (id : StatementId) : StatementCache :=
  c.update id fun s => { s with prepared := true }

def columns? (c : StatementCache) (id : StatementId) : Option (List Column) :=
  (c.statement? id).bind (·.columns)

def learnColumns (c : StatementCache) (id : StatementId) (columns : List Column) :
    StatementCache :=
  c.update id fun s => s.learnColumns columns

/-- Forgets all entries; the server is not told. -/
def clear (c : StatementCache) : StatementCache := { c with entries := [] }

end StatementCache

end PgPipeline
