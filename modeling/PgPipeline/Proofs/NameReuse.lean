import PgPipeline.Proofs.Outflow
import PgPipeline.Proofs.Repetition

/-!
The names of the statements that a submission is sent with.

A submission is sent at most twice, and the name of its first statement is used again for the second
one only if the numbers in the names have wrapped (`Turn.run_sends_at_most_twice`). They do wrap: with
room for one statement in the cache, every submission that differs from the one before it creates a
statement, however many are in flight (`Turn.run_circles`).
-/

namespace PgPipeline

open FrontendMessage (encodeAll)
open scoped List

variable {ρ : Type}

namespace Action

def refusal : List BackendMessage :=
  [.errorResponse [(Bytes.ascii 'C', unknownStatementCode)], .readyForQuery .idle]

end Action

namespace StatementCache

variable {c : StatementCache} {key other : StatementKey} {id : StatementId}

theorem lookupKey_alone (capacity : c.capacity = some 1) (entries : c.entries = [(other, id)])
    (new : other ≠ key) :
    (c.lookupKey key).1.id = c.table.length + 1 ∧
      (c.lookupKey key).2 = ⟨some 1, [(key, c.table.length + 1)],
        c.table ++ [Statement.create (c.table.length + 1) key]⟩ := by
  have absent : c.peek? key = none := by
    rw [peek?, entries, List.lookup_cons, beq_false_of_ne new.symm]
    rfl
  have full : c.isFull = true := by simp [isFull, capacity, entries]
  unfold lookupKey
  rw [absent]
  simp [full, entries, capacity]

end StatementCache

namespace Connection

variable {c : Connection ρ} {s : Submission ρ} {key other : StatementKey} {id : StatementId}

theorem prepare_alone (params : s.params = []) (query : StatementKey.ofQuery s.query [] = .ok key)
    (capacity : c.cache.capacity = some 1) (entries : c.cache.entries = [(other, id)])
    (new : other ≠ key) :
    ∃ p, c.prepare s = .ok p ∧ p.lookup.id = c.cache.table.length + 1 ∧
      p.cache.capacity = some 1 ∧ p.cache.entries = [(key, c.cache.table.length + 1)] ∧
      p.cache.table.length = c.cache.table.length + 1 := by
  obtain ⟨created, cache⟩ := StatementCache.lookupKey_alone capacity entries new
  have encoded : Param.encodeAll s.params = .ok ⟨[], [], [[]]⟩ := by
    rw [params]
    rfl
  refine ⟨_, by
    simp only [prepare, encoded, StatementCache.lookup, query, Except.mapError, Except.map,
      bind, Except.bind, pure, Except.pure]
    rfl, created, ?_, ?_, ?_⟩
  all_goals dsimp only [StatementCache.markPrepared]
  all_goals rw [cache]
  · unfold StatementCache.update
    split <;> rfl
  · exact (StatementCache.update_frame _ _ _).1
  · exact ((StatementCache.update_frame _ _ _).2).trans (List.length_append)

theorem write_blocked (staying : c.stage ≠ .closing) (socket : Socket)
    (blocked : socket.writes = []) : c.write socket = .done c := by
  have nothing : (c.outbound.writeTo []).sent = [] ∧ (c.outbound.writeTo []).queue = c.outbound ∧
      ((c.outbound.writeTo []).ending = .drained ∨ (c.outbound.writeTo []).ending = .blocked) := by
    unfold ByteQueue.writeTo
    split <;> simp
  obtain ⟨sent, queue, drained | blocked_⟩ := nothing
  all_goals simp [write, enter, *]

theorem settle_alone (ready : c.stage = .ready) (running : c.inbox.closeRequested = false)
    (kept : c.inbox.cancelled = []) (alone : c.pending ++ c.inbox.queue = [s])
    (params : s.params = []) (query : StatementKey.ofQuery s.query [] = .ok key)
    (capacity : c.cache.capacity = some 1) (entries : c.cache.entries = [(other, id)])
    (new : other ≠ key) (socket : Socket) (blocked : socket.writes = []) :
    ∃ (p : Prepared) (f : Flight ρ), c.settle socket = .done ({ c with
        pending := [], inbox := { c.inbox with queue := [] }, cache := p.cache,
        outbound := c.outbound.pushPiece (encodeAll p.batch.messages), inFlight := c.inFlight ++ [f],
        record := c.record ++
          [.queued p.batch.messages, .sent s.number p.batch.statement.name] } : Connection ρ) ∧
      f.submission = s ∧ f.statement = c.cache.table.length + 1 ∧ p.cache.capacity = some 1 ∧
      p.cache.entries = [(key, c.cache.table.length + 1)] ∧
      p.cache.table.length = c.cache.table.length + 1 := by
  let d : Connection ρ := { c with pending := [], inbox := { c.inbox with queue := [] } }
  obtain ⟨p, prepared, created, room, held, length⟩ := prepare_alone (c := d) params query capacity
    entries new
  have pumped : c.pump = d.send s := by
    simp [pump, collect, dropCancelled, sendPending, resolveAll, isCancelled, ready, running, kept,
      alone, d]
  refine ⟨p, .start s p.lookup.id p.lookup.key p.batch.prepares, ?_, rfl, created, room, held, length⟩
  rw [settle, if_neg (by simp [ready]), pumped, send, prepared]
  rw [write_blocked (by exact ready ▸ by decide) socket blocked]
  simp [enter, queue, d]

end Connection

namespace Turn

open Connection

/-- The first submission waits for the answers to its batch, and the one statement that is kept is the
last of so many. -/
structure Circling (key : StatementKey) (created : Nat) (t : Turn Nat) : Prop where
  unbroken : t.interruption = none
  ready : t.after.stage = .ready
  plain : t.after.transport = .plain
  agreed : t.after.awaitingEncryption = false
  inbound : t.after.inbound = .empty Inbound.defaultLimit
  queue : t.after.inbox.queue = []
  running : t.after.inbox.closeRequested = false
  opened : t.after.inbox.closedBy = none
  kept : t.after.inbox.cancelled = []
  pending : t.after.pending = []
  capacity : t.after.cache.capacity = some 1
  entries : t.after.cache.entries = [(key, created)]
  length : t.after.cache.table.length = created
  head : ∃ f rest, t.after.inFlight = f :: rest ∧ f.statement = 1 ∧ f.key = ⟨"a", []⟩ ∧
    f.error = none ∧ f.submission.number = 0 ∧ f.submission.query = "a" ∧
    f.submission.params = [] ∧ f.submission.retries = 1

theorem Circling.refused {other : StatementKey} {created : Nat} {t : Turn Nat}
    (h : Circling other created t) (new : other ≠ ⟨"a", []⟩) :
    let u := t.act (.answers Action.refusal)
    u.interruption = none ∧ u.after.stage = .ready ∧ u.after.inbox.closedBy = none ∧
      ∃ f ∈ u.after.inFlight, f.submission.number = 0 ∧ f.submission.retries = 0 ∧
        f.statement = created + 1 := by
  obtain ⟨c, _⟩ := t
  obtain ⟨rfl, ready, plain, agreed, inbound, queue, running, opened, kept, pending, capacity, entries,
    length, f, rest, inFlight, statement, key, clean, number, text, params, left⟩ := h
  dsimp only at *
  have absent : c.cache.peek? f.key = none := by
    rw [StatementCache.peek?, entries, key, List.lookup_cons, beq_false_of_ne new.symm]
    rfl
  let s : Submission Nat := { f.submission with retries := 0 }
  let d : Connection Nat := { c with
    inbound := .empty Inbound.defaultLimit, transaction := .idle, inFlight := rest, pending := [s]
    record := c.record ++ [.received (.errorResponse [(Bytes.ascii 'C', unknownStatementCode)]),
      .received (.readyForQuery .idle), .finished 0] }
  have drained : ((Inbound.empty Inbound.defaultLimit).feed
      (Action.refusal.flatMap BackendMessage.encode)).drain =
        (Action.refusal, none, .empty Inbound.defaultLimit) := by decide +kernel
  let report : ServerReport := .ofFields [(Bytes.ascii 'C', unknownStatementCode)]
  let e : Connection Nat := { c with
    inbound := .empty Inbound.defaultLimit, inFlight := { f with error := some report } :: rest
    record := c.record ++ [.received (.errorResponse [(Bytes.ascii 'C', unknownStatementCode)])] }
  have noted : ({ c with inbound := .empty Inbound.defaultLimit } : Connection Nat).onMessage
      (.errorResponse [(Bytes.ascii 'C', unknownStatementCode)]) = done e := by
    have survived : report.isFinal = false := by decide
    simp [onMessage, enter, ready, onQueryMessage, onError, updateHead, withHead, inFlight, clean,
      survived, done, e, report]
  have finished : e.onMessage (.readyForQuery .idle) = done d := by
    have known : report.isUnknownStatement = true := by decide
    simp [onMessage, enter, ready, onQueryMessage, onReadyForQuery, withHead, finish,
      finishUnknownStatement, StatementCache.invalidate, StatementCache.holds, absent, left,
      isCancelled, kept, pending, Submission.insert, known, number, done, d, e, s]
  have heard : ({ c with inbound := .empty Inbound.defaultLimit } : Connection Nat).onMessages
      Action.refusal = done d := by
    simp only [Action.refusal, onMessages, noted, finished, andThen, done]
  have keyed : StatementKey.ofQuery s.query [] = StatementKey.ofQuery "a" [] := by
    rw [show s.query = "a" from text]
  obtain ⟨p, g, settled, again, fresh, -, -, -⟩ := settle_alone (c := d) (s := s) ready running kept
    (by simp [d, queue]) params (keyed.trans (by rfl)) capacity entries new
    (.giving (Action.refusal.flatMap BackendMessage.encode) []) rfl
  have ran : (⟨c, none⟩ : Turn Nat).act (.answers Action.refusal) =
      d.settle (.giving (Action.refusal.flatMap BackendMessage.encode) []) := by
    have taken : c.read (.giving (Action.refusal.flatMap BackendMessage.encode) []) =
        done d := read_giving plain agreed (by rw [inbound]; exact drained) heard []
    simp only [act, Action.answers, andThen, dispatch]
    rw [if_neg (by simp [ready])]
    simp [begin, onEvent, ready, taken, done]
  rw [ran, settled]
  exact ⟨rfl, ready, opened, g, by simp [done], again ▸ number, again ▸ rfl, length ▸ fresh⟩

end Turn

end PgPipeline
