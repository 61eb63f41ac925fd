import PgPipeline.Proofs.Regularity

namespace PgPipeline

open scoped List

variable {ρ : Type}

deriving instance DecidableEq for Resolution, Entry

def FrontendMessage.isParse : FrontendMessage → Bool
  | .parse .. => true
  | _ => false

/-- What was sent for a submission: the statement that is executed, and the messages. -/
structure Sending where
  statement : String
  messages : List FrontendMessage
  deriving DecidableEq, Repr

namespace Sending

def prepares (s : Sending) : Bool := s.messages.any FrontendMessage.isParse

/-- Whatever the messages bind, they bind to the statement. -/
def Executes (s : Sending) : Prop :=
  ∀ portal name formats values results,
    .bind portal name formats values results ∈ s.messages → name = s.statement

end Sending

namespace Batch

def sending (b : Batch) : Sending := ⟨b.statement.name, b.messages⟩

theorem sending_executes (b : Batch) : b.sending.Executes := by
  have names : ∀ m ∈ b.messages, ∀ portal name formats values results,
      m = .bind portal name formats values results → name = b.statement.name := by
    refine forall_mem_messages (fun _ _ => nofun) (fun _ => ⟨nofun, nofun⟩)
      (fun row _ => ⟨?_, nofun⟩) nofun
    rintro portal name formats values results ⟨⟩
    rfl
  exact fun portal name formats values results mem =>
    names _ mem portal name formats values results rfl

theorem messages_isQuery (b : Batch) : ∀ m ∈ b.messages, m.isQuery = true :=
  forall_mem_messages (fun _ _ => rfl) (fun _ => ⟨rfl, rfl⟩) (fun _ _ => ⟨rfl, rfl⟩) rfl

theorem sending_prepares (b : Batch) : b.sending.prepares = b.prepares := by
  have closing : (b.evicted.map (FrontendMessage.close .statement)).toList.any
      FrontendMessage.isParse = false := by
    cases b.evicted <;> rfl
  have executing : (b.params.rows.flatMap b.execution).any FrontendMessage.isParse = false := by
    simp [execution, FrontendMessage.isParse]
  simp only [Sending.prepares, sending, messages, List.any_append, closing, executing]
  cases b.prepares <;> rfl

end Batch

def Entry.dispatch (s : List FrontendMessage × List (Nat × Sending)) :
    Entry ρ → List FrontendMessage × List (Nat × Sending)
  | .queued messages => (messages, s.2)
  | .sent number statement => (s.1, s.2 ++ [(number, ⟨statement, s.1⟩)])
  | _ => s

def Entry.ofAnswer : Entry ρ → Bool
  | .finished _ => true
  | .offered .. => true
  | .concluded .. => true
  | .resolved _ => true
  | _ => false

def Entry.ofEnd : Entry ρ → Bool
  | .finished _ => true
  | .concluded .. => true
  | _ => false

theorem Entry.unsent_of_answer {e : Entry ρ} (h : e.ofAnswer = true) :
    e.sentNumber? = none ∧ e.queuedMessages = [] := by
  cases e <;> first | exact ⟨rfl, rfl⟩ | cases h

namespace Record

def dispatches (es : List (Entry ρ)) : List (Nat × Sending) :=
  (es.foldl Entry.dispatch ([], [])).2

def sendings (n : Nat) (es : List (Entry ρ)) : List Sending :=
  ((dispatches es).filter fun d => d.1 = n).map (·.2)

/-- The first error that the server has reported since it was ready for more. -/
def failure? (es : List (Entry ρ)) : Option ServerReport :=
  ((group es).filterMap BackendMessage.report?).head?

variable {n : Nat} {as es : List (Entry ρ)}

theorem foldl_dispatch_still (s : List FrontendMessage × List (Nat × Sending))
    (still : ∀ e ∈ es, e.sentNumber? = none) : (es.foldl Entry.dispatch s).2 = s.2 := by
  induction es generalizing s with
  | nil => rfl
  | cons e rest ih =>
    rw [List.foldl_cons, ih _ fun f hf => still f (List.mem_cons_of_mem _ hf)]
    have quiet := still e List.mem_cons_self
    cases e <;> first | rfl | cases quiet

theorem dispatches_still (still : ∀ e ∈ es, e.sentNumber? = none) :
    dispatches (as ++ es) = dispatches as := by
  rw [dispatches, List.foldl_append, foldl_dispatch_still _ still]
  rfl

theorem dispatches_sent (as : List (Entry ρ)) (messages : List FrontendMessage) (number : Nat)
    (statement : String) : dispatches (as ++ [.queued messages, .sent number statement]) =
      dispatches as ++ [(number, ⟨statement, messages⟩)] := by
  rw [dispatches, List.foldl_append]
  rfl

theorem foldl_dispatch_prefix (s : List FrontendMessage × List (Nat × Sending))
    (es : List (Entry ρ)) : s.2 <+: (es.foldl Entry.dispatch s).2 := by
  induction es generalizing s with
  | nil => exact List.prefix_refl _
  | cons e rest ih =>
    refine List.IsPrefix.trans ?_ (ih _)
    cases e with
    | sent number statement => exact List.prefix_append _ _
    | _ => exact List.prefix_refl _

theorem sendings_still (still : ∀ e ∈ es, e.sentNumber? = none) :
    sendings n (as ++ es) = sendings n as := by
  rw [sendings, dispatches_still still]
  rfl

theorem sendings_unsent (unsent : ∀ statement, .sent n statement ∉ es) :
    sendings n (as ++ es) = sendings n as := by
  have same (s : List FrontendMessage × List (Nat × Sending)) :
      ((es.foldl Entry.dispatch s).2.filter fun d => d.1 = n) = s.2.filter fun d => d.1 = n := by
    induction es generalizing s with
    | nil => rfl
    | cons e rest ih =>
      rw [List.foldl_cons, ih fun statement mem => unsent statement (List.mem_cons_of_mem _ mem)]
      cases e with
      | sent number statement =>
        have other : number ≠ n := by
          rintro rfl
          exact unsent statement List.mem_cons_self
        simp [Entry.dispatch, other]
      | _ => rfl
  rw [sendings, dispatches, List.foldl_append, same]
  rfl

theorem sendings_sent (n : Nat) (as : List (Entry ρ)) (messages : List FrontendMessage)
    (number : Nat) (statement : String) :
    sendings n (as ++ [.queued messages, .sent number statement]) =
      if number = n then sendings n as ++ [⟨statement, messages⟩] else sendings n as := by
  rw [sendings, dispatches_sent, List.filter_append, List.map_append]
  by_cases same : number = n <;> simp [sendings, same]

theorem sendings_prefix (n : Nat) (as es : List (Entry ρ)) :
    sendings n as <+: sendings n (as ++ es) := by
  have dispatched : dispatches as <+: dispatches (as ++ es) := by
    rw [dispatches, dispatches, List.foldl_append]
    exact foldl_dispatch_prefix _ es
  exact (dispatched.filter _).map _

/-- All that was queued about queries was sent for a submission. -/
def Voiced (es : List (Entry ρ)) : Prop :=
  (queued es).filter FrontendMessage.isQuery = (dispatches es).flatMap fun d => d.2.messages

theorem Voiced.still (h : Voiced as) (unsent : ∀ e ∈ es, e.sentNumber? = none)
    (quiet : ∀ m ∈ queued es, m.isQuery = false) : Voiced (as ++ es) := by
  have none_ : (queued es).filter FrontendMessage.isQuery = [] :=
    List.filter_eq_nil_iff.mpr fun m hm => by simp [quiet m hm]
  rw [Voiced, queued_append, List.filter_append, none_, List.append_nil, dispatches_still unsent]
  exact h

theorem Voiced.sent (h : Voiced as) {messages : List FrontendMessage}
    (query : ∀ m ∈ messages, m.isQuery = true) (number : Nat) (statement : String) :
    Voiced (as ++ [.queued messages, .sent number statement]) := by
  rw [Voiced, queued_append, List.filter_append, h, dispatches_sent, List.flatMap_append]
  simp [queued, Entry.queuedMessages, List.filter_eq_self.mpr query]

end Record

namespace Connection

def unload (c : Connection ρ) (status : TransactionStatus) (f : Flight ρ) (rest : List (Flight ρ)) :
    Connection ρ :=
  ({ c.enter [.received (.readyForQuery status)] with
    transaction := status, inFlight := rest } : Connection ρ).enter [.finished f.submission.number]

/-- The ends of an attempt, by the first error that was reported. -/
inductive Closes (c : Connection ρ) (f : Flight ρ) : Turn ρ → Prop
  | succeeded {t : Turn ρ} (clean : f.error = none) (inFlight : t.after.inFlight = c.inFlight)
      (pending : t.after.pending = c.pending) (inbox : t.after.inbox = c.inbox)
      (cache : t.after.cache = c.cache) : Closes c f t
  | repeated {report : ServerReport} (failed : f.error = some report)
      (unknown : report.isUnknownStatement = true) (left : 0 < f.submission.retries)
      (kept : c.isCancelled f.submission.number = false) :
      Closes c f (.done { c with
        cache := c.cache.invalidate f.key (c.cache.nameOf f.statement)
        pending := Submission.insert
          { f.submission with retries := f.submission.retries - 1 } c.pending })
  | exhausted {report : ServerReport} (failed : f.error = some report)
      (unknown : report.isUnknownStatement = true)
      (spent : 0 < f.submission.retries → c.isCancelled f.submission.number = true) :
      Closes c f (.done (({ c with
        cache := c.cache.invalidate f.key (c.cache.nameOf f.statement) } : Connection ρ).resolve
          f.submission.number (.error (.statementNotFound (c.cache.nameOf f.statement)))))
  | reported {report : ServerReport} (failed : f.error = some report)
      (other : report.isUnknownStatement = false) :
      Closes c f (.done (c.finishFailure f report))

theorem finish_closes (c : Connection ρ) (f : Flight ρ) : Closes c f (c.finish f) := by
  unfold finish
  cases failed : f.error with
  | none =>
    obtain ⟨inFlight, inbox, cache⟩ := c.finishSuccess_frame f
    refine .succeeded failed inFlight ?_ inbox cache
    unfold finishSuccess
    dsimp only
    split <;> split <;> rfl
  | some report =>
    cases unknown : report.isUnknownStatement with
    | false => simpa [unknown] using Closes.reported failed unknown
    | true =>
      dsimp only
      rw [if_pos unknown]
      unfold finishUnknownStatement
      dsimp only
      split
      · next again => exact .repeated failed unknown again.1 (Bool.eq_false_iff.mpr again.2)
      · next spent =>
        refine .exhausted failed unknown fun left => ?_
        exact Classical.byContradiction fun kept => spent ⟨left, kept⟩

theorem onMessage_ready {c : Connection ρ} {f : Flight ρ} {rest : List (Flight ρ)}
    (ready : c.stage = .ready) (head : c.inFlight = f :: rest) (status : TransactionStatus) :
    c.onMessage (.readyForQuery status) = (c.unload status f rest).finish f := by
  simp [onMessage, enter, ready, onQueryMessage, onReadyForQuery, withHead, head, unload]

theorem Finished.record {c : Connection ρ} {f : Flight ρ} {t : Turn ρ} (h : Finished c f t) :
    ∃ es, t.after.record = c.record ++ es ∧
      ∀ e ∈ es, e.ofAnswer = true ∧ e.finishedNumber? = none := by
  have given (d : Connection ρ) (result : Except Failure ρ) :
      ∃ es, (d.resolve f.submission.number result).record = d.record ++ es ∧
        ∀ e ∈ es, e.ofAnswer = true ∧ e.finishedNumber? = none := by
    refine ⟨_, rfl, fun e he => ?_⟩
    obtain ⟨r, _, rfl⟩ := List.mem_map.mp he
    exact ⟨rfl, rfl⟩
  cases h with
  | told result attends =>
    obtain ⟨es, more, quiet⟩ := given (c.enter [.concluded f.submission.number f.summary]) result
    refine ⟨_, more.trans (List.append_assoc _ _ _), fun e he => ?_⟩
    rcases List.mem_append.mp he with he | he
    · rw [List.mem_singleton.mp he]
      exact ⟨rfl, rfl⟩
    · exact quiet e he
  | broke text attends crash =>
    refine ⟨_, List.append_assoc _ _ _, fun e he => ?_⟩
    rcases List.mem_append.mp he with he | he <;>
      rw [List.mem_singleton.mp he] <;> exact ⟨rfl, rfl⟩
  | failed cache failure => exact given { c with cache } _
  | again cache left kept => exact ⟨[], (List.append_nil _).symm, by simp⟩

theorem Answered.record {c : Connection ρ} {m : BackendMessage} {t : Turn ρ}
    (h : Answered c m t) :
    ∃ es, t.after.record = c.record ++ es ∧ ∀ e ∈ es, e.ofAnswer = true := by
  cases h with
  | offered values columns head attends taken => exact ⟨_, rfl, by simp [Entry.ofAnswer]⟩
  | broke values columns head attends crash => exact ⟨_, rfl, by simp [Entry.ofAnswer]⟩
  | @finished f rest _ status head result =>
    obtain ⟨es, more, quiet⟩ := result.record
    refine ⟨_, more.trans (List.append_assoc _ _ _), fun e he => ?_⟩
    rcases List.mem_append.mp he with he | he
    · rw [List.mem_singleton.mp he]
      rfl
    · exact (quiet e he).1
  | _ => exact ⟨[], (List.append_nil _).symm, by simp⟩

end Connection

theorem Entry.unmarked {e : Entry ρ} (still : e.ofPipeline = false) :
    e.sentNumber? = none ∧ e.ofEnd = false := by
  cases e <;> first | exact ⟨rfl, rfl⟩ | cases still

theorem Record.sent_eq_nil {es : List (Entry ρ)} (h : ∀ e ∈ es, e.sentNumber? = none) :
    sent es = [] := List.filterMap_eq_nil_iff.mpr h

namespace Turn

open Connection

variable {K : Consumer ρ → Prop} {origin t u : Turn ρ} {c d : Connection ρ}

/-- An attempt ended when this connection, which has led to the turn, took the word that the server is
ready for more. -/
structure Ended (origin t : Turn ρ) (d : Connection ρ) (f : Flight ρ) (status : TransactionStatus) :
    Prop where
  reached : Moves (fun _ => True) origin (done d)
  passed : Moves (fun _ => True) (d.onMessage (.readyForQuery status)) t
  ready : d.stage = .ready
  opened : d.inbox.closedBy = none
  head : ∃ rest, d.inFlight = f :: rest

namespace Ended

variable {f : Flight ρ} {status : TransactionStatus}

theorem tail (h : Ended origin t d f status) (move : Move K t u) : Ended origin u d f status :=
  { h with passed := h.passed.tail (move.weaken fun _ _ => trivial) }

theorem regular (h : Ended origin t d f status) (start : Regular origin) : Regular (done d) :=
  moves_invariant (fun move => Regular.step move.stride) h.reached start

theorem heard (h : Ended origin t d f status) (start : Regular origin) :
    f.Heard d.cache (Record.group d.record) := by
  obtain ⟨rest, head⟩ := h.head
  have listening : Listening d.cache (Record.group d.record) (f :: rest) :=
    head ▸ (h.regular start).attentive (.of_stage h.ready (by decide)) h.opened
  exact listening.1

theorem error (h : Ended origin t d f status) (start : Regular origin) :
    f.error = Record.failure? d.record := (h.heard start).error

theorem closes (h : Ended origin t d f status) : ∃ rest, d.inFlight = f :: rest ∧
    Closes (d.unload status f rest) f (d.onMessage (.readyForQuery status)) := by
  obtain ⟨rest, head⟩ := h.head
  refine ⟨rest, head, ?_⟩
  rw [onMessage_ready h.ready head]
  exact finish_closes _ f

theorem answered (h : Ended origin t d f status) :
    Answered (d.enter [.received (.readyForQuery status)]) (.readyForQuery status)
      (d.onMessage (.readyForQuery status)) := by
  obtain ⟨rest, head⟩ := h.head
  rw [onMessage_ready h.ready head]
  exact .finished status head (finish_finished _ f)

theorem sendings (h : Ended origin t d f status) (n : Nat) :
    Record.sendings n (d.onMessage (.readyForQuery status)).after.record =
      Record.sendings n d.record := by
  obtain ⟨es, record, answer⟩ := h.answered.record
  rw [record, Record.sendings_still fun e he => (Entry.unsent_of_answer (answer e he)).1]
  exact Record.sendings_still (by simp [Entry.sentNumber?])

end Ended

theorem Orderly.ready_of_head {f : Flight ρ} {rest : List (Flight ρ)} (h : Orderly (done c))
    (head : c.inFlight = f :: rest) (stage : c.stage = .ready ∨ c.stage = .closing) :
    c.stage = .ready ∧ c.inbox.closedBy = none := by
  have opened : c.inbox.closedBy = none := h.inStep.opened_of_head head
  refine ⟨stage.resolve_right fun closing => ?_, opened⟩
  exact h.ends (closing ▸ rfl : c.stage.isEnding = true) opened

inductive Marks (t u : Turn ρ) : Prop
  | quiet (es : List (Entry ρ)) (record : u.after.record = t.after.record ++ es)
      (still : ∀ e ∈ es, e.ofEnd = false)
  | ended {c : Connection ρ} {f : Flight ρ} {rest : List (Flight ρ)} {es : List (Entry ρ)}
      (status : TransactionStatus) (before : t = done c)
      (after : u = c.onMessage (.readyForQuery status)) (ready : c.stage = .ready)
      (opened : c.inbox.closedBy = none) (head : c.inFlight = f :: rest)
      (record : u.after.record = c.record ++
        [.received (.readyForQuery status), .finished f.submission.number] ++ es)
      (result : Finished (c.unload status f rest) f u)
      (still : ∀ e ∈ es, e.finishedNumber? = none)

namespace Marks

theorem of_extends {kind : Entry ρ → Prop} (record : Extends kind t.after u.after)
    (still : ∀ e, kind e → e.ofPipeline = false) : Marks t u := by
  obtain ⟨es, more, _, idle⟩ := record
  exact .quiet _ more fun e he => (Entry.unmarked (still e (idle e he))).2

theorem of_answered {m : BackendMessage} (same : u = c.onMessage m) (orderly : Orderly (done c))
    (stage : c.stage = .ready ∨ c.stage = .closing) (k : Answered (c.enter [.received m]) m u) :
    Marks (done c) u := by
  cases k with
  | refused status i idle => exact .quiet [.received m] rfl (by simp [Entry.ofEnd])
  | noted cache plain head => exact .quiet [.received m] rfl (by simp [Entry.ofEnd])
  | tagged tag head => exact .quiet [.received _] rfl (by simp [Entry.ofEnd])
  | passed values columns head => exact .quiet [.received _] rfl (by simp [Entry.ofEnd])
  | @offered f rest s values columns head attends taken =>
    exact .quiet [.received (.dataRow values), .offered f.submission.number ⟨columns, values⟩]
      (List.append_assoc _ _ _) (by simp [Entry.ofEnd])
  | @broke f rest i values columns head attends crash =>
    exact .quiet [.received (.dataRow values), .offered f.submission.number ⟨columns, values⟩]
      (List.append_assoc _ _ _) (by simp [Entry.ofEnd])
  | @finished f rest _ status head result =>
    have head : c.inFlight = f :: rest := head
    obtain ⟨ready, opened⟩ := orderly.ready_of_head head stage
    obtain ⟨es, more, quiet⟩ := result.record
    refine .ended status rfl same ready opened head (more.trans ?_) result
      fun e he => (quiet e he).2
    simp [enter]

theorem of_message (orderly : Orderly (done c)) (m : BackendMessage) :
    Marks (done c) (c.onMessage m) := by
  rcases onMessage_cases c m with ⟨_, info, e⟩ | ⟨_, stage, e⟩ | ⟨_, stage, e⟩ | ⟨_, _, _, i, e⟩
  · rw [e]
    exact .quiet [.received m] rfl (by simp [Entry.ofEnd])
  · obtain ⟨es, more, _, idle⟩ := (SameWork.onAuthMessage (c.enter [.received m]) m).record
    rw [e]
    refine .quiet _ (more.trans (List.append_assoc _ _ _)) fun e he => ?_
    rcases List.mem_append.mp he with he | he
    · rw [List.mem_singleton.mp he]
      rfl
    · exact (Entry.unmarked (Entry.ofPipeline_eq_false (idle e he))).2
  · exact .of_answered rfl orderly stage (e ▸ onQueryMessage_answered _ m)
  · rw [e]
    exact .quiet [.received m] rfl (by simp [Entry.ofEnd])

end Marks

theorem Orderly.marks (stride : Stride K t u) (h : Orderly t) : Marks t u := by
  cases stride with
  | idle same => exact .of_extends same.aside.record fun _ he => Entry.ofPipeline_eq_false he.1
  | submit query params consumer allowed =>
    exact .of_extends (Settles.submit t.after query params consumer).record fun _ he => he.2
  | tell cause => exact .of_extends (Settles.abort t.after cause).record fun _ he => he.2
  | message m alive => exact .of_message h m
  | collect => exact .quiet [] (List.append_nil _).symm (by simp)
  | @close c => exact .of_extends (t := done c) (Settles.beginClose c).record fun _ he => he.2
  | @drop c => exact .of_extends (t := done c) (Settles.dropCancelled c).record fun _ he => he.2
  | @send c s rest ready first kept =>
    unfold Connection.send
    split
    · next p prepared =>
      exact .quiet [.queued p.batch.messages, .sent s.number p.batch.statement.name]
        (List.append_assoc _ _ _) (by simp [Entry.ofEnd])
    · next failure _ =>
      have settles := Settles.resolve ({ c with pending := rest } : Connection ρ) s (.error failure)
      obtain ⟨es, more, _, idle⟩ := settles.record
      exact .quiet _ more fun e he => (Entry.unmarked (idle e he).2).2

theorem Stride.voiced (stride : Stride K t u) (h : Record.Voiced t.after.record) :
    Record.Voiced u.after.record := by
  have still {c d : Connection ρ} {kind : Entry ρ → Prop} (before : Record.Voiced c.record)
      (record : Extends kind c d) (idle : ∀ e, kind e → e.ofPipeline = false) :
      Record.Voiced d.record := by
    obtain ⟨es, more, _, only⟩ := record
    rw [more]
    refine before.still (fun e he => (Entry.unmarked (idle e (only e he))).1) ?_
    exact Record.isQuery_of_still fun e he => idle e (only e he)
  cases stride with
  | idle same => exact still h same.aside.record fun _ he => Entry.ofPipeline_eq_false he.1
  | submit query params consumer allowed =>
    exact still h (Settles.submit t.after query params consumer).record fun _ he => he.2
  | tell cause => exact still h (Settles.abort t.after cause).record fun _ he => he.2
  | @message c m alive =>
    have received : Record.Voiced (c.enter [.received m]).record := by
      refine Record.Voiced.still h (by simp [Entry.sentNumber?]) ?_
      simp [Record.queued, Entry.queuedMessages]
    rcases onMessage_cases c m with ⟨_, _, e⟩ | ⟨_, _, e⟩ | ⟨_, _, e⟩ | ⟨_, _, _, _, e⟩ <;> rw [e]
    · exact received
    · exact still received (SameWork.onAuthMessage _ m).record fun _ => Entry.ofPipeline_eq_false
    · obtain ⟨es, more, answer⟩ := (onQueryMessage_answered (c.enter [.received m]) m).record
      rw [more]
      refine received.still (fun e he => (Entry.unsent_of_answer (answer e he)).1) ?_
      intro k hk
      obtain ⟨e, he, mem⟩ := List.mem_flatMap.mp hk
      rw [(Entry.unsent_of_answer (answer e he)).2] at mem
      cases mem
    · exact received
  | collect => exact h
  | @close c => exact still h (Settles.beginClose c).record fun _ he => he.2
  | @drop c => exact still h (Settles.dropCancelled c).record fun _ he => he.2
  | @send c s rest ready first kept =>
    unfold Connection.send
    split
    · next p prepared =>
      have voiced : Record.Voiced ((c.record ++ [.queued p.batch.messages]) ++
          [.sent s.number p.batch.statement.name]) := by
        rw [List.append_assoc]
        exact Record.Voiced.sent h p.batch.messages_isQuery _ _
      exact voiced
    · next failure _ =>
      exact still h (Settles.resolve ({ c with pending := rest } : Connection ρ) s
        (.error failure)).record fun _ he => he.2

def Endings (origin t : Turn ρ) : Prop :=
  Record.Each
    (fun before e => ∀ number, e = .finished number →
      ∃ d f status, before = d.record ++ [.received (.readyForQuery status)] ∧
        f.submission.number = number ∧ Ended origin t d f status)
    t.after.record

namespace Endings

theorem step (h : Endings origin t) (reached : Moves (fun _ => True) origin t)
    (orderly : Orderly t) (move : Move K t u) : Endings origin u := by
  have old : Record.Each (fun before e => ∀ number, e = .finished number →
      ∃ d f status, before = d.record ++ [.received (.readyForQuery status)] ∧
        f.submission.number = number ∧ Ended origin u d f status) t.after.record := by
    intro before e after split number finished
    obtain ⟨d, f, status, at_, same, ended⟩ := h before e after split number finished
    exact ⟨d, f, status, at_, same, ended.tail move⟩
  have single : Moves (fun _ => True) t u := .single (move.weaken fun _ _ => trivial)
  unfold Endings
  cases orderly.marks move.stride with
  | quiet es record still =>
    rw [record]
    refine Record.each_append_of_forall old fun e he before number finished => ?_
    have quiet := still e he
    rw [finished] at quiet
    cases quiet
  | @ended c f rest es status before after ready opened head record result still =>
    subst before
    subst after
    rw [record, List.append_assoc, List.cons_append, List.append_cons]
    refine Record.each_append (Record.each_snoc old ?_) ?_
    · intro number finished
      cases finished
    · intro before e after split number finished
      cases before with
      | nil =>
        obtain ⟨rfl, rfl⟩ := List.cons.inj split
        obtain rfl : f.submission.number = number := Entry.finished.inj finished
        exact ⟨c, f, status, List.append_nil _, rfl, reached, .refl, ready, opened, rest, head⟩
      | cons x before =>
        obtain ⟨_, split⟩ := List.cons.inj split
        have quiet := still e (by rw [show es = _ from split]; simp)
        rw [finished] at quiet
        cases quiet

end Endings

theorem run_endings (config : Config) (nonces : Nat → List Char) (actions : List (Action ρ)) :
    Endings (done (.start config nonces)) ((done (.start config nonces)).run actions) := by
  have start : Endings (done (Connection.start (ρ := ρ) config nonces))
      (done (.start config nonces)) := Record.each_nil
  obtain ⟨_, _, endings⟩ := moves_invariant
    (P := fun u => Moves (fun _ => True) (done (.start config nonces)) u ∧ Regular u ∧
      Endings (done (.start config nonces)) u)
    (fun move ⟨reached, regular, endings⟩ =>
      ⟨reached.tail (move.weaken fun _ _ => trivial), regular.step move.stride,
        endings.step reached regular.orderly move⟩)
    (run_moves (done (.start config nonces)) fun a (_ : a ∈ actions) => allows_any a)
    ⟨.refl, .start config nonces, start⟩
  exact endings

end Turn

end PgPipeline
