import Mathlib.Data.List.Induction
import PgPipeline.Proofs.Pipeline
import PgPipeline.Proofs.Preparation
import PgPipeline.Wire.Backend.Writer

namespace PgPipeline

open scoped List

variable {ρ : Type}

namespace Action

def attention : Action ρ := .dispatch .notified (.quiet [])

def answers (messages : List BackendMessage) : Action ρ :=
  .dispatch .readable (.giving (messages.flatMap BackendMessage.encode) [])

def admission : List (Action ρ) :=
  [.dispatch .connected (.quiet []), .answers [.authenticationOk, .readyForQuery .idle]]

end Action

namespace Connection

variable {c : Connection ρ}

theorem read_giving {piece : Bytes} {messages : List BackendMessage} {inbound : Inbound}
    {d : Connection ρ} (plain : c.transport = .plain) (agreed : c.awaitingEncryption = false)
    (drained : (c.inbound.feed piece).drain = (messages, none, inbound))
    (heard : ({ c with inbound } : Connection ρ).onMessages messages = .done d)
    (writes : List WriteAnswer) : c.read (.giving piece writes) = .done d := by
  have taken : ({ c with inbound := c.inbound.feed piece } : Connection ρ).takeInbound =
      .done d := by
    rw [takeInbound, if_neg (by simp [agreed]), takeMessages, drained]
    dsimp only
    rw [heard]
    rfl
  have learned : c.learnCertificate none = c := by rw [learnCertificate, plain]
  rw [Connection.read, Socket.giving, Socket.quiet, learned, takePieces, taken]
  rfl

end Connection

namespace Turn

open Connection

theorem act_answers {c d : Connection ρ} {messages : List BackendMessage}
    (begun : c.stage ≠ .disconnected) (alive : c.stage ≠ .closed)
    (read : c.read (.giving (messages.flatMap BackendMessage.encode) []) = done d) :
    d.record <+: ((done c).act (.answers messages)).after.record := by
  rw [Action.answers]
  generalize messages.flatMap BackendMessage.encode = piece at read
  have settles : Moves (fun _ => True) (done d) (d.settle (.giving piece [])) := by
    unfold settle
    split
    · exact .refl
    · exact .tail (pump_steps Move.serves _) (Move.serves.write _)
  have acted : (done c).act (.dispatch .readable (.giving piece [])) = d.settle (.giving piece []) := by
    change c.dispatch .readable (.giving piece []) = _
    rw [dispatch, if_neg alive, begin, if_neg begun, onEvent, read]
    rfl
  rw [acted]
  exact moves_record settles

end Turn

namespace BackendMessage

def isReady : BackendMessage → Bool
  | .readyForQuery _ => true
  | _ => false

def report? : BackendMessage → Option ServerReport
  | .errorResponse fields => some (.ofFields fields)
  | _ => none

def confirms : BackendMessage → Bool
  | .parseComplete => true
  | _ => false

def bringsColumns : BackendMessage → Bool
  | .rowDescription _ => true
  | .dataRow _ => true
  | _ => false

def sinceReady (ms : List BackendMessage) : List BackendMessage :=
  ms.foldl (fun group m => if m.isReady then [] else group ++ [m]) []

theorem sinceReady_snoc (ms : List BackendMessage) (m : BackendMessage) :
    sinceReady (ms ++ [m]) = if m.isReady then [] else sinceReady ms ++ [m] := by
  rw [sinceReady, List.foldl_append]
  rfl

theorem sinceReady_split (ms : List BackendMessage) :
    (∃ past, ms = past ++ sinceReady ms) ∧ ∀ m ∈ sinceReady ms, m.isReady = false := by
  induction ms using List.reverseRecOn with
  | nil => exact ⟨⟨[], rfl⟩, by simp [sinceReady]⟩
  | append_singleton ms m ih =>
    obtain ⟨⟨past, split⟩, quiet⟩ := ih
    rw [sinceReady_snoc]
    cases ready : m.isReady with
    | true => exact ⟨⟨ms ++ [m], (List.append_nil _).symm⟩, by simp⟩
    | false =>
      simp only [Bool.false_eq_true, if_false]
      refine ⟨⟨past, by rw [← List.append_assoc, ← split]⟩, fun k hk => ?_⟩
      rcases List.mem_append.mp hk with hk | hk
      · exact quiet k hk
      · exact List.mem_singleton.mp hk ▸ ready

end BackendMessage

def Entry.hear (s : Stage × List BackendMessage) : Entry ρ → Stage × List BackendMessage
  | .moved stage => (stage, s.2)
  | .received m => (s.1, if s.1 = .ready ∧ m.isAside = false then s.2 ++ [m] else s.2)
  | _ => s

namespace Record

/-- What the server has answered while the connection was ready, without the messages that can come
at any time. -/
def answered (es : List (Entry ρ)) : List BackendMessage :=
  (es.foldl Entry.hear (.disconnected, [])).2

def group (es : List (Entry ρ)) : List BackendMessage := BackendMessage.sinceReady (answered es)

theorem foldl_hear_stage (s : Stage × List BackendMessage) (es : List (Entry ρ)) :
    (es.foldl Entry.hear s).1 = stageFrom s.1 es := by
  induction es generalizing s with
  | nil => rfl
  | cons e rest ih =>
    rw [List.foldl_cons, ih]
    cases e <;> rfl

theorem answered_received (es : List (Entry ρ)) (m : BackendMessage) :
    answered (es ++ [.received m]) =
      if stage es = .ready ∧ m.isAside = false then answered es ++ [m] else answered es := by
  have now : (es.foldl Entry.hear (.disconnected, [])).1 = stage es := foldl_hear_stage _ es
  rw [answered, List.foldl_append, ← now]
  rfl

theorem answered_append {as bs : List (Entry ρ)} (h : ∀ m, .received m ∉ bs) :
    answered (as ++ bs) = answered as := by
  rw [answered, List.foldl_append]
  generalize hs : as.foldl Entry.hear (.disconnected, []) = s
  have same (s : Stage × List BackendMessage) : (bs.foldl Entry.hear s).2 = s.2 := by
    clear hs
    induction bs generalizing s with
    | nil => rfl
    | cons e rest ih =>
      rw [List.foldl_cons, ih fun m hm => h m (List.mem_cons_of_mem _ hm)]
      cases e with
      | received m => exact absurd List.mem_cons_self (h m)
      | _ => rfl
  rw [same, answered, hs]

theorem answered_still {as bs : List (Entry ρ)} (h : ∀ e ∈ bs, e.ofPipeline = false) :
    answered (as ++ bs) = answered as :=
  answered_append fun _ hm => by cases h _ hm

end Record

namespace Flight

def teach (f : Flight ρ) (cache : StatementCache) : BackendMessage → StatementCache
  | .rowDescription columns =>
    cache.learnColumns f.statement (columns.map fun column => { column with format := .binary })
  | .noData => if f.preparedHere then cache.learnColumns f.statement [] else cache
  | _ => cache

def columnsAfter (f : Flight ρ) (cache : StatementCache) : BackendMessage → Option (List Column)
  | .rowDescription columns => (f.teach cache (.rowDescription columns)).columns? f.statement
  | .dataRow _ => some (f.columns.getD ((cache.columns? f.statement).getD []))
  | _ => f.columns

structure Hears (f : Flight ρ) (cache : StatementCache) (m : BackendMessage) (g : Flight ρ) :
    Prop where
  number : g.submission.number = f.submission.number
  statement : g.statement = f.statement
  key : g.key = f.key
  preparedHere : g.preparedHere = f.preparedHere
  prepareConfirmed : g.prepareConfirmed = (f.prepareConfirmed || m.confirms)
  error : g.error = f.error.or m.report?
  columns : g.columns = f.columnsAfter cache m

/-- The flight has taken these messages and no others. -/
structure Heard (cache : StatementCache) (f : Flight ρ) (ms : List BackendMessage) : Prop where
  known : (cache.statement? f.statement).isSome
  prepareConfirmed : f.prepareConfirmed = ms.any BackendMessage.confirms
  error : f.error = (ms.filterMap BackendMessage.report?).head?
  described : f.columns.isSome = ms.any BackendMessage.bringsColumns
  columns : ∀ columns, f.columns = some columns →
    columns = (cache.columns? f.statement).getD []

theorem known_teach {cache : StatementCache} {id : Nat} (f : Flight ρ) (m : BackendMessage)
    (known : (cache.statement? id).isSome) : ((f.teach cache m).statement? id).isSome := by
  unfold teach
  split
  · exact StatementCache.known_learnColumns known _
  · split
    · exact StatementCache.known_learnColumns known _
    · exact known
  · exact known

end Flight

theorem Flight.teach_frame (f : Flight ρ) (cache : StatementCache) (m : BackendMessage) :
    (f.teach cache m).entries = cache.entries ∧
      (f.teach cache m).table.length = cache.table.length := by
  unfold Flight.teach
  split
  · exact cache.update_frame _ _
  · split
    · exact cache.update_frame _ _
    · exact ⟨rfl, rfl⟩
  · exact ⟨rfl, rfl⟩

theorem StatementCache.Sound.teach {cache : StatementCache} (h : cache.Sound) (f : Flight ρ)
    (m : BackendMessage) : (f.teach cache m).Sound := by
  unfold Flight.teach
  split
  · exact h.learnColumns _
  · split
    · exact h.learnColumns _
    · exact h
  · exact h

namespace Flight

theorem Heard.hears {cache : StatementCache} {f g : Flight ρ} {ms : List BackendMessage}
    {m : BackendMessage} (h : f.Heard cache ms) (step : f.Hears cache m g) :
    g.Heard (f.teach cache m) (ms ++ [m]) := by
  have known : ((f.teach cache m).statement? g.statement).isSome := by
    rw [step.statement]
    exact known_teach f m h.known
  have learnt (columns : List Column) :
      (cache.learnColumns f.statement columns).columns? f.statement =
        some ((cache.columns? f.statement).getD columns) :=
    StatementCache.columns?_learnColumns h.known columns
  refine ⟨known, ?_, ?_, ?_, ?_⟩
  · rw [step.prepareConfirmed, h.prepareConfirmed, List.any_append, List.any_cons, List.any_nil,
      Bool.or_false]
  · rw [step.error, h.error, List.filterMap_append, List.head?_append]
    cases report : m.report? <;> simp [report]
  · rw [step.columns, List.any_append, ← h.described]
    cases m <;> simp [columnsAfter, BackendMessage.bringsColumns, teach, learnt]
  · intro columns hg
    rw [step.columns] at hg
    rw [step.statement]
    cases m
    case rowDescription described =>
      rw [columnsAfter] at hg
      rw [hg, Option.getD_some]
    case dataRow values =>
      rw [columnsAfter] at hg
      rw [← Option.some_inj.mp hg]
      cases before : f.columns with
      | none => rfl
      | some columns => exact h.columns columns before
    case noData =>
      have same := h.columns columns hg
      rw [teach]
      split
      · rw [learnt, Option.getD_some]
        exact same
      · exact same
    all_goals exact h.columns columns hg

theorem Heard.keep {c d : StatementCache} {f : Flight ρ} {ms : List BackendMessage}
    (h : f.Heard c ms) (keeps : c.Keeps d) : f.Heard d ms := by
  refine ⟨keeps.known _ h.known, h.prepareConfirmed, h.error, h.described, ?_⟩
  rw [keeps.columns _ h.known]
  exact h.columns

theorem Heard.teach_other {cache : StatementCache} {f g : Flight ρ} (h : g.Heard cache [])
    (m : BackendMessage) : g.Heard (f.teach cache m) [] := by
  refine ⟨known_teach f m h.known, h.prepareConfirmed, h.error, h.described, ?_⟩
  intro columns some_
  have none_ : g.columns.isSome = false := h.described
  rw [some_] at none_
  cases none_

theorem Hears.quiet {cache : StatementCache} {f g : Flight ρ} {m : BackendMessage}
    (confirms : m.confirms = false) (report : m.report? = none)
    (number : g.submission.number = f.submission.number) (statement : g.statement = f.statement)
    (key : g.key = f.key) (preparedHere : g.preparedHere = f.preparedHere)
    (prepareConfirmed : g.prepareConfirmed = f.prepareConfirmed) (error : g.error = f.error)
    (columns : g.columns = f.columnsAfter cache m) : f.Hears cache m g := by
  refine ⟨number, statement, key, preparedHere, ?_, ?_, columns⟩
  · rw [prepareConfirmed, confirms, Bool.or_false]
  · rw [error, report, Option.or_none]

end Flight

namespace Connection

theorem onQueryMessage_hears (c : Connection ρ) {m : BackendMessage} (h : m.isReady = false) :
    ((c.onQueryMessage m).after.cache = c.cache ∧ (c.onQueryMessage m).interruption ≠ none) ∨
      ∃ f g rest, c.inFlight = f :: rest ∧ (c.onQueryMessage m).after.inFlight = g :: rest ∧
        f.Hears c.cache m g ∧ (c.onQueryMessage m).after.cache = f.teach c.cache m := by
  cases head : c.inFlight with
  | nil =>
    left
    cases m
    case readyForQuery status => cases h
    all_goals
      simp only [onQueryMessage, onError, onRowDescription, onNoData, onDataRow, onCommandComplete,
        updateHead, withHead, head, Turn.fail]
    case errorResponse fields => split <;> simp
    all_goals simp
  | cons f rest =>
    cases m
    case readyForQuery status => cases h
    case errorResponse fields =>
      simp only [onQueryMessage, onError, updateHead, withHead, head]
      split
      · exact .inl ⟨rfl, Option.some_ne_none _⟩
      · exact .inr ⟨f, _, rest, rfl, rfl, ⟨rfl, rfl, rfl, rfl, (Bool.or_false _).symm, rfl, rfl⟩,
          rfl⟩
    case parseComplete =>
      simp only [onQueryMessage, updateHead, withHead, head]
      exact .inr ⟨f, _, rest, rfl, rfl, ⟨rfl, rfl, rfl, rfl, (Bool.or_true _).symm,
        (Option.or_none).symm, rfl⟩, rfl⟩
    case rowDescription columns =>
      simp only [onQueryMessage, onRowDescription, withHead, head]
      exact .inr ⟨f, _, rest, rfl, rfl, .quiet rfl rfl rfl rfl rfl rfl rfl rfl rfl, rfl⟩
    case noData =>
      refine .inr ⟨f, f, rest, rfl, ?_, .quiet rfl rfl rfl rfl rfl rfl rfl rfl rfl, ?_⟩
      all_goals
        simp only [onQueryMessage, onNoData, withHead, head, Flight.teach, Turn.done]
        split
      all_goals first
        | rfl
        | exact head
    case dataRow values =>
      simp only [onQueryMessage, onDataRow, withHead, head]
      split
      · exact .inr ⟨f, _, rest, rfl, rfl, .quiet rfl rfl rfl rfl rfl rfl rfl rfl rfl, rfl⟩
      · split
        · next s taken =>
          have number := (Submission.offer_same taken).1
          exact .inr ⟨f, _, rest, rfl, rfl, .quiet rfl rfl number rfl rfl rfl rfl rfl rfl, rfl⟩
        · exact .inl ⟨rfl, Option.some_ne_none _⟩
    all_goals
      simp only [onQueryMessage, onCommandComplete, updateHead, withHead, head]
    all_goals first
      | exact .inr ⟨f, _, rest, rfl, rfl, .quiet rfl rfl rfl rfl rfl rfl rfl rfl rfl, rfl⟩
      | exact .inl ⟨rfl, Option.some_ne_none _⟩

end Connection

def Flight.spoils (f : Flight ρ) : Bool :=
  match f.error with
  | none => false
  | some report => report.isUnknownStatement || (f.preparedHere && !f.prepareConfirmed)

namespace Connection

theorem finishSuccess_frame (c : Connection ρ) (f : Flight ρ) :
    (c.finishSuccess f).after.inFlight = c.inFlight ∧ (c.finishSuccess f).after.inbox = c.inbox ∧
      (c.finishSuccess f).after.cache = c.cache := by
  unfold finishSuccess
  dsimp only
  split <;> split <;> exact ⟨rfl, rfl, rfl⟩

theorem finishUnknownStatement_frame (c : Connection ρ) (f : Flight ρ) :
    (c.finishUnknownStatement f).inFlight = c.inFlight ∧
      (c.finishUnknownStatement f).inbox = c.inbox ∧
      c.cache.Forgets (c.finishUnknownStatement f).cache := by
  have forgets := c.cache.forgets_invalidate f.key (c.cache.nameOf f.statement)
  unfold finishUnknownStatement
  dsimp only
  split <;> exact ⟨rfl, rfl, forgets⟩

theorem finishFailure_cache (c : Connection ρ) (f : Flight ρ) (report : ServerReport) :
    (c.finishFailure f report).cache =
      if f.preparedHere ∧ ¬ f.prepareConfirmed then
        c.cache.invalidate f.key (c.cache.nameOf f.statement)
      else c.cache := rfl

theorem finish_frame (c : Connection ρ) (f : Flight ρ) :
    (c.finish f).after.inFlight = c.inFlight ∧ (c.finish f).after.inbox = c.inbox ∧
      c.cache.Forgets (c.finish f).after.cache ∧
      (f.spoils = false → (c.finish f).after.cache = c.cache) := by
  unfold finish Flight.spoils
  cases f.error with
  | none =>
    obtain ⟨inFlight, inbox, cache⟩ := c.finishSuccess_frame f
    refine ⟨inFlight, inbox, ?_, fun _ => cache⟩
    simp only [cache]
    exact .refl _
  | some report =>
    cases unknown : report.isUnknownStatement with
    | true =>
      obtain ⟨inFlight, inbox, forgets⟩ := c.finishUnknownStatement_frame f
      simp only [unknown, if_true, Turn.done]
      exact ⟨inFlight, inbox, forgets, fun kept => by cases kept⟩
    | false =>
      simp only [unknown, Bool.false_eq_true, if_false, Turn.done]
      refine ⟨rfl, rfl, ?_, fun kept => ?_⟩
      · rw [finishFailure_cache]
        split
        · exact c.cache.forgets_invalidate _ _
        · exact .refl _
      · rw [finishFailure_cache, if_neg]
        rintro ⟨preparedHere, unconfirmed⟩
        simp [preparedHere, unconfirmed] at kept

def Wordless (es : List (Entry ρ)) : Prop := (∀ m, .received m ∉ es) ∧ Record.queued es = []

theorem Wordless.append {as bs : List (Entry ρ)} (ha : Wordless as) (hb : Wordless bs) :
    Wordless (as ++ bs) := by
  refine ⟨fun m hm => ?_, by rw [Record.queued_append, ha.2, hb.2, List.append_nil]⟩
  rcases List.mem_append.mp hm with hm | hm
  · exact ha.1 m hm
  · exact hb.1 m hm

theorem resolve_wordless (c : Connection ρ) (number : Nat) (result : Except Failure ρ) :
    ∃ es, (c.resolve number result).record = c.record ++ es ∧ Wordless es := by
  refine ⟨_, rfl, by simp, List.flatMap_eq_nil_iff.mpr fun e he => ?_⟩
  obtain ⟨r, _, rfl⟩ := List.mem_map.mp he
  rfl

theorem Finished.wordless {c : Connection ρ} {f : Flight ρ} {t : Turn ρ} (h : Finished c f t) :
    ∃ es, t.after.record = c.record ++ es ∧ Wordless es := by
  cases h with
  | told result attends given =>
    obtain ⟨es, more, quiet⟩ :=
      (c.enter [.concluded f.submission.number f.summary]).resolve_wordless f.submission.number result
    have told : Wordless (ρ := ρ) [.concluded f.submission.number f.summary] := ⟨by simp, rfl⟩
    exact ⟨_, more.trans (List.append_assoc _ _ _), told.append quiet⟩
  | broke text attends crash => exact ⟨_, List.append_assoc _ _ _, by simp, rfl⟩
  | failed cache failure => exact resolve_wordless { c with cache } f.submission.number _
  | again cache left kept => exact ⟨[], (List.append_nil _).symm, by simp, rfl⟩

theorem Answered.wordless {c : Connection ρ} {m : BackendMessage} {t : Turn ρ}
    (h : Answered c m t) : ∃ es, t.after.record = c.record ++ es ∧ Wordless es := by
  cases h with
  | offered values columns head attends taken => exact ⟨_, rfl, by simp, rfl⟩
  | broke values columns head attends crash => exact ⟨_, rfl, by simp, rfl⟩
  | @finished f rest _ status head result =>
    obtain ⟨es, more, quiet⟩ := result.wordless
    have finished : Wordless (ρ := ρ) [.finished f.submission.number] := ⟨by simp, rfl⟩
    exact ⟨_, more.trans (List.append_assoc _ _ _), finished.append quiet⟩
  | _ => exact ⟨[], (List.append_nil _).symm, by simp, rfl⟩

end Connection

namespace Turn

open Connection

/-- What a stride does to the cache, to the flights, to the answers and to what is queued for the
server. -/
inductive Dealt (t u : Turn ρ) : Prop
  | still (cache : u.after.cache = t.after.cache) (inFlight : u.after.inFlight = t.after.inFlight)
      (closedBy : u.after.inbox.closedBy = t.after.inbox.closedBy) (goesOn : u.GoesOn → t.GoesOn)
      (answered : Record.answered u.after.record = Record.answered t.after.record)
      (queued : ∃ ms, Record.queued u.after.record = Record.queued t.after.record ++ ms ∧
        ∀ m ∈ ms, m.isQuery = false)
  | shut (cache : u.after.cache = t.after.cache) (ended : u.GoesOn → u.after.inbox.closedBy ≠ none)
      (queued : ∃ ms, Record.queued u.after.record = Record.queued t.after.record ++ ms ∧
        ∀ m ∈ ms, m.isQuery = false)
  | heard {f g : Flight ρ} {rest : List (Flight ρ)} (m : BackendMessage) (quiet : m.isReady = false)
      (goesOn : t.GoesOn) (opened : t.after.inbox.closedBy = none)
      (head : t.after.inFlight = f :: rest) (inFlight : u.after.inFlight = g :: rest)
      (hears : f.Hears t.after.cache m g) (cache : u.after.cache = f.teach t.after.cache m)
      (answered : Record.answered u.after.record = Record.answered t.after.record ++ [m])
      (queued : Record.queued u.after.record = Record.queued t.after.record)
  | finished {f : Flight ρ} {rest : List (Flight ρ)} (status : TransactionStatus)
      (goesOn : t.GoesOn) (opened : t.after.inbox.closedBy = none)
      (head : t.after.inFlight = f :: rest) (inFlight : u.after.inFlight = rest)
      (forgets : t.after.cache.Forgets u.after.cache)
      (cache : f.spoils = false → u.after.cache = t.after.cache)
      (answered : Record.answered u.after.record =
        Record.answered t.after.record ++ [.readyForQuery status])
      (queued : Record.queued u.after.record = Record.queued t.after.record)
  | sent {s : Submission ρ} {p : Prepared} (goesOn : t.GoesOn)
      (opened : t.after.inbox.closedBy = none) (prepared : t.after.prepare s = .ok p)
      (cache : u.after.cache = p.cache)
      (inFlight : u.after.inFlight =
        t.after.inFlight ++ [.start s p.lookup.id p.lookup.key p.batch.prepares])
      (answered : Record.answered u.after.record = Record.answered t.after.record)
      (queued : Record.queued u.after.record =
        Record.queued t.after.record ++ p.batch.messages)

namespace Dealt

variable {t u : Turn ρ} {c : Connection ρ}

theorem of_still {kind : Entry ρ → Prop} (record : Extends kind t.after u.after)
    (quiet : ∀ e, kind e → e.ofPipeline = false) (cache : u.after.cache = t.after.cache)
    (inFlight : u.after.inFlight = t.after.inFlight)
    (closedBy : u.after.inbox.closedBy = t.after.inbox.closedBy)
    (goesOn : u.GoesOn → t.GoesOn) : Dealt t u := by
  obtain ⟨es, more, _, idle⟩ := record
  have still : ∀ e ∈ es, e.ofPipeline = false := fun e he => quiet e (idle e he)
  refine .still cache inFlight closedBy goesOn ?_ ⟨Record.queued es, ?_, ?_⟩
  · rw [more, Record.answered_still still]
  · rw [more, Record.queued_append]
  · exact Record.isQuery_of_still still

theorem of_shut (settles : Settles t.after u.after)
    (ended : u.GoesOn → u.after.inbox.closedBy ≠ none) : Dealt t u := by
  obtain ⟨es, more, _, idle⟩ := settles.record
  refine .shut settles.cache ended ⟨Record.queued es, ?_, ?_⟩
  · rw [more, Record.queued_append]
  · exact Record.isQuery_of_still fun e he => (idle e he).2

theorem query (told : c.Told) (inStep : InStep (done c)) (ends : c.EndsForCause)
    (alive : c.stage ≠ .closed) (stage : c.stage = .ready ∨ c.stage = .closing) {m : BackendMessage}
    (aside : m.isAside = false) :
    Dealt (done c) ((c.enter [.received m]).onQueryMessage m) := by
  have goesOn : GoesOn (done c) := ⟨rfl, alive⟩
  have queries : Record.queued (c.record ++ [.received m]) = Record.queued c.record := by
    rw [Record.queued_append]
    exact List.append_nil _
  -- A connection that is closing has no flights, so an answer that has one comes to a ready one.
  have ready {f : Flight ρ} {rest : List (Flight ρ)} (head : c.inFlight = f :: rest) :
      c.inbox.closedBy = none ∧
        Record.answered (c.record ++ [.received m]) = Record.answered c.record ++ [m] := by
    have opened : c.inbox.closedBy = none := inStep.opened_of_head head
    refine ⟨opened, ?_⟩
    rcases stage with ready | closing
    · rw [Record.answered_received, if_pos ⟨told.trans ready, aside⟩]
    · exact absurd opened (ends (closing ▸ rfl))
  obtain ⟨es, more, quiet⟩ := (onQueryMessage_answered (c.enter [.received m]) m).wordless
  have queued : Record.queued ((c.enter [.received m]).onQueryMessage m).after.record =
      Record.queued c.record := by
    rw [more, Record.queued_append, quiet.2, List.append_nil]
    exact queries
  have answered : Record.answered ((c.enter [.received m]).onQueryMessage m).after.record =
      Record.answered (c.record ++ [.received m]) := by
    rw [more, Record.answered_append quiet.1]
    rfl
  have refused (cache : ((c.enter [.received m]).onQueryMessage m).after.cache = c.cache)
      (broken : ((c.enter [.received m]).onQueryMessage m).interruption ≠ none) :
      Dealt (done c) ((c.enter [.received m]).onQueryMessage m) :=
    .shut cache (fun goesOn => absurd goesOn.1 broken)
      ⟨[], by rw [queued, List.append_nil]; rfl, by simp⟩
  cases isReady : m.isReady with
  | false =>
    rcases onQueryMessage_hears (c.enter [.received m]) isReady with ⟨cache, broken⟩ |
      ⟨f, g, rest, head, inFlight, hears, cache⟩
    · exact refused cache broken
    · exact .heard m isReady goesOn (ready head).1 head inFlight hears cache
        (answered.trans (ready head).2) queued
  | true =>
    obtain ⟨status, rfl⟩ : ∃ status, m = .readyForQuery status := by
      cases m <;> first | exact ⟨_, rfl⟩ | cases isReady
    cases head : c.inFlight with
    | nil =>
      refine refused ?_ ?_
      all_goals
        have empty : (c.enter [.received (.readyForQuery status)]).inFlight = [] := head
        simp [onQueryMessage, onReadyForQuery, withHead, empty, Turn.fail]
      rfl
    | cons f rest =>
      have frame := finish_frame (({ c.enter [.received (.readyForQuery status)] with
        transaction := status, inFlight := rest } : Connection ρ).enter
          [.finished f.submission.number]) f
      have turn : (c.enter [.received (.readyForQuery status)]).onQueryMessage
          (.readyForQuery status) = (({ c.enter [.received (.readyForQuery status)] with
            transaction := status, inFlight := rest } : Connection ρ).enter
              [.finished f.submission.number]).finish f := by
        have same : (c.enter [.received (.readyForQuery status)]).inFlight = f :: rest := head
        simp [onQueryMessage, onReadyForQuery, withHead, same]
      rw [← turn] at frame
      obtain ⟨inFlight, _, forgets, cache⟩ := frame
      exact .finished status goesOn (ready head).1 head inFlight forgets cache
        (answered.trans (ready head).2) queued

end Dealt

/-- What every step may count on: the flights are in step with the answers, the record tells the
stage, an end has its cause, and the cache is sound. -/
structure Orderly (t : Turn ρ) : Prop where
  inStep : InStep t
  told : t.after.Told
  ends : t.after.EndsForCause
  sound : t.after.cache.Sound

namespace Orderly

variable {K : Consumer ρ → Prop} {t u : Turn ρ}

theorem start (config : Config) (nonces : Nat → List Char) :
    Orderly (done (Connection.start (ρ := ρ) config nonces)) :=
  ⟨.start config nonces, rfl, fun ending => (by cases ending), .empty _⟩

theorem dealt (stride : Stride K t u) (h : Orderly t) : Dealt t u := by
  have goesOn := stride.goesOn
  cases stride with
  | idle same =>
    have work := same.aside.work
    exact .of_still same.aside.record (fun _ he => Entry.ofPipeline_eq_false he.1) same.aside.cache
      (congrArg Work.inFlight work) (congrArg Work.closedBy work) goesOn
  | submit query params consumer allowed =>
    have settles := Settles.submit t.after query params consumer
    obtain ⟨inFlight, closedBy, _⟩ := submit_frame t.after query params consumer
    exact .of_still settles.record (fun _ he => he.2) settles.cache inFlight closedBy goesOn
  | tell cause =>
    refine .of_shut (Settles.abort t.after cause) fun goesOn => ?_
    exact absurd (abort_stage t.after cause) goesOn.2
  | @message c m alive =>
    have quiet : Record.queued (c.record ++ [.received m]) = Record.queued c.record := by
      rw [Record.queued_append]
      exact List.append_nil _
    rcases onMessage_cases c m with ⟨aside, info, e⟩ | ⟨_, stage, e⟩ | ⟨aside, stage, e⟩ |
        ⟨_, _, _, i, e⟩
    · rw [e]
      refine .still rfl rfl rfl (fun _ => ⟨rfl, alive⟩) ?_ ⟨[], ?_, by simp⟩
      · exact (Record.answered_received c.record m).trans (if_neg (by simp [aside]))
      · exact quiet.trans (List.append_nil _).symm
    · have elsewhere : Record.stage c.record ≠ .ready :=
        fun ready => absurd (stage.symm.trans (h.told.symm.trans ready)) (by decide)
      have same := SameWork.onAuthMessage (c.enter [.received m]) m
      obtain ⟨es, more, _, idle⟩ := same.record
      have still : ∀ e ∈ es, e.ofPipeline = false := fun e he => Entry.ofPipeline_eq_false (idle e he)
      rw [e]
      refine .still same.cache (congrArg Work.inFlight same.work)
        (congrArg Work.closedBy same.work) (fun _ => ⟨rfl, alive⟩) ?_ ⟨Record.queued es, ?_, ?_⟩
      · rw [more, Record.answered_still still]
        exact (Record.answered_received c.record m).trans (if_neg fun ready => elsewhere ready.1)
      · rw [more, Record.queued_append]
        exact congrArg (· ++ Record.queued es) quiet
      · exact Record.isQuery_of_still still
    · rw [e]
      exact .query h.told h.inStep h.ends alive stage aside
    · rw [e]
      refine .shut rfl (fun goesOn => absurd goesOn.1 (Option.some_ne_none i)) ⟨[], ?_, by simp⟩
      exact quiet.trans (List.append_nil _).symm
  | collect => exact .of_still (.of_eq rfl rfl) (fun _ he => he) rfl rfl rfl goesOn
  | close => exact .of_shut (Settles.beginClose _) fun _ => h.ends.beginClose
  | @drop c =>
    have settles := Settles.dropCancelled c
    obtain ⟨inFlight, inbox, _⟩ := dropCancelled_frame c
    exact .of_still settles.record (fun _ he => he.2) settles.cache inFlight
      (congrArg Inbox.closedBy inbox) goesOn
  | @send c s rest ready first kept =>
    have alive : GoesOn (done c) := .of_stage ready (by decide)
    have opened : c.inbox.closedBy = none := by
      refine Classical.byContradiction fun closed => ?_
      have none_ := h.inStep.shut closed
      simp [Work.outstanding, work, first, done] at none_
    unfold Connection.send
    split
    · next p prepared =>
      refine .sent (s := s) alive opened prepared rfl rfl ?_ ?_
      · have record : (c.record ++ [.queued p.batch.messages]) ++
            [Entry.sent s.number p.batch.statement.name] = c.record ++
              [.queued p.batch.messages, .sent s.number p.batch.statement.name] :=
          List.append_assoc _ _ _
        exact (congrArg Record.answered record).trans (Record.answered_append (by simp))
      · simp [done, enter, queue, Record.queued, Entry.queuedMessages]
    · next failure _ =>
      have settles := Settles.resolve ({ c with pending := rest } : Connection ρ) s (.error failure)
      exact .of_still settles.record (fun _ he => he.2) settles.cache rfl rfl fun _ => alive

theorem step (stride : Stride K t u) (h : Orderly t) : Orderly u := by
  refine ⟨h.inStep.step stride h.told h.ends, h.told.step stride, h.ends.step stride, ?_⟩
  cases h.dealt stride with
  | still cache => exact cache ▸ h.sound
  | shut cache => exact cache ▸ h.sound
  | heard m quiet goesOn opened head inFlight hears cache =>
    rw [cache]
    exact h.sound.teach _ m
  | finished status goesOn opened head inFlight forgets => exact h.sound.forgets forgets
  | sent goesOn opened prepared cache =>
    rw [cache]
    exact prepare_sound h.sound prepared

end Orderly

/-- The head has heard the answers since the server was last ready for more, and the other flights
have heard nothing. -/
def Listening (cache : StatementCache) (group : List BackendMessage) : List (Flight ρ) → Prop
  | [] => group = []
  | f :: rest => f.Heard cache group ∧ ∀ g ∈ rest, g.Heard cache []

namespace Listening

variable {c d : StatementCache} {group : List BackendMessage} {fs : List (Flight ρ)}

theorem keep (h : Listening c group fs) (keeps : c.Keeps d) : Listening d group fs := by
  cases fs with
  | nil => exact h
  | cons f rest => exact ⟨h.1.keep keeps, fun g hg => (h.2 g hg).keep keeps⟩

theorem of_fresh (h : ∀ f ∈ fs, f.Heard c []) : Listening c [] fs := by
  cases fs with
  | nil => rfl
  | cons f rest => exact ⟨h f List.mem_cons_self, fun g hg => h g (List.mem_cons_of_mem _ hg)⟩

theorem snoc (h : Listening c group fs) {f : Flight ρ} (fresh : f.Heard c []) :
    Listening c group (fs ++ [f]) := by
  cases fs with
  | nil =>
    have none_ : group = [] := h
    subst none_
    exact ⟨fresh, by simp⟩
  | cons g rest =>
    refine ⟨h.1, fun k hk => ?_⟩
    rcases List.mem_append.mp hk with hk | hk
    · exact h.2 k hk
    · exact List.mem_singleton.mp hk ▸ fresh

end Listening

def Attentive (t : Turn ρ) : Prop :=
  t.GoesOn → t.after.inbox.closedBy = none →
    Listening t.after.cache (Record.group t.after.record) t.after.inFlight

namespace Attentive

variable {t u : Turn ρ}

theorem step (dealt : Dealt t u) (sound : t.after.cache.Sound) (h : Attentive t) :
    Attentive u := by
  intro goesOn opened
  cases dealt with
  | still cache inFlight closedBy before answered queued =>
    rw [cache, inFlight, Record.group, answered]
    exact h (before goesOn) (closedBy ▸ opened)
  | shut cache ended queued => exact absurd opened (ended goesOn)
  | heard m quiet before opened head inFlight hears cache answered queued =>
    have listening := h before opened
    rw [head] at listening
    rw [cache, inFlight, Record.group, answered, BackendMessage.sinceReady_snoc, quiet]
    exact ⟨listening.1.hears hears, fun g hg => (listening.2 g hg).teach_other m⟩
  | finished status before opened head inFlight forgets cache answered queued =>
    have listening := h before opened
    rw [head] at listening
    rw [inFlight, Record.group, answered, BackendMessage.sinceReady_snoc]
    exact .of_fresh fun g hg => (listening.2 g hg).keep (.of_table forgets.table)
  | @sent s p before opened prepared cache inFlight answered queued =>
    obtain ⟨keeps, known⟩ := prepare_keeps sound prepared
    have listening := h before opened
    rw [cache, inFlight, Record.group, answered]
    refine (listening.keep keeps).snoc ⟨known, rfl, rfl, rfl, ?_⟩
    intro columns hc
    cases hc

end Attentive

end Turn

end PgPipeline
