import PgPipeline.Proofs.Ending
import PgPipeline.Proofs.Ledger
import PgPipeline.Proofs.Login

namespace PgPipeline

variable {ρ : Type}

theorem Batch.messages_eq (b : Batch) :
    ∃ ms, b.messages = ms ++ [.sync] ∧ .sync ∉ ms := by
  refine ⟨_, rfl, fun sync => ?_⟩
  rcases List.mem_append.mp sync with sync | sync
  · rcases List.mem_append.mp sync with sync | sync
    · cases h : b.evicted <;> simp [h] at sync
    · split at sync <;> simp at sync
  · simp [execution] at sync

theorem Record.follows_still {before : List (Entry ρ)} {e : Entry ρ} (h : e.ofPipeline = false) :
    Follows before e := by
  cases e <;> first | exact trivial | cases h

/-- The flights know what has been answered: the head has the answers since the server was ready, and
the others none. -/
def Abreast (attends : Submission ρ → Prop) (l : Ledger) : List (Flight ρ) → Prop
  | [] => l.Fresh
  | f :: rest => (f.tag = l.tag ∧ f.rowsAffected = l.rowsAffected ∧
      (attends f.submission → l.offers.map (·.values) = l.rows)) ∧
      ∀ g ∈ rest, g.tag = "" ∧ g.rowsAffected = 0

namespace Abreast

variable {attends still : Submission ρ → Prop} {l : Ledger} {fs : List (Flight ρ)}

theorem mono (h : Abreast attends l fs) (stage : Stage) (le : ∀ s, still s → attends s) :
    Abreast still { l with stage } fs := by
  cases fs with
  | nil => exact ⟨h.tags, h.rows, h.offers⟩
  | cons f rest =>
    obtain ⟨⟨tag, rowsAffected, offers⟩, others⟩ := h
    exact ⟨⟨tag, rowsAffected, fun attended => offers (le _ attended)⟩, others⟩

theorem of_fresh (fresh : l.Fresh) (h : ∀ f ∈ fs, f.tag = "" ∧ f.rowsAffected = 0) :
    Abreast attends l fs := by
  cases fs with
  | nil => exact fresh
  | cons f rest =>
    obtain ⟨tag, rowsAffected⟩ := h f List.mem_cons_self
    refine ⟨⟨?_, ?_, fun _ => ?_⟩, fun g hg => h g (List.mem_cons_of_mem _ hg)⟩
    · rw [tag, Ledger.tag, fresh.tags]
      rfl
    · rw [rowsAffected, Ledger.rowsAffected, fresh.tags]
      rfl
    · rw [fresh.offers, fresh.rows]
      rfl

theorem snoc (h : Abreast attends l fs) (s : Submission ρ) (statement : StatementId)
    (key : StatementKey) (preparedHere : Bool) :
    Abreast attends l (fs ++ [.start s statement key preparedHere]) := by
  cases fs with
  | nil => exact of_fresh h (by simp [Flight.start])
  | cons f rest =>
    refine ⟨h.1, fun g hg => ?_⟩
    rcases List.mem_append.mp hg with hg | hg
    · exact h.2 g hg
    · cases List.mem_singleton.mp hg
      exact ⟨rfl, rfl⟩

end Abreast

namespace Turn

open Connection

structure InStep (t : Turn ρ) : Prop where
  order : Record.Each Record.Follows t.after.record
  syncs : (Record.queued t.after.record).count .sync = (Record.sent t.after.record).length
  opened : t.after.inbox.closedBy = none → Record.sent t.after.record =
    Record.finished t.after.record ++ t.after.inFlight.map (·.submission.number)
  shut : t.after.inbox.closedBy ≠ none → t.after.work.outstanding = []
  counted : t.GoesOn →
    (Record.ledger t.after.record).answers = (Record.finished t.after.record).length
  abreast : t.GoesOn → t.after.inbox.closedBy = none →
    Abreast t.after.Attends (Record.ledger t.after.record) t.after.inFlight

namespace InStep

variable {t u : Turn ρ} {c : Connection ρ}

theorem start (config : Config) (nonces : Nat → List Char) :
    InStep (done (Connection.start (ρ := ρ) config nonces)) :=
  ⟨Record.each_nil, rfl, fun _ => rfl, fun _ => rfl, fun _ => rfl, fun _ _ => ⟨rfl, rfl, rfl⟩⟩

theorem attends_of_subset {c d : Connection ρ} (h : c.inbox.cancelled ⊆ d.inbox.cancelled)
    {s : Submission ρ} (attends : d.Attends s) : c.Attends s := by
  refine ⟨?_, attends.2⟩
  refine Bool.eq_false_iff.mpr fun cancelled => ?_
  have mem := h (List.contains_iff_mem.mp cancelled)
  exact absurd (attends.1.symm.trans (List.contains_iff_mem.mpr mem)) (by decide)

theorem opened_of_head (h : InStep t) {f : Flight ρ} {rest : List (Flight ρ)}
    (head : t.after.inFlight = f :: rest) : t.after.inbox.closedBy = none := by
  refine Classical.byContradiction fun closed => ?_
  have none_ := h.shut closed
  simp [Work.outstanding, work, head] at none_

theorem grow {es : List (Entry ρ)} (h : InStep t) (more : u.after.record = t.after.record ++ es)
    (order : Record.Each Record.Follows (t.after.record ++ es))
    (syncs : (Record.queued es).count .sync = (Record.sent es).length)
    (opened : u.after.inbox.closedBy = none → t.after.inbox.closedBy = none ∧
      t.after.inFlight.map (·.submission.number) ++ Record.sent es =
        Record.finished es ++ u.after.inFlight.map (·.submission.number))
    (shut : u.after.inbox.closedBy ≠ none → u.after.work.outstanding = [])
    (counted : u.GoesOn → t.GoesOn ∧ (Record.ledger (t.after.record ++ es)).answers =
      (Record.ledger t.after.record).answers + (Record.finished es).length)
    (abreast : u.GoesOn → u.after.inbox.closedBy = none →
      Abreast u.after.Attends (Record.ledger (t.after.record ++ es)) u.after.inFlight) :
    InStep u := by
  refine ⟨?_, ?_, fun open_ => ?_, shut, fun goesOn => ?_, fun goesOn open_ => ?_⟩
  · rw [more]
    exact order
  · rw [more, Record.queued_append, Record.sent_append, List.count_append, List.length_append,
      h.syncs, syncs]
  · obtain ⟨before, moved⟩ := opened open_
    rw [more, Record.sent_append, Record.finished_append, h.opened before, List.append_assoc,
      moved, List.append_assoc]
  · obtain ⟨before, answers⟩ := counted goesOn
    rw [more, answers, h.counted before, Record.finished_append, List.length_append]
  · rw [more]
    exact abreast goesOn open_

theorem still (h : InStep t) (record : Extends (fun e => e.ofPipeline = false) t.after u.after)
    (cancelled : t.after.inbox.cancelled ⊆ u.after.inbox.cancelled)
    (inFlight : u.after.inFlight = t.after.inFlight)
    (closedBy : u.after.inbox.closedBy = t.after.inbox.closedBy)
    (shut : u.after.inbox.closedBy ≠ none → u.after.work.outstanding = [])
    (goesOn : u.GoesOn → t.GoesOn) : InStep u := by
  obtain ⟨es, more, _, quiet⟩ := record
  obtain ⟨sent, finished, syncs⟩ := Record.still_eq quiet
  refine h.grow more ?_ ?_ (fun opened => ⟨?_, ?_⟩) shut (fun goes => ⟨goesOn goes, ?_⟩) ?_
  · exact Record.each_append_of_forall h.order fun e he _ => Record.follows_still (quiet e he)
  · rw [syncs, sent]
    rfl
  · exact closedBy.symm.trans opened
  · rw [sent, finished, inFlight, List.append_nil]
    rfl
  · rw [Record.ledger_append, Record.foldl_take_still _ quiet, finished]
    rfl
  · intro goes opened
    rw [Record.ledger_append, Record.foldl_take_still _ quiet, inFlight]
    exact (h.abreast (goesOn goes) (closedBy.symm.trans opened)).mono _
      fun _ attends => attends_of_subset cancelled attends

theorem ended (h : InStep t) (record : Extends (fun e => e.ofPipeline = false) t.after u.after)
    (closedBy : u.after.inbox.closedBy ≠ none) (outstanding : u.after.work.outstanding = [])
    (goesOn : u.GoesOn → t.GoesOn) : InStep u := by
  obtain ⟨es, more, _, quiet⟩ := record
  obtain ⟨sent, finished, syncs⟩ := Record.still_eq quiet
  refine h.grow more ?_ ?_ (fun opened => absurd opened closedBy) (fun _ => outstanding)
    (fun goes => ⟨goesOn goes, ?_⟩) fun _ opened => absurd opened closedBy
  · exact Record.each_append_of_forall h.order fun e he _ => Record.follows_still (quiet e he)
  · rw [syncs, sent]
    rfl
  · rw [Record.ledger_append, Record.foldl_take_still _ quiet, finished]
    rfl

theorem received (h : InStep (done c)) {m : BackendMessage}
    (aside : Record.stage c.record ≠ .ready ∨ m.isPlain) (goesOn : GoesOn (done c)) :
    InStep (done (c.enter [.received m])) := by
  have ledger := Record.ledger_idle aside
  refine h.grow rfl (Record.each_snoc h.order trivial) rfl (fun opened => ⟨opened, ?_⟩) h.shut
    (fun _ => ⟨goesOn, ?_⟩) fun _ opened => ?_
  · exact List.append_nil _
  · exact congrArg Ledger.answers ledger
  · rw [show (done c).after = c from rfl, ledger]
    exact h.abreast goesOn opened

theorem refused (h : InStep (done c)) {m : BackendMessage} {i : Interruption}
    (record : u.after.record = c.record ++ [.received m]) (work : u.after.work = c.work)
    (interrupted : u.interruption = some i) : InStep u := by
  have broken (goesOn : u.GoesOn) : False := absurd (goesOn.1.symm.trans interrupted) (by simp)
  refine h.grow record (Record.each_snoc h.order trivial) rfl (fun opened => ⟨?_, ?_⟩)
    (fun closed => ?_) (fun goesOn => (broken goesOn).elim) fun goesOn => (broken goesOn).elim
  · exact (congrArg Work.closedBy work).symm.trans opened
  · rw [show u.after.inFlight = c.inFlight from congrArg Work.inFlight work]
    exact List.append_nil _
  · rw [work]
    exact h.shut fun opened => closed ((congrArg Work.closedBy work).trans opened)

theorem answeredHead {f g : Flight ρ} {rest : List (Flight ρ)} {es : List (Entry ρ)}
    (h : InStep (done c)) (head : c.inFlight = f :: rest)
    (number : g.submission.number = f.submission.number)
    (record : u.after.record = c.record ++ es) (inFlight : u.after.inFlight = g :: rest)
    (inbox : u.after.inbox = c.inbox) (order : Record.Each Record.Follows (c.record ++ es))
    (syncs : (Record.queued es).count .sync = 0) (sent : Record.sent es = [])
    (finished : Record.finished es = []) (goesOn : GoesOn (done c))
    (answers : (Record.ledger (c.record ++ es)).answers = (Record.ledger c.record).answers)
    (abreast : u.GoesOn → Abreast u.after.Attends (Record.ledger (c.record ++ es)) (g :: rest)) :
    InStep u := by
  have opened : c.inbox.closedBy = none := h.opened_of_head head
  refine h.grow record order ?_ (fun _ => ⟨opened, ?_⟩) (fun closed => ?_)
    (fun _ => ⟨goesOn, ?_⟩) fun goesOn _ => ?_
  · rw [syncs, sent]
    rfl
  · rw [show (done c).after.inFlight = f :: rest from head, inFlight, sent, finished]
    simp [number]
  · rw [inbox] at closed
    exact absurd opened closed
  · rw [finished]
    exact answers
  · rw [inFlight]
    exact abreast goesOn

theorem due (h : InStep (done c)) (goesOn : GoesOn (done c))
    (ready : Record.stage c.record = .ready) {f : Flight ρ} {rest : List (Flight ρ)}
    (head : c.inFlight = f :: rest) : Record.Due c.record f.submission.number := by
  refine ⟨ready, ?_⟩
  have sent : Record.sent c.record =
      Record.finished c.record ++ c.inFlight.map (·.submission.number) :=
    h.opened (h.opened_of_head head)
  have answers : (Record.ledger c.record).answers = (Record.finished c.record).length :=
    h.counted goesOn
  rw [sent, answers, List.getElem?_append_right (Nat.le_refl _), Nat.sub_self, head]
  rfl

theorem offeredRow (h : InStep (done c)) (goesOn : GoesOn (done c))
    (ready : Record.stage c.record = .ready) {f : Flight ρ} {rest : List (Flight ρ)}
    (head : c.inFlight = f :: rest) (row : Row) :
    Record.Each Record.Follows (c.record ++ [.received (.dataRow row.values)] ++
      [.offered f.submission.number row]) := by
  refine Record.each_snoc (Record.each_snoc h.order trivial) ?_
  exact ⟨c.record, rfl, h.due goesOn ready head⟩

theorem finishedHead (h : InStep (done c)) (goesOn : GoesOn (done c))
    (ready : Record.stage c.record = .ready) {f : Flight ρ} {rest : List (Flight ρ)}
    (head : c.inFlight = f :: rest) (status : TransactionStatus) :
    InStep (done (({ c.enter [.received (.readyForQuery status)] with
      transaction := status, inFlight := rest } : Connection ρ).enter
        [.finished f.submission.number])) := by
  have opened : c.inbox.closedBy = none := h.opened_of_head head
  have abreast : Abreast c.Attends (Record.ledger c.record) (f :: rest) :=
    head ▸ h.abreast goesOn opened
  have ledger : Record.ledger (c.record ++ [.received (.readyForQuery status),
      .finished f.submission.number]) =
        (Record.ledger c.record).answer (.readyForQuery status) := by
    rw [List.append_cons, Record.ledger_snoc, Record.ledger_received _ ready]
    rfl
  refine h.grow (show _ = c.record ++ [.received (.readyForQuery status),
      .finished f.submission.number] from List.append_assoc _ _ _) ?_ rfl
    (fun _ => ⟨opened, ?_⟩) (fun closed => absurd opened closed) (fun _ => ⟨goesOn, ?_⟩)
    fun _ _ => ?_
  · rw [List.append_cons]
    refine Record.each_snoc (Record.each_snoc h.order trivial) ?_
    exact ⟨c.record, status, rfl, h.due goesOn ready head, (h.counted goesOn).symm⟩
  · rw [show (done c).after.inFlight = f :: rest from head]
    exact List.append_nil _
  · exact congrArg Ledger.answers ledger
  · rw [show (done c).after.record = c.record from rfl, ledger]
    exact .of_fresh ⟨rfl, rfl, rfl⟩ abreast.2

theorem concluded (h : InStep (done c)) (goesOn : GoesOn (done c)) {number : Nat}
    {summary : Summary} (follows : Record.Follows c.record (.concluded number summary)) :
    InStep (done (c.enter [.concluded number summary])) := by
  have ledger : Record.ledger (c.record ++ [.concluded number summary]) = Record.ledger c.record :=
    Record.ledger_snoc _ _
  refine h.grow rfl (Record.each_snoc h.order follows) rfl (fun opened => ⟨opened, ?_⟩) h.shut
    (fun _ => ⟨goesOn, ?_⟩) fun _ opened => ?_
  · exact List.append_nil _
  · exact congrArg Ledger.answers ledger
  · rw [show (done c).after = c from rfl, ledger]
    exact h.abreast goesOn opened

theorem settled (h : InStep (done c)) (goesOn : GoesOn (done c)) (k : Settles c u.after)
    (inFlight : u.after.inFlight = c.inFlight)
    (closedBy : u.after.inbox.closedBy = c.inbox.closedBy) (opened : c.inbox.closedBy = none) :
    InStep u :=
  h.still (k.record.weaken fun _ he => he.2) k.cancelled inFlight closedBy
    (fun closed => absurd (closedBy.trans opened) closed) fun _ => goesOn

theorem relearn (h : InStep (done c)) (cache : StatementCache) :
    InStep (done { c with cache }) :=
  ⟨h.order, h.syncs, h.opened, h.shut, h.counted, h.abreast⟩

theorem finished (h : InStep (done c)) (goesOn : GoesOn (done c))
    (ready : Record.stage c.record = .ready) {f : Flight ρ} {rest : List (Flight ρ)}
    (head : c.inFlight = f :: rest) {status : TransactionStatus}
    (k : Finished (({ c.enter [.received (.readyForQuery status)] with
      transaction := status, inFlight := rest } : Connection ρ).enter
        [.finished f.submission.number]) f u) : InStep u := by
  have opened : c.inbox.closedBy = none := h.opened_of_head head
  obtain ⟨⟨tag, rowsAffected, offers⟩, -⟩ : Abreast c.Attends (Record.ledger c.record) (f :: rest) :=
    head ▸ h.abreast goesOn opened
  have popped := h.finishedHead goesOn ready head status
  have told (attends : c.Attends f.submission) := popped.concluded goesOn
    (show Record.Follows _ (.concluded f.submission.number f.summary) from
      ⟨c.record, status, List.append_assoc _ _ _, tag, rowsAffected, offers attends⟩)
  cases k with
  | told result attends given =>
    exact (told attends).settled goesOn (.resolve _ f.submission result) rfl rfl opened
  | broke text attends crash =>
    refine (told attends).settled goesOn ?_ rfl rfl opened
    exact .enter (by simp [Entry.stageAfter]) (by simp [Entry.ofLogin, Entry.ofPipeline])
  | failed cache failure =>
    exact (popped.relearn cache).settled goesOn (.resolve _ f.submission _) rfl rfl opened
  | again cache left kept =>
    -- The batch is finished all the same; the next one of this submission is sent behind the others.
    exact (popped.relearn cache).settled goesOn (.of_eq rfl rfl rfl rfl rfl rfl) rfl rfl opened

theorem sentFirst (h : InStep (done c)) (goesOn : GoesOn (done c)) {s : Submission ρ}
    {rest : List (Submission ρ)} (first : c.pending = s :: rest) :
    InStep (done (({ c with pending := rest } : Connection ρ).send s)) := by
  have opened : c.inbox.closedBy = none := by
    refine Classical.byContradiction fun closed => ?_
    have none_ := h.shut closed
    simp [Work.outstanding, work, first, done] at none_
  unfold Connection.send
  split
  · next p _ =>
    obtain ⟨ms, messages, sync⟩ := p.batch.messages_eq
    refine h.grow (show _ = c.record ++ [.queued p.batch.messages,
        .sent s.number p.batch.statement.name] from List.append_assoc _ _ _) ?_ ?_
      (fun _ => ⟨opened, ?_⟩) (fun closed => absurd opened closed) (fun _ => ⟨goesOn, ?_⟩)
      fun _ _ => ?_
    · rw [List.append_cons]
      refine Record.each_snoc (Record.each_snoc h.order trivial) ?_
      exact ⟨c.record, ms, by rw [messages]; rfl, sync⟩
    · have one : (ms ++ [FrontendMessage.sync]).count .sync = 1 := by
        rw [List.count_append, List.count_eq_zero.mpr sync]
        rfl
      have queued : Record.queued [.queued p.batch.messages,
          Entry.sent (ρ := ρ) s.number p.batch.statement.name] = ms ++ [.sync] := by
        simp [Record.queued, Entry.queuedMessages, messages]
      rw [queued, one]
      rfl
    · have flights (g : Flight ρ) : c.inFlight.map (·.submission.number) ++ [g.submission.number] =
          (c.inFlight ++ [g]).map (·.submission.number) := by
        rw [List.map_append]
        rfl
      exact flights (.start s p.lookup.id p.lookup.key p.batch.prepares)
    · rw [Record.ledger_append]
      rfl
    · rw [Record.ledger_append]
      exact (h.abreast goesOn opened).snoc _ _ _ _
  · next failure _ =>
    have taken : Settles c { c with pending := rest } := .of_eq rfl rfl rfl rfl rfl rfl
    exact h.settled goesOn (taken.trans (.resolve _ s _)) rfl rfl opened

theorem answered (h : InStep (done c)) (goesOn : GoesOn (done c))
    (ready : c.inbox.closedBy = none → Record.stage c.record = .ready) {m : BackendMessage}
    (k : Answered (c.enter [.received m]) m u) : InStep u := by
  have received : Record.Each Record.Follows (c.record ++ [.received m]) :=
    Record.each_snoc h.order trivial
  have broken {d : Connection ρ} {i : Interruption} {p : Prop} (goesOn : GoesOn ⟨d, some i⟩) : p :=
    absurd goesOn.1 (by simp)
  have open_ {f : Flight ρ} {rest : List (Flight ρ)} (head : c.inFlight = f :: rest) :
      Record.stage c.record = .ready ∧ Abreast c.Attends (Record.ledger c.record) (f :: rest) := by
    have opened : c.inbox.closedBy = none := h.opened_of_head head
    exact ⟨ready opened, head ▸ h.abreast goesOn opened⟩
  cases k with
  | refused status i idle => exact h.refused (m := m) rfl rfl rfl
  | noted cache plain head submission tag rowsAffected =>
    obtain ⟨_, ⟨tag', rowsAffected', offers⟩, others⟩ := open_ head
    have ledger : Record.ledger (c.record ++ [.received m]) = Record.ledger c.record :=
      Record.ledger_idle (.inr plain)
    refine h.answeredHead head ?_ (by rfl) rfl rfl received rfl rfl rfl goesOn ?_ fun _ => ?_
    · rw [submission]
    · exact congrArg Ledger.answers ledger
    · rw [ledger]
      exact ⟨⟨tag.trans tag', rowsAffected.trans rowsAffected', submission ▸ offers⟩, others⟩
  | tagged tag head =>
    obtain ⟨ready, ⟨_, rowsAffected, offers⟩, others⟩ := open_ head
    have ledger := Record.ledger_received (.commandComplete tag) ready
    refine h.answeredHead head (by rfl) (by rfl) rfl rfl received rfl rfl rfl goesOn ?_ fun _ => ?_
    · rw [ledger]
      rfl
    · rw [ledger]
      refine ⟨⟨?_, ?_, offers⟩, others⟩
      · simp [Ledger.tag, Ledger.answer]
      · simp [Ledger.rowsAffected, Ledger.answer, rowsAffected]
  | passed values columns head unattended =>
    obtain ⟨ready, ⟨tag, rowsAffected, _⟩, others⟩ := open_ head
    have ledger := Record.ledger_received (.dataRow values) ready
    refine h.answeredHead head (by rfl) (by rfl) rfl rfl received rfl rfl rfl goesOn ?_ fun _ => ?_
    · rw [ledger]
      rfl
    · rw [ledger]
      exact ⟨⟨tag, rowsAffected, fun attends => absurd attends unattended⟩, others⟩
  | @offered f rest s values columns head attends taken =>
    obtain ⟨ready, ⟨tag, rowsAffected, offers⟩, others⟩ := open_ head
    have number : s.number = f.submission.number := (Submission.offer_same taken).1
    have order := h.offeredRow goesOn ready head ⟨columns, values⟩
    have ledger : Record.ledger (c.record ++ [.received (.dataRow values),
        .offered f.submission.number ⟨columns, values⟩]) =
          { (Record.ledger c.record).answer (.dataRow values) with
            offers := (Record.ledger c.record).offers ++ [⟨columns, values⟩] } := by
      rw [List.append_cons, Record.ledger_snoc, Record.ledger_received _ ready]
      rfl
    refine h.answeredHead head number (show _ = c.record ++ [.received (.dataRow values),
        .offered f.submission.number ⟨columns, values⟩] from List.append_assoc _ _ _)
      rfl rfl ?_ rfl rfl rfl goesOn ?_ fun _ => ?_
    · rw [List.append_cons]
      exact order
    · rw [ledger]
      rfl
    · rw [ledger]
      refine ⟨⟨tag, rowsAffected, fun _ => ?_⟩, others⟩
      simp [Ledger.answer, offers attends]
  | @broke f rest i values columns head attends crash =>
    have order := h.offeredRow goesOn (open_ head).1 head ⟨columns, values⟩
    refine h.answeredHead head (by rfl) (show _ = c.record ++ [.received (.dataRow values),
        .offered f.submission.number ⟨columns, values⟩] from List.append_assoc _ _ _)
      rfl rfl ?_ rfl rfl rfl goesOn ?_ fun goesOn => broken goesOn
    · rw [List.append_cons]
      exact order
    · rw [List.append_cons, Record.ledger_snoc, Record.ledger_received _ (open_ head).1]
      rfl
  | finished status head result => exact h.finished goesOn (open_ head).1 head result

theorem message (h : InStep (done c)) (told : c.Told) (ends : c.EndsForCause)
    (alive : c.stage ≠ .closed) (m : BackendMessage) : InStep (c.onMessage m) := by
  have goesOn : GoesOn (done c) := ⟨rfl, alive⟩
  rcases onMessage_cases c m with ⟨aside, info, e⟩ | ⟨_, stage, e⟩ | ⟨_, stage, e⟩ |
      ⟨_, _, _, i, e⟩
  · have plain : m.isPlain := by cases m <;> first | rfl | cases aside
    rw [e]
    exact (h.received (.inr plain) goesOn).still (.of_eq rfl rfl) (List.Subset.refl _) rfl rfl h.shut
      fun _ => goesOn
  · -- During authentication the ledger stands still, whatever the server sends.
    have elsewhere : Record.stage c.record ≠ .ready :=
      fun ready => absurd (stage.symm.trans (told.symm.trans ready)) (by decide)
    have same := SameWork.onAuthMessage (c.enter [.received m]) m
    rw [e]
    refine (h.received (m := m) (.inl elsewhere) goesOn).still
      (same.record.weaken fun _ idle => Entry.ofPipeline_eq_false idle) same.cancelled
      (congrArg Work.inFlight same.work) (congrArg Work.closedBy same.work) ?_ fun _ => goesOn
    rw [same.work]
    exact fun closed => h.shut fun opened => closed ((congrArg Work.closedBy same.work).trans opened)
  · rw [e]
    refine h.answered goesOn (fun opened => ?_) (onQueryMessage_answered _ m)
    -- A connection that is closing has no flights left, so an answer finds none to belong to.
    rcases stage with ready | closing
    · exact Eq.trans told ready
    · exact absurd opened (ends (closing ▸ rfl))
  · rw [e]
    exact h.refused rfl rfl rfl

theorem abort_outstanding (shut : c.inbox.closedBy ≠ none → c.work.outstanding = [])
    (ends : c.EndsForCause) (cause : Failure) : (c.abort cause).work.outstanding = [] := by
  unfold Connection.abort
  split
  · next closed => exact shut (ends (closed ▸ rfl))
  · exact (failAll_frame (c.moveTo .closed) cause).1

theorem beginClose_outstanding (shut : c.inbox.closedBy ≠ none → c.work.outstanding = [])
    (ends : c.EndsForCause) : c.beginClose.work.outstanding = [] := by
  unfold Connection.beginClose
  split
  · rw [(Aside.leave (c.failAll .closed)).work]
    exact (failAll_frame c .closed).1
  · exact abort_outstanding shut ends .closed

theorem step {K : Consumer ρ → Prop} (stride : Stride K t u) (told : t.after.Told)
    (ends : t.after.EndsForCause) (h : InStep t) : InStep u := by
  have goesOn := stride.goesOn
  cases stride with
  | idle same =>
    have work := same.aside.work
    refine h.still (same.aside.record.weaken fun _ idle => Entry.ofPipeline_eq_false idle.1)
      same.aside.cancelled (congrArg Work.inFlight work) (congrArg Work.closedBy work) ?_ goesOn
    rw [work]
    exact fun closed => h.shut fun opened => closed ((congrArg Work.closedBy work).trans opened)
  | submit query params consumer allowed =>
    have settles := Settles.submit t.after query params consumer
    obtain ⟨inFlight, closedBy, outstanding⟩ := submit_frame t.after query params consumer
    refine h.still (settles.record.weaken fun _ he => he.2) settles.cancelled inFlight closedBy
      (fun closed => ?_) goesOn
    have before : t.after.inbox.closedBy ≠ none := fun opened => closed (closedBy.trans opened)
    exact (outstanding before).trans (h.shut before)
  | tell cause =>
    exact h.ended ((Settles.abort t.after cause).record.weaken fun _ he => he.2) (ends.abort cause)
      (abort_outstanding h.shut ends cause) goesOn
  | message m alive => exact h.message told ends alive m
  | collect =>
    refine h.still (.of_eq rfl rfl) (List.Subset.refl _) rfl rfl (fun closed => ?_) goesOn
    have none_ := h.shut closed
    simpa [Work.outstanding, work, Connection.collect, done, and_assoc] using none_
  | @close c =>
    exact h.ended ((Settles.beginClose c).record.weaken fun _ he => he.2) ends.beginClose
      (beginClose_outstanding h.shut ends) goesOn
  | @drop c =>
    obtain ⟨inFlight, inbox, pending⟩ := dropCancelled_frame c
    have settles := Settles.dropCancelled c
    refine h.still (settles.record.weaken fun _ he => he.2) settles.cancelled inFlight
      (congrArg Inbox.closedBy inbox) (fun closed => ?_) goesOn
    have none_ := h.shut fun opened => closed ((congrArg Inbox.closedBy inbox).trans opened)
    simp only [Work.outstanding, work, List.append_eq_nil_iff, List.map_eq_nil_iff] at none_ ⊢
    obtain ⟨⟨flights, waiting⟩, queue⟩ := none_
    have pending : c.dropCancelled.pending.Sublist [] := waiting ▸ pending
    exact ⟨⟨inFlight.trans flights, List.sublist_nil.mp pending⟩,
      (congrArg Inbox.queue inbox).trans queue⟩
  | send ready first =>
    exact h.sentFirst (.of_stage ready (by decide)) first

end InStep

theorem run_inStep (config : Config) (nonces : Nat → List Char) (actions : List (Action ρ)) :
    let t : Turn ρ := (done (.start config nonces)).run actions
    InStep t ∧ t.after.EndsForCause ∧ t.after.EndIsTold := by
  have start : InStep (done (Connection.start (ρ := ρ) config nonces)) := .start config nonces
  have notEnding : (Connection.start (ρ := ρ) config nonces).EndsForCause :=
    fun ending => by cases ending
  have notEnded : (Connection.start (ρ := ρ) config nonces).EndIsTold :=
    fun ended => absurd rfl ended
  obtain ⟨inStep, -, ends, isTold⟩ := run_induction
    (P := fun t => InStep t ∧ t.after.Told ∧ t.after.EndsForCause ∧ t.after.EndIsTold)
    ⟨start, rfl, notEnding, notEnded⟩
    (fun stride ⟨inStep, told, ends, isTold⟩ => ⟨inStep.step stride told ends, told.step stride,
      ends.step stride, isTold.step stride⟩)
    fun a (_ : a ∈ actions) => allows_any a
  exact ⟨inStep, ends, isTold⟩

end Turn

end PgPipeline
