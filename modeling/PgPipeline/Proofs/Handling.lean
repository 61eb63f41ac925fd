import PgPipeline.Proofs.Accounting
import PgPipeline.Proofs.Hearing

namespace PgPipeline

open scoped List

variable {ρ : Type}

theorem Submission.numbers_append (ss rs : List (Submission ρ)) :
    numbers (ss ++ rs) = numbers ss ++ numbers rs := List.map_append

namespace Connection

def outcomes (c : Connection ρ) : List (Resolution ρ) :=
  Record.resolutions c.record ++ c.sequencer.held.map (·.2)

variable {c d : Connection ρ}

theorem resolve_outcomes (c : Connection ρ) (n : Nat) (result : Except Failure ρ) :
    (c.resolve n result).outcomes = Record.resolutions c.record ++
      ((c.sequencer.resolve n ⟨n, result⟩).1 ++
        (c.sequencer.resolve n ⟨n, result⟩).2.held.map (·.2)) := by
  have released (rs : List (Resolution ρ)) : Record.resolutions (c.record ++ rs.map .resolved) =
      Record.resolutions c.record ++ rs := by
    rw [Record.resolutions_append, Record.resolutions_map]
  rw [← List.append_assoc, ← released]
  rfl

theorem mem_outcomes_of_record {es : List (Entry ρ)} {r : Resolution ρ}
    (sequencer : d.sequencer = c.sequencer) (record : d.record = c.record ++ es)
    (h : r ∈ d.outcomes) : r ∈ c.outcomes ∨ .resolved r ∈ es := by
  rw [outcomes, record, Record.resolutions_append, sequencer, List.append_assoc] at h
  rcases List.mem_append.mp h with before | h
  · exact .inl (List.mem_append_left _ before)
  · rcases List.mem_append.mp h with new | held
    · exact .inr (Record.mem_resolutions.mp new)
    · exact .inl (List.mem_append_right _ held)

theorem mem_resolve_outcomes {n : Nat} {result : Except Failure ρ} {r : Resolution ρ}
    (h : r ∈ (c.resolve n result).outcomes) : r = ⟨n, result⟩ ∨ r ∈ c.outcomes := by
  rw [resolve_outcomes] at h
  rcases List.mem_append.mp h with h | h
  · exact .inr (List.mem_append_left _ h)
  · exact (Sequencer.mem_resolve h).imp_right (List.mem_append_right _)

theorem resolve_outcomes_perm {n : Nat} (new : n ∉ Sequencer.keys c.sequencer.held)
    (result : Except Failure ρ) : (c.resolve n result).outcomes ~ ⟨n, result⟩ :: c.outcomes := by
  rw [resolve_outcomes]
  exact ((Sequencer.resolve_perm _ new).append_left _).trans List.perm_middle

theorem resolveAll_outcomes (c : Connection ρ) {top : Nat} (ss : List (Submission ρ)) {os : List Nat}
    (h : Covers c.sequencer (Submission.numbers ss ++ os) top (Record.resolved c.record))
    (result : Except Failure ρ) :
    (c.resolveAll ss result).outcomes ~ ss.map (fun s => ⟨s.number, result⟩) ++ c.outcomes := by
  induction ss generalizing c with
  | nil => exact List.Perm.refl _
  | cons s rest ih =>
    have later := ih (c.resolve s.number result) (c.resolve_covers h result)
    refine later.trans (((resolve_outcomes_perm h.due.2 result).append_left _).trans ?_)
    exact List.perm_middle

theorem mem_resolveAll_outcomes {ss : List (Submission ρ)} {result : Except Failure ρ}
    {r : Resolution ρ} (h : r ∈ (c.resolveAll ss result).outcomes) :
    r.result = result ∨ r ∈ c.outcomes := by
  induction ss generalizing c with
  | nil => exact .inr h
  | cons s rest ih =>
    rcases ih (c := c.resolve s.number result) h with same | mem
    · exact .inl same
    · rcases mem_resolve_outcomes mem with rfl | mem
      · exact .inl rfl
      · exact .inr mem

end Connection

structure Connection.SameCount (c d : Connection ρ) : Prop where
  sequencer : d.sequencer = c.sequencer
  nextNumber : d.inbox.nextNumber = c.inbox.nextNumber
  closedBy : d.inbox.closedBy = c.inbox.closedBy

namespace Turn

open Connection

/-- An entry about a submission is about one that has no result, at a time when the connection goes
on; only the end of its batch is noted of one that was given up. -/
def Touches (t : Turn ρ) (e : Entry ρ) : Prop :=
  ∀ number, e.subject? = some number → t.GoesOn ∧ t.after.inbox.closedBy = none ∧
    number ∈ Submission.numbers t.after.work.outstanding ∧
    (e.finishedNumber? = none → t.after.isCancelled number = false)

inductive Ends (c : Connection ρ) (f : Flight ρ) : Except Failure ρ → List (Entry ρ) → Prop
  | told {result : Except Failure ρ} (attends : c.Attends f.submission)
      (given : f.submission.conclude false f.summary = .ok result) :
      Ends c f result [.concluded f.submission.number f.summary]
  | failed (failure : Failure)
      (cause : c.isCancelled f.submission.number = true → (failure = .cancelled ↔ f.error = none)) :
      Ends c f (.error failure) []

/-- What a stride does to the submissions that have no result yet, and to the results. -/
inductive Handled (K : Consumer ρ → Prop) (t u : Turn ρ) : Prop
  | kept {es : List (Entry ρ)} (count : SameCount t.after u.after)
      (outstanding : u.after.work.outstanding ~ t.after.work.outstanding)
      (inFlight : u.after.inFlight.map (·.submission) = t.after.inFlight.map (·.submission))
      (record : u.after.record = t.after.record ++ es)
      (idle : ∀ e ∈ es, e.subject? = none ∧ e.resolution? = none)
      (offers : u.GoesOn →
        (Record.ledger u.after.record).offers = (Record.ledger t.after.record).offers)
      (goesOn : u.GoesOn → t.GoesOn)
  | handedIn (query : String) (params : List Param) (consumer : Consumer ρ) (allowed : K consumer)
      (opened : t.after.inbox.closedBy = none)
      (after : u.after = { t.after with inbox := { t.after.inbox with
        nextNumber := t.after.inbox.nextNumber + 1
        queue := t.after.inbox.queue ++
          [.create t.after.inbox.nextNumber query params consumer] } })
      (goesOn : u.GoesOn → t.GoesOn)
  | declined (consumer : Consumer ρ) (allowed : K consumer) (cause : Failure)
      (closed : t.after.inbox.closedBy ≠ none)
      (after : u.after = ({ t.after with inbox := { t.after.inbox with
        nextNumber := t.after.inbox.nextNumber + 1 } } : Connection ρ).enter
          [.resolved ⟨t.after.inbox.nextNumber, .error cause⟩])
  | shut {es : List (Entry ρ)} (ended : u.GoesOn → u.after.inbox.closedBy ≠ none)
      (nextNumber : u.after.inbox.nextNumber = t.after.inbox.nextNumber)
      (record : u.after.record = t.after.record ++ es) (touches : ∀ e ∈ es, t.Touches e)
      (outcomes : ∀ r ∈ u.after.outcomes,
        r ∈ t.after.outcomes ∨ ∃ failure, r.result = .error failure)
  | refused {d : Connection ρ} (ss : List (Submission ρ)) (failure : Failure)
      (goesOn : u.GoesOn → t.GoesOn)
      (count : SameCount t.after d) (inFlight : d.inFlight = t.after.inFlight)
      (outstanding : t.after.work.outstanding ~ ss ++ d.work.outstanding)
      (record : d.record = t.after.record)
      (cause : ∀ s ∈ ss, t.after.isCancelled s.number = true → failure = .cancelled)
      (after : u.after = d.resolveAll ss (.error failure))
  | sent {s : Submission ρ} (name : String) (messages : List FrontendMessage) (goesOn : t.GoesOn)
      (count : SameCount t.after u.after)
      (outstanding : u.after.work.outstanding = t.after.work.outstanding)
      (inFlight : u.after.inFlight.map (·.submission) = t.after.inFlight.map (·.submission) ++ [s])
      (record : u.after.record = t.after.record ++ [.queued messages, .sent s.number name])
      (opened : t.after.inbox.closedBy = none) (mem : s ∈ t.after.work.outstanding)
      (kept : t.after.isCancelled s.number = false)
  | offered {f : Flight ρ} {rest : List (Flight ρ)} {s : Submission ρ} {others : List (Submission ρ)}
      (row : Row) (goesOn : t.GoesOn) (opened : t.after.inbox.closedBy = none)
      (ready : Record.stage t.after.record = .ready)
      (head : t.after.inFlight = f :: rest) (attends : t.after.Attends f.submission)
      (taken : f.submission.offer row = .ok s) (count : SameCount t.after u.after)
      (inFlight : u.after.inFlight.map (·.submission) = s :: rest.map (·.submission))
      (before : t.after.work.outstanding = f.submission :: others)
      (outstanding : u.after.work.outstanding = s :: others)
      (record : u.after.record = t.after.record ++
        [.received (.dataRow row.values), .offered f.submission.number row])
  | answered {d : Connection ρ} {f : Flight ρ} {rest : List (Flight ρ)} {es : List (Entry ρ)}
      {result : Except Failure ρ} (status : TransactionStatus)
      (after : u.after = d.resolve f.submission.number result) (goesOn : t.GoesOn)
      (opened : t.after.inbox.closedBy = none) (ready : Record.stage t.after.record = .ready)
      (head : t.after.inFlight = f :: rest) (count : SameCount t.after d) (inFlight : d.inFlight = rest)
      (outstanding : t.after.work.outstanding = f.submission :: d.work.outstanding)
      (record : d.record = t.after.record ++
        .received (.readyForQuery status) :: .finished f.submission.number :: es)
      (ending : Ends t.after f result es)
  | again {f : Flight ρ} {rest : List (Flight ρ)} {s : Submission ρ} {others : List (Submission ρ)}
      (status : TransactionStatus) (goesOn : t.GoesOn) (opened : t.after.inbox.closedBy = none)
      (ready : Record.stage t.after.record = .ready) (head : t.after.inFlight = f :: rest)
      (kept : t.after.isCancelled f.submission.number = false)
      (same : s = { f.submission with retries := f.submission.retries - 1 })
      (count : SameCount t.after u.after) (inFlight : u.after.inFlight = rest)
      (before : t.after.work.outstanding = f.submission :: others)
      (outstanding : u.after.work.outstanding ~ s :: others)
      (record : u.after.record = t.after.record ++
        [.received (.readyForQuery status), .finished f.submission.number])

namespace Handled

variable {K : Consumer ρ → Prop} {t u : Turn ρ} {c d : Connection ρ}

theorem idle_of_still {es : List (Entry ρ)} (h : ∀ e ∈ es, e.ofWork = false) :
    ∀ e ∈ es, e.subject? = none ∧ e.resolution? = none := by
  intro e he
  have still := h e he
  cases e <;> first | exact ⟨rfl, rfl⟩ | cases still

theorem touches_silent {e : Entry ρ} (silent : e.subject? = none) : t.Touches e := by
  intro number subject
  rw [silent] at subject
  cases subject

theorem touches_of_still {es : List (Entry ρ)} (h : ∀ e ∈ es, e.ofPipeline = false) :
    ∀ e ∈ es, t.Touches e := by
  intro e he
  refine touches_silent ?_
  have still := h e he
  cases e <;> first | rfl | cases still

theorem offers_still {as es : List (Entry ρ)} (h : ∀ e ∈ es, e.ofPipeline = false) :
    (Record.ledger (as ++ es)).offers = (Record.ledger as).offers := by
  rw [Record.ledger_append, Record.foldl_take_still _ h]

theorem of_sameWork {kind : Entry ρ → Prop} (work : u.after.work = t.after.work)
    (record : Extends kind t.after u.after) (still : ∀ e, kind e → e.ofWork = false)
    (goesOn : u.GoesOn → t.GoesOn) : Handled K t u := by
  obtain ⟨es, more, _, idle⟩ := record
  have quiet : ∀ e ∈ es, e.ofWork = false := fun e he => still e (idle e he)
  refine .kept ⟨?_, ?_, ?_⟩ ?_ ?_ more (idle_of_still quiet) (fun _ => ?_) goesOn
  · exact congrArg Work.sequencer work
  · exact congrArg Work.nextNumber work
  · exact congrArg Work.closedBy work
  · rw [work]
  · exact congrArg (fun w : Work ρ => w.inFlight.map (·.submission)) work
  · rw [more]
    exact offers_still fun e he => Entry.ofPipeline_eq_false (quiet e he)

theorem outcomes_of_extends {kind : Entry ρ → Prop} (sequencer : d.sequencer = c.sequencer)
    (record : Extends kind c d) (still : ∀ e, kind e → e.resolution? = none) :
    d.outcomes = c.outcomes := by
  obtain ⟨es, more, _, idle⟩ := record
  have none_ : Record.resolutions es = [] :=
    List.filterMap_eq_nil_iff.mpr fun e he => still e (idle e he)
  rw [outcomes, outcomes, more, Record.resolutions_append, none_, List.append_nil, sequencer]

theorem failAll_outcomes (c : Connection ρ) (cause : Failure) :
    ∀ r ∈ (c.failAll cause).outcomes, r ∈ c.outcomes ∨ ∃ failure, r.result = .error failure := by
  intro r hr
  have released (d : Connection ρ) : d.releaseHeld.outcomes = d.outcomes := by
    have all : Record.resolutions (d.record ++ (d.sequencer.held.map (·.2)).map .resolved) =
        Record.resolutions d.record ++ d.sequencer.held.map (·.2) := by
      rw [Record.resolutions_append, Record.resolutions_map]
    exact (List.append_nil _).trans all
  have refused : (c.refuseAll cause).outcomes = c.outcomes := by
    unfold Connection.refuseAll
    dsimp only
    split
    · next waiters _ =>
      have informed : Record.resolutions (waiters.map fun w => Entry.informed (ρ := ρ) w
          (.error cause)) = [] := by
        simp [Record.resolutions, Entry.resolution?]
      simp only [outcomes, enter, Record.resolutions_append, informed, List.append_nil]
    · rfl
  unfold Connection.failAll at hr
  rw [released] at hr
  rcases mem_resolveAll_outcomes hr with same | mem
  · exact .inr ⟨cause, same⟩
  · exact .inl (refused ▸ mem)

theorem moveTo_outcomes (c : Connection ρ) (stage : Stage) :
    (c.moveTo stage).outcomes = c.outcomes := by
  unfold Connection.moveTo
  split
  · rfl
  · simp [outcomes, enter, Entry.resolution?, Record.resolutions]

theorem abort_outcomes (c : Connection ρ) (cause : Failure) :
    ∀ r ∈ (c.abort cause).outcomes, r ∈ c.outcomes ∨ ∃ failure, r.result = .error failure := by
  intro r hr
  unfold Connection.abort at hr
  split at hr
  · exact .inl hr
  · rw [← moveTo_outcomes c .closed]
    exact failAll_outcomes _ cause r hr

theorem beginClose_outcomes (c : Connection ρ) :
    ∀ r ∈ c.beginClose.outcomes, r ∈ c.outcomes ∨ ∃ failure, r.result = .error failure := by
  intro r hr
  unfold Connection.beginClose at hr
  split at hr
  · have left := Aside.leave (c.failAll .closed)
    rw [outcomes_of_extends (congrArg Work.sequencer left.work) left.record
      fun e idle => by cases e <;> first | rfl | cases idle.1] at hr
    exact failAll_outcomes c .closed r hr
  · exact abort_outcomes c .closed r hr

theorem of_noted {m : BackendMessage} (goesOn : GoesOn (done c))
    (work : u.after.work = { c.work with inFlight := u.after.inFlight })
    (inFlight : u.after.inFlight.map (·.submission) = c.inFlight.map (·.submission))
    (record : u.after.record = c.record ++ [.received m])
    (offers : u.GoesOn → (Record.ledger (c.record ++ [.received m])).offers =
      (Record.ledger c.record).offers) : Handled K (done c) u := by
  refine .kept ⟨?_, ?_, ?_⟩ (.of_eq ?_) inFlight record ?_ (fun going => ?_) fun _ => goesOn
  · exact congrArg Work.sequencer work
  · exact congrArg Work.nextNumber work
  · exact congrArg Work.closedBy work
  · rw [work]
    simp only [Work.outstanding, inFlight]
    rfl
  · simp [Entry.subject?, Entry.resolution?]
  · rw [record]
    exact offers going

theorem touches_head {f : Flight ρ} {rest : List (Flight ρ)} {e : Entry ρ}
    (goesOn : GoesOn (done c)) (opened : c.inbox.closedBy = none) (head : c.inFlight = f :: rest)
    (attends : c.Attends f.submission) (subject : e.subject? = some f.submission.number) :
    (done c).Touches e := by
  intro number h
  obtain rfl : f.submission.number = number := Option.some_inj.mp (subject.symm.trans h)
  refine ⟨goesOn, opened, ?_, fun _ => attends.1⟩
  simp [Submission.numbers, Work.outstanding, work, done, head]

theorem of_finished {m : BackendMessage} {f : Flight ρ} {rest : List (Flight ρ)}
    (goesOn : GoesOn (done c)) (opened : c.inbox.closedBy = none)
    (ready : Record.stage c.record = .ready) (head : c.inFlight = f :: rest)
    {status : TransactionStatus} (hm : m = .readyForQuery status)
    (k : Finished (({ c.enter [.received m] with
      transaction := status, inFlight := rest } : Connection ρ).enter
        [.finished f.submission.number]) f u) : Handled K (done c) u := by
  subst hm
  have popped : c.work.outstanding = f.submission ::
      (rest.map (·.submission) ++ c.pending ++ c.inbox.queue) := by
    simp [Work.outstanding, work, head]
  cases k with
  | told result attends given =>
    have attends : c.Attends f.submission := attends
    have given : f.submission.conclude false f.summary = .ok result := attends.1 ▸ given
    refine .answered status rfl goesOn opened ready head ⟨rfl, rfl, rfl⟩ rfl popped ?_
      (.told attends given)
    simp [enter, done]
  | broke text attends crash =>
    have attends : c.Attends f.submission := attends
    have record : ((c.record ++ [.received (.readyForQuery status)] ++
        [.finished f.submission.number]) ++ [.concluded f.submission.number f.summary]) ++
          [.resolved ⟨f.submission.number, .error .closed⟩] = c.record ++
            [.received (.readyForQuery status), .finished f.submission.number,
              .concluded f.submission.number f.summary,
              .resolved ⟨f.submission.number, .error .closed⟩] := by simp
    refine .shut (fun going => absurd going.1 (Option.some_ne_none _)) rfl record ?_ ?_
    · intro e he
      simp only [List.mem_cons, List.not_mem_nil, or_false] at he
      rcases he with rfl | rfl | rfl | rfl
      · exact touches_silent rfl
      · exact touches_head goesOn opened head attends rfl
      · exact touches_head goesOn opened head attends rfl
      · exact touches_silent rfl
    · intro r hr
      rcases mem_outcomes_of_record (c := c) (by rfl) record hr with before | new
      · exact .inl before
      · obtain rfl : r = ⟨f.submission.number, .error .closed⟩ := by simpa using new
        exact .inr ⟨_, rfl⟩
  | failed cache failure cause =>
    refine .answered status rfl goesOn opened ready head ⟨rfl, rfl, rfl⟩ rfl popped ?_
      (.failed failure cause)
    simp [enter, done]
  | again cache left kept =>
    refine .again status goesOn opened ready head kept rfl ⟨rfl, rfl, rfl⟩ rfl popped ?_ ?_
    · have inserted := ((IsAccounted.insert_perm
        { f.submission with retries := f.submission.retries - 1 } c.pending).append_left
          (rest.map (·.submission))).append_right c.inbox.queue
      refine inserted.trans ?_
      simp only [List.append_assoc, List.cons_append]
      exact List.perm_middle
    · simp [enter, done, Turn.done]

theorem of_answered {m : BackendMessage} (goesOn : GoesOn (done c)) (inStep : InStep (done c))
    (ready : c.inbox.closedBy = none → Record.stage c.record = .ready)
    (k : Answered (c.enter [.received m]) m u) : Handled K (done c) u := by
  have open_ {f : Flight ρ} {rest : List (Flight ρ)} (head : c.inFlight = f :: rest) :
      c.inbox.closedBy = none ∧ Record.stage c.record = .ready :=
    ⟨inStep.opened_of_head head, ready (inStep.opened_of_head head)⟩
  cases k with
  | refused status i idle =>
    exact .of_noted goesOn rfl rfl rfl fun going => absurd going.1 (Option.some_ne_none i)
  | noted cache plain head submission tag rowsAffected =>
    have head : c.inFlight = _ := head
    refine .of_noted goesOn rfl ?_ rfl fun _ => ?_
    · simp [Turn.done, head, submission]
    · rw [Record.ledger_idle (.inr plain)]
  | tagged tag head =>
    have head : c.inFlight = _ := head
    refine .of_noted goesOn rfl ?_ rfl fun _ => ?_
    · simp [Turn.done, head]
    · rw [Record.ledger_received _ (open_ head).2]
      rfl
  | passed values columns head unattended =>
    have head : c.inFlight = _ := head
    refine .of_noted goesOn rfl ?_ rfl fun _ => ?_
    · simp [Turn.done, head]
    · rw [Record.ledger_received _ (open_ head).2]
      rfl
  | @offered f rest s values columns head attends taken =>
    have record : c.record ++ [.received (.dataRow values)] ++
        [Entry.offered f.submission.number ⟨columns, values⟩] = c.record ++
          [.received (.dataRow values), .offered f.submission.number ⟨columns, values⟩] := by simp
    have popped : c.work.outstanding = f.submission ::
        (rest.map (·.submission) ++ c.pending ++ c.inbox.queue) := by
      have head : c.inFlight = f :: rest := head
      simp [Work.outstanding, work, head]
    exact .offered ⟨columns, values⟩ goesOn (open_ head).1 (open_ head).2 head attends taken
      ⟨rfl, rfl, rfl⟩ rfl popped rfl record
  | @broke f rest i values columns head attends crash =>
    have record : c.record ++ [.received (.dataRow values)] ++
        [Entry.offered f.submission.number ⟨columns, values⟩] = c.record ++
          [.received (.dataRow values), .offered f.submission.number ⟨columns, values⟩] := by simp
    refine .shut (fun going => absurd going.1 (Option.some_ne_none i)) rfl record ?_ fun r hr => ?_
    · intro e he
      simp only [List.mem_cons, List.not_mem_nil, or_false] at he
      rcases he with rfl | rfl
      · exact touches_silent rfl
      · exact touches_head goesOn (open_ head).1 head attends rfl
    · rcases mem_outcomes_of_record (c := c) (by rfl) record hr with before | new
      · exact .inl before
      · simp at new
  | finished status head result =>
    exact .of_finished goesOn (open_ head).1 (open_ head).2 head rfl result

theorem of_message (orderly : Orderly (done c)) (alive : c.stage ≠ .closed) (m : BackendMessage) :
    Handled K (done c) (c.onMessage m) := by
  have goesOn : GoesOn (done c) := ⟨rfl, alive⟩
  rcases onMessage_cases c m with ⟨aside, info, e⟩ | ⟨_, stage, e⟩ | ⟨_, stage, e⟩ |
      ⟨_, _, _, i, e⟩
  · have plain : m.isPlain := by cases m <;> first | rfl | cases aside
    rw [e]
    exact .of_noted goesOn rfl rfl rfl fun _ => by rw [Record.ledger_idle (.inr plain)]
  · have elsewhere : Record.stage c.record ≠ .ready :=
      fun ready => absurd (stage.symm.trans (orderly.told.symm.trans ready)) (by decide)
    have same := SameWork.onAuthMessage (c.enter [.received m]) m
    obtain ⟨es, more, _, idle⟩ := same.record
    have record : ((c.enter [.received m]).onAuthMessage m).after.record =
        c.record ++ (.received m :: es) := more.trans (List.append_assoc _ _ _)
    rw [e]
    refine .kept ⟨?_, ?_, ?_⟩ ?_ ?_ record ?_ (fun _ => ?_) fun _ => goesOn
    · exact congrArg Work.sequencer same.work
    · exact congrArg Work.nextNumber same.work
    · exact congrArg Work.closedBy same.work
    · exact .of_eq (congrArg Work.outstanding same.work)
    · exact congrArg (fun w : Work ρ => w.inFlight.map (·.submission)) same.work
    · intro e he
      rcases List.mem_cons.mp he with rfl | he
      · exact ⟨rfl, rfl⟩
      · exact idle_of_still idle e he
    · rw [more, offers_still fun e he => Entry.ofPipeline_eq_false (idle e he)]
      exact congrArg Ledger.offers (Record.ledger_idle (.inl elsewhere))
  · rw [e]
    refine of_answered goesOn orderly.inStep (fun opened => ?_) (onQueryMessage_answered _ m)
    rcases stage with ready | closing
    · exact orderly.told.trans ready
    · exact absurd opened (orderly.ends (closing ▸ rfl))
  · rw [e]
    exact .of_noted goesOn rfl rfl rfl fun going => absurd going.1 (Option.some_ne_none i)

end Handled

theorem Orderly.handled {K : Consumer ρ → Prop} {t u : Turn ρ} (stride : Stride K t u)
    (h : Orderly t) : Handled K t u := by
  have goesOn := stride.goesOn
  cases stride with
  | idle same =>
    exact .of_sameWork same.aside.work same.aside.record (fun _ idle => idle.1) goesOn
  | submit query params consumer allowed =>
    cases closed : t.after.inbox.closedBy with
    | none =>
      refine .handedIn query params consumer allowed closed ?_ goesOn
      simp [Turn.request, Connection.submit, closed]
    | some cause =>
      refine .declined consumer allowed cause (by simp [closed]) ?_
      simp [Turn.request, Connection.submit, closed]
  | tell cause =>
    obtain ⟨es, more, _, quiet⟩ := (Settles.abort t.after cause).record
    exact .shut (fun going => absurd (abort_stage _ cause) going.2) (t.after.abort_nextNumber cause)
      more (Handled.touches_of_still fun e he => (quiet e he).2) (Handled.abort_outcomes _ cause)
  | message m alive => exact .of_message h alive m
  | collect =>
    refine .kept ⟨rfl, rfl, rfl⟩ (.of_eq ?_) rfl (List.append_nil _).symm (by simp) (fun _ => rfl)
      goesOn
    simp [Work.outstanding, work, Connection.collect, done]
  | @close c =>
    obtain ⟨es, more, _, quiet⟩ := (Settles.beginClose c).record
    exact .shut (fun _ => h.ends.beginClose) c.beginClose_nextNumber more
      (Handled.touches_of_still fun e he => (quiet e he).2) (Handled.beginClose_outcomes c)
  | @drop c =>
    have perm : c.work.outstanding ~ c.pending.filter (fun s => c.isCancelled s.number) ++
        ({ c with pending := c.pending.filter (not ∘ fun s => c.isCancelled s.number) } :
          Connection ρ).work.outstanding := by
      have parts := (List.filter_append_perm (fun s => c.isCancelled s.number) c.pending).symm
      have moved := (parts.append_left (c.inFlight.map (·.submission))).append_right c.inbox.queue
      refine moved.trans ?_
      simp only [work, Work.outstanding, List.append_assoc]
      exact List.perm_append_comm_assoc _ _ _
    exact .refused (d := { c with
        pending := c.pending.filter (not ∘ fun s => c.isCancelled s.number) })
      _ .cancelled goesOn ⟨rfl, rfl, rfl⟩ rfl perm rfl (fun _ _ _ => rfl) (dropCancelled_eq c)
  | @send c s rest ready first kept =>
    have alive : GoesOn (done c) := .of_stage ready (by decide)
    have opened : c.inbox.closedBy = none := by
      refine Classical.byContradiction fun closed => ?_
      have none_ := h.inStep.shut closed
      simp [Work.outstanding, work, first, done] at none_
    unfold Connection.send
    split
    · next p prepared =>
      have record : (c.record ++ [.queued p.batch.messages]) ++
          [Entry.sent s.number p.batch.statement.name] = c.record ++
            [.queued p.batch.messages, .sent s.number p.batch.statement.name] :=
        List.append_assoc _ _ _
      refine .sent (s := s) p.batch.statement.name p.batch.messages alive ⟨rfl, rfl, rfl⟩ ?_ ?_
        record opened ?_ kept
      · simp [Work.outstanding, work, enter, queue, first, Flight.start, done]
      · simp [enter, queue, Flight.start, done]
      · simp [Work.outstanding, work, first, done]
    · next failure _ =>
      refine .refused (d := { c with pending := rest }) [s] failure (fun _ => alive)
        ⟨rfl, rfl, rfl⟩ rfl ?_ rfl ?_ rfl
      · simp only [work, Work.outstanding, first, done, List.append_assoc, List.cons_append]
        exact List.perm_middle
      · intro r hr cancelled
        rw [List.mem_singleton.mp hr] at cancelled
        exact absurd (kept.symm.trans cancelled) (by decide)

end Turn

end PgPipeline
