import PgPipeline.Proofs.Attempts
import PgPipeline.Proofs.Delivery
import PgPipeline.Proofs.Outflow
import PgPipeline.Proofs.Tally

namespace PgPipeline

open FrontendMessage (encodeAll)

variable {ρ : Type}

/-- What becomes of a submission whose consumer is told that its command has succeeded. -/
def Consumer.conclusion (k : Consumer ρ) (rows : List Row) (summary : Summary) :
    Except Failure ρ :=
  match k.onComplete rows summary with
  | .ok result => .ok result
  | .error (.failed failure) => .error failure
  | .error (.crashed _) => .error .closed

theorem Submission.eq_conclusion {s : Submission ρ} {summary : Summary}
    {result : Except Failure ρ} (kept : s.refusal = none)
    (given : s.conclude false summary = .ok result) :
    result = s.consumer.conclusion s.taken summary := by
  unfold conclude at given
  rw [kept] at given
  rw [Consumer.conclusion]
  obtain ⟨answer, said⟩ : ∃ answer, s.consumer.onComplete s.taken summary = answer := ⟨_, rfl⟩
  simp only [Bool.false_eq_true, if_false, said] at given ⊢
  cases answer with
  | ok x => exact (Except.ok.inj given).symm
  | error interruption =>
    cases interruption with
    | failed failure => exact (Except.ok.inj given).symm
    | crashed text => cases given

namespace Turn

open Connection

variable {K : Consumer ρ → Prop} {given : List (Consumer ρ)} {origin t u : Turn ρ}

/-- A submission whose consumer was told of its end has the result that the consumer made of the rows
before that. -/
def Concludes (given : List (Consumer ρ)) (t : Turn ρ) : Prop :=
  Record.Each
    (fun before e => ∀ n summary, e = .concluded n summary →
      ∃ consumer, given[n]? = some consumer ∧
        ⟨n, consumer.conclusion (Record.offersTo n before) summary⟩ ∈ t.after.outcomes)
    t.after.record

namespace Concludes

theorem grow (h : Concludes given t) (consumer : Consumer ρ) :
    Concludes (given ++ [consumer]) t := by
  intro before e after split n summary told
  obtain ⟨mine, found, mem⟩ := h before e after split n summary told
  refine ⟨mine, ?_, mem⟩
  rw [List.getElem?_append_left (List.getElem?_eq_some_iff.mp found).1]
  exact found

theorem step (h : Concludes given t) (regular : Regular t) (delivering : Delivering t)
    (tallied : t.after.Tallied) (handed : Handed given t) (move : Move K t u) :
    Concludes given u := by
  have accrues : Accrues t.after u.after := Tallied.step move.stride tallied
  unfold Concludes
  have old : Record.Each (fun before e => ∀ n summary, e = .concluded n summary →
      ∃ consumer, given[n]? = some consumer ∧
        ⟨n, consumer.conclusion (Record.offersTo n before) summary⟩ ∈ u.after.outcomes)
      t.after.record := by
    intro before e after split n summary told
    obtain ⟨consumer, found, mem⟩ := h before e after split n summary told
    exact ⟨consumer, found, accrues.outcomes mem⟩
  cases regular.orderly.marks move.stride with
  | quiet es record still =>
    rw [record]
    refine Record.each_append_of_forall old fun e he before n summary told => ?_
    have quiet := still e he
    rw [told] at quiet
    cases quiet
  | @ended c f rest es status before after ready opened head _ result _ =>
    subst before
    have going : GoesOn (done c) := .of_stage ready (by decide)
    have waits : f.submission ∈ c.work.outstanding := by simp [Work.outstanding, work, head]
    have answered := Record.each_snoc (Record.each_snoc (e := .received (.readyForQuery status)) old
      (by simp)) (e := .finished f.submission.number) (by simp)
    -- The consumer is told with all rows that it was offered before the end came.
    have mine (attends : f.submission.refusal = none) : f.submission.taken =
        Record.offersTo f.submission.number (c.unload status f rest).record := by
      rw [(delivering.fed going opened f.submission waits).complete attends]
      simp only [unload, enter, List.append_assoc]
      exact (Record.offersTo_append_of_forall (by simp [Entry.offeredTo?])).symm
    have consumer := handed.consumers going opened f.submission waits
    cases result with
    | told result attends given_ =>
      have same := Submission.eq_conclusion attends.2 (attends.1 ▸ given_)
      rw [mine attends.2] at same
      refine Record.each_append_of_forall (Record.each_snoc answered ?_) ?_
      · intro n summary told
        obtain ⟨rfl, rfl⟩ := Entry.concluded.inj told
        refine ⟨_, consumer, same ▸ ?_⟩
        refine (Tallied.resolve (s := f.submission) tallied (by rfl) (by rfl) ?_ (.of_eq ?_) result).2
        · simp [unload, enter, Record.resolutions, Entry.resolution?, done]
        · simp [Work.outstanding, work, unload, enter, done, head]
      · intro e he before n summary told
        obtain ⟨r, _, rfl⟩ := List.mem_map.mp he
        cases told
    | broke text attends crash =>
      refine Record.each_snoc (Record.each_snoc answered ?_) (by simp)
      intro n summary told
      obtain ⟨rfl, rfl⟩ := Entry.concluded.inj told
      refine ⟨_, consumer, List.mem_append_left _ (Record.mem_resolutions.mpr ?_)⟩
      rw [← mine attends.2, Consumer.conclusion, crash]
      simp [enter]
    | failed cache failure cause =>
      refine Record.each_append_of_forall answered fun e he before n summary told => ?_
      obtain ⟨r, _, rfl⟩ := List.mem_map.mp he
      cases told
    | again cache left kept => exact answered

end Concludes

theorem run_concludes (config : Config) (nonces : Nat → List Char) (actions : List (Action ρ)) :
    Handed (Action.consumers actions) ((done (.start config nonces)).run actions) ∧
      Concludes (Action.consumers actions) ((done (.start config nonces)).run actions) := by
  refine run_handed config nonces Record.each_nil
    (fun reached regular handed move concludes => ?_) (fun consumer h => h.grow consumer) actions
  obtain ⟨regular, delivering⟩ := moves_delivering config nonces reached
  exact concludes.step regular delivering (moves_accrue reached (.start config nonces)).tallied handed
    move

/-- Answers are matched with batches in the order of sending: every entry about a batch stands where
it should, every request to report back is that of a batch, and until the connection is closed what
was written and what is queued are together the messages of the batches and of the login. While the
end has not begun, as in any run that is ready and was never closing, the batches in flight are those
that were sent and not finished, in that order; each time that the server was ready for more has
finished one. A submission has the consumer that was handed in with it, which has made of the rows of
its own batches what the submission knows of them; a consumer that was told of the end has made the
result of all these rows and of the summary, and no other submission has succeeded. -/
theorem run_answers_in_order (config : Config) (nonces : Nat → List Char)
    (actions : List (Action ρ)) :
    let t : Turn ρ := (done (.start config nonces)).run actions
    let c := t.after
    Record.Each Record.Follows c.record ∧
    (Record.queued c.record).count .sync = (Record.sent c.record).length ∧
    (c.stage ≠ .closed →
      Record.written c.record ++ c.outbound.toBytes = encodeAll (Record.queued c.record)) ∧
    (c.inbox.closedBy = none → c.stage.isEnding = false ∧
      Record.sent c.record = Record.finished c.record ++ c.inFlight.map (·.submission.number)) ∧
    (c.inbox.closedBy ≠ none →
      c.inFlight = [] ∧ (c.stage = .closed ∨ .moved .closing ∈ c.record)) ∧
    (t.interruption = none → c.stage ≠ .closed →
      (Record.ledger c.record).answers = (Record.finished c.record).length) ∧
    (t.interruption = none → c.inbox.closedBy = none → ∀ s ∈ c.outstanding,
      (Action.consumers actions)[s.number]? = some s.consumer ∧
        s.Fed (Record.offersTo s.number c.record)) ∧
    (∀ before n summary after, c.record = before ++ .concluded n summary :: after →
      ∃ consumer, (Action.consumers actions)[n]? = some consumer ∧
        ∀ r, r ∈ c.outcomes ∧ r.number = n ↔
          r = ⟨n, consumer.conclusion (Record.offersTo n before) summary⟩) ∧
    ∀ n x, ⟨n, .ok x⟩ ∈ c.outcomes → ∃ summary, .concluded n summary ∈ c.record := by
  intro t c
  obtain ⟨inStep, ends, isTold⟩ := run_inStep config nonces actions
  obtain ⟨handed, concludes⟩ := run_concludes config nonces actions
  have reached : Moves (fun _ => True) (done (.start config nonces)) t :=
    run_moves _ fun a _ => allows_any a
  obtain ⟨-, delivering⟩ := moves_delivering config nonces reached
  have alive (opened : c.inbox.closedBy = none) : c.stage.isEnding = false :=
    Bool.eq_false_iff.mpr fun ending => ends ending opened
  refine ⟨inStep.order, inStep.syncs, (run_conveys config nonces actions).flows,
    fun opened => ⟨alive opened, inStep.opened opened⟩, fun closed => ?_,
    fun uninterrupted alive => inStep.counted ⟨uninterrupted, alive⟩,
    fun uninterrupted opened s hs => ?_, fun before n summary after split => ?_, fun n x mem => ?_⟩
  · have none_ := inStep.shut closed
    simp only [Work.outstanding, work, List.append_eq_nil_iff, List.map_eq_nil_iff] at none_
    exact ⟨none_.1.1, isTold closed⟩
  · have going : t.GoesOn := ⟨uninterrupted, fun closed => by
      have ending := alive opened
      rw [show c.stage = .closed from closed] at ending
      cases ending⟩
    exact ⟨handed.consumers going opened s hs, delivering.fed going opened s hs⟩
  · obtain ⟨consumer, found, mem⟩ := concludes before _ after split n summary rfl
    refine ⟨consumer, found, fun r => ⟨?_, ?_⟩⟩
    · rintro ⟨given, same⟩
      exact (run_tallied config nonces actions).unique given mem same
    · rintro rfl
      exact ⟨mem, rfl⟩
  · obtain ⟨d, f, status, later, success, _⟩ := run_succeeds config nonces actions n x mem
    refine ⟨f.summary, ?_⟩
    rw [success.record]
    simp

theorem run_answers_in_order_pipelined :
    let rows := Consumer.collect.map fun result => result.rows.length
    let answers : List BackendMessage :=
      [.parseComplete, .noData, .bindComplete, .dataRow [some [0, 0, 0, 7]], .noticeResponse [],
        .commandComplete "SELECT 1", .readyForQuery .idle, .parseComplete, .noData, .bindComplete,
        .dataRow [some [0, 0, 0, 8]]]
    let actions : List (Action Nat) :=
      Action.admission ++ [.submit "select 7" [] rows, .submit "select 8" [] rows, .attention,
        .answers answers]
    let t := (done (.start { Config.default with encryption := .disable } fun _ => [])).run actions
    let c := t.after
    t.interruption = none ∧ c.stage = .ready ∧ c.inbox.closedBy = none ∧
      Record.sent c.record = [0, 1] ∧ Record.finished c.record = [0] ∧
      c.outbound.toBytes.length = 208 ∧
      Record.written c.record ++ c.outbound.toBytes = encodeAll (Record.queued c.record) ∧
      c.inFlight.map (·.submission.number) = [1] ∧
      (∀ s ∈ c.outstanding, s.number = 1 ∧ s.refusal = none ∧
        s.taken = Record.offersTo 1 c.record) ∧
      (Record.offersTo 1 c.record).map (·.values) = [[some [0, 0, 0, 8]]] ∧
      ∃ consumer, (Action.consumers actions)[0]? = some consumer ∧
        ∀ r, r ∈ c.outcomes ∧ r.number = 0 ↔
          r = ⟨0, consumer.conclusion [⟨[], [some [0, 0, 0, 7]]⟩] ⟨"SELECT 1", 1, []⟩⟩ := by
  intro rows answers actions t c
  have uninterrupted : t.interruption = none := by decide +kernel
  have ready : c.stage = .ready := by decide +kernel
  have opened : c.inbox.closedBy = none := by decide +kernel
  have told : c.record = c.record.take 19 ++ .concluded 0 ⟨"SELECT 1", 1, []⟩ :: c.record.drop 20 := by
    decide +kernel
  have offered : Record.offersTo 0 (c.record.take 19) = [⟨[], [some [0, 0, 0, 7]]⟩] := by
    decide +kernel
  have number : ∀ s ∈ c.outstanding, s.number = 1 := by decide +kernel
  have kept : ∀ s ∈ c.outstanding, s.refusal = none := by decide +kernel
  obtain ⟨-, -, flows, -, -, -, fed, concluded, -⟩ :=
    run_answers_in_order { Config.default with encryption := .disable } (fun _ => []) actions
  refine ⟨uninterrupted, ready, opened, by decide +kernel, by decide +kernel, by decide +kernel,
    flows (ready ▸ by decide), by decide +kernel, fun s hs => ?_, by decide +kernel, ?_⟩
  · have known := (fed uninterrupted opened s hs).2.complete (kept s hs)
    exact ⟨number s hs, kept s hs, number s hs ▸ known⟩
  · rw [← offered]
    exact concluded _ 0 _ _ told

end Turn

end PgPipeline
