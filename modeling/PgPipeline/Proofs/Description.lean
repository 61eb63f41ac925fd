import PgPipeline.Proofs.Success

namespace PgPipeline

variable {ρ : Type}

namespace Consumer

theorem collect_columns {answer : QueryResult → ρ} {taken : List Row} {summary : Summary} {x : ρ}
    (h : (collect.map answer).onComplete taken summary = .ok x) :
    ∃ result, result.columns = summary.columns ∧ answer result = x := by
  cases rows : taken.mapM readRow with
  | error i =>
    simp only [map, collect, rows] at h
    cases h
  | ok values =>
    simp only [map, collect, rows] at h
    injection h with h
    exact ⟨_, rfl, h⟩

end Consumer

namespace Flight

variable {cache : StatementCache} {f : Flight ρ} {ms : List BackendMessage}

theorem Heard.summary_columns (h : f.Heard cache ms) : f.summary.columns =
    if ms.any BackendMessage.bringsColumns then (cache.columns? f.statement).getD [] else [] := by
  rw [← h.described]
  unfold summary
  cases columns : f.columns with
  | none => rfl
  | some learnt => exact h.columns learnt columns

theorem Heard.summary_columns_iff (h : f.Heard cache ms) {columns : List Column}
    (learnt : cache.columns? f.statement = some columns) :
    f.summary.columns = columns ↔ columns = [] ∨ ∃ m ∈ ms, m.bringsColumns = true := by
  rw [h.summary_columns, learnt, ← List.any_eq_true]
  cases ms.any BackendMessage.bringsColumns with
  | true => simp
  | false => simp [eq_comm]

end Flight

namespace Turn

open Connection

/-- A consumer is told of the columns of the statement, as they are known when its batch has been
answered, exactly if there are none or the answers to the batch described the statement or held a row;
otherwise it is told of no columns. -/
theorem run_describes_iff (config : Config) (nonces : Nat → List Char) (actions : List (Action ρ))
    {n : Nat} {x : ρ}
    (given : .resolved ⟨n, .ok x⟩ ∈ ((done (.start config nonces)).run actions).after.record) :
    ∃ consumer d f status taken later, (Action.consumers actions)[n]? = some consumer ∧
      Moves (fun _ => True) (done (.start config nonces)) (done d) ∧
      Moves (fun _ => True) (done d) ((done (.start config nonces)).run actions) ∧
      d.inFlight.head? = some f ∧ f.submission.number = n ∧
      ((done (.start config nonces)).run actions).after.record = d.record ++
        .received (.readyForQuery status) :: .finished n :: .concluded n f.summary :: later ∧
      consumer.onComplete taken f.summary = .ok x ∧
      (∀ answer, consumer = Consumer.collect.map answer →
        ∃ result, result.columns = f.summary.columns ∧ answer result = x) ∧
      (f.summary.columns = if (Record.group d.record).any BackendMessage.bringsColumns then
        (d.cache.columns? f.statement).getD [] else []) ∧
      ∀ columns, d.cache.columns? f.statement = some columns → (f.summary.columns = columns ↔
        columns = [] ∨ ∃ m ∈ Record.group d.record, m.bringsColumns = true) := by
  have mem : ⟨n, .ok x⟩ ∈ ((done (.start config nonces)).run actions).after.outcomes :=
    List.mem_append_left _ (Record.mem_resolutions.mpr given)
  obtain ⟨d, f, status, later, success, consumer⟩ := run_succeeds config nonces actions n x mem
  obtain ⟨rest, head⟩ := success.head
  have attentive : Attentive (done d) :=
    (moves_invariant (P := Regular) (fun move => Regular.step move.stride) success.reached
      (.start config nonces)).attentive
  -- The head has heard all answers to its batch, which are those since the server was ready.
  have listening := attentive success.going success.opened
  rw [show (done d).after = d from rfl, head] at listening
  refine ⟨f.submission.consumer, d, f, status, f.submission.taken, later, consumer, success.reached,
    success.passed, by rw [head]; rfl, success.number, success.record, success.result, ?_,
    listening.1.summary_columns, fun columns learnt => listening.1.summary_columns_iff learnt⟩
  intro answer collects
  have told := success.result
  rw [collects] at told
  exact Consumer.collect_columns told

theorem run_describes_iff_prepared :
    let column : Column := ⟨"n", 0, 0, .int4, 4, -1, .text⟩
    let answers : List BackendMessage :=
      [.parseComplete, .rowDescription [column], .bindComplete, .commandComplete "SELECT 0",
        .readyForQuery .idle]
    let actions : List (Action Nat) :=
      Action.admission ++ [.submit "select n from t" [] (Consumer.collect.map (·.columns.length)),
        .attention, .answers answers]
    let c := ((done (.start { Config.default with encryption := .disable } fun _ => [])).run
      actions).after
    .resolved ⟨0, .ok 1⟩ ∈ c.record ∧ ∃ (d : Connection Nat) (f : Flight Nat),
      d.inFlight.head? = some f ∧ f.submission.number = 0 ∧
        f.summary.columns = if (Record.group d.record).any BackendMessage.bringsColumns then
          (d.cache.columns? f.statement).getD [] else [] := by
  intro column answers actions c
  have given : .resolved ⟨0, .ok 1⟩ ∈ c.record := by
    have found : ∃ r ∈ Record.resolutions c.record, r.number = 0 ∧ r.result = .ok 1 := by
      decide +kernel
    obtain ⟨⟨number, result⟩, mem, rfl, rfl⟩ := found
    exact Record.mem_resolutions.mp mem
  obtain ⟨_, d, f, _, _, _, _, _, _, head, number, _, _, _, columns, _⟩ :=
    run_describes_iff { Config.default with encryption := .disable } (fun _ => []) actions given
  exact ⟨given, d, f, head, number, columns⟩

/-- A statement that is executed again and gives no row has lost its column. -/
theorem run_describes_none :
    let column : Column := ⟨"n", 0, 0, .int4, 4, -1, .text⟩
    let first : List BackendMessage :=
      [.parseComplete, .rowDescription [column], .bindComplete, .commandComplete "SELECT 0",
        .readyForQuery .idle]
    let second : List BackendMessage :=
      [.bindComplete, .commandComplete "SELECT 0", .readyForQuery .idle]
    let query : Action (List String) :=
      .submit "select n from t" [] (Consumer.collect.map fun result => result.columns.map (·.name))
    let actions : List (Action (List String)) :=
      Action.admission ++ [query, .attention, .answers first, query, .attention, .answers second]
    let t := (done (.start { Config.default with encryption := .disable } fun _ => [])).run actions
    t.interruption = none ∧ t.after.stage = .ready ∧
      t.after.cache.table.map (·.columns) = [some [{ column with format := .binary }]] ∧
      (Record.resolutions t.after.record).map (·.result) = [.ok ["n"], .ok []] := by
  refine ⟨?_, ?_, ?_, ?_⟩ <;> decide +kernel

end Turn

end PgPipeline
