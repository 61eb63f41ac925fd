import PgPipeline.Proofs.Retry

namespace PgPipeline

open scoped List

variable {ρ : Type}

namespace Connection

/-- An attempt that ended with an error leaves the submission with this result, unless it waits to be
sent once more. -/
def verdict (c : Connection ρ) (f : Flight ρ) (report : ServerReport) :
    Except Failure ρ :=
  .error (if report.isUnknownStatement then .statementNotFound (c.cache.nameOf f.statement)
    else .server report)

end Connection

namespace Turn

open Connection

variable {K : Consumer ρ → Prop} {origin t u : Turn ρ} {n : Nat}

/-- The two attempts at a submission use statements that were created apart, and the second one comes
after the first has ended because the server did not know its statement. -/
theorem Sparing.second (h : Sparing origin t) {first second : Sending}
    (start : Regular origin) (twice : Record.sendings n t.after.record = [first, second]) :
    (∃ a b, a ≠ b ∧ a ≤ t.after.cache.table.length ∧ b ≤ t.after.cache.table.length ∧
        first.statement = Statement.nameOf a ∧ second.statement = Statement.nameOf b) ∧
      ∃ d f status report, Ended origin t d f status ∧ f.submission.number = n ∧
        Record.sendings n d.record = [first] ∧ Record.failure? d.record = some report ∧
        report.isUnknownStatement = true ∧ d.isCancelled n = false := by
  constructor
  · obtain ⟨ids, used, _⟩ := h.used n
    have names := used.names
    rw [twice] at names
    obtain ⟨a, b, rfl⟩ : ∃ a b, ids = [a, b] := by
      have two := congrArg List.length names
      rw [List.length_map, List.length_map] at two
      exact List.length_eq_two.mp two.symm
    simp only [List.map_cons, List.map_nil, List.cons.injEq, and_true] at names
    exact ⟨a, b, by simpa using used.nodup, used.created a (by simp), used.created b (by simp),
      names⟩
  · obtain ⟨d, f, status, report, ended, number, once, failed, unknown, kept⟩ :=
      h.lapsed n (by simp [twice])
    refine ⟨d, f, status, report, ended, number, ?_, ended.error start ▸ failed, unknown, kept⟩
    obtain ⟨later, more⟩ := moves_record ended.moves
    obtain ⟨only, sent⟩ := List.length_eq_one_iff.mp once
    have before := Record.sendings_prefix n d.record later
    rw [show d.record ++ later = t.after.record from more, twice, sent] at before
    rw [sent, (List.cons_prefix_cons.mp before).1]

theorem Ended.verdict {d : Connection ρ} {f : Flight ρ} {status : TransactionStatus}
    {report : ServerReport} (h : Ended origin t d f status) (tallied : d.Tallied)
    (failed : f.error = some report)
    (last : report.isUnknownStatement = true → 0 < f.submission.retries →
      d.isCancelled f.submission.number = true) :
    ⟨f.submission.number, d.verdict f report⟩ ∈ t.after.outcomes ∧ t.after.Tallied := by
  obtain ⟨rest, head, closes⟩ := h.closes
  have accrued := moves_accrue h.passed (Tallied.message tallied _).tallied
  refine ⟨accrued.outcomes ?_, accrued.tallied⟩
  have given (cache : StatementCache) (result : Except Failure ρ) :
      ⟨f.submission.number, result⟩ ∈ (({ d.unload status f rest with cache } :
        Connection ρ).resolve f.submission.number result).outcomes := by
    refine (tallied.resolve (s := f.submission) (by rfl) (by rfl) ?_ (.of_eq ?_) result).2
    · simp [unload, enter, Record.resolutions, Entry.resolution?]
    · simp [Work.outstanding, work, unload, enter, head]
  generalize d.onMessage (.readyForQuery status) = u at closes
  cases closes with
  | succeeded clean => cases failed.symm.trans clean
  | repeated failed_ unknown left kept =>
    obtain rfl := Option.some_inj.mp (failed.symm.trans failed_)
    exact absurd (last unknown left) (Bool.eq_false_iff.mp kept)
  | exhausted failed_ unknown =>
    obtain rfl := Option.some_inj.mp (failed.symm.trans failed_)
    rw [Connection.verdict, if_pos unknown]
    exact given _ _
  | reported failed_ other =>
    obtain rfl := Option.some_inj.mp (failed.symm.trans failed_)
    rw [Connection.verdict, if_neg (by simp [other])]
    exact given _ _

theorem run_ended (config : Config) (nonces : Nat → List Char) (actions : List (Action ρ))
    {status : TransactionStatus} {before later : List (Entry ρ)}
    (split : ((done (.start config nonces)).run actions).after.record =
      before ++ .received (.readyForQuery status) :: .finished n :: later) :
    ∃ d f, d.record = before ∧ f.submission.number = n ∧
      Ended (done (.start config nonces)) ((done (.start config nonces)).run actions) d f status ∧
      Frugal (done (.start config nonces)) (done d) ∧ d.Tallied ∧
      Rationed (done (.start config nonces)) (done d) ∧ f ∈ d.inFlight := by
  have all : ((done (.start config nonces)).run actions).after.record =
      (before ++ [.received (.readyForQuery status)]) ++ .finished n :: later := by simp [split]
  obtain ⟨d, f, status_, same, rfl, ended⟩ := run_endings config nonces actions _ _ _ all n rfl
  obtain ⟨rfl, one⟩ := List.append_inj' same rfl
  obtain rfl : status = status_ := by simpa using one
  have frugal := moves_frugal config nonces ended.reached
  obtain ⟨rest, head⟩ := ended.head
  exact ⟨d, f, rfl, rfl, ended, frugal, (moves_accrue ended.reached (.start config nonces)).tallied,
    frugal.sparing.rationed (.of_stage ended.ready (by decide)) ended.opened, by simp [head]⟩

theorem moves_sendings (moves : Moves K t u) (regular : Regular t) (tallied : t.after.Tallied)
    {r : Resolution ρ} (mem : r ∈ t.after.outcomes) :
    Record.sendings r.number u.after.record = Record.sendings r.number t.after.record := by
  have all := moves_invariant (P := fun u => Regular u ∧ u.after.Tallied ∧ r ∈ u.after.outcomes ∧
      Record.sendings r.number u.after.record = Record.sendings r.number t.after.record)
    (fun {v w} move ⟨regular, tallied, mem, same⟩ => by
      have accrues := Tallied.step move.stride tallied
      refine ⟨regular.step move.stride, accrues.tallied, accrues.outcomes mem, ?_⟩
      obtain ⟨es, record, touches⟩ := (regular.orderly.handled move.stride).touches
      rw [record, ← same]
      refine Record.sendings_unsent fun statement sent => ?_
      exact tallied.not_waiting mem (touches _ sent _ rfl).2.2.1)
    moves ⟨regular, tallied, mem, rfl⟩
  exact all.2.2.2

/-- A submission waits to be sent again exactly if it has an attempt left, was not given up, and the
server did not know its statement; whether it had prepared the statement itself does not count. -/
theorem Ended.waits_iff {d : Connection ρ} {f : Flight ρ} {status : TransactionStatus}
    {report : ServerReport} (h : Ended origin t d f status) (start : Regular origin)
    (failed : f.error = some report) :
    f.submission.number ∈
        Submission.numbers (d.onMessage (.readyForQuery status)).after.pending ↔
      report.isUnknownStatement = true ∧ d.isCancelled f.submission.number = false ∧
        0 < f.submission.retries := by
  obtain ⟨rest, head, closes⟩ := h.closes
  have covered : d.Covered := (h.regular start).counted (.of_stage h.ready (by decide)) h.opened
  have elsewhere : f.submission.number ∉ Submission.numbers d.pending := by
    have nodup := covered.numbers_nodup
    simp only [Work.outstanding, work, head, Submission.numbers, List.map_append, List.map_cons,
      List.cons_append, List.nodup_cons, List.append_assoc] at nodup
    exact fun mem => nodup.1 (List.mem_append_right _ (List.mem_append_left _ mem))
  generalize d.onMessage (.readyForQuery status) = u at closes
  cases closes with
  | succeeded clean => cases failed.symm.trans clean
  | repeated failed_ unknown left kept =>
    obtain rfl := Option.some_inj.mp (failed.symm.trans failed_)
    refine iff_of_true ?_ ⟨unknown, kept, left⟩
    refine List.mem_map.mpr ⟨_, (IsAccounted.insert_perm _ _).symm.subset List.mem_cons_self, rfl⟩
  | exhausted failed_ unknown spent =>
    refine iff_of_false elsewhere ?_
    rintro ⟨-, kept, left⟩
    exact Bool.false_ne_true (kept.symm.trans (spent left))
  | reported failed_ other =>
    obtain rfl := Option.some_inj.mp (failed.symm.trans failed_)
    refine iff_of_false elsewhere ?_
    rintro ⟨unknown, -⟩
    exact Bool.false_ne_true (other.symm.trans unknown)

theorem Ended.forgets {d : Connection ρ} {f : Flight ρ} {status : TransactionStatus}
    {report : ServerReport} (h : Ended origin t d f status) (sound : d.cache.Sound)
    (matched : ∀ e ∈ d.cache.entries, e.2 = f.statement → e.1 = f.key)
    (failed : f.error = some report) (unknown : report.isUnknownStatement = true) :
    ∀ e ∈ (d.onMessage (.readyForQuery status)).after.cache.entries, e.2 ≠ f.statement := by
  obtain ⟨rest, head, closes⟩ := h.closes
  generalize d.onMessage (.readyForQuery status) = u at closes
  cases closes with
  | succeeded clean => cases failed.symm.trans clean
  | repeated => exact sound.forgotten_invalidate matched
  | exhausted => exact sound.forgotten_invalidate matched
  | reported failed_ other =>
    obtain rfl := Option.some_inj.mp (failed.symm.trans failed_)
    cases unknown.symm.trans other

theorem Ended.cache_eq {d : Connection ρ} {f : Flight ρ} {status : TransactionStatus}
    {report : ServerReport} (h : Ended origin t d f status) (failed : f.error = some report)
    (other : report.isUnknownStatement = false) (confirmed : f.prepareConfirmed = true) :
    (d.onMessage (.readyForQuery status)).after.cache = d.cache := by
  obtain ⟨rest, head, closes⟩ := h.closes
  generalize d.onMessage (.readyForQuery status) = u at closes
  cases closes with
  | succeeded clean => cases failed.symm.trans clean
  | repeated failed_ unknown | exhausted failed_ unknown =>
    obtain rfl := Option.some_inj.mp (failed.symm.trans failed_)
    cases unknown.symm.trans other
  | reported failed_ other =>
    rw [done, finishFailure_cache, if_neg fun unconfirmed => unconfirmed.2 confirmed]
    rfl

/-- When an attempt has ended with an error, the submission waits to be sent again exactly if the
server did not know the statement, the submission was not given up, and this was the first attempt;
then the statement is forgotten. If the server had confirmed that this very attempt prepared the
statement, it is kept, and the error is the result, exactly if the error is not that the statement is
unknown. -/
theorem run_repeats_iff (config : Config) (nonces : Nat → List Char) (actions : List (Action ρ))
    {report : ServerReport} {status : TransactionStatus} {before later : List (Entry ρ)}
    (ended : ((done (.start config nonces)).run actions).after.record =
      before ++ .received (.readyForQuery status) :: .finished n :: later)
    (failed : Record.failure? before = some report) :
    ∃ d f sent, Ended (done (.start config nonces)) ((done (.start config nonces)).run actions) d f
        status ∧ f.submission.number = n ∧ d.record = before ∧
      (Record.sendings n before).getLast? = some sent ∧ sent.prepares = f.preparedHere ∧
      let u := d.onMessage (.readyForQuery status)
      (n ∈ Submission.numbers u.after.pending ↔ report.isUnknownStatement = true ∧
        d.isCancelled n = false ∧ (Record.sendings n before).length = 1) ∧
      (report.isUnknownStatement = true → ∀ e ∈ u.after.cache.entries, e.2 ≠ f.statement) ∧
      (.parseComplete ∈ Record.group before →
        ((u.after.cache = d.cache ∧ ⟨n, .error (.server report)⟩ ∈ u.after.outcomes ∧
            Record.sendings n ((done (.start config nonces)).run actions).after.record =
              Record.sendings n before) ↔
          report.isUnknownStatement = false)) := by
  obtain ⟨d, f, rfl, rfl, answered, here, tallied, rationed, flying⟩ :=
    run_ended config nonces actions ended
  have start : Regular (done (Connection.start (ρ := ρ) config nonces)) := .start config nonces
  have error : f.error = some report := (answered.error start).trans failed
  obtain ⟨past, used, count, sent, last, prepares⟩ := rationed.flies f flying
  have waits := answered.waits_iff start error
  have forgets := answered.forgets here.regular.orderly.sound (rationed.matched f flying) error
  refine ⟨d, f, sent, answered, rfl, rfl, last, prepares, waits.trans ?_, forgets, ?_⟩
  · have length : (Record.sendings f.submission.number d.record).length = past.length + 1 :=
      used.length_eq.trans (by simp)
    have first : (Record.sendings f.submission.number d.record).length = 1 ↔
        0 < f.submission.retries := by omega
    rw [first]
  · intro confirming
    have confirmed : f.prepareConfirmed = true := by
      rw [(answered.heard start).prepareConfirmed]
      exact List.any_eq_true.mpr ⟨_, confirming, rfl⟩
    have now : Ended (done (.start config nonces)) (d.onMessage (.readyForQuery status)) d f status :=
      { answered with passed := .refl }
    constructor
    · rintro ⟨_, given, _⟩
      refine Bool.eq_false_iff.mpr fun unknown => ?_
      have tallied_ := (Tallied.message tallied (.readyForQuery status)).tallied
      -- The submission has its result, so it does not wait and gets no other one.
      have last : report.isUnknownStatement = true → 0 < f.submission.retries →
          d.isCancelled f.submission.number = true := by
        intro _ left
        refine Classical.byContradiction fun kept => tallied_.not_waiting given ?_
        have pending := waits.mpr ⟨unknown, Bool.eq_false_iff.mpr kept, left⟩
        simp only [Work.outstanding, work, Submission.numbers_append]
        exact List.mem_append_left _ (List.mem_append_right _ pending)
      have verdict := (now.verdict tallied error last).1
      have same := tallied_.unique given verdict rfl
      simp [Connection.verdict, unknown] at same
    · intro other
      have verdict := (now.verdict tallied error fun unknown => by simp [other] at unknown).1
      rw [Connection.verdict, if_neg (by simp [other])] at verdict
      refine ⟨answered.cache_eq error other confirmed, verdict, ?_⟩
      have move : Move (fun _ => True) (done d) (d.onMessage (.readyForQuery status)) :=
        .message _ (by simp [answered.ready])
      have still := moves_sendings answered.passed (here.regular.step move.stride)
        (Tallied.message tallied _).tallied verdict
      exact still.trans (answered.sendings _)

theorem run_repeats_iff_prepared :
    let answers : List BackendMessage :=
      [.parseComplete, .noData, .bindComplete, .errorResponse [(Bytes.ascii 'C', "23505")],
        .readyForQuery .idle]
    let actions : List (Action Nat) :=
      Action.admission ++ [.submit "insert" [] Consumer.count, .attention, .answers answers]
    let c := ((done (.start { Config.default with encryption := .disable } fun _ => [])).run
      actions).after
    .parseComplete ∈ Record.group (c.record.take 12) ∧ c.cache.cachedNames = ["__pm_1"] ∧
      Record.sent c.record = [0] ∧ ∃ (d : Connection Nat) (u : Turn Nat) (report : ServerReport),
        d.record = c.record.take 12 ∧ u = d.onMessage (.readyForQuery .idle) ∧
        u.after.cache = d.cache ∧ ⟨0, .error (.server report)⟩ ∈ u.after.outcomes := by
  intro answers actions c
  have ended : c.record = c.record.take 12 ++ .received (.readyForQuery .idle) :: .finished 0 ::
      c.record.drop 14 := by decide +kernel
  have failed : Record.failure? (c.record.take 12) = some ⟨"", "23505", "", none, none⟩ := by
    decide +kernel
  have confirmed : .parseComplete ∈ Record.group (c.record.take 12) := by decide +kernel
  obtain ⟨d, f, sent, _, _, before, _, _, _, _, kept⟩ :=
    run_repeats_iff { Config.default with encryption := .disable } (fun _ => []) actions ended failed
  obtain ⟨cache, given, _⟩ := (kept confirmed).mpr (by decide)
  exact ⟨confirmed, by decide +kernel, by decide +kernel, d, _, _, before, rfl, cache, given⟩

/-- A batch prepares its statement, which the server confirms, and fails because the text of the query
executes another one that the server does not know. The statement is forgotten, and the text is
executed a second time. -/
theorem run_repeats_executed :
    let answers : List BackendMessage :=
      [.parseComplete, .noData, .bindComplete, .errorResponse [(Bytes.ascii 'C', "26000")]]
    let actions : List (Action Nat) :=
      Action.admission ++ [.submit "execute missing" [] Consumer.count, .attention,
        .answers answers]
    let t := (done (.start { Config.default with encryption := .disable } fun _ => [])).run actions
    let u := t.act (.answers [.readyForQuery .idle])
    let v := u.act (.answers (answers ++ [.readyForQuery .idle]))
    .parseComplete ∈ Record.group t.after.record ∧ t.after.cache.cachedNames = ["__pm_1"] ∧
      (Record.sendings 0 t.after.record).map (fun s => (s.statement, s.prepares)) =
        [("__pm_1", true)] ∧
      u.interruption = none ∧ u.after.stage = .ready ∧ u.after.cache.cachedNames = ["__pm_2"] ∧
      (Record.sendings 0 u.after.record).map (fun s => (s.statement, s.prepares)) =
        [("__pm_1", true), ("__pm_2", true)] ∧
      (Record.resolutions u.after.record).length = 0 ∧
      Record.resolutions v.after.record = [⟨0, .error (.statementNotFound "__pm_2")⟩] := by
  refine ⟨?_, ?_, ?_, ?_, ?_, ?_, ?_, ?_, ?_⟩ <;> decide +kernel

end Turn

end PgPipeline
