import PgPipeline.Proofs.Record
import PgPipeline.Connection.History

namespace PgPipeline

variable {ρ : Type}

def BackendMessage.isAside : BackendMessage → Bool
  | .parameterStatus .. => true
  | .backendKeyData .. => true
  | .noticeResponse _ => true
  | .notification .. => true
  | _ => false

theorem Submission.offer_same {s t : Submission ρ} {row : Row} (h : s.offer row = .ok t) :
    t.number = s.number ∧ t.consumer = s.consumer := by
  unfold offer at h
  split at h
  · injection h with h
    exact h ▸ ⟨rfl, rfl⟩
  · injection h with h
    exact h ▸ ⟨rfl, rfl⟩
  · cases h

namespace Connection

/-- The consumer of a submission is still to be told of what comes in. -/
def Attends (c : Connection ρ) (s : Submission ρ) : Prop :=
  c.isCancelled s.number = false ∧ s.refusal = none

inductive Finished (c : Connection ρ) (f : Flight ρ) : Turn ρ → Prop
  | told (result : Except Failure ρ) (attends : c.Attends f.submission)
      (given : f.submission.conclude (c.isCancelled f.submission.number) f.summary = .ok result) :
      Finished c f (.done ((c.enter [.concluded f.submission.number f.summary]).resolve
        f.submission.number result))
  | broke (text : Option String) (attends : c.Attends f.submission)
      (crash : f.submission.consumer.onComplete f.submission.taken f.summary =
        .error (.crashed text)) :
      Finished c f ⟨(c.enter [.concluded f.submission.number f.summary]).enter
        [.resolved ⟨f.submission.number, .error .closed⟩], some (.crashed text)⟩
  | failed (cache : StatementCache) (failure : Failure)
      (cause : c.isCancelled f.submission.number = true →
        (failure = .cancelled ↔ f.error = none)) :
      Finished c f (.done (({ c with cache } : Connection ρ).resolve f.submission.number
        (.error failure)))
  | again (cache : StatementCache) (left : 0 < f.submission.retries)
      (kept : c.isCancelled f.submission.number = false) :
      Finished c f (.done { c with
        cache
        pending := Submission.insert
          { f.submission with retries := f.submission.retries - 1 } c.pending })

theorem conclude_attending {c : Connection ρ} {s : Submission ρ} (h : c.Attends s)
    (summary : Summary) :
    (∃ result, s.conclude (c.isCancelled s.number) summary = .ok result) ∨
      ∃ text, s.consumer.onComplete s.taken summary = .error (.crashed text) ∧
        s.conclude (c.isCancelled s.number) summary = .error (.crashed text) := by
  simp only [Submission.conclude, h.1, h.2, Bool.false_eq_true, if_false]
  rcases s.consumer.onComplete s.taken summary with i | result
  · cases i with
    | failed f => exact Or.inl ⟨_, rfl⟩
    | crashed text => exact Or.inr ⟨text, rfl, rfl⟩
  · exact Or.inl ⟨_, rfl⟩

theorem conclude_unattended {c : Connection ρ} {s : Submission ρ}
    (h : (c.isCancelled s.number || s.refusal.isSome) = true) (summary : Summary) :
    ∃ f, s.conclude (c.isCancelled s.number) summary = .ok (.error f) ∧
      (c.isCancelled s.number = true → f = .cancelled) := by
  cases hc : c.isCancelled s.number with
  | true => exact ⟨.cancelled, rfl, fun _ => rfl⟩
  | false =>
    obtain ⟨f, hf⟩ := Option.isSome_iff_exists.mp (by simpa [hc] using h)
    exact ⟨f, by simp [Submission.conclude, hf], fun cancelled => by cases cancelled⟩

theorem finishSuccess_finished (c : Connection ρ) {f : Flight ρ} (success : f.error = none) :
    Finished c f (c.finishSuccess f) := by
  unfold finishSuccess
  dsimp only
  cases h : (c.isCancelled f.submission.number || f.submission.refusal.isSome) with
  | true =>
    obtain ⟨failure, hf, cancelled⟩ := conclude_unattended h f.summary
    rw [hf]
    exact .failed c.cache failure fun given => iff_of_true (cancelled given) success
  | false =>
    have attends : c.Attends f.submission := by simpa [Attends] using h
    rcases conclude_attending attends f.summary with ⟨result, hr⟩ | ⟨text, crash, hr⟩
    · rw [hr]
      exact .told result attends hr
    · rw [hr]
      exact .broke text attends crash

theorem finish_finished (c : Connection ρ) (f : Flight ρ) : Finished c f (c.finish f) := by
  unfold finish
  split
  · next success => exact finishSuccess_finished c success
  · next report reported =>
    have failed : f.error ≠ none := fun success => by rw [success] at reported; cases reported
    split
    · unfold finishUnknownStatement
      dsimp only
      split
      · next h => exact .again _ h.1 (Bool.eq_false_iff.mpr h.2)
      · exact .failed _ _ fun _ => iff_of_false (by simp) failed
    · exact .failed _ _ fun _ => iff_of_false (by simp) failed

/-- The outcomes of a message, by its effect on the head of what is in flight. -/
inductive Answered (c : Connection ρ) : BackendMessage → Turn ρ → Prop
  | refused {m : BackendMessage} (status : TransactionStatus) (i : Interruption)
      (idle : ∀ s, m = .readyForQuery s → c.inFlight = []) :
      Answered c m ⟨{ c with transaction := status }, some i⟩
  | noted {m : BackendMessage} {f g : Flight ρ} {rest : List (Flight ρ)} (cache : StatementCache)
      (plain : m.isPlain) (head : c.inFlight = f :: rest) (submission : g.submission = f.submission)
      (tag : g.tag = f.tag) (rowsAffected : g.rowsAffected = f.rowsAffected) :
      Answered c m (.done { c with cache, inFlight := g :: rest })
  | tagged {f : Flight ρ} {rest : List (Flight ρ)} (tag : String) (head : c.inFlight = f :: rest) :
      Answered c (.commandComplete tag) (.done { c with
        inFlight :=
          { f with rowsAffected := f.rowsAffected + rowsOfTag tag, tag := tag } :: rest })
  | passed {f : Flight ρ} {rest : List (Flight ρ)} (values : List (Option Bytes))
      (columns : List Column) (head : c.inFlight = f :: rest)
      (unattended : ¬ c.Attends f.submission) :
      Answered c (.dataRow values) (.done { c with
        inFlight := { f with columns := some columns } :: rest })
  | offered {f : Flight ρ} {rest : List (Flight ρ)} {s : Submission ρ}
      (values : List (Option Bytes)) (columns : List Column) (head : c.inFlight = f :: rest)
      (attends : c.Attends f.submission) (taken : f.submission.offer ⟨columns, values⟩ = .ok s) :
      Answered c (.dataRow values) (.done { c.enter
          [.offered f.submission.number ⟨columns, values⟩] with
        inFlight := { f with columns := some columns, submission := s } :: rest })
  | broke {f : Flight ρ} {rest : List (Flight ρ)} {i : Interruption}
      (values : List (Option Bytes)) (columns : List Column) (head : c.inFlight = f :: rest)
      (attends : c.Attends f.submission)
      (crash : f.submission.offer ⟨columns, values⟩ = .error i) :
      Answered c (.dataRow values) ⟨{ c.enter
          [.offered f.submission.number ⟨columns, values⟩] with
        inFlight := { f with columns := some columns } :: rest }, some i⟩
  | finished {f : Flight ρ} {rest : List (Flight ρ)} {t : Turn ρ} (status : TransactionStatus)
      (head : c.inFlight = f :: rest)
      (result : Finished (({ c with transaction := status, inFlight := rest } : Connection ρ).enter
        [.finished f.submission.number]) f t) :
      Answered c (.readyForQuery status) t

theorem Answered.refuse {c : Connection ρ} {m : BackendMessage} (i : Interruption)
    (h : ∀ s, m ≠ .readyForQuery s) : Answered c m ⟨c, some i⟩ :=
  .refused c.transaction i fun s e => absurd e (h s)

theorem Answered.inbox {c : Connection ρ} {m : BackendMessage} {t : Turn ρ}
    (h : Answered c m t) : t.after.inbox = c.inbox := by
  cases h with
  | finished status head result => cases result <;> rfl
  | _ => rfl

theorem onDataRow_answered (c : Connection ρ) (name : String) (values : List (Option Bytes)) :
    Answered c (.dataRow values) (c.onDataRow name values) := by
  unfold onDataRow withHead
  cases head : c.inFlight with
  | nil => exact .refuse _ (by simp)
  | cons f rest =>
    dsimp only
    split
    · next h =>
      refine .passed values _ head fun attends => ?_
      rcases Bool.or_eq_true_iff.mp h with h | h
      · exact absurd (attends.1.symm.trans h) (by decide)
      · rw [attends.2] at h
        exact absurd h (by decide)
    · next h =>
      have attends : c.Attends f.submission := by simpa [Attends, isCancelled] using h
      split
      · next s taken => exact .offered values _ head attends taken
      · next i crash => exact .broke values _ head attends crash

theorem updateHead_answered (c : Connection ρ) {m : BackendMessage} (plain : m.isPlain)
    (name : String) {g : Flight ρ → Flight ρ} (submission : ∀ f, (g f).submission = f.submission)
    (tag : ∀ f, (g f).tag = f.tag) (rowsAffected : ∀ f, (g f).rowsAffected = f.rowsAffected) :
    Answered c m (c.updateHead name g) := by
  unfold updateHead withHead
  cases head : c.inFlight with
  | nil => exact .refuse _ fun s e => by simp [e, BackendMessage.isPlain] at plain
  | cons f rest => exact .noted c.cache plain head (submission f) (tag f) (rowsAffected f)

theorem onQueryMessage_answered (c : Connection ρ) (m : BackendMessage) :
    Answered c m (c.onQueryMessage m) := by
  cases m
  case errorResponse fields =>
    unfold onQueryMessage onError
    dsimp only
    split
    · exact .refuse _ (by simp)
    · exact updateHead_answered c rfl _ (fun _ => rfl) (fun _ => rfl) fun _ => rfl
  case rowDescription columns =>
    unfold onQueryMessage onRowDescription withHead
    cases head : c.inFlight with
    | nil => exact .refuse _ (by simp)
    | cons f rest => exact .noted _ rfl head rfl rfl rfl
  case noData =>
    unfold onQueryMessage onNoData withHead
    dsimp only
    split
    · next f rest head =>
      split
      · exact head ▸ .noted (g := f) (c.cache.learnColumns f.statement []) rfl head rfl rfl rfl
      · have same := Answered.noted (m := .noData) (g := f) c.cache rfl head rfl rfl rfl
        rwa [← head] at same
    · exact .refuse _ (by simp)
  case dataRow values => exact onDataRow_answered c _ values
  case commandComplete tag =>
    unfold onQueryMessage onCommandComplete updateHead withHead
    cases head : c.inFlight with
    | nil => exact .refuse _ (by simp)
    | cons f rest => exact .tagged tag head
  case readyForQuery status =>
    unfold onQueryMessage onReadyForQuery withHead
    dsimp only
    split
    · next f rest head => exact .finished status head (finish_finished _ f)
    · next head => exact .refused status _ fun _ _ => head
  all_goals first
    | exact .refuse _ (by simp)
    | exact updateHead_answered c rfl _ (fun _ => rfl) (fun _ => rfl) fun _ => rfl

theorem onMessage_cases (c : Connection ρ) (m : BackendMessage) :
    (m.isAside = true ∧ ∃ info, c.onMessage m = .done { c.enter [.received m] with info }) ∨
    (m.isAside = false ∧ c.stage = .authenticating ∧
      c.onMessage m = (c.enter [.received m]).onAuthMessage m) ∨
    (m.isAside = false ∧ (c.stage = .ready ∨ c.stage = .closing) ∧
      c.onMessage m = (c.enter [.received m]).onQueryMessage m) ∨
    (m.isAside = false ∧ c.stage ≠ .authenticating ∧ c.stage ≠ .ready ∧
      ∃ i, c.onMessage m = ⟨c.enter [.received m], some i⟩) := by
  have stage : (c.enter [.received m]).stage = c.stage := rfl
  cases m
  case parameterStatus name value => exact Or.inl ⟨rfl, _, rfl⟩
  case backendKeyData process secret => exact Or.inl ⟨rfl, _, rfl⟩
  case noticeResponse fields => exact Or.inl ⟨rfl, c.info, rfl⟩
  case notification process channel payload => exact Or.inl ⟨rfl, c.info, rfl⟩
  all_goals
    unfold onMessage
    dsimp only
    rw [stage]
    cases h : c.stage <;> simp [BackendMessage.isAside, Turn.fail]

end Connection

end PgPipeline
