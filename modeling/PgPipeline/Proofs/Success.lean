import PgPipeline.Proofs.Regularity

namespace PgPipeline

open scoped List

variable {ρ : Type}

namespace Action

def consumer? : Action ρ → Option (Consumer ρ)
  | .submit _ _ consumer => some consumer
  | _ => none

/-- The consumers that were handed in, each in the place of its submission's number. -/
def consumers (actions : List (Action ρ)) : List (Consumer ρ) := actions.filterMap consumer?

end Action

theorem Submission.conclude_ok {s : Submission ρ} {summary : Summary} {x : ρ}
    (h : s.conclude false summary = .ok (.ok x)) :
    s.consumer.onComplete s.taken summary = .ok x := by
  unfold conclude at h
  simp only [Bool.false_eq_true, if_false] at h
  split at h
  · cases h
  · split at h
    · next result completed =>
      injection h with h
      injection h with h
      exact h ▸ completed
    · cases h
    · cases h

namespace Turn

open Connection

variable {K : Consumer ρ → Prop} {t u origin : Turn ρ}

/-- The first turn came to this connection, whose head then got the result; after that its consumer
got no row on the way to the second turn. -/
structure Success (origin t : Turn ρ) (n : Nat) (x : ρ) (d : Connection ρ) (f : Flight ρ)
    (status : TransactionStatus) (later : List (Entry ρ)) : Prop where
  reached : Moves (fun _ => True) origin (done d)
  passed : Moves (fun _ => True) (done d) t
  going : GoesOn (done d)
  opened : d.inbox.closedBy = none
  head : ∃ rest, d.inFlight = f :: rest
  number : f.submission.number = n
  attends : d.Attends f.submission
  result : f.submission.consumer.onComplete f.submission.taken f.summary = .ok x
  record : t.after.record = d.record ++
    .received (.readyForQuery status) :: .finished n :: .concluded n f.summary :: later
  last : ∀ row, .offered n row ∉ later

theorem Handled.success (handled : Handled K t u) {n : Nat} {x : ρ}
    (h : ⟨n, .ok x⟩ ∈ u.after.outcomes) :
    ⟨n, .ok x⟩ ∈ t.after.outcomes ∨
      ∃ f rest status later, t.GoesOn ∧ t.after.inbox.closedBy = none ∧
        t.after.inFlight = f :: rest ∧ f.submission.number = n ∧ t.after.Attends f.submission ∧
        f.submission.consumer.onComplete f.submission.taken f.summary = .ok x ∧
        u.after.record = t.after.record ++ .received (.readyForQuery status) :: .finished n ::
          .concluded n f.summary :: List.map .resolved later := by
  have kept {es : List (Entry ρ)} (sequencer : u.after.sequencer = t.after.sequencer)
      (record : u.after.record = t.after.record ++ es)
      (none_ : ∀ r, .resolved r ∉ es) : ⟨n, .ok x⟩ ∈ t.after.outcomes :=
    (mem_outcomes_of_record sequencer record h).resolve_right (none_ _)
  cases handled with
  | kept count outstanding inFlight record idle =>
    exact .inl (kept count.sequencer record fun r hr => by cases (idle _ hr).2)
  | handedIn query params consumer allowed free after =>
    have record : u.after.record = t.after.record ++ [] := by rw [after, List.append_nil]
    exact .inl (kept (by rw [after]) record fun r => List.not_mem_nil)
  | declined consumer allowed cause closed after =>
    rw [after] at h
    have appended := mem_outcomes_of_record (c := t.after) (by rfl) (by rfl) h
    exact .inl (appended.resolve_right (by simp))
  | shut ended nextNumber record touches outcomes =>
    rcases outcomes _ h with old | ⟨failure, failed⟩
    · exact .inl old
    · cases failed
  | @refused d ss failure goesOn count inFlight outstanding record cause after =>
    rw [after] at h
    rcases mem_resolveAll_outcomes h with failed | old
    · cases failed
    · rw [outcomes, record, count.sequencer] at old
      exact .inl old
  | sent name messages goesOn count outstanding inFlight record =>
    exact .inl (kept count.sequencer record (by simp))
  | offered row goesOn free ready head attends taken count inFlight before outstanding record =>
    exact .inl (kept count.sequencer record (by simp))
  | @answered d f rest es result status after goesOn free ready head count inFlight outstanding record
      ending =>
    have old (mem : ⟨n, .ok x⟩ ∈ d.outcomes) : ⟨n, .ok x⟩ ∈ t.after.outcomes := by
      refine (mem_outcomes_of_record count.sequencer record mem).resolve_right ?_
      cases ending <;> simp
    have released : u.after.record = d.record ++
        (d.sequencer.resolve f.submission.number ⟨f.submission.number, result⟩).1.map .resolved := by
      rw [after]
      rfl
    rw [after] at h
    rcases mem_resolve_outcomes h with same | mem
    · injection same with number same
      subst number
      cases ending with
      | failed failure cause => cases same
      | told attends given =>
        refine .inr ⟨f, rest, status,
          (d.sequencer.resolve f.submission.number ⟨f.submission.number, result⟩).1, goesOn, free,
          head, rfl, attends, Submission.conclude_ok (same ▸ given), ?_⟩
        rw [released, record, List.append_assoc]
        rfl
    · exact .inl (old mem)
  | again status goesOn free ready head kept_ same count inFlight before outstanding record =>
    exact .inl (kept count.sequencer record (by simp))

structure Handed (given : List (Consumer ρ)) (t : Turn ρ) : Prop where
  count : t.after.inbox.nextNumber = given.length
  consumers : t.GoesOn → t.after.inbox.closedBy = none →
    ∀ s ∈ t.after.work.outstanding, given[s.number]? = some s.consumer

namespace Handed

variable {given : List (Consumer ρ)}

theorem step (handled : Handled (fun _ => False) t u) (h : Handed given t) : Handed given u := by
  have none_ : ¬ ∃ consumer : Consumer ρ, False := fun ⟨_, never⟩ => never
  refine ⟨?_, fun going opened s hs => ?_⟩
  · exact (handled.nextNumber_cases.resolve_right fun new => none_ new.1).trans h.count
  · obtain ⟨before, free⟩ := handled.before going opened
    rcases handled.outstanding_cases going opened hs with ⟨r, hr, number, consumer⟩ | new
    · rw [← number, ← consumer]
      exact h.consumers before free r hr
    · obtain ⟨_, _, _, never, _⟩ := new
      exact never.elim

theorem submit (h : Handed given t) (query : String) (params : List Param)
    (consumer : Consumer ρ) :
    Handed (given ++ [consumer]) (t.request fun c => (c.submit query params consumer).2) := by
  unfold Turn.request Connection.submit
  dsimp only
  split
  · next cause closed =>
    refine ⟨?_, fun _ opened => absurd (closed.symm.trans opened) (Option.some_ne_none _)⟩
    simp [enter, h.count]
  · refine ⟨by simp [h.count], fun going opened s hs => ?_⟩
    have going : t.GoesOn := going
    have opened : t.after.inbox.closedBy = none := opened
    have all : s ∈ t.after.work.outstanding ∨
        s = Submission.create t.after.inbox.nextNumber query params consumer := by
      simpa [Work.outstanding, work, or_assoc] using hs
    rcases all with old | rfl
    · have found := h.consumers going opened s old
      rw [List.getElem?_append_left (List.getElem?_eq_some_iff.mp found).1]
      exact found
    · simp [Submission.create, h.count]

end Handed

def Succeeds (origin : Turn ρ) (given : List (Consumer ρ)) (t : Turn ρ) : Prop :=
  ∀ n x, ⟨n, .ok x⟩ ∈ t.after.outcomes → ∃ d f status later,
    Success origin t n x d f status later ∧ given[n]? = some f.submission.consumer

theorem Success.step {n : Nat} {x : ρ} {d : Connection ρ} {f : Flight ρ} {status : TransactionStatus}
    {later : List (Entry ρ)} (h : Success origin t n x d f status later) (move : Move K t u)
    (handled : Handled K t u) (counted : Counted t) (mem : ⟨n, .ok x⟩ ∈ t.after.outcomes) :
    ∃ later, Success origin u n x d f status later := by
  obtain ⟨es, record, touches⟩ := handled.touches
  have passed : Moves (fun _ => True) (done d) u := h.passed.tail (move.weaken fun _ _ => trivial)
  refine ⟨later ++ es, { h with passed, record := ?_, last := fun row offered => ?_ }⟩
  · rw [record, h.record]
    simp
  · rcases List.mem_append.mp offered with old | new
    · exact h.last row old
    · obtain ⟨goesOn, opened, waits, _⟩ := touches _ new n rfl
      exact (counted goesOn opened).not_outstanding mem waits

namespace Succeeds

variable {given : List (Consumer ρ)}

theorem step (h : Succeeds origin given t) (reached : Moves (fun _ => True) origin t)
    (move : Move K t u) (regular : Regular t) (handed : Handed given t) :
    Succeeds origin given u := by
  have handled : Handled K t u := regular.orderly.handled move.stride
  have single : Moves (fun _ => True) t u := .single (move.weaken fun _ _ => trivial)
  intro n x mem
  rcases handled.success mem with old |
    ⟨f, rest, status, later, goesOn, opened, head, number, attends, result, record⟩
  · obtain ⟨d, f, status, later, success, consumer⟩ := h n x old
    obtain ⟨later, success⟩ := success.step move handled regular.counted old
    exact ⟨d, f, status, later, success, consumer⟩
  · -- The connection that gives the result is the one before this very move.
    have same : done t.after = t := (eq_done goesOn.1).symm
    refine ⟨t.after, f, status, _, ⟨same ▸ reached, same ▸ single, same ▸ goesOn, opened,
      ⟨rest, head⟩, number, attends, result, record, fun row => by simp⟩, ?_⟩
    rw [← number]
    refine handed.consumers goesOn opened f.submission ?_
    simp [Work.outstanding, work, head]

theorem grow (h : Succeeds origin given t) (more : List (Consumer ρ)) :
    Succeeds origin (given ++ more) t := by
  intro n x mem
  obtain ⟨d, f, status, later, success, consumer⟩ := h n x mem
  refine ⟨d, f, status, later, success, ?_⟩
  rw [List.getElem?_append_left (List.getElem?_eq_some_iff.mp consumer).1]
  exact consumer

end Succeeds

theorem run_handed {P : List (Consumer ρ) → Turn ρ → Prop} (config : Config)
    (nonces : Nat → List Char) (start : P [] (done (.start config nonces)))
    (step : ∀ {given t u}, Moves (fun _ => True) (done (.start config nonces)) t → Regular t →
      Handed given t → Move (fun _ => True) t u → P given t → P given u)
    (grow : ∀ {given t} consumer, P given t → P (given ++ [consumer]) t)
    (actions : List (Action ρ)) :
    Handed (Action.consumers actions) ((done (.start config nonces)).run actions) ∧
      P (Action.consumers actions) ((done (.start config nonces)).run actions) := by
  induction actions using List.reverseRecOn with
  | nil => exact ⟨⟨rfl, fun _ _ s mem => absurd mem List.not_mem_nil⟩, start⟩
  | append_singleton actions a ih =>
    obtain ⟨handed, holds⟩ := ih
    have regular := run_regular config nonces actions
    have reached : Moves (fun _ => True) (done (.start config nonces))
        ((done (.start config nonces)).run actions) := run_moves _ fun a _ => allows_any a
    rw [run_append]
    -- Only the handing in of a submission brings a consumer.
    by_cases brings : ∃ query params consumer, a = .submit query params consumer
    · obtain ⟨query, params, consumer, rfl⟩ := brings
      have given : Action.consumers (actions ++ [.submit query params consumer]) =
          Action.consumers actions ++ [consumer] := by
        simp [Action.consumers, Action.consumer?]
      rw [given]
      refine ⟨handed.submit query params consumer, grow consumer ?_⟩
      exact step reached regular handed (.submit query params consumer trivial) holds
    · have given : Action.consumers (actions ++ [a]) = Action.consumers actions := by
        cases a with
        | submit query params consumer => exact absurd ⟨query, params, consumer, rfl⟩ brings
        | _ => simp [Action.consumers, Action.consumer?]
      have allowed : a.Allows fun _ => False := by
        cases a with
        | submit query params consumer => exact absurd ⟨query, params, consumer, rfl⟩ brings
        | _ => trivial
      rw [given]
      obtain ⟨_, _, all⟩ := moves_invariant
        (P := fun u => Moves (fun _ => True) (done (.start config nonces)) u ∧ Regular u ∧
          Handed (Action.consumers actions) u ∧ P (Action.consumers actions) u)
        (fun move ⟨reached, regular, handed, holds⟩ =>
          ⟨reached.tail (move.weaken fun _ _ => trivial), regular.step move.stride,
            handed.step (regular.orderly.handled move.stride),
            step reached regular handed (move.weaken fun _ _ => trivial) holds⟩)
        (act_moves _ allowed) ⟨reached, regular, handed, holds⟩
      exact all

/-- Every success of a history was given by the consumer that was handed in with the submission, at a
time when its batch had been answered to the end. -/
theorem run_succeeds (config : Config) (nonces : Nat → List Char) (actions : List (Action ρ)) :
    Succeeds (done (.start config nonces)) (Action.consumers actions)
      ((done (.start config nonces)).run actions) :=
  (run_handed config nonces (fun _ _ mem => absurd mem List.not_mem_nil)
    (fun reached regular handed move succeeds => succeeds.step reached move regular handed)
    (fun consumer succeeds => succeeds.grow [consumer]) actions).2

end Turn

end PgPipeline
