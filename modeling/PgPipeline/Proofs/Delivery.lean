import PgPipeline.Proofs.Success

namespace PgPipeline

open scoped List

variable {ρ : Type}

namespace Entry

def offeredTo? (n : Nat) : Entry ρ → Option Row
  | .offered number row => if number = n then some row else none
  | _ => none

def supply (n : Nat) (rows : List Row) : Entry ρ → List Row
  | .offered number row => if number = n then rows ++ [row] else rows
  | .finished number => if number = n then [] else rows
  | _ => rows

variable {n : Nat} {e : Entry ρ}

theorem offeredTo?_eq_none (other : e.subject? ≠ some n) : e.offeredTo? n = none := by
  cases e with
  | offered number row => exact if_neg fun same => other (congrArg some same)
  | _ => rfl

theorem supply_eq_self (offered : e.offeredTo? n = none) (finished : e.finishedNumber? ≠ some n)
    (rows : List Row) : e.supply n rows = rows := by
  cases e with
  | offered number row =>
    refine if_neg fun same => ?_
    exact absurd (offered.symm.trans (if_pos same)) (by simp)
  | finished number => exact if_neg fun same => finished (congrArg some same)
  | _ => rfl

end Entry

namespace Record

/-- All rows that the submission was offered. -/
def offersTo (n : Nat) (es : List (Entry ρ)) : List Row := es.filterMap (Entry.offeredTo? n)

/-- The rows that the submission was offered since a batch of it ended last. -/
def attempt (n : Nat) (es : List (Entry ρ)) : List Row := es.foldl (Entry.supply n) []

/-- No row that the submission was offered belongs to a batch of it that has ended. -/
def Afresh (n : Nat) (es : List (Entry ρ)) : Prop :=
  ∀ before row after, es = before ++ .offered n row :: after → .finished n ∉ after

variable {n : Nat} {es more : List (Entry ρ)}

theorem offersTo_append (n : Nat) (as bs : List (Entry ρ)) :
    offersTo n (as ++ bs) = offersTo n as ++ offersTo n bs := List.filterMap_append

theorem attempt_append (n : Nat) (as bs : List (Entry ρ)) :
    attempt n (as ++ bs) = bs.foldl (Entry.supply n) (attempt n as) := List.foldl_append

theorem offersTo_append_of_forall (quiet : ∀ e ∈ more, e.offeredTo? n = none) :
    offersTo n (es ++ more) = offersTo n es := by
  have none_ : offersTo n more = [] := List.filterMap_eq_nil_iff.mpr quiet
  rw [offersTo_append, none_, List.append_nil]

theorem offersTo_append_other (other : ∀ e ∈ more, e.subject? ≠ some n) :
    offersTo n (es ++ more) = offersTo n es :=
  offersTo_append_of_forall fun e he => Entry.offeredTo?_eq_none (other e he)

theorem attempt_append_of_forall
    (quiet : ∀ e ∈ more, e.offeredTo? n = none ∧ e.finishedNumber? ≠ some n) :
    attempt n (es ++ more) = attempt n es := by
  rw [attempt_append]
  generalize attempt n es = rows
  induction more with
  | nil => rfl
  | cons e rest ih =>
    obtain ⟨offered, finished⟩ := quiet e List.mem_cons_self
    rw [List.foldl_cons, Entry.supply_eq_self offered finished]
    exact ih fun f hf => quiet f (List.mem_cons_of_mem _ hf)

theorem attempt_append_other (other : ∀ e ∈ more, e.subject? ≠ some n) :
    attempt n (es ++ more) = attempt n es := by
  refine attempt_append_of_forall fun e he => ⟨Entry.offeredTo?_eq_none (other e he), ?_⟩
  have other := other e he
  cases e <;> first | exact other | simp [Entry.finishedNumber?]

theorem attempt_ended {number : Nat} (status : TransactionStatus)
    (waits : number ≠ n → attempt n es = [])
    (quiet : ∀ e ∈ more, e.offeredTo? n = none ∧ e.finishedNumber? ≠ some n) :
    attempt n (es ++ .received (.readyForQuery status) :: .finished number :: more) = [] := by
  have ended : attempt n (es ++ [.received (.readyForQuery status), .finished number]) = [] := by
    rw [attempt_append]
    rcases Nat.decEq number n with other | rfl
    · rw [waits other]
      exact if_neg other
    · exact if_pos rfl
  rw [← ended]
  calc
    _ = attempt n (es ++ [.received (.readyForQuery status), .finished number] ++ more) := by simp
    _ = _ := attempt_append_of_forall quiet

theorem offersTo_eq_nil_iff : offersTo n es = [] ↔ ∀ row, .offered n row ∉ es := by
  unfold offersTo
  rw [List.filterMap_eq_nil_iff]
  constructor
  · intro none_ row offered
    simpa [Entry.offeredTo?] using none_ _ offered
  · intro none_ e he
    cases e with
    | offered number row =>
      refine if_neg fun same => ?_
      exact none_ row (same ▸ he)
    | _ => rfl

theorem afresh_snoc_iff (e : Entry ρ) :
    Afresh n (es ++ [e]) ↔ Afresh n es ∧ (e = .finished n → offersTo n es = []) := by
  constructor
  · refine fun all => ⟨?_, ?_⟩
    · rintro before row after rfl finished
      exact all before row (after ++ [e]) (by simp) (List.mem_append_left _ finished)
    · rintro rfl
      refine offersTo_eq_nil_iff.mpr fun row offered => ?_
      obtain ⟨before, after, rfl⟩ := List.append_of_mem offered
      exact all before row (after ++ [.finished n]) (by simp) (by simp)
  · rintro ⟨all, ending⟩ before row after parts
    rcases List.eq_nil_or_concat after with rfl | ⟨after, f, rfl⟩
    · exact List.not_mem_nil
    · have parts : es ++ [e] = (before ++ .offered n row :: after) ++ [f] := by
        rw [parts]
        simp
      obtain ⟨rfl, same⟩ := List.append_inj' parts rfl
      obtain rfl : e = f := List.singleton_inj.mp same
      intro finished
      rcases List.mem_append.mp (List.concat_eq_append ▸ finished) with old | new
      · exact all before row after rfl old
      · have none_ := offersTo_eq_nil_iff.mp (ending (List.mem_singleton.mp new).symm) row
        exact none_ (List.mem_append_right _ List.mem_cons_self)

theorem exists_offersTo_eq (n : Nat) (es : List (Entry ρ)) :
    ∃ previous, offersTo n es = previous ++ attempt n es ∧ (previous = [] ↔ Afresh n es) := by
  induction es using List.reverseRecOn with
  | nil =>
    refine ⟨[], rfl, iff_of_true rfl fun before row after parts => ?_⟩
    simp at parts
  | append_singleton es e ih =>
    obtain ⟨previous, split, fresh⟩ := ih
    rw [afresh_snoc_iff, attempt_append, offersTo_append]
    rcases Classical.em (e = .finished n) with rfl | going
    · -- All rows so far belong to earlier attempts from here on.
      have ended : (Entry.finished (ρ := ρ) n).supply n (attempt n es) = [] := if_pos rfl
      refine ⟨offersTo n es, congrArg (offersTo n es ++ ·) ended.symm, ?_⟩
      constructor
      · intro none_
        exact ⟨fresh.mp (List.append_eq_nil_iff.mp (split.symm.trans none_)).1, fun _ => none_⟩
      · exact fun all => all.2 rfl
    · refine ⟨previous, ?_, fresh.trans ⟨fun all => ⟨all, fun ends => absurd ends going⟩, And.left⟩⟩
      rw [split, List.append_assoc]
      refine congrArg (previous ++ ·) ?_
      cases e with
      | offered number row =>
        rcases Nat.decEq number n with other | rfl
        · simp [offersTo, Entry.offeredTo?, Entry.supply, other]
        · simp [offersTo, Entry.offeredTo?, Entry.supply]
      | finished number =>
        have other : number ≠ n := fun same => going (same ▸ rfl)
        simp [offersTo, Entry.offeredTo?, Entry.supply, other]
      | _ => simp [offersTo, Entry.offeredTo?, Entry.supply]

end Record

/-- What a submission knows of its rows is what its consumer made of these, which it was offered one
after the other: the consumer has taken them all, or it has refused the last one. -/
structure Submission.Fed (s : Submission ρ) (rows : List Row) : Prop where
  accepted : ∀ before row after, s.taken = before ++ row :: after →
    s.consumer.onRow before row = .ok ()
  complete : s.refusal = none → s.taken = rows
  refused : ∀ failure, s.refusal = some failure →
    ∃ row, rows = s.taken ++ [row] ∧ s.consumer.onRow s.taken row = .error (.failed failure)

namespace Submission.Fed

variable {s r : Submission ρ} {rows : List Row} {row : Row}

theorem create (number : Nat) (query : String) (params : List Param) (consumer : Consumer ρ) :
    (Submission.create number query params consumer).Fed [] where
  accepted before row after parts := by simp [Submission.create] at parts
  complete _ := rfl
  refused failure refusal := by cases refusal

theorem offer (h : s.Fed rows) (kept : s.refusal = none) (taken : s.offer row = .ok r) :
    r.Fed (rows ++ [row]) := by
  obtain rfl := h.complete kept
  unfold Submission.offer at taken
  split at taken
  · next took =>
    injection taken with taken
    subst taken
    refine ⟨fun before other after parts => ?_, fun _ => rfl,
      fun failure refusal => absurd (kept.symm.trans refusal) (by simp)⟩
    rcases List.eq_nil_or_concat after with rfl | ⟨after, last, rfl⟩
    · obtain ⟨rfl, same⟩ := List.append_inj' parts rfl
      cases List.singleton_inj.mp same
      exact took
    · have parts : s.taken ++ [row] = (before ++ other :: after) ++ [last] := by
        rw [show s.taken ++ [row] = _ from parts]
        simp
      exact h.accepted before other after (List.append_inj' parts rfl).1
  · next failure said =>
    injection taken with taken
    subst taken
    refine ⟨h.accepted, nofun, fun other refusal => ?_⟩
    obtain rfl := Option.some_inj.mp refusal
    exact ⟨row, rfl, said⟩
  · cases taken

end Submission.Fed

namespace Turn

open Connection

variable {K : Consumer ρ → Prop} {t u : Turn ρ}

def served? (c : Connection ρ) : Option Nat :=
  (c.inFlight.map (·.submission)).head?.map (·.number)

structure Delivering (t : Turn ρ) : Prop where
  past : ∀ e ∈ t.after.record, ∀ n, e.subject? = some n → n < t.after.inbox.nextNumber
  fed : t.GoesOn → t.after.inbox.closedBy = none → ∀ s ∈ t.after.work.outstanding,
    s.Fed (Record.offersTo s.number t.after.record)
  supplied : t.GoesOn → t.after.inbox.closedBy = none →
    ∀ n ∈ Submission.numbers t.after.work.outstanding, Record.attempt n t.after.record =
      if served? t.after = some n then (Record.ledger t.after.record).offers else []

namespace Delivering

theorem start (config : Config) (nonces : Nat → List Char) :
    Delivering (done (Connection.start (ρ := ρ) config nonces)) := by
  refine ⟨fun e he => ?_, fun _ _ s hs => ?_, fun _ _ n hn => ?_⟩
  · exact absurd he List.not_mem_nil
  · exact absurd hs List.not_mem_nil
  · exact absurd hn List.not_mem_nil

theorem past_step (handled : Handled K t u) (counted : Counted t) (h : Delivering t) :
    ∀ e ∈ u.after.record, ∀ n, e.subject? = some n → n < u.after.inbox.nextNumber := by
  obtain ⟨es, record, touches⟩ := handled.touches
  intro e he n subject
  have le : t.after.inbox.nextNumber ≤ u.after.inbox.nextNumber := by
    rcases handled.nextNumber_cases with same | ⟨_, new⟩ <;> omega
  refine Nat.lt_of_lt_of_le ?_ le
  rw [record] at he
  rcases List.mem_append.mp he with old | new
  · exact h.past e old n subject
  · obtain ⟨goesOn, opened, waits, _⟩ := touches e new n subject
    exact (counted goesOn opened).lt waits

theorem untouched (h : Delivering t) :
    ∀ e ∈ t.after.record, e.subject? ≠ some t.after.inbox.nextNumber :=
  fun e he subject => Nat.lt_irrefl _ (h.past e he _ subject)

theorem fed_step (handled : Handled K t u) (counted : Counted t) (h : Delivering t)
    (going : u.GoesOn) (opened : u.after.inbox.closedBy = none) :
    ∀ s ∈ u.after.work.outstanding, s.Fed (Record.offersTo s.number u.after.record) := by
  obtain ⟨before, free⟩ := handled.before going opened
  have known := h.fed before free
  intro s hs
  cases handled with
  | kept count outstanding inFlight record idle =>
    rw [record, Record.offersTo_append_other fun e he => by simp [(idle e he).1]]
    exact known s (outstanding.subset hs)
  | handedIn query params consumer allowed free after =>
    have all : s ∈ t.after.work.outstanding ∨
        s = .create t.after.inbox.nextNumber query params consumer := by
      rw [after] at hs
      simpa [Work.outstanding, work, or_assoc] using hs
    rw [after]
    rcases all with old | rfl
    · exact known s old
    · have none_ : Record.offersTo t.after.inbox.nextNumber ([] ++ t.after.record) = [] :=
        Record.offersTo_append_other h.untouched
      have fresh := Submission.Fed.create t.after.inbox.nextNumber query params consumer
      rw [← none_] at fresh
      exact fresh
  | declined consumer allowed cause closed => exact absurd free closed
  | shut ended => exact absurd opened (ended going)
  | @refused d ss failure goesOn count inFlight outstanding record cause after =>
    obtain ⟨_, rs, all⟩ := resolveAll_eq d ss (.error failure)
    rw [after, all] at hs ⊢
    have old : s ∈ t.after.work.outstanding :=
      outstanding.symm.subset (List.mem_append_right _ hs)
    rw [Record.offersTo_append_of_forall (by simp [Entry.offeredTo?]), record]
    exact known s old
  | sent name messages goesOn count outstanding inFlight record =>
    rw [record, Record.offersTo_append_of_forall (by simp [Entry.offeredTo?])]
    exact known s (outstanding ▸ hs)
  | @offered f rest r others row goesOn free ready head attends taken count inFlight parts outstanding
      record =>
    rw [record, List.append_cons, Record.offersTo_append,
      Record.offersTo_append_of_forall (by simp [Entry.offeredTo?])]
    rw [outstanding] at hs
    rw [parts] at known
    obtain ⟨number, -⟩ := Submission.offer_same taken
    rcases List.mem_cons.mp hs with rfl | old
    · have mine := (known f.submission List.mem_cons_self).offer attends.2 taken
      simpa [Record.offersTo, Entry.offeredTo?, number] using mine
    · -- Another submission has another number, so the row is none of its own.
      have covered := (counted goesOn free).numbers_nodup
      rw [parts] at covered
      have other : f.submission.number ≠ s.number :=
        fun same => (List.nodup_cons.mp covered).1 (List.mem_map.mpr ⟨s, old, same.symm⟩)
      have theirs := known s (List.mem_cons_of_mem _ old)
      simpa [Record.offersTo, Entry.offeredTo?, other] using theirs
  | @answered d f rest es result status after goesOn free ready head count inFlight outstanding
      record ending =>
    obtain ⟨_, rs, all⟩ := d.resolve_eq f.submission.number result
    rw [after, all] at hs ⊢
    rw [outstanding] at known
    rw [Record.offersTo_append_of_forall (by simp [Entry.offeredTo?]), record,
      Record.offersTo_append_of_forall]
    · exact known s (List.mem_cons_of_mem _ hs)
    · cases ending <;> simp [Entry.offeredTo?]
  | @again f rest r others status goesOn free ready head kept_ same count inFlight parts outstanding
      record =>
    rw [record, Record.offersTo_append_of_forall (by simp [Entry.offeredTo?])]
    rw [parts] at known
    rcases List.mem_cons.mp (outstanding.subset hs) with rfl | old
    · subst same
      have mine := known f.submission List.mem_cons_self
      exact ⟨mine.accepted, mine.complete, mine.refused⟩
    · exact known s (List.mem_cons_of_mem _ old)

theorem served_mem {c : Connection ρ} {n : Nat} (h : served? c = some n) :
    n ∈ Submission.numbers c.work.outstanding := by
  cases head : c.inFlight with
  | nil => simp [served?, head] at h
  | cons f rest =>
    obtain rfl : f.submission.number = n := by simpa [served?, head] using h
    simp [Submission.numbers, Work.outstanding, work, head]

theorem supplied_before (handled : Handled K t u) (counted : Counted t) (h : Delivering t)
    (going : u.GoesOn) (opened : u.after.inbox.closedBy = none) {n : Nat}
    (hn : n ∈ Submission.numbers u.after.work.outstanding) : Record.attempt n t.after.record =
      if served? t.after = some n then (Record.ledger t.after.record).offers else [] := by
  obtain ⟨before, free⟩ := handled.before going opened
  obtain ⟨s, hs, rfl⟩ := List.mem_map.mp hn
  rcases handled.outstanding_cases going opened hs with ⟨r, hr, number, _⟩ | ⟨_, _, _, _, rfl⟩
  · rw [← number]
    exact h.supplied before free r.number (List.mem_map_of_mem hr)
  · have none_ : Record.attempt t.after.inbox.nextNumber ([] ++ t.after.record) = [] :=
      Record.attempt_append_other h.untouched
    have waits : served? t.after ≠ some t.after.inbox.nextNumber :=
      fun same => Nat.lt_irrefl _ ((counted before free).lt (served_mem same))
    exact none_.trans (if_neg waits).symm

theorem supplied_step (handled : Handled K t u) (inStep : InStep t) (counted : Counted t)
    (h : Delivering t) (going : u.GoesOn) (opened : u.after.inbox.closedBy = none) :
    ∀ n ∈ Submission.numbers u.after.work.outstanding, Record.attempt n u.after.record =
      if served? u.after = some n then (Record.ledger u.after.record).offers else [] := by
  obtain ⟨before, free⟩ := handled.before going opened
  intro n hn
  have known := h.supplied_before handled counted going opened hn
  cases handled with
  | kept count outstanding inFlight record idle offers =>
    rw [served?, inFlight, offers going, record,
      Record.attempt_append_other fun e he => by simp [(idle e he).1]]
    exact known
  | handedIn query params consumer allowed free after =>
    rw [after]
    exact known
  | declined consumer allowed cause closed => exact absurd free closed
  | shut ended => exact absurd opened (ended going)
  | @refused d ss failure goesOn count inFlight outstanding record cause after =>
    obtain ⟨_, rs, all⟩ := resolveAll_eq d ss (.error failure)
    rw [after, all]
    have served : served? d = served? t.after := by rw [served?, inFlight, served?]
    refine (Record.attempt_append_other (by simp [Entry.subject?])).trans ?_
    rw [Handled.offers_still (by simp [Entry.ofPipeline]), record]
    exact known.trans (if_congr (by rw [← served]; rfl) rfl rfl)
  | sent name messages goesOn count outstanding inFlight record =>
    have attempt : Record.attempt n u.after.record = Record.attempt n t.after.record := by
      rw [record, Record.attempt_append]
      rfl
    have offers : (Record.ledger u.after.record).offers = (Record.ledger t.after.record).offers := by
      rw [record, Record.ledger_append]
      rfl
    rw [attempt, offers, known, served?, served?, inFlight]
    cases head : t.after.inFlight with
    | nil =>
      -- What is sent first is answered first, and it was offered nothing yet.
      have abreast := inStep.abreast before free
      rw [head] at abreast
      have none_ : (Record.ledger t.after.record).offers = [] := abreast.offers
      simp [none_]
    | cons f rest => rfl
  | @offered f rest r others row goesOn free ready head attends taken count inFlight parts outstanding
      record =>
    have number := (Submission.offer_same taken).1
    have served : served? u.after = some f.submission.number := by simp [served?, inFlight, number]
    have before_ : served? t.after = some f.submission.number := by simp [served?, head]
    have offers : (Record.ledger u.after.record).offers =
        (Record.ledger t.after.record).offers ++ [row] := by
      rw [record, List.append_cons, Record.ledger_snoc, Record.ledger_received _ ready]
      rfl
    have attempt : Record.attempt n u.after.record =
        (Entry.offered (ρ := ρ) f.submission.number row).supply n (Record.attempt n t.after.record) := by
      rw [record, Record.attempt_append]
      rfl
    rw [attempt, offers, served, known, before_]
    rcases Nat.decEq f.submission.number n with other | rfl
    · simp [Entry.supply, other]
    · simp [Entry.supply]
  | @answered d f rest es result status after goesOn free ready head count inFlight outstanding
      record ending =>
    obtain ⟨_, rs, all⟩ := d.resolve_eq f.submission.number result
    rw [after, all]
    have offers : (Record.ledger d.record).offers = [] := by
      rw [record, List.append_cons, Record.ledger_append, Record.ledger_received _ ready]
      cases ending <;> rfl
    rw [Handled.offers_still (by simp [Entry.ofPipeline]), offers, ite_self,
      Record.attempt_append_of_forall (by simp [Entry.offeredTo?, Entry.finishedNumber?]), record]
    refine Record.attempt_ended status (fun other => ?_) ?_
    · rw [known, served?, head]
      exact if_neg fun same => other (Option.some_inj.mp same)
    · cases ending <;> simp [Entry.offeredTo?, Entry.finishedNumber?]
  | @again f rest r others status goesOn free ready head kept_ same count inFlight parts outstanding
      record =>
    have offers : (Record.ledger u.after.record).offers = [] := by
      rw [record, List.append_cons, Record.ledger_append, Record.ledger_received _ ready]
      rfl
    rw [offers, ite_self, record]
    refine Record.attempt_ended status (fun other => ?_) (by simp)
    rw [known, served?, head]
    exact if_neg fun same => other (Option.some_inj.mp same)

theorem step (handled : Handled K t u) (regular : Regular t) (h : Delivering t) : Delivering u :=
  ⟨h.past_step handled regular.counted, h.fed_step handled regular.counted,
    h.supplied_step handled regular.orderly.inStep regular.counted⟩

end Delivering

theorem moves_delivering (config : Config) (nonces : Nat → List Char)
    (moves : Moves K (done (.start config nonces)) t) : Regular t ∧ Delivering t :=
  moves_invariant (P := fun t => Regular t ∧ Delivering t)
    (fun move ⟨regular, delivering⟩ => ⟨regular.step move.stride,
      delivering.step (regular.orderly.handled move.stride) regular⟩)
    moves ⟨.start config nonces, .start config nonces⟩

/-- A consumer gives its success when it has been offered all rows of all batches of its submission,
in their order; the rows that the server sent in the batch that succeeded come last, and they are all
that it was offered exactly if no batch before that one had brought it a row. -/
theorem run_delivers_iff (config : Config) (nonces : Nat → List Char) (actions : List (Action ρ))
    {n : Nat} {x : ρ}
    (given : .resolved ⟨n, .ok x⟩ ∈ ((done (.start config nonces)).run actions).after.record) :
    ∃ consumer earlier status summary later, (Action.consumers actions)[n]? = some consumer ∧
      ((done (.start config nonces)).run actions).after.record = earlier ++
        .received (.readyForQuery status) :: .finished n :: .concluded n summary :: later ∧
      (∀ row, .offered n row ∉ later) ∧
      consumer.onComplete (Record.offersTo n earlier) summary = .ok x ∧
      (Record.ledger earlier).rows <:+ (Record.offersTo n earlier).map (·.values) ∧
      ((Record.offersTo n earlier).map (·.values) = (Record.ledger earlier).rows ↔
        Record.Afresh n earlier) := by
  have mem : ⟨n, .ok x⟩ ∈ ((done (.start config nonces)).run actions).after.outcomes :=
    List.mem_append_left _ (Record.mem_resolutions.mpr given)
  obtain ⟨d, f, status, later, success, consumer⟩ := run_succeeds config nonces actions n x mem
  obtain ⟨rest, head⟩ := success.head
  obtain rfl := success.number
  obtain ⟨regular, delivering⟩ := moves_delivering config nonces success.reached
  have waits : f.submission ∈ d.work.outstanding := by simp [Work.outstanding, work, head]
  have taken : f.submission.taken = Record.offersTo f.submission.number d.record :=
    (delivering.fed success.going success.opened f.submission waits).complete success.attends.2
  have supplied : Record.attempt f.submission.number d.record = (Record.ledger d.record).offers := by
    have served : served? d = some f.submission.number := by simp [served?, head]
    have all := delivering.supplied success.going success.opened f.submission.number
      (List.mem_map_of_mem waits)
    rw [show (done d).after = d from rfl, served, if_pos rfl] at all
    exact all
  have rows : (Record.ledger d.record).offers.map (·.values) = (Record.ledger d.record).rows := by
    have abreast := regular.orderly.inStep.abreast success.going success.opened
    rw [show (done d).after = d from rfl, head] at abreast
    exact abreast.1.2.2 success.attends
  obtain ⟨previous, split, fresh⟩ := Record.exists_offersTo_eq f.submission.number d.record
  rw [supplied] at split
  refine ⟨f.submission.consumer, d.record, status, f.summary, later, consumer, success.record,
    success.last, taken ▸ success.result, ?_, ?_⟩
  · rw [split, List.map_append, rows]
    exact List.suffix_append _ _
  · rw [split, List.map_append, rows, ← fresh]
    simp

/-- A batch that the server refuses at once leaves no trace in the rows. -/
theorem run_delivers_iff_refused_at_once :
    let refusal : List BackendMessage :=
      [.errorResponse [(Bytes.ascii 'C', "26000")], .readyForQuery .idle]
    let answers : List BackendMessage :=
      [.parseComplete, .noData, .bindComplete, .dataRow [some [0, 0, 0, 7]],
        .commandComplete "SELECT 1", .readyForQuery .idle]
    let actions : List (Action Nat) :=
      Action.admission ++ [.submit "select 7" [] (Consumer.collect.map (·.rows.length)), .attention,
        .answers refusal, .answers answers]
    let c := ((done (.start { Config.default with encryption := .disable } fun _ => [])).run
      actions).after
    .resolved ⟨0, .ok 1⟩ ∈ c.record ∧ Record.sent c.record = [0, 0] ∧
      (Record.offersTo 0 c.record).map (·.values) = [[some [0, 0, 0, 7]]] ∧
      ∃ consumer summary, (Action.consumers actions)[0]? = some consumer ∧
        consumer.onComplete (Record.offersTo 0 c.record) summary = .ok 1 := by
  intro refusal answers actions c
  have given : .resolved ⟨0, .ok 1⟩ ∈ c.record := by
    have found : ∃ r ∈ Record.resolutions c.record, r.number = 0 ∧ r.result = .ok 1 := by
      decide +kernel
    obtain ⟨⟨number, result⟩, mem, rfl, rfl⟩ := found
    exact Record.mem_resolutions.mp mem
  obtain ⟨consumer, earlier, status, summary, later, handed, record, last, told, _⟩ :=
    run_delivers_iff { Config.default with encryption := .disable } (fun _ => []) actions given
  have all : Record.offersTo 0 c.record = Record.offersTo 0 earlier := by
    have none_ := Record.offersTo_eq_nil_iff.mpr fun row => show .offered 0 row ∉
      Entry.received (.readyForQuery status) :: .finished 0 :: .concluded 0 summary :: later from
        by simpa using last row
    rw [show c.record = _ from record, Record.offersTo_append, none_, List.append_nil]
  exact ⟨given, by decide +kernel, by decide +kernel, consumer, summary, handed, all ▸ told⟩

/-- The rows of a batch that failed half way come once more with its repetition. -/
theorem run_delivers_again :
    let first : List BackendMessage :=
      [.parseComplete, .noData, .bindComplete, .dataRow [some [0, 0, 0, 1]],
        .commandComplete "INSERT 0 1", .errorResponse [(Bytes.ascii 'C', "26000")],
        .readyForQuery .idle]
    let second : List BackendMessage :=
      [.parseComplete, .noData, .bindComplete, .dataRow [some [0, 0, 0, 1]],
        .commandComplete "INSERT 0 1", .bindComplete, .dataRow [some [0, 0, 0, 2]],
        .commandComplete "INSERT 0 1"]
    let actions : List (Action Nat) :=
      Action.admission ++ [.submit "insert" [.repeated [.int4 1, .int4 2]]
        (Consumer.collect.map (·.rows.length)), .attention, .answers first, .answers second]
    let t := (done (.start { Config.default with encryption := .disable } fun _ => [])).run actions
    let u := t.act (.answers [.readyForQuery .idle])
    (Record.ledger t.after.record).rows = [[some [0, 0, 0, 1]], [some [0, 0, 0, 2]]] ∧
      (Record.offersTo 0 t.after.record).map (·.values) =
        [[some [0, 0, 0, 1]], [some [0, 0, 0, 1]], [some [0, 0, 0, 2]]] ∧
      u.interruption = none ∧ u.after.stage = .ready ∧
      (Record.resolutions u.after.record).map (·.result) = [.ok 3] := by
  refine ⟨?_, ?_, ?_, ?_, ?_⟩ <;> decide +kernel

end Turn

end PgPipeline
