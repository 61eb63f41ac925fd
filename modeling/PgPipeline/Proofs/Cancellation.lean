import PgPipeline.Proofs.Regularity

namespace PgPipeline

open scoped List

variable {ρ : Type}

namespace Record

/-- Where a batch of the submission ended in the later entries, the server had reported no error in
it. -/
def Unreported (earlier es : List (Entry ρ)) (number : Nat) : Prop :=
  ∀ before status after,
    es = before ++ .received (.readyForQuery status) :: .finished number :: after →
      ∀ m ∈ group (earlier ++ before), m.report? = none

namespace Unreported

variable {earlier es more : List (Entry ρ)} {n : Nat}

theorem of_not_mem (h : .finished n ∉ es) : Unreported earlier es n := by
  rintro before status after rfl
  exact absurd (by simp) h

theorem append_iff (h : .finished n ∉ more) :
    Unreported earlier (es ++ more) n ↔ Unreported earlier es n := by
  constructor
  · rintro all before status after rfl
    exact all before status (after ++ more) (by simp)
  · intro all before status after parts
    have parts : es ++ more =
        (before ++ [.received (.readyForQuery status)]) ++ .finished n :: after := by
      simpa using parts
    rcases List.append_eq_append_iff.mp parts with ⟨mid, _, later⟩ | ⟨mid, same, later⟩
    · exact absurd (by rw [later]; simp) h
    · cases mid with
      | nil => exact absurd (by rw [← List.nil_append more, ← later]; simp) h
      | cons e mid =>
        obtain ⟨rfl, -⟩ := List.cons.inj later
        exact all before status mid (by rw [same]; simp)

theorem snoc_iff (h : .finished n ∉ es) (status : TransactionStatus) :
    Unreported earlier (es ++ [.received (.readyForQuery status), .finished n]) n ↔
      ∀ m ∈ group (earlier ++ es), m.report? = none := by
  constructor
  · exact fun all => all es status [] rfl
  · intro none_ before end_ after parts
    have parts : (es ++ [.received (.readyForQuery status)]) ++ .finished n :: [] =
        (before ++ [.received (.readyForQuery end_)]) ++ .finished n :: after := by
      simpa using parts
    obtain ⟨same, -⟩ := (List.append_cons_inj_of_notMem (by simpa using h) (by simp)).mp parts
    rw [← (List.append_inj' same rfl).1]
    exact none_

end Unreported

end Record

namespace Turn

open Connection

theorem Stride.cancelled {K : Consumer ρ → Prop} {t u : Turn ρ} (stride : Stride K t u) :
    t.after.inbox.cancelled ⊆ u.after.inbox.cancelled := by
  cases stride with
  | idle same => exact same.aside.cancelled
  | submit query params consumer allowed => exact (Settles.submit _ query params consumer).cancelled
  | tell cause => exact (Settles.abort _ cause).cancelled
  | @message c m alive =>
    rcases onMessage_cases c m with ⟨_, _, e⟩ | ⟨_, _, e⟩ | ⟨_, _, e⟩ | ⟨_, _, _, _, e⟩ <;> rw [e]
    · exact List.Subset.refl _
    · exact (SameWork.onAuthMessage (c.enter [.received m]) m).cancelled
    · have inbox := (onQueryMessage_answered (c.enter [.received m]) m).inbox
      exact fun n hn => by rw [inbox]; exact hn
    · exact List.Subset.refl _
  | collect => exact List.Subset.refl _
  | close => exact (Settles.beginClose _).cancelled
  | drop => exact (Settles.dropCancelled _).cancelled
  | @send c s rest ready first kept =>
    have inbox := (send_frame ({ c with pending := rest } : Connection ρ) s).2.2
    exact fun n hn => by rw [done, inbox]; exact hn

/-- What has become of a submission that was given up when the record was this far. -/
structure Forsaken (earlier : List (Entry ρ)) (n : Nat) (es : List (Entry ρ)) (u : Turn ρ) :
    Prop where
  record : u.after.record = earlier ++ es
  cancelled : u.after.isCancelled n = true
  noRow : ∀ row, .offered n row ∉ es
  notSent : ∀ statement, .sent n statement ∉ es

/-- The submission has no result yet, or it was cancelled unless the server reported an error. -/
def Settled (earlier : List (Entry ρ)) (n : Nat) (es : List (Entry ρ)) (c : Connection ρ) : Prop :=
  (n ∈ Submission.numbers c.work.outstanding ∧ .finished n ∉ es) ∨
    ∃ result, ⟨n, result⟩ ∈ c.outcomes ∧
      (result = .error .cancelled ↔ Record.Unreported earlier es n)

namespace Forsaken

variable {earlier es : List (Entry ρ)} {n : Nat} {K : Consumer ρ → Prop} {t u : Turn ρ}

theorem step (h : Forsaken earlier n es t) (stride : Stride K t u) (handled : Handled K t u) :
    ∃ more, u.after.record = t.after.record ++ more ∧ (∀ e ∈ more, t.Touches e) ∧
      Forsaken earlier n (es ++ more) u := by
  obtain ⟨more, record, touches⟩ := handled.touches
  have given (e : Entry ρ) (he : e ∈ more) (subject : e.subject? = some n)
      (unfinished : e.finishedNumber? = none) : False := by
    have kept := (touches e he n subject).2.2.2 unfinished
    exact absurd (kept.symm.trans h.cancelled) (by decide)
  refine ⟨more, record, touches, ?_, ?_, fun row hr => ?_, fun statement hs => ?_⟩
  · rw [record, h.record, List.append_assoc]
  · exact List.contains_iff_mem.mpr (stride.cancelled (List.contains_iff_mem.mp h.cancelled))
  · rcases List.mem_append.mp hr with hr | hr
    · exact h.noRow row hr
    · exact given _ hr rfl rfl
  · rcases List.mem_append.mp hs with hs | hs
    · exact h.notSent statement hs
    · exact given _ hs rfl rfl

end Forsaken

namespace Settled

variable {earlier es more : List (Entry ρ)} {n : Nat} {K : Consumer ρ → Prop} {t u : Turn ρ}

theorem wait (fresh : .finished n ∉ es) (quiet : .finished n ∉ more)
    (mem : n ∈ Submission.numbers u.after.work.outstanding) :
    Settled earlier n (es ++ more) u.after :=
  .inl ⟨mem, fun finished => (List.mem_append.mp finished).elim fresh quiet⟩

theorem mem_of_perm {ss rs : List (Submission ρ)} (h : rs ~ ss) (mem : n ∈ Submission.numbers ss) :
    n ∈ Submission.numbers rs := (h.map _).symm.subset mem

theorem resolved {d : Connection ρ} {ss : List (Submission ρ)} {result : Except Failure ρ}
    (covered : t.after.Covered) (count : SameCount t.after d)
    (outstanding : t.after.work.outstanding ~ ss ++ d.work.outstanding)
    (resolutions : Record.resolutions d.record = Record.resolutions t.after.record)
    (mine : n ∈ Submission.numbers ss) : ⟨n, result⟩ ∈ (d.resolveAll ss result).outcomes := by
  refine (covered.resolveAll_outcomes count outstanding resolutions result).symm.subset ?_
  obtain ⟨s, hs, rfl⟩ := List.mem_map.mp mine
  exact List.mem_append_left _ (List.mem_map.mpr ⟨s, hs, rfl⟩)

theorem not_finished_resolved (rs : List (Resolution ρ)) : .finished n ∉ rs.map Entry.resolved := by
  simp

theorem step_waiting (handled : Handled K t u) (covered : t.after.Covered) (attentive : Attentive t)
    (going : u.GoesOn) (opened : u.after.inbox.closedBy = none) (h : Forsaken earlier n es t)
    (record : u.after.record = t.after.record ++ more)
    (waits : n ∈ Submission.numbers t.after.work.outstanding) (fresh : .finished n ∉ es) :
    Settled earlier n (es ++ more) u.after := by
  have same {fs : List (Entry ρ)} (other : u.after.record = t.after.record ++ fs) : more = fs :=
    List.append_cancel_left (record.symm.trans other)
  cases handled with
  | @kept fs count outstanding inFlight other idle offers goesOn =>
    obtain rfl := same other
    refine wait fresh (fun finished => ?_) (mem_of_perm outstanding waits)
    cases (idle _ finished).1
  | handedIn query params consumer allowed free after goesOn =>
    obtain rfl : more = [] := same (by rw [after, List.append_nil])
    refine wait fresh List.not_mem_nil ?_
    rw [after]
    simp only [Work.outstanding, work, Submission.numbers, List.map_append, List.mem_append]
      at waits ⊢
    tauto
  | declined consumer allowed cause closed after =>
    rw [after] at opened
    exact absurd opened closed
  | shut ended => exact absurd opened (ended going)
  | @refused d ss failure goesOn count inFlight outstanding other cause after =>
    obtain ⟨_, rs, all⟩ := resolveAll_eq d ss (.error failure)
    obtain rfl : more = rs.map .resolved := same (by rw [after, all, ← other])
    have parts : Submission.numbers t.after.work.outstanding ~
        Submission.numbers ss ++ Submission.numbers d.work.outstanding := by
      rw [← Submission.numbers_append]
      exact outstanding.map _
    rcases List.mem_append.mp (parts.subset waits) with mine | others
    · obtain ⟨s, hs, rfl⟩ := List.mem_map.mp mine
      obtain rfl := cause s hs h.cancelled
      refine .inr ⟨_, ?_, iff_of_true rfl (.of_not_mem ?_)⟩
      · rw [after]
        exact resolved covered count outstanding (congrArg _ other) mine
      · simpa using fresh
    · refine wait fresh (not_finished_resolved rs) ?_
      rw [after, all]
      exact others
  | @sent s name messages goesOn count outstanding inFlight other free mem kept =>
    obtain rfl := same other
    exact wait fresh (by simp) (outstanding ▸ waits)
  | @offered f rest s others row goesOn free ready head attends taken count inFlight before outstanding
      other =>
    obtain rfl := same other
    refine wait fresh (by simp) ?_
    rw [before] at waits
    rw [outstanding]
    simpa [Submission.numbers, (Submission.offer_same taken).1] using waits
  | @answered d f rest fs result status after goesOn free ready head count inFlight outstanding other
      ending =>
    obtain ⟨_, rs, all⟩ := d.resolve_eq f.submission.number result
    have parts : t.after.work.outstanding ~ [f.submission] ++ d.work.outstanding := .of_eq outstanding
    obtain rfl : more = (.received (.readyForQuery status) :: .finished f.submission.number :: fs) ++
        rs.map .resolved := same (by rw [after, all, other, List.append_assoc])
    rcases Nat.decEq f.submission.number n with other_ | rfl
    · have mem : n ∈ Submission.numbers d.work.outstanding := by
        rw [outstanding] at waits
        exact (List.mem_cons.mp waits).resolve_left fun mine => other_ mine.symm
      refine wait fresh ?_ ?_
      · cases ending <;> simp [Ne.symm other_]
      · rw [after, all]
        exact mem
    · -- Its own batch has ended: a cancelled submission is not told, and the error it got decides.
      cases ending with
      | told attends given => exact absurd (attends.1.symm.trans h.cancelled) (by decide)
      | failed failure cause =>
        have resolutions : Record.resolutions d.record = Record.resolutions t.after.record := by
          rw [other]
          simp [Record.resolutions, Entry.resolution?]
        have mine : f.submission.number ∈ Submission.numbers [f.submission] := List.mem_singleton.mpr rfl
        refine .inr ⟨_, by rw [after]; exact resolved covered count parts resolutions mine, ?_⟩
        have listening := attentive goesOn free
        rw [head] at listening
        have error := listening.1.error
        rw [← List.append_assoc, Record.Unreported.append_iff (not_finished_resolved rs),
          Record.Unreported.snoc_iff fresh, ← h.record, Except.error.injEq, cause h.cancelled, error,
          List.head?_eq_none_iff, List.filterMap_eq_nil_iff]
  | @again f rest s others status goesOn free ready head kept same_ count inFlight before outstanding
      other =>
    obtain rfl := same other
    have other_ : f.submission.number ≠ n := by
      rintro rfl
      exact absurd (kept.symm.trans h.cancelled) (by decide)
    refine wait fresh (by simp [Ne.symm other_]) ?_
    rw [before] at waits
    have mem : n ∈ Submission.numbers others :=
      (List.mem_cons.mp waits).resolve_left fun mine => other_ mine.symm
    exact mem_of_perm outstanding (List.mem_cons_of_mem _ mem)

theorem step (handled : Handled K t u) (counted : Counted t) (attentive : Attentive t)
    (going : u.GoesOn) (opened : u.after.inbox.closedBy = none) (h : Forsaken earlier n es t)
    (record : u.after.record = t.after.record ++ more) (touches : ∀ e ∈ more, t.Touches e)
    (settled : Settled earlier n es t.after) : Settled earlier n (es ++ more) u.after := by
  have covered : t.after.Covered :=
    counted (handled.before going opened).1 (handled.before going opened).2
  rcases settled with ⟨waits, fresh⟩ | ⟨result, mem, iff⟩
  · exact step_waiting handled covered attentive going opened h record waits fresh
  · refine .inr ⟨result, handled.outcomes_subset counted going opened mem, iff.trans ?_⟩
    refine (Record.Unreported.append_iff fun finished => ?_).symm
    exact covered.not_outstanding mem (touches _ finished n rfl).2.2.1

end Settled

theorem cancel_isCancelled {c : Connection ρ} {n : Nat} (handed : n < c.inbox.nextNumber) :
    (c.cancel n).isCancelled n = true := by
  unfold Connection.cancel
  split
  · exact List.contains_iff_mem.mpr List.mem_cons_self
  · next already =>
    simpa [handed] using already

theorem cancel_frame (c : Connection ρ) (n : Nat) :
    (c.cancel n).record = c.record ∧ (c.cancel n).work = c.work := by
  unfold Connection.cancel
  split <;> exact ⟨rfl, rfl⟩

theorem sendPending_frame (c : Connection ρ) :
    c.sendPending.pending = [] ∧ c.sendPending.inbox = c.inbox := by
  have all (ss : List (Submission ρ)) (c : Connection ρ) :
      (ss.foldl send c).pending = c.pending ∧ (ss.foldl send c).inbox = c.inbox := by
    induction ss generalizing c with
    | nil => exact ⟨rfl, rfl⟩
    | cons s rest ih =>
      obtain ⟨_, pending, inbox⟩ := send_frame c s
      exact ⟨(ih (c.send s)).1.trans pending, (ih (c.send s)).2.trans inbox⟩
  exact all c.pending { c with pending := [] }

theorem pump_attends {c : Connection ρ} (opened : c.pump.inbox.closedBy = none) :
    c.pump.inbox.queue = [] ∧ ∀ s ∈ c.pump.pending, c.isCancelled s.number = false := by
  have kept := dropCancelled_kept c.collect
  have inbox := (dropCancelled_frame c.collect).2.1
  have kept : ∀ s ∈ c.collect.dropCancelled.pending, c.isCancelled s.number = false := by
    intro s hs
    have same := kept s hs
    rw [isCancelled, inbox] at same
    exact same
  have queue : c.collect.dropCancelled.inbox.queue = [] := by
    rw [inbox]
    rfl
  unfold pump at opened ⊢
  dsimp only at opened ⊢
  split at opened
  · next closing =>
    have ends : c.collect.EndsForCause := fun ending => absurd ending closing.2
    exact absurd opened ends.beginClose
  · next running =>
    rw [if_neg running]
    split
    · obtain ⟨pending, same⟩ := sendPending_frame c.collect.dropCancelled
      rw [pending, same]
      exact ⟨queue, fun s hs => absurd hs List.not_mem_nil⟩
    · exact ⟨queue, kept⟩

theorem dispatch_pumps {c : Connection ρ} {event : LoopEvent} {socket : Socket}
    (going : (c.dispatch event socket).GoesOn) :
    ∃ d, Moves (fun _ => True) (done c) (done d) ∧ c.dispatch event socket = d.pump.write socket := by
  unfold Connection.dispatch at going ⊢
  split at going
  · next closed => exact absurd closed going.2
  · next alive =>
    rw [if_neg alive]
    have moves := onEvent_moves (K := fun _ => True) alive event socket
    generalize c.begin.onEvent event socket = t at going moves ⊢
    obtain ⟨d, i⟩ := t
    cases i with
    | some i => exact absurd going.1 (Option.some_ne_none i)
    | none =>
      refine ⟨d, moves, ?_⟩
      have going : (d.settle socket).GoesOn := going
      have same : Turn.andThen ⟨d, none⟩ (fun c => c.settle socket) = d.settle socket := rfl
      rw [same]
      unfold settle at going ⊢
      split at going
      · next closed => exact absurd closed going.2
      · next alive => rw [if_neg alive]

/-- A submission that is given up waits for nothing but the answers to its batch once the loop has
come to the connection. -/
theorem dispatch_attends {t : Turn ρ} {event : LoopEvent} {socket : Socket} {n : Nat}
    (going : (t.act (.dispatch event socket)).GoesOn)
    (opened : (t.act (.dispatch event socket)).after.inbox.closedBy = none)
    (cancelled : n ∈ t.after.inbox.cancelled)
    (outstanding : n ∈
      Submission.numbers (t.act (.dispatch event socket)).after.work.outstanding) :
    n ∈ Submission.numbers
      ((t.act (.dispatch event socket)).after.inFlight.map (·.submission)) := by
  obtain ⟨c, i⟩ := t
  cases i with
  | some i => exact absurd going.1 (Option.some_ne_none i)
  | none =>
    have same : Turn.act ⟨c, none⟩ (.dispatch event socket) = c.dispatch event socket := rfl
    rw [same] at going opened outstanding ⊢
    obtain ⟨d, moves, pumped⟩ := dispatch_pumps going
    rw [pumped] at opened outstanding ⊢
    have work : (d.pump.write socket).after.work = d.pump.work := (Aside.write d.pump socket).work
    rw [work] at outstanding
    rw [show (d.pump.write socket).after.inFlight = d.pump.inFlight from congrArg Work.inFlight work]
    obtain ⟨queue, kept⟩ := pump_attends ((congrArg Work.closedBy work).symm.trans opened)
    have mem : n ∈ d.inbox.cancelled :=
      moves_invariant (P := fun t => n ∈ t.after.inbox.cancelled)
        (fun move mem => move.stride.cancelled mem) moves cancelled
    simp only [Work.outstanding, Connection.work, queue, List.append_nil,
      Submission.numbers_append] at outstanding
    rcases List.mem_append.mp outstanding with inFlight | pending
    · exact inFlight
    · obtain ⟨s, hs, rfl⟩ := List.mem_map.mp pending
      exact absurd ((kept s hs).symm.trans (List.contains_iff_mem.mpr mem)) (by decide)

/-- A submission that is given up is not sent any more and gets no further row, whatever comes. If it
had no result by then, and while the connection goes on, it has exactly one result once it is not
outstanding any more, which is delivered when all before it have theirs; and that result is that it
was cancelled exactly if the server had reported no error in the batch that ended. Whenever the loop
has come to the connection, only a batch that was sent and is not answered is still waited for. -/
theorem run_cancelled_iff (config : Config) (nonces : Nat → List Char)
    (before after : List (Action ρ)) {n : Nat}
    (handed : n < ((done (Connection.start (ρ := ρ) config nonces)).run before).after.inbox.nextNumber) :
    let t : Turn ρ := (done (.start config nonces)).run before
    let u := t.run (.cancel n :: after)
    ∃ es, u.after.record = t.after.record ++ es ∧ (∀ row, .offered n row ∉ es) ∧
      (∀ statement, .sent n statement ∉ es) ∧
      (n ∈ Submission.numbers t.after.work.outstanding → u.GoesOn →
        u.after.inbox.closedBy = none → n ∉ Submission.numbers u.after.work.outstanding →
        ∃ result, (∀ r, ⟨n, r⟩ ∈ u.after.outcomes ↔ r = result) ∧
          ((∀ k ∈ Submission.numbers u.after.work.outstanding, n < k) →
            .resolved ⟨n, result⟩ ∈ u.after.record) ∧
          (result = .error .cancelled ↔ Record.Unreported t.after.record es n)) ∧
      ∀ event socket, (u.act (.dispatch event socket)).GoesOn →
        (u.act (.dispatch event socket)).after.inbox.closedBy = none →
        n ∈ Submission.numbers (u.act (.dispatch event socket)).after.work.outstanding →
        n ∈ Submission.numbers
          ((u.act (.dispatch event socket)).after.inFlight.map (·.submission)) := by
  intro t u
  have regular : Regular t := run_regular config nonces before
  have given : Regular (t.act (.cancel n)) :=
    moves_invariant (fun move => Regular.step move.stride) (act_moves t (allows_any _)) regular
  obtain ⟨record, work⟩ := cancel_frame t.after n
  have forsaken : Forsaken t.after.record n [] (t.act (.cancel n)) := by
    refine ⟨?_, cancel_isCancelled handed, fun _ h => (nomatch h), fun _ h => (nomatch h)⟩
    rw [List.append_nil]
    exact record
  have all : Regular u ∧ ∃ es, Forsaken t.after.record n es u ∧
      (n ∈ Submission.numbers t.after.work.outstanding → u.GoesOn →
        u.after.inbox.closedBy = none → Settled t.after.record n es u.after) := by
    refine run_induction (t := t.act (.cancel n))
      (P := fun u => Regular u ∧ ∃ es, Forsaken t.after.record n es u ∧
        (n ∈ Submission.numbers t.after.work.outstanding → u.GoesOn →
          u.after.inbox.closedBy = none → Settled t.after.record n es u.after))
      ⟨given, [], forsaken, fun waits _ _ => .inl ⟨?_, List.not_mem_nil⟩⟩
      (fun {t u} stride ⟨regular, es, forsaken, settled⟩ => ?_) fun a _ => allows_any a
    · exact work ▸ waits
    · have handled := regular.orderly.handled stride
      obtain ⟨more, record, touches, later⟩ := forsaken.step stride handled
      refine ⟨regular.step stride, es ++ more, later, fun waits going opened => ?_⟩
      obtain ⟨going', opened'⟩ := handled.before going opened
      exact Settled.step handled regular.counted regular.attentive going opened forsaken record
        touches (settled waits going' opened')
  obtain ⟨regular, es, forsaken, settled⟩ := all
  refine ⟨es, forsaken.record, forsaken.noRow, forsaken.notSent, fun waits going opened gone => ?_,
    fun event socket going opened => ?_⟩
  · have covered : u.after.Covered := regular.counted going opened
    rcases settled waits going opened with ⟨still, _⟩ | ⟨result, mem, iff⟩
    · exact absurd still gone
    · refine ⟨result, fun r => ⟨fun other => ?_, fun same => same ▸ mem⟩, covered.released mem, iff⟩
      injection covered.unique other mem rfl
  · exact dispatch_attends going opened (List.contains_iff_mem.mp forsaken.cancelled)

theorem run_cancelled_iff_waiting :
    let before : List (Action Nat) := [.submit "select 1" [] .count]
    let t := (done (.start Config.default fun _ => [])).run before
    let u := t.run [.cancel 0, .attention]
    0 < t.after.inbox.nextNumber ∧ Record.resolved u.after.record = [0] ∧
      ∃ es, u.after.record = t.after.record ++ es ∧ ∀ statement, .sent 0 statement ∉ es := by
  intro before t u
  obtain ⟨es, record, _, notSent, _⟩ := run_cancelled_iff Config.default (fun _ => []) before
    [.attention] (by decide : 0 < 1)
  exact ⟨by decide, by decide +kernel, es, record, notSent⟩

/-- The report of the server comes before the wish of the caller. -/
theorem run_cancelled_reported :
    let answers : List BackendMessage :=
      [.parseComplete, .errorResponse [(Bytes.ascii 'C', "22012")], .readyForQuery .idle]
    let before : List (Action Nat) :=
      Action.admission ++ [.submit "select 1" [] .count, .attention]
    let t := (done (.start { Config.default with encryption := .disable } fun _ => [])).run before
    let u := t.run [.cancel 0, .answers answers]
    0 ∈ Submission.numbers t.after.work.outstanding ∧ u.interruption = none ∧
      u.after.stage = .ready ∧ u.after.inbox.closedBy = none ∧
      (Record.resolutions u.after.record).map (·.result) =
        [.error (.server ⟨"", "22012", "", none, none⟩)] := by
  refine ⟨?_, ?_, ?_, ?_, ?_⟩ <;> decide +kernel

end Turn

end PgPipeline
