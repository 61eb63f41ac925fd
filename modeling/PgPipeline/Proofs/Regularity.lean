import PgPipeline.Proofs.Handling

namespace PgPipeline

open scoped List

variable {ρ : Type}

namespace Connection

def Covered (c : Connection ρ) : Prop :=
  Covers c.sequencer (Submission.numbers c.work.outstanding) c.inbox.nextNumber
    (Record.resolved c.record)

namespace Covered

variable {c d : Connection ρ}

theorem of_perm (h : c.Covered) (count : SameCount c d)
    (outstanding : Submission.numbers d.work.outstanding ~ Submission.numbers c.work.outstanding)
    (resolved : Record.resolved d.record = Record.resolved c.record) : d.Covered := by
  unfold Covered
  rw [count.sequencer, count.nextNumber, resolved]
  exact h.perm outstanding

theorem before_resolveAll (h : c.Covered) (count : SameCount c d) {ss : List (Submission ρ)}
    (outstanding : c.work.outstanding ~ ss ++ d.work.outstanding)
    (resolved : Record.resolved d.record = Record.resolved c.record) :
    Covers d.sequencer (Submission.numbers ss ++ Submission.numbers d.work.outstanding)
      d.inbox.nextNumber (Record.resolved d.record) := by
  rw [count.sequencer, count.nextNumber, resolved, ← Submission.numbers_append]
  exact h.perm (outstanding.symm.map _)

theorem resolveAll (h : c.Covered) (count : SameCount c d) {ss : List (Submission ρ)}
    (outstanding : c.work.outstanding ~ ss ++ d.work.outstanding)
    (resolved : Record.resolved d.record = Record.resolved c.record) (result : Except Failure ρ) :
    (d.resolveAll ss result).Covered := by
  have after := d.resolveAll_covers ss (h.before_resolveAll count outstanding resolved) result
  obtain ⟨_, _, all⟩ := resolveAll_eq d ss result
  rw [all] at after ⊢
  exact after

theorem resolveAll_outcomes (h : c.Covered) (count : SameCount c d) {ss : List (Submission ρ)}
    (outstanding : c.work.outstanding ~ ss ++ d.work.outstanding)
    (resolutions : Record.resolutions d.record = Record.resolutions c.record)
    (result : Except Failure ρ) :
    (d.resolveAll ss result).outcomes ~ ss.map (fun s => ⟨s.number, result⟩) ++ c.outcomes := by
  have resolved : Record.resolved d.record = Record.resolved c.record := by
    rw [Record.resolved_eq, Record.resolved_eq, resolutions]
  have same : d.outcomes = c.outcomes := by
    rw [outcomes, outcomes, resolutions, count.sequencer]
  rw [← same]
  exact Connection.resolveAll_outcomes d ss (h.before_resolveAll count outstanding resolved) result

theorem numbers (h : c.Covered) :
    c.outcomes.map (·.number) ++ Submission.numbers c.work.outstanding ~
      List.range c.inbox.nextNumber := by
  have held : (c.sequencer.held.map (·.2)).map (·.number) = Sequencer.keys c.sequencer.held := by
    rw [List.map_map]
    exact List.map_congr_left fun p hp => h.labelled p hp
  have released : List.range c.inbox.nextNumber = List.range c.sequencer.next ++
      List.range' c.sequencer.next (c.inbox.nextNumber - c.sequencer.next) := by
    have all := List.range'_append_1 (s := 0) (m := c.sequencer.next)
      (n := c.inbox.nextNumber - c.sequencer.next)
    rw [Nat.zero_add, Nat.add_sub_cancel' h.le] at all
    rw [List.range_eq_range', List.range_eq_range']
    exact all.symm
  rw [outcomes, List.map_append, held, ← Record.resolved_eq, h.resolved, released, List.append_assoc]
  exact (List.perm_append_comm.trans h.parts).append_left _

theorem lt (h : c.Covered) {n : Nat} (mem : n ∈ Submission.numbers c.work.outstanding) :
    n < c.inbox.nextNumber :=
  List.mem_range.mp (h.numbers.subset (List.mem_append_right _ mem))

theorem numbers_nodup (h : c.Covered) : (Submission.numbers c.work.outstanding).Nodup := by
  have nodup := h.numbers.nodup_iff.mpr List.nodup_range
  exact (List.nodup_append.mp nodup).2.1

theorem not_outstanding (h : c.Covered) {r : Resolution ρ} (mem : r ∈ c.outcomes) :
    r.number ∉ Submission.numbers c.work.outstanding := by
  have nodup := h.numbers.nodup_iff.mpr List.nodup_range
  intro outstanding
  exact (List.nodup_append.mp nodup).2.2 _ (List.mem_map_of_mem mem) _ outstanding rfl

theorem unique (h : c.Covered) {r s : Resolution ρ} (hr : r ∈ c.outcomes) (hs : s ∈ c.outcomes)
    (same : r.number = s.number) : r = s := by
  have nodup := h.numbers.nodup_iff.mpr List.nodup_range
  exact List.inj_on_of_nodup_map (List.nodup_append.mp nodup).1 hr hs same

theorem released (h : c.Covered) {r : Resolution ρ} (mem : r ∈ c.outcomes)
    (first : ∀ n ∈ Submission.numbers c.work.outstanding, r.number < n) : .resolved r ∈ c.record := by
  rcases List.mem_append.mp mem with delivered | held
  · exact Record.mem_resolutions.mp delivered
  · obtain ⟨p, hp, rfl⟩ := List.mem_map.mp held
    have key : p.2.number ∈ Sequencer.keys c.sequencer.held :=
      List.mem_map.mpr ⟨p, hp, (h.labelled p hp).symm⟩
    have beyond := h.tidy.beyond _ key
    have lt := (List.mem_range'_1.mp (h.parts.subset (List.mem_append_right _ key))).2
    -- The number that is due is not held, so it belongs to something without a result.
    have due : c.sequencer.next ∈ Submission.numbers c.work.outstanding := by
      have mem : c.sequencer.next ∈ List.range' c.sequencer.next
          (c.inbox.nextNumber - c.sequencer.next) := List.mem_range'_1.mpr (by omega)
      rcases List.mem_append.mp (h.parts.symm.subset mem) with outstanding | held
      · exact outstanding
      · exact absurd (h.tidy.beyond _ held) (Nat.lt_irrefl _)
    exact absurd (first _ due) (Nat.lt_asymm beyond)

end Covered

end Connection

namespace Turn

open Connection

def Counted (t : Turn ρ) : Prop := t.GoesOn → t.after.inbox.closedBy = none → t.after.Covered

namespace Handled

variable {K : Consumer ρ → Prop} {t u : Turn ρ}

theorem before (handled : Handled K t u) (going : u.GoesOn)
    (opened : u.after.inbox.closedBy = none) : t.GoesOn ∧ t.after.inbox.closedBy = none := by
  cases handled with
  | kept count outstanding inFlight record idle offers goesOn =>
    exact ⟨goesOn going, count.closedBy ▸ opened⟩
  | handedIn query params consumer allowed free after goesOn => exact ⟨goesOn going, free⟩
  | declined consumer allowed cause closed after =>
    rw [after] at opened
    exact absurd opened closed
  | shut ended => exact absurd opened (ended going)
  | @refused d ss failure goesOn count inFlight outstanding record cause after =>
    refine ⟨goesOn going, ?_⟩
    obtain ⟨_, _, all⟩ := resolveAll_eq d ss (.error failure)
    rw [after, all] at opened
    exact count.closedBy ▸ opened
  | sent name messages goesOn count outstanding inFlight record free => exact ⟨goesOn, free⟩
  | offered row goesOn free => exact ⟨goesOn, free⟩
  | answered status after goesOn free => exact ⟨goesOn, free⟩
  | again status goesOn free => exact ⟨goesOn, free⟩

theorem nextNumber_cases (handled : Handled K t u) :
    u.after.inbox.nextNumber = t.after.inbox.nextNumber ∨
      (∃ consumer, K consumer) ∧ u.after.inbox.nextNumber = t.after.inbox.nextNumber + 1 := by
  cases handled with
  | kept count => exact .inl count.nextNumber
  | handedIn query params consumer allowed opened after =>
    rw [after]
    exact .inr ⟨⟨consumer, allowed⟩, rfl⟩
  | declined consumer allowed cause closed after =>
    rw [after]
    exact .inr ⟨⟨consumer, allowed⟩, rfl⟩
  | shut ended nextNumber => exact .inl nextNumber
  | @refused d ss failure goesOn count inFlight outstanding record cause after =>
    obtain ⟨_, _, all⟩ := resolveAll_eq d ss (.error failure)
    rw [after, all]
    exact .inl count.nextNumber
  | sent name messages goesOn count => exact .inl count.nextNumber
  | offered row goesOn free ready head attends taken count => exact .inl count.nextNumber
  | answered status after goesOn free ready head count =>
    rw [after]
    exact .inl count.nextNumber
  | again status goesOn free ready head kept same count => exact .inl count.nextNumber

theorem outstanding_cases (handled : Handled K t u) (going : u.GoesOn)
    (opened : u.after.inbox.closedBy = none) {s : Submission ρ} (hs : s ∈ u.after.work.outstanding) :
    (∃ r ∈ t.after.work.outstanding, r.number = s.number ∧ r.consumer = s.consumer) ∨
      ∃ query params consumer, K consumer ∧
        s = .create t.after.inbox.nextNumber query params consumer := by
  have same {s : Submission ρ} (mem : s ∈ t.after.work.outstanding) :
      ∃ r ∈ t.after.work.outstanding, r.number = s.number ∧ r.consumer = s.consumer :=
    ⟨s, mem, rfl, rfl⟩
  cases handled with
  | kept count outstanding => exact .inl (same (outstanding.subset hs))
  | handedIn query params consumer allowed free after =>
    have all : s ∈ t.after.work.outstanding ∨
        s = .create t.after.inbox.nextNumber query params consumer := by
      rw [after] at hs
      simpa [Work.outstanding, work, or_assoc] using hs
    exact all.imp same fun new => ⟨query, params, consumer, allowed, new⟩
  | declined consumer allowed cause closed after =>
    rw [after] at opened
    exact absurd opened closed
  | shut ended => exact absurd opened (ended going)
  | @refused d ss failure goesOn count inFlight outstanding record cause after =>
    obtain ⟨_, _, all⟩ := resolveAll_eq d ss (.error failure)
    rw [after, all] at hs
    exact .inl (same (outstanding.symm.subset (List.mem_append_right _ hs)))
  | sent name messages goesOn count outstanding => exact .inl (same (outstanding ▸ hs))
  | @offered f rest r others row goesOn free ready head attends taken count inFlight before
      outstanding =>
    rw [outstanding] at hs
    rcases List.mem_cons.mp hs with rfl | hs
    · obtain ⟨number, consumer⟩ := Submission.offer_same taken
      exact .inl ⟨f.submission, by simp [before], number.symm, consumer.symm⟩
    · exact .inl (same (before ▸ List.mem_cons_of_mem _ hs))
  | @answered d f rest es result status after goesOn free ready head count inFlight outstanding =>
    rw [after] at hs
    exact .inl (same (outstanding ▸ List.mem_cons_of_mem _ hs))
  | @again f rest r others status goesOn free ready head kept same_ count inFlight before
      outstanding =>
    rcases List.mem_cons.mp (outstanding.subset hs) with rfl | hs
    · exact .inl ⟨f.submission, by simp [before], by rw [same_], by rw [same_]⟩
    · exact .inl (same (before ▸ List.mem_cons_of_mem _ hs))

theorem counted (handled : Handled K t u) (h : Counted t) : Counted u := by
  intro going opened
  have covered : t.after.Covered := h (handled.before going opened).1 (handled.before going opened).2
  cases handled with
  | @kept es count outstanding inFlight record idle offers goesOn =>
    have none_ : Record.resolved es = [] := by
      rw [Record.resolved_eq, Record.resolutions,
        List.filterMap_eq_nil_iff.mpr fun e he => (idle e he).2]
      rfl
    refine covered.of_perm count (outstanding.map _) ?_
    rw [record, Record.resolved_append, none_, List.append_nil]
  | handedIn query params consumer allowed free after goesOn =>
    have covers := Covers.grow covered
    unfold Covered
    rw [after]
    simp only [Work.outstanding, work, Submission.numbers, ← List.append_assoc, List.map_append]
      at covers ⊢
    exact covers
  | declined consumer allowed cause closed after =>
    rw [after] at opened
    exact absurd opened closed
  | shut ended => exact absurd opened (ended going)
  | refused ss failure goesOn count inFlight outstanding record cause after =>
    rw [after]
    exact covered.resolveAll count outstanding (congrArg _ record) _
  | sent name messages goesOn count outstanding inFlight record =>
    refine covered.of_perm count (.of_eq (by rw [outstanding])) ?_
    rw [record]
    simp [Record.resolved, Entry.number?]
  | @offered f rest s others row goesOn free ready head attends taken count inFlight before outstanding
      record =>
    refine covered.of_perm count (.of_eq ?_) ?_
    · rw [before, outstanding]
      exact congrArg (· :: Submission.numbers others) (Submission.offer_same taken).1
    · rw [record]
      simp [Record.resolved, Entry.number?]
  | @answered d f rest es result status after goesOn free ready head count inFlight outstanding record
      ending =>
    have parts : t.after.work.outstanding = [f.submission] ++ d.work.outstanding := outstanding
    rw [after]
    refine covered.resolveAll count (.of_eq parts) ?_ _
    rw [record]
    cases ending <;> simp [Record.resolved, Entry.number?]
  | @again f rest s others status goesOn free ready head kept same count inFlight before outstanding
      record =>
    refine covered.of_perm count ?_ ?_
    · rw [before]
      refine (outstanding.map _).trans (.of_eq ?_)
      rw [same]
      rfl
    · rw [record]
      simp [Record.resolved, Entry.number?]

theorem of_head {c : Connection ρ} {f : Flight ρ} {rest : List (Submission ρ)}
    (head : c.work.outstanding = f.submission :: rest) :
    f.submission.number ∈ Submission.numbers c.work.outstanding := by
  rw [head]
  exact List.mem_cons_self

theorem touches (handled : Handled K t u) :
    ∃ es, u.after.record = t.after.record ++ es ∧ ∀ e ∈ es, t.Touches e := by
  cases handled with
  | kept count outstanding inFlight record idle =>
    exact ⟨_, record, fun e he => touches_silent (idle e he).1⟩
  | handedIn query params consumer allowed free after =>
    exact ⟨[], by rw [after, List.append_nil], by simp⟩
  | declined consumer allowed cause closed after =>
    refine ⟨_, by rw [after]; rfl, fun e he => touches_silent ?_⟩
    rw [List.mem_singleton.mp he]
    rfl
  | shut ended nextNumber record touches => exact ⟨_, record, touches⟩
  | @refused d ss failure goesOn count inFlight outstanding record cause after =>
    obtain ⟨_, rs, all⟩ := resolveAll_eq d ss (.error failure)
    refine ⟨rs.map .resolved, by rw [after, all, ← record], fun e he => touches_silent ?_⟩
    obtain ⟨r, _, rfl⟩ := List.mem_map.mp he
    rfl
  | @sent s name messages goesOn count outstanding inFlight record opened mem kept =>
    refine ⟨_, record, fun e he number subject => ?_⟩
    simp only [List.mem_cons, List.not_mem_nil, or_false] at he
    rcases he with rfl | rfl
    · cases subject
    · obtain rfl : s.number = number := Option.some_inj.mp subject
      exact ⟨goesOn, opened, List.mem_map_of_mem mem, fun _ => kept⟩
  | @offered f rest s others row goesOn opened ready head attends taken count inFlight before
      outstanding record =>
    refine ⟨_, record, fun e he number subject => ?_⟩
    simp only [List.mem_cons, List.not_mem_nil, or_false] at he
    rcases he with rfl | rfl
    · cases subject
    · obtain rfl : f.submission.number = number := Option.some_inj.mp subject
      exact ⟨goesOn, opened, of_head before, fun _ => attends.1⟩
  | @answered d f rest es result status after goesOn opened ready head count inFlight outstanding
      record ending =>
    obtain ⟨_, rs, all⟩ := d.resolve_eq f.submission.number result
    refine ⟨.received (.readyForQuery status) :: .finished f.submission.number :: es ++
      rs.map .resolved, ?_, fun e he number subject => ?_⟩
    · rw [after, all, record, List.append_assoc]
    · have mine (same : e.subject? = some f.submission.number)
          (kept : e.finishedNumber? = none → t.after.isCancelled f.submission.number = false) :
          t.GoesOn ∧ t.after.inbox.closedBy = none ∧
            number ∈ Submission.numbers t.after.work.outstanding ∧
            (e.finishedNumber? = none → t.after.isCancelled number = false) := by
        obtain rfl : f.submission.number = number := Option.some_inj.mp (same.symm.trans subject)
        exact ⟨goesOn, opened, of_head outstanding, kept⟩
      rcases List.mem_append.mp he with he | he
      · rcases List.mem_cons.mp he with rfl | he
        · cases subject
        · rcases List.mem_cons.mp he with rfl | he
          · exact mine rfl fun none_ => by cases none_
          · cases ending with
            | told attends given =>
              rw [List.mem_singleton.mp he] at mine
              exact List.mem_singleton.mp he ▸ mine rfl fun _ => attends.1
            | failed failure cause => cases he
      · obtain ⟨r, _, rfl⟩ := List.mem_map.mp he
        cases subject
  | @again f rest s others status goesOn opened ready head kept same count inFlight before outstanding
      record =>
    refine ⟨_, record, fun e he number subject => ?_⟩
    simp only [List.mem_cons, List.not_mem_nil, or_false] at he
    rcases he with rfl | rfl
    · cases subject
    · obtain rfl : f.submission.number = number := Option.some_inj.mp subject
      exact ⟨goesOn, opened, of_head before, fun _ => kept⟩

theorem outcomes_subset (handled : Handled K t u) (h : Counted t) (going : u.GoesOn)
    (opened : u.after.inbox.closedBy = none) : t.after.outcomes ⊆ u.after.outcomes := by
  have covered : t.after.Covered := h (handled.before going opened).1 (handled.before going opened).2
  have same {es : List (Entry ρ)} (sequencer : u.after.sequencer = t.after.sequencer)
      (record : u.after.record = t.after.record ++ es) : t.after.outcomes ⊆ u.after.outcomes := by
    intro r hr
    rw [outcomes, sequencer, record, Record.resolutions_append, List.append_assoc]
    rcases List.mem_append.mp hr with hr | hr
    · exact List.mem_append_left _ hr
    · exact List.mem_append_right _ (List.mem_append_right _ hr)
  have given {d : Connection ρ} {ss : List (Submission ρ)} {result : Except Failure ρ}
      (count : SameCount t.after d) (outstanding : t.after.work.outstanding ~ ss ++ d.work.outstanding)
      (resolutions : Record.resolutions d.record = Record.resolutions t.after.record)
      (after : u.after = d.resolveAll ss result) : t.after.outcomes ⊆ u.after.outcomes := by
    rw [after]
    exact fun r hr => (covered.resolveAll_outcomes count outstanding resolutions result).symm.subset
      (List.mem_append_right _ hr)
  cases handled with
  | kept count outstanding inFlight record => exact same count.sequencer record
  | handedIn query params consumer allowed free after =>
    have record : u.after.record = t.after.record ++ [] := by rw [after, List.append_nil]
    exact same (by rw [after]) record
  | declined consumer allowed cause closed after =>
    rw [after] at opened
    exact absurd opened closed
  | shut ended => exact absurd opened (ended going)
  | refused ss failure goesOn count inFlight outstanding record cause after =>
    exact given count outstanding (congrArg _ record) after
  | sent name messages goesOn count outstanding inFlight record => exact same count.sequencer record
  | offered row goesOn free ready head attends taken count inFlight before outstanding record =>
    exact same count.sequencer record
  | @answered d f rest es result status after goesOn free ready head count inFlight outstanding record
      ending =>
    have parts : t.after.work.outstanding = [f.submission] ++ d.work.outstanding := outstanding
    refine given count (.of_eq parts) ?_ after
    rw [record]
    cases ending <;> simp [Record.resolutions, Entry.resolution?]
  | again status goesOn free ready head kept same_ count inFlight before outstanding record =>
    exact same count.sequencer record

end Handled

/-- What holds of every history: the connection is orderly, its flights are attentive, and what was
handed in is accounted for. -/
structure Regular (t : Turn ρ) : Prop where
  orderly : Orderly t
  attentive : Attentive t
  counted : Counted t

namespace Regular

variable {K : Consumer ρ → Prop} {t u : Turn ρ}

theorem start (config : Config) (nonces : Nat → List Char) :
    Regular (done (Connection.start (ρ := ρ) config nonces)) := by
  refine ⟨.start config nonces, fun _ _ => rfl, fun _ _ => ?_⟩
  exact ⟨Sequencer.tidy_start 0, fun _ held => absurd held List.not_mem_nil, Nat.le_refl _,
    List.Perm.refl _, rfl⟩

theorem step (stride : Stride K t u) (h : Regular t) : Regular u :=
  ⟨h.orderly.step stride, h.attentive.step (h.orderly.dealt stride) h.orderly.sound,
    (h.orderly.handled stride).counted h.counted⟩

end Regular

theorem run_regular (config : Config) (nonces : Nat → List Char) (actions : List (Action ρ)) :
    Regular ((done (.start config nonces)).run actions) :=
  run_induction (.start config nonces) Regular.step fun a _ => allows_any a

end Turn

end PgPipeline
