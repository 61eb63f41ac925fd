import PgPipeline.Proofs.Hearing
import PgPipeline.Statement.Server

namespace PgPipeline

open scoped List

namespace FrontendMessage

def prepares? : FrontendMessage → Option String
  | .parse name _ _ => some name
  | _ => none

def FindsIn (names : List String) : FrontendMessage → Prop
  | .bind _ name _ _ _ => name ∈ names
  | _ => True

def keepsNames : FrontendMessage → Bool
  | .parse .. => false
  | .close .. => false
  | .sync => false
  | _ => true

end FrontendMessage

namespace BackendMessage

structure Mild (m : BackendMessage) : Prop where
  isReady : m.isReady = false
  known : ∀ report, m.report? = some report → report.isUnknownStatement = false

end BackendMessage

/-- What is answered has neither an end nor a report in it, and a refusal has another cause than an
unknown statement. -/
structure Verdict.Honest (v : Verdict) : Prop where
  answers : ∀ m ∈ v.answers, m.isReady = false ∧ m.report? = none
  refusal : ∀ fields, v.refusal = some fields →
    (ServerReport.ofFields fields).isUnknownStatement = false

namespace StatementServer

variable {s : StatementServer} {v : Nat → Verdict} {m : FrontendMessage}

theorem takeAll_append (s : StatementServer) (v : Nat → Verdict) (xs ys : List FrontendMessage) :
    s.takeAll v (xs ++ ys) =
      ((s.takeAll v xs).1 ++ ((s.takeAll v xs).2.takeAll (fun i => v (xs.length + i)) ys).1,
        ((s.takeAll v xs).2.takeAll (fun i => v (xs.length + i)) ys).2) := by
  induction xs generalizing s v with
  | nil => simp [takeAll]
  | cons m rest ih =>
    have shift : (fun i => v (rest.length + i + 1)) = fun i => v (rest.length + 1 + i) := by
      funext i
      rw [Nat.add_right_comm]
    simp only [List.cons_append, takeAll, ih, List.append_assoc, List.length_cons, shift]

theorem respond_frame (s : StatementServer) (answers : List BackendMessage)
    (refusal : Option ReportFields) : (s.respond answers refusal).2.names = s.names := by
  cases refusal <;> rfl

theorem mild_respond (s : StatementServer) {answers : List BackendMessage}
    {refusal : Option ReportFields} (mild : ∀ m ∈ answers, m.isReady = false ∧ m.report? = none)
    (known : ∀ fields, refusal = some fields →
      (ServerReport.ofFields fields).isUnknownStatement = false) :
    ∀ m ∈ (s.respond answers refusal).1, m.Mild := by
  have kept (m : BackendMessage) (hm : m ∈ answers) : m.Mild := by
    refine ⟨(mild m hm).1, fun report h => ?_⟩
    rw [(mild m hm).2] at h
    cases h
  cases refusal with
  | none => exact kept
  | some fields =>
    intro m hm
    rcases List.mem_append.mp hm with hm | hm
    · exact kept m hm
    · rw [List.mem_singleton.mp hm]
      refine ⟨rfl, fun report h => ?_⟩
      rw [← Option.some_inj.mp h]
      exact known fields rfl

theorem perform_quiet {verdict : Verdict} (honest : verdict.Honest) (quiet : m.keepsNames = true)
    (finds : m.FindsIn s.names) :
    (s.perform verdict m).2.names = s.names ∧ ∀ a ∈ (s.perform verdict m).1, a.Mild := by
  cases m
  case describe target name =>
    exact ⟨respond_frame s _ _, mild_respond s honest.answers honest.refusal⟩
  case execute portal maxRows =>
    exact ⟨respond_frame s _ _, mild_respond s honest.answers honest.refusal⟩
  case bind portal name formats values results =>
    have present : name ∈ s.names := finds
    rw [perform, if_pos present]
    refine ⟨respond_frame s _ _, mild_respond s ?_ honest.refusal⟩
    intro a ha
    split at ha
    · rw [List.mem_singleton.mp ha]
      exact ⟨rfl, rfl⟩
    · cases ha
  all_goals first
    | exact ⟨rfl, fun a ha => absurd ha List.not_mem_nil⟩
    | cases quiet

theorem take_quiet {verdict : Verdict} (honest : verdict.Honest) (quiet : m.keepsNames = true)
    (finds : m.FindsIn s.names) :
    (s.take verdict m).2.names = s.names ∧ ∀ a ∈ (s.take verdict m).1, a.Mild := by
  unfold take
  split
  · exact ⟨rfl, fun a ha => absurd ha List.not_mem_nil⟩
  · exact perform_quiet (s := { s with skipping := false }) honest quiet finds

theorem takeAll_quiet {ms : List FrontendMessage} (honest : ∀ i, (v i).Honest)
    (quiet : ∀ m ∈ ms, m.keepsNames = true ∧ m.FindsIn s.names) :
    (s.takeAll v ms).2.names = s.names ∧ ∀ a ∈ (s.takeAll v ms).1, a.Mild := by
  induction ms generalizing s v with
  | nil => exact ⟨rfl, fun a ha => absurd ha List.not_mem_nil⟩
  | cons m rest ih =>
    obtain ⟨keeps, finds⟩ := quiet m List.mem_cons_self
    obtain ⟨names, mild⟩ := take_quiet (honest 0) keeps finds
    obtain ⟨names', mild'⟩ := ih (s := (s.take (v 0) m).2) (fun i => honest (i + 1)) fun k hk => by
      rw [names]
      exact quiet k (List.mem_cons_of_mem _ hk)
    refine ⟨names'.trans names, fun a ha => ?_⟩
    rcases List.mem_append.mp ha with ha | ha
    · exact mild a ha
    · exact mild' a ha

theorem takeAll_idle {ms : List FrontendMessage} (idle : ∀ m ∈ ms, m.isQuery = false) :
    s.takeAll v ms = ([], s) := by
  induction ms generalizing s v with
  | nil => rfl
  | cons m rest ih =>
    have none_ : s.take (v 0) m = ([], s) := by
      have quiet := idle m List.mem_cons_self
      obtain ⟨names, skipping⟩ := s
      cases skipping <;> cases m <;> first | rfl | cases quiet
    have later := ih (s := s) (v := fun i => v (i + 1)) fun k hk => idle k (List.mem_cons_of_mem _ hk)
    simp only [takeAll, none_, later, List.append_nil]

def Finds (s : StatementServer) (v : Nat → Verdict) (ms : List FrontendMessage) : Prop :=
  ∀ before m after, ms = before ++ m :: after → m.FindsIn (s.takeAll v before).2.names

theorem Finds.append {xs ys : List FrontendMessage} (hx : s.Finds v xs)
    (hy : (s.takeAll v xs).2.Finds (fun i => v (xs.length + i)) ys) : s.Finds v (xs ++ ys) := by
  intro before m after h
  rcases List.append_eq_append_iff.mp h with ⟨mid, rfl, hys⟩ | ⟨mid, hxs, hrest⟩
  · rw [takeAll_append]
    exact hy mid m after hys
  · cases mid with
    | nil =>
      have first := hy [] m after hrest.symm
      rw [hxs, List.append_nil] at first
      exact first
    | cons k mid =>
      obtain ⟨rfl, -⟩ := List.cons.inj hrest
      exact hx before _ mid hxs

theorem Finds.of_quiet {ms : List FrontendMessage} (honest : ∀ i, (v i).Honest)
    (quiet : ∀ m ∈ ms, m.keepsNames = true ∧ m.FindsIn s.names) : s.Finds v ms := by
  rintro before m after rfl
  rw [(takeAll_quiet honest fun k hk => quiet k (List.mem_append_left _ hk)).1]
  exact (quiet m (List.mem_append_right _ List.mem_cons_self)).2

/-- The answers to a batch: one end, and before it the word that the statement was prepared if the
batch prepares one. -/
def Complete (prepares : Bool) (answers : List BackendMessage) : Prop :=
  ∃ body status, answers = body ++ [.readyForQuery status] ∧ (∀ m ∈ body, m.Mild) ∧
    (prepares = true → body.any BackendMessage.confirms = true)

structure Serves (s : StatementServer) (v : Nat → Verdict) (ms : List FrontendMessage)
    (prepares : Bool) (names : List String) : Prop where
  complete : Complete prepares (s.takeAll v ms).1
  skipping : (s.takeAll v ms).2.skipping = false
  names : (s.takeAll v ms).2.names ~ names
  finds : s.Finds v ms

namespace Serves

variable {ms : List FrontendMessage} {names : List String}

theorem of_quiet (honest : ∀ i, (v i).Honest)
    (quiet : ∀ m ∈ ms, m.keepsNames = true ∧ m.FindsIn s.names) :
    s.Serves v (ms ++ [.sync]) false s.names := by
  obtain ⟨kept, mild⟩ := takeAll_quiet honest quiet
  have last (s : StatementServer) (v : Nat → Verdict) :
      s.takeAll v [.sync] = ([.readyForQuery (v 0).transaction], { s with skipping := false }) := by
    simp [takeAll, take, perform]
  constructor
  · rw [takeAll_append, last]
    exact ⟨_, _, rfl, mild, fun prepares => by cases prepares⟩
  · rw [takeAll_append, last]
  · rw [takeAll_append, last]
    exact .of_eq kept
  · refine (Finds.of_quiet honest quiet).append ?_
    intro before m after h
    obtain ⟨rfl, rfl⟩ : before = [] ∧ m = .sync := by
      cases before with
      | nil => exact ⟨rfl, (List.cons.inj h).1.symm⟩
      | cons k before => simp at h
    trivial

theorem cons {m : FrontendMessage} {answer : BackendMessage} {prepares : Bool} {t : StatementServer}
    (h : t.Serves (fun i => v (i + 1)) ms prepares names) (taken : s.take (v 0) m = ([answer], t))
    (mild : answer.Mild) (finds : m.FindsIn s.names) :
    s.Serves v (m :: ms) (prepares || answer.confirms) names := by
  have all : s.takeAll v (m :: ms) = (answer :: (t.takeAll (fun i => v (i + 1)) ms).1,
      (t.takeAll (fun i => v (i + 1)) ms).2) := by
    rw [takeAll, taken]
    rfl
  constructor
  · obtain ⟨body, status, answers, milds, confirms⟩ := h.complete
    rw [all, answers]
    refine ⟨answer :: body, status, rfl, ?_, fun prepared => ?_⟩
    · intro a ha
      rcases List.mem_cons.mp ha with rfl | ha
      · exact mild
      · exact milds a ha
    · rw [List.any_cons]
      rcases Bool.or_eq_true_iff.mp prepared with prepared | now
      · rw [confirms prepared, Bool.or_true]
      · rw [now, Bool.true_or]
  · rw [all]
    exact h.skipping
  · rw [all]
    exact h.names
  · intro before k after parts
    cases before with
    | nil =>
      obtain ⟨rfl, -⟩ := List.cons.inj parts
      exact finds
    | cons first before =>
      obtain ⟨rfl, later⟩ := List.cons.inj parts
      have found := h.finds before k after later
      rw [takeAll, taken]
      exact found

theorem rename {prepares : Bool} {others : List String} (h : s.Serves v ms prepares names)
    (perm : names ~ others) : s.Serves v ms prepares others :=
  ⟨h.complete, h.skipping, h.names.trans perm, h.finds⟩

theorem batch {b : Batch} {c d : StatementCache} (honest : ∀ i, (v i).Honest)
    (readies : c.Readies b d) (distinct : c.cachedNames.Nodup) (listening : s.skipping = false)
    (agree : s.names ~ c.cachedNames) : s.Serves v b.messages b.prepares d.cachedNames := by
  have executions (t : StatementServer) (present : b.statement.name ∈ t.names) :
      ∀ m ∈ b.params.rows.flatMap b.execution, m.keepsNames = true ∧ m.FindsIn t.names := by
    intro m hm
    obtain ⟨values, _, hm⟩ := List.mem_flatMap.mp hm
    simp only [Batch.execution, List.mem_cons, List.not_mem_nil, or_false] at hm
    rcases hm with rfl | rfl
    · exact ⟨rfl, present⟩
    · exact ⟨rfl, trivial⟩
  -- What is parsed is there for the executions that follow, whatever becomes of its description.
  have parsed (t : StatementServer) (v : Nat → Verdict) (honest : ∀ i, (v i).Honest)
      (listening : t.skipping = false) : t.Serves v (.parse b.statement.name b.statement.query
        b.statement.types :: .describe .statement b.statement.name ::
          (b.params.rows.flatMap b.execution ++ [.sync])) true (b.statement.name :: t.names) := by
    have taken : t.take (v 0) (.parse b.statement.name b.statement.query b.statement.types) =
        ([.parseComplete], ⟨b.statement.name :: t.names, false⟩) := by
      simp [take, perform, listening]
    have quiet : ∀ m ∈ .describe .statement b.statement.name :: b.params.rows.flatMap b.execution,
        m.keepsNames = true ∧ m.FindsIn (b.statement.name :: t.names) := by
      intro m hm
      rcases List.mem_cons.mp hm with rfl | hm
      · exact ⟨rfl, trivial⟩
      · exact executions ⟨b.statement.name :: t.names, false⟩ List.mem_cons_self m hm
    have mild : BackendMessage.parseComplete.Mild := ⟨rfl, fun report h => by cases h⟩
    exact cons (of_quiet (fun i => honest (i + 1)) quiet) taken mild trivial
  cases readies with
  | reused evicted prepares name names length =>
    have messages : b.messages = b.params.rows.flatMap b.execution ++ [.sync] := by
      simp [Batch.messages, evicted, prepares]
    rw [messages, prepares]
    exact (of_quiet honest (executions s (agree.symm.subset name))).rename
      (agree.trans names.symm)
  | @prepared kept prepares name room names length =>
    rw [prepares, names]
    rcases room with ⟨evicted, rfl⟩ | ⟨old, evicted, cached⟩
    · have messages : b.messages = .parse b.statement.name b.statement.query b.statement.types ::
          .describe .statement b.statement.name ::
            (b.params.rows.flatMap b.execution ++ [.sync]) := by
        simp [Batch.messages, evicted, prepares]
      rw [messages]
      exact (parsed s v honest listening).rename (agree.cons _)
    · have messages : b.messages = .close .statement old ::
          .parse b.statement.name b.statement.query b.statement.types ::
            .describe .statement b.statement.name ::
              (b.params.rows.flatMap b.execution ++ [.sync]) := by
        simp [Batch.messages, evicted, prepares]
      have remaining : s.names.filter (· ≠ old) ~ kept := by
        rw [cached] at agree distinct
        refine (agree.filter _).trans (.of_eq ?_)
        obtain ⟨_, _, apart⟩ := List.nodup_append.mp distinct
        rw [List.filter_append, List.filter_eq_self.mpr]
        · simp
        · intro k hk
          simpa using apart k hk old List.mem_cons_self
      have taken : s.take (v 0) (.close .statement old) =
          ([.closeComplete], ⟨s.names.filter (· ≠ old), false⟩) := by
        simp [take, perform, listening]
      have later := parsed ⟨s.names.filter (· ≠ old), false⟩ (fun i => v (i + 1))
        (fun i => honest (i + 1)) rfl
      have mild : BackendMessage.closeComplete.Mild := ⟨rfl, fun report h => by cases h⟩
      rw [messages]
      exact (cons later taken mild trivial).rename (remaining.cons _)

end Serves

end StatementServer

end PgPipeline
