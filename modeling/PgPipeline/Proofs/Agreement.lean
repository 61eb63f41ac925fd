import Mathlib.Data.List.Infix
import PgPipeline.Proofs.Outflow
import PgPipeline.Proofs.Serving

/-!
The statement cache agrees with the server.

Against an honest server every statement is there when it is executed, no name comes twice, and the
server's names are those of the cached statements (`Turn.run_cache_agrees`).
-/

namespace PgPipeline

open FrontendMessage (encodeAll)
open scoped List

variable {ρ : Type}

namespace BackendMessage

theorem eq_of_prefix {group body rest : List BackendMessage} {status end_ : TransactionStatus}
    (quiet : ∀ m ∈ group, m.isReady = false) (mild : ∀ m ∈ body, m.Mild)
    (h : group ++ [.readyForQuery status] <+: body ++ .readyForQuery end_ :: rest) :
    group = body ∧ status = end_ := by
  induction group generalizing body with
  | nil =>
    cases body with
    | nil =>
      have first := (List.cons_prefix_cons.mp h).1
      exact ⟨rfl, (BackendMessage.readyForQuery.inj first)⟩
    | cons m body =>
      have first := (List.cons_prefix_cons.mp h).1
      have ready := (mild m List.mem_cons_self).isReady
      rw [← first] at ready
      cases ready
  | cons k group ih =>
    cases body with
    | nil =>
      have first := (List.cons_prefix_cons.mp h).1
      have ready := quiet k List.mem_cons_self
      rw [first] at ready
      cases ready
    | cons m body =>
      obtain ⟨rfl, later⟩ := List.cons_prefix_cons.mp h
      obtain ⟨rfl, same⟩ := ih (fun n hn => quiet n (List.mem_cons_of_mem _ hn))
        (fun n hn => mild n (List.mem_cons_of_mem _ hn)) later
      exact ⟨rfl, same⟩

end BackendMessage

namespace Record

/-- The client is never ahead of the server: what has been answered at any time are the first answers
to what was queued by then. -/
def AnsweredBy (v : Nat → Verdict) (es : List (Entry ρ)) : Prop :=
  ∀ before, before <+: es → answered before <+: (StatementServer.serve v (queued before)).1

theorem AnsweredBy.of_prefix {v : Nat → Verdict} {as bs : List (Entry ρ)} (h : AnsweredBy v bs)
    (sub : as <+: bs) : AnsweredBy v as :=
  fun before hb => h before (hb.trans sub)

end Record

theorem Flight.spoils_eq_false {f : Flight ρ} {cache : StatementCache} {ms : List BackendMessage}
    (heard : f.Heard cache ms) (mild : ∀ m ∈ ms, m.Mild)
    (confirmed : f.preparedHere = true → ms.any BackendMessage.confirms = true) :
    f.spoils = false := by
  unfold spoils
  cases reported : f.error with
  | none => rfl
  | some report =>
    have mem : report ∈ ms.filterMap BackendMessage.report? :=
      List.mem_of_head? (heard.error.symm.trans reported)
    obtain ⟨m, hm, said⟩ := List.mem_filterMap.mp mem
    have known := (mild m hm).known report said
    cases here : f.preparedHere with
    | false => simp [known]
    | true => simp [known, heard.prepareConfirmed, confirmed here]

theorem StatementCache.Readies.names_eq {c d : StatementCache} {b : Batch} (h : c.Readies b d) :
    (List.range' 1 c.table.length).map Statement.nameOf ++
      b.messages.filterMap FrontendMessage.prepares? =
        (List.range' 1 d.table.length).map Statement.nameOf := by
  have executions : (b.params.rows.flatMap b.execution).filterMap FrontendMessage.prepares? = [] := by
    refine List.filterMap_eq_nil_iff.mpr fun m hm => ?_
    obtain ⟨values, _, hm⟩ := List.mem_flatMap.mp hm
    simp only [Batch.execution, List.mem_cons, List.not_mem_nil, or_false] at hm
    rcases hm with rfl | rfl <;> rfl
  have closing : (b.evicted.map (FrontendMessage.close .statement)).toList.filterMap
      FrontendMessage.prepares? = [] := by
    cases b.evicted <;> rfl
  unfold Batch.messages
  simp only [List.filterMap_append, executions, closing]
  cases h with
  | reused evicted prepares name names length => simp [prepares, length, FrontendMessage.prepares?]
  | prepared prepares name room names length =>
    rw [length, List.range'_1_concat, List.map_append]
    simp [prepares, name, FrontendMessage.prepares?, Nat.add_comm]

namespace Turn

open Connection StatementServer

/-- What the server has answered and will answer to what is queued: beyond the answers that were taken
to their end, one batch of answers for each flight. -/
def Owes (v : Nat → Verdict) (c : Connection ρ) : Prop :=
  ∃ past owed, Record.answered c.record = past ++ Record.group c.record ∧
    (serve v (Record.queued c.record)).1 = past ++ owed.flatten ∧
    List.Forall₂ (fun (f : Flight ρ) answers => Complete f.preparedHere answers) c.inFlight owed

/-- The server has carried out what is queued and agrees with the cache. -/
structure Agrees (v : Nat → Verdict) (t : Turn ρ) : Prop where
  listening : (serve v (Record.queued t.after.record)).2.skipping = false
  names : (serve v (Record.queued t.after.record)).2.names ~ t.after.cache.cachedNames
  prepared : (Record.queued t.after.record).filterMap FrontendMessage.prepares? =
    (List.range' 1 t.after.cache.table.length).map Statement.nameOf
  finds : StatementServer.empty.Finds v (Record.queued t.after.record)
  owes : t.GoesOn → t.after.inbox.closedBy = none → Owes v t.after

namespace Agrees

variable {v : Nat → Verdict} {t u : Turn ρ}

theorem start (config : Config) (nonces : Nat → List Char) :
    Agrees v (done (Connection.start (ρ := ρ) config nonces)) := by
  refine ⟨rfl, List.Perm.refl _, rfl, ?_, fun _ _ => ⟨[], [], rfl, rfl, .nil⟩⟩
  intro before m after h
  have empty : [] = before ++ m :: after := h
  simp at empty

theorem quiet (h : Agrees v t) (names : u.after.cache.cachedNames = t.after.cache.cachedNames)
    (length : u.after.cache.table.length = t.after.cache.table.length)
    (queued : ∃ ms, Record.queued u.after.record = Record.queued t.after.record ++ ms ∧
      ∀ m ∈ ms, m.isQuery = false)
    (owes : (serve v (Record.queued u.after.record)).1 = (serve v (Record.queued t.after.record)).1 →
      u.GoesOn → u.after.inbox.closedBy = none → Owes v u.after) : Agrees v u := by
  obtain ⟨ms, more, idle⟩ := queued
  have served : serve v (Record.queued u.after.record) = serve v (Record.queued t.after.record) := by
    rw [more, serve, takeAll_append, takeAll_idle idle, List.append_nil]
    rfl
  refine ⟨?_, ?_, ?_, ?_, owes (congrArg Prod.fst served)⟩
  · rw [served]
    exact h.listening
  · rw [served, names]
    exact h.names
  · have none_ : ms.filterMap FrontendMessage.prepares? = [] := by
      refine List.filterMap_eq_nil_iff.mpr fun m hm => ?_
      have quiet := idle m hm
      cases m <;> first | rfl | cases quiet
    rw [more, List.filterMap_append, none_, List.append_nil, length]
    exact h.prepared
  · rw [more]
    refine h.finds.append ?_
    rintro before m after rfl
    have quiet := idle m (List.mem_append_right _ List.mem_cons_self)
    cases m <;> trivial

theorem heard {f g : Flight ρ} {rest : List (Flight ρ)} {m : BackendMessage}
    (owes : Owes v t.after) (quiet : m.isReady = false) (head : t.after.inFlight = f :: rest)
    (inFlight : u.after.inFlight = g :: rest) (same : g.preparedHere = f.preparedHere)
    (answered : Record.answered u.after.record = Record.answered t.after.record ++ [m])
    (served : (serve v (Record.queued u.after.record)).1 =
      (serve v (Record.queued t.after.record)).1) : Owes v u.after := by
  obtain ⟨past, owed, parts, all, batches⟩ := owes
  have group : Record.group u.after.record = Record.group t.after.record ++ [m] := by
    rw [Record.group, answered, BackendMessage.sinceReady_snoc, quiet]
    rfl
  refine ⟨past, owed, ?_, served.trans all, ?_⟩
  · rw [answered, group, parts, List.append_assoc]
  · rw [head] at batches
    rw [inFlight]
    cases batches with
    | cons first others => exact .cons (same ▸ first) others

theorem finished {f : Flight ρ} {rest : List (Flight ρ)} {status : TransactionStatus}
    (owes : Owes v t.after) (head : t.after.inFlight = f :: rest)
    (heard : f.Heard t.after.cache (Record.group t.after.record))
    (inFlight : u.after.inFlight = rest)
    (answered : Record.answered u.after.record =
      Record.answered t.after.record ++ [.readyForQuery status])
    (served : (serve v (Record.queued u.after.record)).1 =
      (serve v (Record.queued t.after.record)).1)
    (prompt : Record.answered u.after.record <+: (serve v (Record.queued u.after.record)).1) :
    f.spoils = false ∧ Owes v u.after := by
  obtain ⟨past, owed, parts, all, batches⟩ := owes
  rw [head] at batches
  cases batches with
  | @cons _ answers _ owed first others =>
    obtain ⟨body, end_, rfl, mild, confirmed⟩ := first
    rw [served, answered, all, parts, List.append_assoc, List.prefix_append_right_inj,
      List.flatten_cons, List.append_assoc] at prompt
    obtain ⟨rfl, rfl⟩ := BackendMessage.eq_of_prefix
      (BackendMessage.sinceReady_split (Record.answered t.after.record)).2 mild prompt
    refine ⟨f.spoils_eq_false heard mild confirmed, ?_⟩
    have group : Record.group u.after.record = [] := by
      rw [Record.group, answered, BackendMessage.sinceReady_snoc]
      rfl
    refine ⟨past ++ (Record.group t.after.record ++ [.readyForQuery status]), owed, ?_, ?_, ?_⟩
    · rw [answered, group, parts]
      simp
    · rw [served, all]
      simp [Record.group]
    · rw [inFlight]
      exact others

theorem sent {s : Submission ρ} {p : Prepared} (h : Agrees v t) (honest : ∀ i, (v i).Honest)
    (sound : t.after.cache.Sound) (few : t.after.cache.table.length < Statement.nameLimit)
    (goesOn : t.GoesOn) (opened : t.after.inbox.closedBy = none)
    (prepared : t.after.prepare s = .ok p) (cache : u.after.cache = p.cache)
    (inFlight : u.after.inFlight =
      t.after.inFlight ++ [.start s p.lookup.id p.lookup.key p.batch.prepares])
    (answered : Record.answered u.after.record = Record.answered t.after.record)
    (queued : Record.queued u.after.record =
      Record.queued t.after.record ++ p.batch.messages) : Agrees v u := by
  have readies := prepare_readies sound prepared
  have serves := Serves.batch (fun i => honest ((Record.queued t.after.record).length + i)) readies
    (sound.nodup_cachedNames few) h.listening h.names
  have all : serve v (Record.queued u.after.record) =
      ((serve v (Record.queued t.after.record)).1 ++
        ((serve v (Record.queued t.after.record)).2.takeAll
          (fun i => v ((Record.queued t.after.record).length + i)) p.batch.messages).1,
        ((serve v (Record.queued t.after.record)).2.takeAll
          (fun i => v ((Record.queued t.after.record).length + i)) p.batch.messages).2) := by
    rw [queued]
    exact takeAll_append _ _ _ _
  refine ⟨?_, ?_, ?_, ?_, fun _ _ => ?_⟩
  · rw [all]
    exact serves.skipping
  · rw [all, cache]
    exact serves.names
  · rw [queued, cache, List.filterMap_append, h.prepared]
    exact readies.names_eq
  · rw [queued]
    exact h.finds.append serves.finds
  · obtain ⟨past, owed, parts, answers, batches⟩ := h.owes goesOn opened
    refine ⟨past, owed ++ [((serve v (Record.queued t.after.record)).2.takeAll
      (fun i => v ((Record.queued t.after.record).length + i)) p.batch.messages).1], ?_, ?_, ?_⟩
    · rw [Record.group, answered]
      exact parts
    · rw [all, answers]
      simp
    · rw [inFlight]
      exact List.rel_append batches (.cons serves.complete .nil)

theorem step (honest : ∀ i, (v i).Honest) (dealt : Dealt t u) (sound : t.after.cache.Sound)
    (few : t.after.cache.table.length < Statement.nameLimit) (attentive : Attentive t)
    (prompt : Record.answered u.after.record <+: (serve v (Record.queued u.after.record)).1)
    (h : Agrees v t) : Agrees v u := by
  have queries (same : Record.queued u.after.record = Record.queued t.after.record) :
      ∃ ms, Record.queued u.after.record = Record.queued t.after.record ++ ms ∧
        ∀ m ∈ ms, m.isQuery = false := ⟨[], by rw [same, List.append_nil], by simp⟩
  cases dealt with
  | still cache inFlight closedBy goesOn answered queued =>
    refine h.quiet (by rw [cache]) (by rw [cache]) queued fun served alive opened => ?_
    obtain ⟨past, owed, parts, all, batches⟩ := h.owes (goesOn alive) (closedBy ▸ opened)
    refine ⟨past, owed, ?_, served.trans all, inFlight ▸ batches⟩
    rw [Record.group, answered]
    exact parts
  | shut cache ended queued =>
    exact h.quiet (by rw [cache]) (by rw [cache]) queued fun _ alive opened =>
      absurd opened (ended alive)
  | @heard f g rest m quiet goesOn opened head inFlight hears cache answered queued =>
    obtain ⟨entries, length⟩ := f.teach_frame t.after.cache m
    have names : u.after.cache.cachedNames = t.after.cache.cachedNames := by
      rw [cache, (sound.teach f m).cachedNames_eq, entries, sound.cachedNames_eq]
    refine h.quiet names (cache ▸ length) (queries queued) fun served _ _ => ?_
    exact heard (h.owes goesOn opened) quiet head inFlight hears.preparedHere answered served
  | @finished f rest status goesOn opened head inFlight forgets cache answered queued =>
    have listening := attentive goesOn opened
    rw [head] at listening
    obtain ⟨kept, owes⟩ := finished (h.owes goesOn opened) head listening.1 inFlight answered
      (by rw [queued]) prompt
    exact h.quiet (by rw [cache kept]) (by rw [cache kept]) (queries queued) fun _ _ _ => owes
  | sent goesOn opened prepared cache inFlight answered queued =>
    exact h.sent honest sound few goesOn opened prepared cache inFlight answered queued

end Agrees

theorem Dealt.length_le {t u : Turn ρ} (dealt : Dealt t u) (sound : t.after.cache.Sound) :
    t.after.cache.table.length ≤ u.after.cache.table.length := by
  cases dealt with
  | still cache => exact Nat.le_of_eq (by rw [cache])
  | shut cache => exact Nat.le_of_eq (by rw [cache])
  | @heard f g rest m quiet goesOn opened head inFlight hears cache =>
    exact Nat.le_of_eq (by rw [cache, (f.teach_frame t.after.cache m).2])
  | finished status goesOn opened head inFlight forgets =>
    exact Nat.le_of_eq (by rw [forgets.table])
  | sent goesOn opened prepared cache =>
    rw [cache]
    cases prepare_readies sound prepared with
    | reused evicted prepares name names length => exact Nat.le_of_eq length.symm
    | prepared prepares name room names length =>
      rw [length]
      exact Nat.le_succ _

/-- Against an honest server that is never ahead of what was queued, while the names do not run out:
the bytes that the server gets are those of the messages it is taken to have, every statement that is
executed is there when its turn comes, no name is prepared twice, and when the server has taken all
that is queued its names are those of the cached statements. -/
theorem run_cache_agrees (config : Config) (nonces : Nat → List Char) (actions : List (Action ρ))
    (verdicts : Nat → Verdict) (honest : ∀ i, (verdicts i).Honest)
    (answered : Record.AnsweredBy verdicts
      ((done (Connection.start config nonces)).run actions).after.record)
    (few : ((done (Connection.start (ρ := ρ) config nonces)).run actions).after.cache.table.length <
      Statement.nameLimit) :
    let c : Connection ρ := ((done (.start config nonces)).run actions).after
    let queued := Record.queued c.record
    Record.written c.record <+: encodeAll queued ∧
    (c.stage ≠ .closed → Record.written c.record ++ c.outbound.toBytes = encodeAll queued) ∧
    (∀ before portal name formats values results after,
      queued = before ++ .bind portal name formats values results :: after →
        name ∈ (serve verdicts before).2.names) ∧
    (queued.filterMap FrontendMessage.prepares?).Nodup ∧
    (serve verdicts queued).2.names ~ c.cache.cachedNames := by
  intro c queued
  have all : Orderly ((done (Connection.start (ρ := ρ) config nonces)).run actions) ∧
      Attentive ((done (Connection.start (ρ := ρ) config nonces)).run actions) ∧
      (Record.AnsweredBy verdicts c.record → c.cache.table.length < Statement.nameLimit →
        Agrees verdicts ((done (Connection.start (ρ := ρ) config nonces)).run actions)) :=
    run_induction
      (P := fun t => Orderly t ∧ Attentive t ∧ (Record.AnsweredBy verdicts t.after.record →
        t.after.cache.table.length < Statement.nameLimit → Agrees verdicts t))
      ⟨.start config nonces, fun _ _ => rfl, fun _ _ => .start config nonces⟩
      (fun {t u} stride ⟨orderly, attentive, agrees⟩ => by
        have dealt := orderly.dealt stride
        obtain ⟨es, more, _⟩ := stride.extends
        refine ⟨orderly.step stride, attentive.step dealt orderly.sound, fun answered few => ?_⟩
        have before := answered.of_prefix (more ▸ List.prefix_append _ es)
        have enough := Nat.lt_of_le_of_lt (dealt.length_le orderly.sound) few
        exact (agrees before enough).step honest dealt orderly.sound enough attentive
          (answered _ (List.prefix_refl _)))
      fun a _ => allows_any a
  obtain ⟨orderly, _, agrees⟩ := all
  have agrees := agrees answered few
  have conveys : c.Conveys := run_conveys config nonces actions
  refine ⟨conveys.written, conveys.flows,
    fun before portal name formats values results after split => ?_, ?_, agrees.names⟩
  · exact agrees.finds before (.bind portal name formats values results) after split
  · have prepared : queued.filterMap FrontendMessage.prepares? =
        (List.range' 1 c.cache.table.length).map Statement.nameOf := agrees.prepared
    rw [prepared]
    refine List.Nodup.map_on ?_ List.nodup_range'
    intro m hm n hn same
    have few : c.cache.table.length < Statement.nameLimit := few
    have lt (k : Nat) (hk : k ∈ List.range' 1 c.cache.table.length) : k < Statement.nameLimit := by
      have := (List.mem_range'_1.mp hk).2
      omega
    exact Statement.nameOf_injective (lt m hm) (lt n hn) same

theorem run_cache_agrees_evicting :
    let answers : List BackendMessage :=
      [.parseComplete, .noData, .bindComplete, .commandComplete "INSERT 0 1", .readyForQuery .idle,
        .closeComplete, .parseComplete, .noData, .bindComplete,
        .errorResponse [(Bytes.ascii 'C', "22012")], .readyForQuery .idle]
    let config := { Config.default with encryption := .disable, cacheCapacity := some 1 }
    let actions : List (Action Nat) :=
      Action.admission ++ [.submit "insert 1" [] .count, .submit "insert 2" [] .count, .attention,
        .answers answers]
    let verdicts (i : Nat) : Verdict :=
      if i = 4 then ⟨[.commandComplete "INSERT 0 1"], none, .idle⟩
      else if i = 10 then ⟨[], some [(Bytes.ascii 'C', "22012")], .idle⟩
      else ⟨[.noData], none, .idle⟩
    let c := ((done (.start config fun _ => [])).run actions).after
    (∀ i, (verdicts i).Honest) ∧ Record.AnsweredBy verdicts c.record ∧
      c.cache.table.length < Statement.nameLimit ∧ c.stage = .ready ∧
      Record.written c.record ++ c.outbound.toBytes = encodeAll (Record.queued c.record) ∧
      (Record.queued c.record).filterMap FrontendMessage.prepares? = ["__pm_1", "__pm_2"] ∧
      .close .statement "__pm_1" ∈ Record.queued c.record ∧ c.cache.cachedNames = ["__pm_2"] ∧
      (serve verdicts (Record.queued c.record)).2.names ~ c.cache.cachedNames := by
  intro answers config actions verdicts
  have honest (i : Nat) : (verdicts i).Honest := by
    by_cases first : i = 4
    · constructor <;> simp [verdicts, first, BackendMessage.isReady, BackendMessage.report?]
    · by_cases second : i = 10
      · constructor
        · simp [verdicts, second]
        · intro fields h
          have h : some [(Bytes.ascii 'C', "22012")] = some fields := by
            simpa [verdicts, second] using h
          rw [← Option.some_inj.mp h]
          decide
      · constructor <;> simp [verdicts, first, second, BackendMessage.isReady, BackendMessage.report?]
  have answered : Record.AnsweredBy verdicts
      ((done (.start config fun _ => [])).run actions).after.record := by
    have all : ∀ before ∈ ((done (.start config fun _ => [])).run actions).after.record.inits,
        Record.answered before <+: (serve verdicts (Record.queued before)).1 := by decide +kernel
    exact fun before h => all before ((List.mem_inits _ _).mpr h)
  have few : ((done (.start config fun _ => [])).run actions).after.cache.table.length <
      Statement.nameLimit := by decide +kernel
  have ready : ((done (.start config fun _ => [])).run actions).after.stage = .ready := by
    decide +kernel
  obtain ⟨-, flows, -, -, names⟩ :=
    run_cache_agrees config (fun _ => []) actions verdicts honest answered few
  exact ⟨honest, answered, few, ready, flows (ready ▸ by decide), by decide +kernel,
    by decide +kernel, by decide +kernel, names⟩

end Turn

end PgPipeline
