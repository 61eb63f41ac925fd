import PgPipeline.Proofs.Attempts
import PgPipeline.Proofs.FrontendRoundTrip
import PgPipeline.Proofs.Parameters

namespace PgPipeline

open BackendMessage (IsPlain maxCount)

open scoped List

variable {ρ : Type}

theorem Statement.nameOf_plain (n : Nat) : IsPlain (nameOf n) := by
  have digits : (nameOf n).toList =
      "__pm_".toList ++ Nat.toDigits 10 (n % 4294967296) := by
    have parts : nameOf n = "__pm_" ++ Nat.repr (n % 4294967296) := rfl
    rw [parts, String.toList_append, Nat.repr_eq_ofList_toDigits]
    exact congrArg ("__pm_".toList ++ ·) String.toList_ofList
  rw [IsPlain, digits, List.mem_append]
  rintro (front | digit)
  · revert front
    decide
  · exact absurd (Nat.isDigit_of_mem_toDigits (by decide) (by decide) digit) (by decide)

theorem normalizeQuery_plain {query text : String} (h : normalizeQuery query = .ok text) :
    IsPlain text := by
  unfold normalizeQuery at h
  dsimp only at h
  split at h
  · cases h
  · split at h
    · cases h
    · next clean =>
      cases h
      intro zero
      rw [String.toList_ofList] at zero
      exact clean (List.any_eq_true.mpr ⟨_, zero, by decide⟩)

namespace StatementCache

variable {c d : StatementCache} {key : StatementKey} {lookup : CacheLookup}

def Drops (c d : StatementCache) (id : StatementId) : Prop :=
  (∃ key, (key, id) ∈ c.entries) ∧ ∀ key, (key, id) ∉ d.entries

theorem not_drops {id : StatementId} (stays : c.entries ⊆ d.entries) : ¬ Drops c d id :=
  fun ⟨⟨key, had⟩, none_⟩ => none_ key (stays had)

theorem Sound.drops_last_iff (sound : c.Sound) {kept : List (StatementKey × StatementId)}
    {last : StatementKey × StatementId} {id : StatementId} (before : c.entries = kept ++ [last])
    (after : d.entries = (key, c.table.length + 1) :: kept) : Drops c d id ↔ id = last.2 := by
  constructor
  · rintro ⟨⟨key', had⟩, none_⟩
    have gone : (key', id) ∉ kept := fun stays => by
      refine none_ key' ?_
      rw [after]
      exact List.mem_cons_of_mem _ stays
    rw [before] at had
    exact congrArg Prod.snd (List.mem_singleton.mp ((List.mem_append.mp had).resolve_left gone))
  · rintro rfl
    have mem : last ∈ c.entries := before ▸ List.mem_append_right _ List.mem_cons_self
    refine ⟨⟨last.1, mem⟩, fun key' stays => ?_⟩
    rw [after] at stays
    rcases List.mem_cons.mp stays with fresh | stays
    · have new : last.2 = c.table.length + 1 := (Prod.mk.inj fresh).2
      exact Nat.not_succ_le_self _ (new ▸ sound.id_le mem)
    · have ids := sound.ids
      rw [before, List.map_append, List.nodup_append] at ids
      exact ids.2.2 _ (List.mem_map_of_mem stays) _ (by simp) rfl

theorem LookedUp.evicted_iff (h : LookedUp c key lookup d) (sound : c.Sound) (name : String) :
    lookup.evicted = some name ↔
      ∃ id, Drops c d id ∧ c.isPrepared id = true ∧ c.nameOf id = name := by
  cases h with
  | @found id s entries known prepared mem perm =>
    exact ⟨nofun, fun ⟨_, drops, _⟩ => absurd drops (not_drops perm.symm.subset)⟩
  | @created kept closed new room =>
    rcases room with ⟨rfl, rfl⟩ | ⟨last, before, rfl⟩
    · exact ⟨nofun, fun ⟨_, drops, _⟩ => absurd drops (not_drops (List.subset_cons_self _ _))⟩
    · obtain ⟨s, known, prepared⟩ :=
        sound.prepared last (before ▸ List.mem_append_right _ List.mem_cons_self)
      have named := sound.nameOf_eq known
      constructor
      · intro same
        refine ⟨last.2, (sound.drops_last_iff before rfl).mpr rfl, ?_, named.trans (Option.some_inj.mp same)⟩
        simp [isPrepared, known, prepared]
      · rintro ⟨id, dropped, -, name⟩
        obtain rfl := (sound.drops_last_iff before rfl).mp dropped
        exact congrArg some (named.symm.trans name)

theorem LookedUp.executes (h : LookedUp c key lookup d) :
    let statement := (d.statement? lookup.id).getD (.create lookup.id lookup.key)
    (statement.prepared = true ∧ (c.statement? lookup.id).isSome ∧
        d.table.length = c.table.length) ∨
      (statement = .create lookup.id lookup.key ∧ lookup.id = c.table.length + 1 ∧
        d.table.length = c.table.length + 1) := by
  cases h with
  | @found id s entries known prepared mem perm =>
    have same : ({ c with entries } : StatementCache).statement? id = some s := known
    refine .inl ⟨?_, ?_, rfl⟩
    · rw [same]
      exact prepared
    · rw [known]
      rfl
  | @created kept closed new room =>
    refine .inr ⟨?_, rfl, List.length_append⟩
    rw [statement?_grown, if_pos rfl]
    rfl

theorem lookupKey_key (c : StatementCache) (key : StatementKey) :
    (c.lookupKey key).1.key = key := by
  unfold lookupKey
  split <;> rfl

theorem LookedUp.evicted_plain (h : LookedUp c key lookup d) {old : String}
    (evicted : lookup.evicted = some old) : IsPlain old := by
  cases h with
  | found => cases evicted
  | created new room =>
    rcases room with ⟨rfl, -⟩ | ⟨e, -, rfl⟩
    · cases evicted
    · exact Option.some_inj.mp evicted ▸ Statement.nameOf_plain e.2

end StatementCache

namespace Connection

variable {c d : Connection ρ} {s : Submission ρ} {p : Prepared}

/-- A submission is refused for its parameters or for its query. -/
theorem prepare_error_iff {f : Failure} : c.prepare s = .error f ↔
    (∃ e, Param.encodeAll s.params = .error e ∧ f = e.failure) ∨
      ∃ params e, Param.encodeAll s.params = .ok params ∧ normalizeQuery s.query = .error e ∧
        f = e.failure := by
  unfold prepare StatementCache.lookup StatementKey.ofQuery
  cases Param.encodeAll s.params with
  | error e => simp [Except.mapError, bind, Except.bind, eq_comm]
  | ok params =>
    cases normalizeQuery s.query with
    | error e => simp [Except.mapError, Except.map, bind, Except.bind, eq_comm]
    | ok query =>
      simp [Except.mapError, Except.map, bind, Except.bind, pure, Except.pure]

theorem prepare_ok (h : c.prepare s = .ok p) : Param.encodeAll s.params = .ok p.batch.params ∧
    ∃ query, normalizeQuery s.query = .ok query ∧
      p.lookup.key = ⟨query, p.batch.params.types⟩ := by
  obtain ⟨params, encoded, h⟩ := bind_ok h
  obtain ⟨⟨lookup, cache⟩, found, h⟩ := bind_ok h
  cases h
  obtain ⟨key, keyed, looked⟩ := map_ok (mapError_ok found)
  obtain ⟨query, normalized, rfl⟩ := map_ok keyed
  refine ⟨mapError_ok encoded, query, normalized, ?_⟩
  have same := congrArg (fun r => r.1.key) looked
  exact same.symm.trans (StatementCache.lookupKey_key _ _)

theorem prepare_lookedUp (sound : c.cache.Sound) (h : c.prepare s = .ok p) :
    ∃ d, c.cache.LookedUp p.lookup.key p.lookup d ∧ p.cache = d.markPrepared p.lookup.id ∧
      p.batch.evicted = p.lookup.evicted ∧
      p.batch.statement = (d.statement? p.lookup.id).getD (.create p.lookup.id p.lookup.key) ∧
      p.batch.prepares = !p.batch.statement.prepared := by
  obtain ⟨key, params, statement, executed, rfl⟩ := prepare_eq h
  refine ⟨(c.cache.lookupKey key).2, ?_, rfl, rfl, executed, rfl⟩
  dsimp only
  rw [StatementCache.lookupKey_key]
  exact sound.lookedUp key

theorem prepare_executes (sound : c.cache.Sound) (h : c.prepare s = .ok p) :
    (p.batch.prepares = false ∧ (c.cache.statement? p.lookup.id).isSome ∧
        p.cache.table.length = c.cache.table.length) ∨
      (p.batch.prepares = true ∧ p.batch.statement = .create p.lookup.id p.lookup.key ∧
        p.lookup.id = c.cache.table.length + 1 ∧
        p.cache.table.length = c.cache.table.length + 1) := by
  obtain ⟨d, lookedUp, cache, -, statement, prepares⟩ := prepare_lookedUp sound h
  have length : p.cache.table.length = d.table.length := by
    rw [cache]
    exact (d.update_frame _ _).2
  rw [prepares, length, statement]
  refine lookedUp.executes.imp ?_ ?_
  · rintro ⟨known, made, length⟩
    exact ⟨by rw [known]; rfl, made, length⟩
  · rintro ⟨new, id, length⟩
    exact ⟨by rw [new]; rfl, new, id, length⟩

theorem prepare_evicts (sound : c.cache.Sound) (h : c.prepare s = .ok p) (name : String) :
    p.lookup.evicted = some name ↔ ∃ id, c.cache.Drops p.cache id ∧
      c.cache.isPrepared id = true ∧ c.cache.nameOf id = name := by
  obtain ⟨d, lookedUp, cache, -⟩ := prepare_lookedUp sound h
  have entries : p.cache.entries = d.entries := cache ▸ (d.update_frame _ _).1
  rw [lookedUp.evicted_iff sound]
  simp only [StatementCache.Drops, entries]

structure Alike (c d : Connection ρ) : Prop where
  outbound : d.outbound = c.outbound
  cache : d.cache = c.cache
  inFlight : d.inFlight = c.inFlight

theorem send_prepared (h : c.prepare s = .ok p) :
    (c.send s).outbound = c.outbound.pushPiece (FrontendMessage.encodeAll p.batch.messages) ∧
      (c.send s).cache = p.cache ∧
      (c.send s).inFlight =
        c.inFlight ++ [.start s p.lookup.id p.lookup.key p.batch.prepares] ∧
      Record.sent (c.send s).record = Record.sent c.record ++ [s.number] := by
  rw [send, h]
  refine ⟨rfl, rfl, rfl, ?_⟩
  simp only [enter, queue, Record.sent_append, List.append_assoc]
  rfl

theorem send_refused {f : Failure} (h : c.prepare s = .error f) :
    Alike c (c.send s) ∧ Settles c (c.send s) := by
  rw [send, h]
  exact ⟨⟨rfl, rfl, rfl⟩, .resolve c s (.error f)⟩

namespace Alike

variable {e : Connection ρ}

theorem symm (h : Alike c d) : Alike d c := ⟨h.outbound.symm, h.cache.symm, h.inFlight.symm⟩

theorem trans (h : Alike c d) (k : Alike d e) : Alike c e :=
  ⟨k.outbound.trans h.outbound, k.cache.trans h.cache, k.inFlight.trans h.inFlight⟩

theorem send (h : Alike c d) (s : Submission ρ) : Alike (c.send s) (d.send s) := by
  have same : d.prepare s = c.prepare s := by rw [prepare, prepare, h.cache]
  cases prepared : c.prepare s with
  | ok p =>
    obtain ⟨outbound, cache, inFlight, -⟩ := send_prepared prepared
    obtain ⟨outbound', cache', inFlight', -⟩ := send_prepared (same.trans prepared)
    refine ⟨?_, cache'.trans cache.symm, ?_⟩
    · rw [outbound, outbound', h.outbound]
    · rw [inFlight, inFlight', h.inFlight]
  | error f =>
    exact (send_refused prepared).1.symm.trans (h.trans (send_refused (same.trans prepared)).1)

theorem sendAll (h : Alike c d) (ss : List (Submission ρ)) :
    Alike (ss.foldl Connection.send c) (ss.foldl Connection.send d) := by
  induction ss generalizing c d with
  | nil => exact h
  | cons s rest ih => exact ih (h.send s)

end Alike

theorem sendPending_without {f : Failure} (h : c.prepare s = .error f)
    (before after : List (Submission ρ)) :
    Alike ({ c with pending := before ++ s :: after } : Connection ρ).sendPending
      ({ c with pending := before ++ after } : Connection ρ).sendPending := by
  -- What was sent before it makes no difference to a submission that is refused.
  have refused (d : Connection ρ) : Alike d (d.send s) :=
    (send_refused (prepare_error_iff.mpr (prepare_error_iff.mp h))).1
  simp only [sendPending, List.foldl_append, List.foldl_cons]
  exact (refused _).symm.sendAll after

end Connection

namespace FrontendMessage

theorem length_le_encode_bind {portal statement : String} {formats results : List Format}
    {values : List (Option Bytes)} {data : Bytes} (mem : some data ∈ values) :
    data.length ≤ (bind portal statement formats values results).encode.length := by
  obtain ⟨before, after, rfl⟩ := List.append_of_mem mem
  rw [length_encode]
  simp only [body, Wire.counted, Wire.sized, List.flatMap_append, List.flatMap_cons,
    List.length_append]
  omega

end FrontendMessage

namespace Batch

variable {b : Batch}

theorem encodeAll_ne_nil (b : Batch) : FrontendMessage.encodeAll b.messages ≠ [] := by
  obtain ⟨ms, messages, -⟩ := b.messages_eq
  rw [FrontendMessage.encodeAll, messages, List.flatMap_append]
  exact fun none_ => nomatch (List.append_eq_nil_iff.mp none_).2

theorem readAll?_messages {params : List Param} (fits : b.params.Fits params)
    (name : IsPlain b.statement.name) (query : b.prepares = true → IsPlain b.statement.query)
    (types : b.prepares = true → b.statement.types = b.params.types)
    (evicted : ∀ old, b.evicted = some old → IsPlain old)
    (short : ∀ m ∈ b.messages, m.encode.length < 2 ^ 31) :
    FrontendMessage.readAll? (b.messages.map FrontendMessage.due)
      (FrontendMessage.encodeAll b.messages) = some b.messages := by
  have empty : IsPlain "" := by simp [IsPlain]
  have count {n : Nat} (same : n = params.length) : n ≤ maxCount := same ▸ fits.few
  have fields : ∀ m ∈ b.messages, m.encode.length < 2 ^ 31 → m.HasFields := by
    refine forall_mem_messages (fun old dropped _ => evicted old dropped) (fun prepares => ?_)
      (fun row mem => ⟨fun short => ?_, fun _ => empty⟩) fun _ => trivial
    · refine ⟨fun _ => ⟨name, query prepares, ?_⟩, fun _ => name⟩
      exact types prepares ▸ count fits.types
    · refine ⟨empty, name, count fits.formats, ⟨count (fits.widths row mem), ?_⟩, by decide⟩
      rintro v present data rfl
      exact Nat.lt_of_le_of_lt (FrontendMessage.length_le_encode_bind present) short
  have unambiguous : ∀ m ∈ b.messages, m.IsUnambiguous :=
    forall_mem_messages (fun _ _ => trivial) (fun _ => ⟨trivial, trivial⟩)
      (fun _ _ => ⟨trivial, trivial⟩) trivial
  exact (FrontendMessage.readAll?_flatMap fun m mem =>
    ⟨fields m mem (short m mem), short m mem⟩).mpr unambiguous

end Batch

namespace Connection

variable {c : Connection ρ} {s : Submission ρ} {p : Prepared}

theorem prepare_creates (sound : c.cache.Sound) (h : c.prepare s = .ok p) {query : String}
    (key : p.lookup.key = ⟨query, p.batch.params.types⟩) (prepares : p.batch.prepares = true) :
    p.batch.statement.query = query ∧ p.batch.statement.types = p.batch.params.types := by
  rcases prepare_executes sound h with ⟨reused, -⟩ | ⟨-, new, -⟩
  · cases reused.symm.trans prepares
  · rw [new, key]
    exact ⟨rfl, rfl⟩

theorem prepare_messages (sound : c.cache.Sound) (h : c.prepare s = .ok p) :
    ∃ query, normalizeQuery s.query = .ok query ∧ p.batch.messages =
      (p.lookup.evicted.map (.close .statement)).toList
        ++ (if p.batch.prepares then
              [.parse p.batch.statement.name query p.batch.params.types,
                .describe .statement p.batch.statement.name]
            else [])
        ++ p.batch.params.rows.flatMap (fun row =>
            [.bind "" p.batch.statement.name p.batch.params.formats row [.binary], .execute "" 0])
        ++ [.sync] := by
  obtain ⟨-, query, normalized, key⟩ := prepare_ok h
  obtain ⟨_, -, -, evicted, -⟩ := prepare_lookedUp sound h
  refine ⟨query, normalized, ?_⟩
  cases prepares : p.batch.prepares with
  | false =>
    simp only [Batch.messages, prepares, evicted]
    rfl
  | true =>
    obtain ⟨text, types⟩ := prepare_creates sound h key prepares
    simp only [Batch.messages, prepares, evicted, text, types]
    rfl

theorem prepare_reads (sound : c.cache.Sound) (h : c.prepare s = .ok p)
    (short : ∀ m ∈ p.batch.messages, m.encode.length < 2 ^ 31) :
    FrontendMessage.readAll? (p.batch.messages.map FrontendMessage.due)
      (FrontendMessage.encodeAll p.batch.messages) = some p.batch.messages := by
  obtain ⟨encoded, query, normalized, key⟩ := prepare_ok h
  obtain ⟨_, lookedUp, -, evicted, -⟩ := prepare_lookedUp sound h
  have created := prepare_creates sound h key
  refine Batch.readAll?_messages (Param.encodeAll_fits encoded) ?_ (fun prepares => ?_)
    (fun prepares => (created prepares).2) (fun old room => ?_) short
  · rw [(prepare_chooses sound h).2]
    exact Statement.nameOf_plain _
  · exact (created prepares).1 ▸ normalizeQuery_plain normalized
  · exact lookedUp.evicted_plain (evicted ▸ room)

theorem onQueryMessage_table (c : Connection ρ) (m : BackendMessage) :
    (c.onQueryMessage m).after.cache.table.length = c.cache.table.length := by
  cases ready : m.isReady with
  | false =>
    rcases onQueryMessage_hears c ready with ⟨cache, -⟩ | ⟨f, g, rest, -, -, -, cache⟩
    · rw [cache]
    · rw [cache, (f.teach_frame c.cache m).2]
  | true =>
    cases m <;> cases ready
    simp only [onQueryMessage, onReadyForQuery, withHead]
    split
    · exact congrArg List.length (finish_frame _ _).2.2.1.table
    · rfl

theorem sent_of_extends {c d : Connection ρ} {kind : Entry ρ → Prop} (record : Extends kind c d)
    (still : ∀ e, kind e → e.ofPipeline = false) : Record.sent d.record = Record.sent c.record := by
  obtain ⟨es, more, -, idle⟩ := record
  have none_ : Record.sent es = [] :=
    Record.sent_eq_nil fun e mem => (Entry.unmarked (still e (idle e mem))).1
  rw [more, Record.sent_append, none_, List.append_nil]

end Connection

namespace Turn

open Connection

variable {K : Consumer ρ → Prop} {t u : Turn ρ} {c : Connection ρ} {id : StatementId}
  {ids : List StatementId}

/-- A stride sends the first submission that waits, or it sends nothing and makes no statement. -/
inductive Sends (t u : Turn ρ) : Prop
  | sent {c : Connection ρ} {s : Submission ρ} {rest : List (Submission ρ)} {p : Prepared}
      (before : t = done c) (after : u = done (({ c with pending := rest } : Connection ρ).send s))
      (ready : c.stage = .ready) (first : c.pending = s :: rest)
      (kept : c.isCancelled s.number = false) (prepared : c.prepare s = .ok p)
  | unsent (same : Record.sent u.after.record = Record.sent t.after.record)
      (length : u.after.cache.table.length = t.after.cache.table.length)

theorem Sends.message (c : Connection ρ) (m : BackendMessage) : Sends (done c) (c.onMessage m) := by
  have received : Record.sent (c.record ++ [.received m]) = Record.sent c.record := by
    rw [Record.sent_append]
    exact List.append_nil _
  rcases onMessage_cases c m with ⟨_, info, e⟩ | ⟨_, _, e⟩ | ⟨_, _, e⟩ | ⟨_, _, _, i, e⟩
  · rw [e]
    exact .unsent received rfl
  · have same := SameWork.onAuthMessage (c.enter [.received m]) m
    rw [e]
    refine .unsent ((sent_of_extends same.record fun _ => Entry.ofPipeline_eq_false).trans received)
      ?_
    rw [same.cache]
    rfl
  · obtain ⟨es, more, answer⟩ := (onQueryMessage_answered (c.enter [.received m]) m).record
    have none_ : Record.sent es = [] :=
      Record.sent_eq_nil fun e mem => (Entry.unsent_of_answer (answer e mem)).1
    rw [e]
    refine .unsent ?_ (onQueryMessage_table _ m)
    rw [more, Record.sent_append, none_, List.append_nil]
    exact received
  · rw [e]
    exact .unsent received rfl

theorem Stride.sends (stride : Stride K t u) : Sends t u := by
  have settled (settles : Settles t.after u.after) : Sends t u :=
    .unsent (sent_of_extends settles.record fun _ he => he.2) (by rw [settles.cache])
  cases stride with
  | idle same => exact settled same.aside.settles
  | submit query params consumer allowed => exact settled (.submit t.after query params consumer)
  | tell cause => exact settled (.abort t.after cause)
  | message m alive => exact .message _ m
  | collect => exact .unsent rfl rfl
  | close => exact settled (.beginClose _)
  | drop => exact settled (.dropCancelled _)
  | @send c s rest ready first kept =>
    cases prepared : c.prepare s with
    | ok p => exact .sent rfl rfl ready first kept prepared
    | error failure =>
      have settles := (send_refused (c := { c with pending := rest }) prepared).2
      refine .unsent (sent_of_extends settles.record fun _ he => he.2) ?_
      exact congrArg (fun cache => cache.table.length) settles.cache

/-- Moves lead from the origin to the turn, and submissions that were sent on the way execute these
statements, one after the other. -/
inductive Executed (origin : Turn ρ) : List StatementId → Turn ρ → Prop
  | start : Executed origin [] origin
  | sent {ids : List StatementId} {c : Connection ρ} {s : Submission ρ}
      {rest : List (Submission ρ)} {p : Prepared} (executed : Executed origin ids (done c))
      (ready : c.stage = .ready) (first : c.pending = s :: rest)
      (kept : c.isCancelled s.number = false) (prepared : c.prepare s = .ok p) :
      Executed origin (ids ++ [p.lookup.id])
        (done (({ c with pending := rest } : Connection ρ).send s))
  | unsent {ids : List StatementId} {t u : Turn ρ} (executed : Executed origin ids t)
      (move : Move (fun _ => True) t u)
      (same : Record.sent u.after.record = Record.sent t.after.record) : Executed origin ids u

namespace Executed

variable {origin : Turn ρ}

theorem moves (h : Executed origin ids t) : Moves (fun _ => True) origin t := by
  induction h with
  | start => exact .refl
  | sent executed ready first kept prepared ih => exact .tail ih (.send ready first kept)
  | unsent executed move same ih => exact .tail ih move

theorem sound (h : Executed origin ids t) (regular : Regular origin) : t.after.cache.Sound :=
  (moves_invariant (fun move => Regular.step move.stride) h.moves regular).orderly.sound

theorem exists_of_moves (moves : Moves (fun _ => True) origin t) :
    ∃ ids, Executed origin ids t := by
  induction moves with
  | refl => exact ⟨[], .start⟩
  | tail _ move ih =>
    obtain ⟨ids, executed⟩ := ih
    cases move.stride.sends with
    | sent before after ready first kept prepared =>
      subst before after
      exact ⟨_, executed.sent ready first kept prepared⟩
    | unsent same length => exact ⟨ids, executed.unsent move same⟩

theorem mem_iff (h : Executed origin ids t) (regular : Regular origin)
    (new : origin.after.cache.table = []) :
    id ∈ ids ↔ 0 < id ∧ id ≤ t.after.cache.table.length := by
  induction h generalizing id with
  | start =>
    rw [new]
    exact ⟨nofun, fun ⟨positive, none_⟩ => absurd positive (Nat.not_lt_of_le none_)⟩
  | @sent ids c s rest p executed ready first kept prepared ih =>
    have ih : ∀ {id}, id ∈ ids ↔ 0 < id ∧ id ≤ c.cache.table.length := ih
    have sound : c.cache.Sound := executed.sound regular
    have cache : (({ c with pending := rest } : Connection ρ).send s).cache = p.cache :=
      (send_prepared (c := { c with pending := rest }) prepared).2.1
    rw [List.mem_append, List.mem_singleton, ih]
    change _ ↔ 0 < id ∧ id ≤ (({ c with pending := rest } : Connection ρ).send s).cache.table.length
    rw [cache]
    rcases prepare_executes sound prepared with ⟨-, known, length⟩ | ⟨-, -, made, length⟩
    · have made := StatementCache.isSome_statement?.mp known
      rw [length]
      exact ⟨fun h => h.elim (fun old => old) fun same => same ▸ made, .inl⟩
    · have grows (n k : Nat) : (0 < k ∧ k ≤ n) ∨ k = n + 1 ↔ 0 < k ∧ k ≤ n + 1 := by omega
      rw [length, made]
      exact grows _ _
  | @unsent ids t u executed move same ih =>
    cases move.stride.sends with
    | @sent c s rest p before after ready first kept prepared =>
      subst before after
      have more := (send_prepared (c := { c with pending := rest }) prepared).2.2.2
      have none_ := List.append_right_eq_self.mp (more.symm.trans same)
      cases none_
    | unsent same length => rw [ih, length]

end Executed

structure SendsWhole (ids : List StatementId) (c : Connection ρ) (s : Submission ρ)
    (p : Prepared) : Prop where
  encoded : Param.encodeAll s.params = .ok p.batch.params
  fits : p.batch.params.Fits s.params
  /-- The statement that had to make room is closed, a new one is prepared and described, and every
  row is bound and executed. -/
  messages : ∃ query, normalizeQuery s.query = .ok query ∧ p.batch.messages =
    (p.lookup.evicted.map (.close .statement)).toList
      ++ (if p.batch.prepares then
            [.parse p.batch.statement.name query p.batch.params.types,
              .describe .statement p.batch.statement.name]
          else [])
      ++ p.batch.params.rows.flatMap (fun row =>
          [.bind "" p.batch.statement.name p.batch.params.formats row [.binary], .execute "" 0])
      ++ [.sync]
  /-- The messages are one segment, which a server reads as these messages. -/
  segment : (c.send s).outbound.segments =
      c.outbound.segments ++ [.piece (p.batch.messages.foldl FrontendMessage.appendTo [])] ∧
    ((∀ m ∈ p.batch.messages, m.encode.length < 2 ^ 31) →
      FrontendMessage.readAll? (p.batch.messages.map FrontendMessage.due)
        (p.batch.messages.foldl FrontendMessage.appendTo []) = some p.batch.messages)
  prepares : p.batch.prepares = true ↔ p.lookup.id ∉ ids
  evicts : ∀ name, p.lookup.evicted = some name ↔
    ∃ id, c.cache.Drops (c.send s).cache id ∧ c.cache.isPrepared id = true ∧
      c.cache.nameOf id = name
  flight : (c.send s).inFlight =
    c.inFlight ++ [.start s p.lookup.id p.lookup.key p.batch.prepares]

theorem Executed.sendsWhole {origin : Turn ρ} {s : Submission ρ} {p : Prepared}
    (executed : Executed origin ids t) (regular : Regular origin)
    (new : origin.after.cache.table = []) (prepared : t.after.prepare s = .ok p) :
    SendsWhole ids t.after s p := by
  have sound : t.after.cache.Sound := executed.sound regular
  obtain ⟨outbound, cache, inFlight, -⟩ := send_prepared prepared
  obtain ⟨encoded, -⟩ := prepare_ok prepared
  have piece : p.batch.messages.foldl FrontendMessage.appendTo [] =
      FrontendMessage.encodeAll p.batch.messages := FrontendMessage.foldl_appendTo [] _
  refine ⟨encoded, Param.encodeAll_fits encoded, prepare_messages sound prepared,
    ⟨?_, fun short => ?_⟩, ?_, fun name => ?_, inFlight⟩
  · rw [piece, outbound, ByteQueue.pushPiece, if_neg]
    rw [List.isEmpty_iff]
    exact p.batch.encodeAll_ne_nil
  · rw [piece]
    exact prepare_reads sound prepared short
  · rw [executed.mem_iff regular new]
    rcases prepare_executes sound prepared with ⟨reused, known, -⟩ | ⟨made, -, id, -⟩
    · have known := StatementCache.isSome_statement?.mp known
      simp [reused, known]
    · have beyond : ¬ (0 < p.lookup.id ∧ p.lookup.id ≤ t.after.cache.table.length) := by
        rw [id]
        exact fun h => Nat.not_succ_le_self _ h.2
      exact ⟨fun _ => beyond, fun _ => made⟩
  · rw [prepare_evicts sound prepared, cache]

/-- Wherever a connection has got to, a submission whose parameters and query are in order is queued
as a whole: one segment, in which a statement is prepared exactly when it is executed for the first
time, and closed exactly when it has lost its entry. Any other submission is refused; then nothing is
queued, cached or in flight for it, and what waits besides it is sent as if it were not there. -/
theorem moves_send_whole (config : Config) (nonces : Nat → List Char) {t : Turn ρ}
    (moves : Moves (fun _ => True) (done (.start config nonces)) t) (s : Submission ρ) :
    (∃ ids, Executed (done (.start config nonces)) ids t) ∧
      (∀ ids p, Executed (done (.start config nonces)) ids t → t.after.prepare s = .ok p →
        SendsWhole ids t.after s p) ∧
      ∀ f, (t.after.prepare s = .error f ↔
          (∃ e, Param.encodeAll s.params = .error e ∧ f = e.failure) ∨
            ∃ params e, Param.encodeAll s.params = .ok params ∧
              normalizeQuery s.query = .error e ∧ f = e.failure) ∧
        (t.after.prepare s = .error f → Alike t.after (t.after.send s) ∧
          ∀ before after,
            Alike ({ t.after with pending := before ++ s :: after } : Connection ρ).sendPending
              ({ t.after with pending := before ++ after } : Connection ρ).sendPending) := by
  refine ⟨Executed.exists_of_moves moves, fun ids p executed prepared => ?_, fun f => ?_⟩
  · exact executed.sendsWhole (.start config nonces) rfl prepared
  · exact ⟨prepare_error_iff, fun refused =>
      ⟨(send_refused refused).1, sendPending_without refused⟩⟩

theorem moves_send_whole_evicting :
    let config := { Config.default with encryption := .disable, cacheCapacity := some 1 }
    let origin := done (.start config fun _ => [])
    let t := origin.run (Action.admission ++ [.submit "a" [] Consumer.count, .attention])
    let s : Submission Nat :=
      ⟨1, " b ", [.repeated [.int2 7, .null], .value (.bool true)], .count, [], none, 1⟩
    let blank : Submission Nat := { s with query := "  " }
    (∃ ids p, Executed origin ids t ∧ t.after.prepare s = .ok p ∧ SendsWhole ids t.after s p ∧
      2 ∉ ids ∧ p.lookup.id = 2 ∧ p.batch.messages =
        [.close .statement "__pm_1", .parse "__pm_2" "b" [.int2, .bool],
          .describe .statement "__pm_2",
          .bind "" "__pm_2" [.binary, .binary] [some [0, 7], some [1]] [.binary], .execute "" 0,
          .bind "" "__pm_2" [.binary, .binary] [none, some [1]] [.binary], .execute "" 0, .sync]) ∧
      Alike t.after (t.after.send blank) := by
  intro config origin t s blank
  have moves : Moves (fun _ => True) origin t := run_moves _ fun a _ => allows_any a
  have made : (t.after.prepare s).toOption.map
      (fun p => (p.lookup.id, p.batch.prepares, p.batch.messages)) = some (2, true,
        [.close .statement "__pm_1", .parse "__pm_2" "b" [.int2, .bool],
          .describe .statement "__pm_2",
          .bind "" "__pm_2" [.binary, .binary] [some [0, 7], some [1]] [.binary], .execute "" 0,
          .bind "" "__pm_2" [.binary, .binary] [none, some [1]] [.binary], .execute "" 0,
          .sync]) := by
    decide +kernel
  have blank_ : (t.after.prepare blank).toOption.isSome = false := by decide +kernel
  obtain ⟨⟨ids, executed⟩, whole, -⟩ := moves_send_whole config (fun _ => []) moves s
  constructor
  · cases prepared : t.after.prepare s with
    | error f =>
      rw [prepared] at made
      cases made
    | ok p =>
      rw [prepared] at made
      obtain ⟨id, prepares, messages⟩ : p.lookup.id = 2 ∧ p.batch.prepares = true ∧ _ := by
        simpa [Except.toOption] using made
      have sends := whole ids p executed prepared
      exact ⟨ids, p, executed, rfl, sends, id ▸ sends.prepares.mp prepares, id, messages⟩
  · cases prepared : t.after.prepare blank with
    | error f => exact (((moves_send_whole config (fun _ => []) moves blank).2.2 f).2 prepared).1
    | ok p =>
      rw [prepared] at blank_
      cases blank_

end Turn

end PgPipeline
