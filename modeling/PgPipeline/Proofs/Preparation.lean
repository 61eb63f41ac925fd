import PgPipeline.Connection.Sending
import PgPipeline.Proofs.Cache

namespace PgPipeline

open scoped List

variable {ρ : Type}

namespace StatementCache

inductive Readies (c : StatementCache) (b : Batch) (d : StatementCache) : Prop
  | reused (evicted : b.evicted = none) (prepares : b.prepares = false)
      (name : b.statement.name ∈ c.cachedNames) (names : d.cachedNames ~ c.cachedNames)
      (length : d.table.length = c.table.length)
  | prepared {kept : List String} (prepares : b.prepares = true)
      (name : b.statement.name = Statement.nameOf (c.table.length + 1))
      (room : b.evicted = none ∧ kept = c.cachedNames ∨
        ∃ old, b.evicted = some old ∧ c.cachedNames = kept ++ [old])
      (names : d.cachedNames = b.statement.name :: kept)
      (length : d.table.length = c.table.length + 1)

inductive Chooses (c : StatementCache) (key : StatementKey) (id : StatementId) (d : StatementCache) :
    Prop
  | known (mem : (key, id) ∈ c.entries) (entries : d.entries ~ c.entries)
      (length : d.table.length = c.table.length)
  | fresh (new : id = c.table.length + 1) (entries : ∀ e ∈ d.entries, e = (key, id) ∨ e ∈ c.entries)
      (length : d.table.length = c.table.length + 1)

namespace Chooses

variable {c d : StatementCache} {key : StatementKey} {id : StatementId}

theorem grows (h : Chooses c key id d) : c.table.length ≤ d.table.length := by
  cases h with
  | known mem entries length => exact Nat.le_of_eq length.symm
  | fresh new entries length => exact length ▸ Nat.le_succ _

theorem mem_or_new (h : Chooses c key id d) : (key, id) ∈ c.entries ∨ c.table.length < id := by
  cases h with
  | known mem => exact .inl mem
  | fresh new => exact .inr (new ▸ Nat.lt_succ_self _)

theorem made (h : Chooses c key id d) (sound : c.Sound) : id ≤ d.table.length := by
  cases h with
  | known mem entries length => exact length ▸ sound.id_le mem
  | fresh new entries length => exact Nat.le_of_eq (new.trans length.symm)

theorem of_mem (h : Chooses c key id d) {e : StatementKey × StatementId} (he : e ∈ d.entries) :
    e ∈ c.entries ∨ e = (key, id) ∧ c.table.length < id := by
  cases h with
  | known mem entries => exact .inl (entries.subset he)
  | fresh new entries =>
    exact (entries e he).symm.imp_right fun same => ⟨same, new ▸ Nat.lt_succ_self _⟩

theorem matched (h : Chooses c key id d) (sound : c.Sound) {e : StatementKey × StatementId}
    (he : e ∈ d.entries) (same : e.2 = id) : e.1 = key := by
  rcases h.of_mem he with old | ⟨rfl, _⟩
  · rcases h.mem_or_new with mem | new
    · exact congrArg Prod.fst (List.inj_on_of_nodup_map sound.ids old mem same)
    · exact absurd (sound.id_le old) (Nat.not_le_of_lt (same ▸ new))
  · rfl

end Chooses

theorem LookedUp.chooses {c d : StatementCache} {key : StatementKey} {lookup : CacheLookup}
    (h : LookedUp c key lookup d) : Chooses c lookup.key lookup.id (d.markPrepared lookup.id) := by
  have marked : (d.markPrepared lookup.id).entries = d.entries ∧
      (d.markPrepared lookup.id).table.length = d.table.length := update_frame d lookup.id _
  cases h with
  | found known prepared mem perm =>
    refine .known (perm.subset mem) ?_ marked.2
    exact marked.1 ▸ perm
  | @created kept closed new room =>
    refine .fresh rfl (fun e he => ?_) (marked.2.trans List.length_append)
    rw [marked.1] at he
    refine (List.mem_cons.mp he).imp_right fun old => ?_
    rcases room with ⟨_, rfl⟩ | ⟨last, entries, _⟩
    · exact old
    · exact entries ▸ List.mem_append_left _ old

theorem LookedUp.name_eq {c d : StatementCache} {key : StatementKey} {lookup : CacheLookup}
    (h : LookedUp c key lookup d) (sound : c.Sound) :
    ((d.statement? lookup.id).getD (.create lookup.id lookup.key)).name =
      Statement.nameOf lookup.id := by
  cases h with
  | @found id s entries known prepared mem perm =>
    have same : ({ c with entries } : StatementCache).statement? id = some s := known
    rw [same]
    exact sound.named id s known
  | created new room =>
    rw [statement?_grown, if_pos rfl]
    rfl

theorem LookedUp.sound {c d : StatementCache} {key : StatementKey} {lookup : CacheLookup}
    (h : LookedUp c key lookup d) (sound : c.Sound) : (d.markPrepared lookup.id).Sound := by
  cases h with
  | found known prepared mem perm =>
    exact (sound.of_entries (by rfl) perm.subperm).update (fun _ => rfl) fun _ _ => rfl
  | @created kept closed new room =>
    refine sound.created new ?_
    rcases room with ⟨_, rfl⟩ | ⟨e, entries, _⟩
    · exact List.Sublist.refl _
    · rw [entries]
      exact List.sublist_append_left _ _

theorem LookedUp.keeps {c d : StatementCache} {key : StatementKey} {lookup : CacheLookup}
    (h : LookedUp c key lookup d) :
    c.Keeps (d.markPrepared lookup.id) ∧ ((d.markPrepared lookup.id).statement? lookup.id).isSome := by
  have marked (d : StatementCache) (id : Nat) (known : (d.statement? id).isSome) :
      ((d.markPrepared id).statement? id).isSome := (Keeps.markPrepared d id).known id known
  cases h with
  | @found id s entries known prepared mem perm =>
    refine ⟨(Keeps.of_table (by rfl)).trans (.markPrepared _ _), marked _ _ ?_⟩
    have same : ({ c with entries } : StatementCache).statement? id = some s := known
    rw [same]
    rfl
  | @created kept closed new room =>
    have grown := statement?_grown c ((key, c.table.length + 1) :: kept)
      (Statement.create (c.table.length + 1) key)
    refine ⟨Keeps.trans ⟨fun id known => ?_, fun id known => ?_⟩ (.markPrepared _ _), marked _ _ ?_⟩
    · rw [grown]
      split
      · rfl
      · exact known
    · have old := (isSome_statement?.mp known).2
      rw [columns?, grown, if_neg (by omega)]
      rfl
    · rw [grown, if_pos rfl]
      rfl

theorem LookedUp.readies {c d : StatementCache} {key : StatementKey} {lookup : CacheLookup}
    (h : LookedUp c key lookup d) (sound : c.Sound) {statement : Statement}
    (executed : statement = (d.statement? lookup.id).getD (.create lookup.id lookup.key))
    (params : EncodedParams) :
    Readies c ⟨lookup.evicted, statement, !statement.prepared, params⟩
      (d.markPrepared lookup.id) := by
  have marked : (d.markPrepared lookup.id).entries = d.entries := (update_frame d lookup.id _).1
  have names := (h.sound sound).cachedNames_eq
  rw [marked] at names
  cases h with
  | @found id s entries known prepared mem perm =>
    have same : ({ c with entries } : StatementCache).statement? id = some s := known
    rw [same, Option.getD_some] at executed
    subst executed
    refine .reused rfl ?_ ?_ ?_ (update_frame _ id _).2
    · rw [prepared]
      rfl
    · rw [sound.cachedNames_eq]
      exact List.mem_map.mpr ⟨(key, id), perm.subset mem, (sound.named id _ known).symm⟩
    · rw [names, sound.cachedNames_eq]
      exact perm.map _
  | @created kept closed new room =>
    have last := statement?_grown c ((key, c.table.length + 1) :: kept)
      (Statement.create (c.table.length + 1) key) (c.table.length + 1)
    rw [if_pos rfl] at last
    rw [last, Option.getD_some] at executed
    subst executed
    have room : closed = none ∧ kept.map (fun e => Statement.nameOf e.2) = c.cachedNames ∨
        ∃ old, closed = some old ∧ c.cachedNames = kept.map (fun e => Statement.nameOf e.2) ++ [old] := by
      rw [sound.cachedNames_eq]
      rcases room with ⟨none_, rfl⟩ | ⟨e, entries, closed⟩
      · exact .inl ⟨none_, rfl⟩
      · refine .inr ⟨_, closed, ?_⟩
        rw [entries, List.map_append]
        rfl
    refine .prepared ?_ ?_ room ?_ ?_
    · rfl
    · rfl
    · exact names
    · rw [markPrepared, (update_frame _ _ _).2, List.length_append]
      rfl

end StatementCache

namespace Connection

theorem prepare_eq {c : Connection ρ} {s : Submission ρ} {p : Prepared}
    (h : c.prepare s = .ok p) :
    ∃ key params, ∃ statement : Statement,
      statement = ((c.cache.lookupKey key).2.statement? (c.cache.lookupKey key).1.id).getD
        (.create (c.cache.lookupKey key).1.id (c.cache.lookupKey key).1.key) ∧
      p = ⟨⟨(c.cache.lookupKey key).1.evicted, statement, !statement.prepared, params⟩,
        (c.cache.lookupKey key).1,
        (c.cache.lookupKey key).2.markPrepared (c.cache.lookupKey key).1.id⟩ := by
  cases encoded : Param.encodeAll s.params with
  | error e => simp [prepare, encoded, Except.mapError, bind, Except.bind] at h
  | ok params =>
    cases ofQuery : StatementKey.ofQuery s.query params.types with
    | error e =>
      simp [prepare, encoded, StatementCache.lookup, ofQuery, Except.mapError, Except.map, bind,
        Except.bind] at h
    | ok key =>
      simp only [prepare, encoded, StatementCache.lookup, ofQuery, Except.mapError, Except.map, bind,
        Except.bind, pure, Except.pure, Except.ok.injEq] at h
      exact ⟨key, params, _, rfl, h.symm⟩

theorem prepare_readies {c : Connection ρ} {s : Submission ρ} {p : Prepared}
    (sound : c.cache.Sound) (h : c.prepare s = .ok p) : c.cache.Readies p.batch p.cache := by
  obtain ⟨key, params, statement, executed, rfl⟩ := prepare_eq h
  exact (sound.lookedUp key).readies sound executed params

theorem prepare_sound {c : Connection ρ} {s : Submission ρ} {p : Prepared}
    (sound : c.cache.Sound) (h : c.prepare s = .ok p) : p.cache.Sound := by
  obtain ⟨key, params, statement, executed, rfl⟩ := prepare_eq h
  exact (sound.lookedUp key).sound sound

theorem prepare_keeps {c : Connection ρ} {s : Submission ρ} {p : Prepared}
    (sound : c.cache.Sound) (h : c.prepare s = .ok p) :
    c.cache.Keeps p.cache ∧ (p.cache.statement? p.lookup.id).isSome := by
  obtain ⟨key, params, statement, executed, rfl⟩ := prepare_eq h
  exact (sound.lookedUp key).keeps

theorem prepare_chooses {c : Connection ρ} {s : Submission ρ} {p : Prepared}
    (sound : c.cache.Sound) (h : c.prepare s = .ok p) :
    c.cache.Chooses p.lookup.key p.lookup.id p.cache ∧
      p.batch.statement.name = Statement.nameOf p.lookup.id := by
  obtain ⟨key, params, statement, rfl, rfl⟩ := prepare_eq h
  exact ⟨(sound.lookedUp key).chooses, (sound.lookedUp key).name_eq sound⟩

end Connection

end PgPipeline
