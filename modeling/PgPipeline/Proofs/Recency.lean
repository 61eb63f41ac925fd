import Mathlib.Data.List.TakeWhile
import PgPipeline.Proofs.Cache
import PgPipeline.Statement.Cache.History

/-!
The statement cache drops what was used the longest ago.

What a call can do to a cache is said once (`StatementCache.Did`). The entries stand in the order
of their last use (`StatementCache.Regular`), so the last entry is the oldest one, and an entry
that left the cache never comes back under its number.
-/

namespace PgPipeline

theorem Text.mem_trim {c : Char} {cs : List Char} (mem : c ∈ cs) (visible : isBlank c = false) :
    c ∈ trim cs := by
  have kept {ds : List Char} (mem : c ∈ ds) : c ∈ ds.dropWhile isBlank := by
    rw [← List.takeWhile_append_dropWhile (p := isBlank) (l := ds), List.mem_append] at mem
    refine mem.resolve_left fun blank => ?_
    rw [List.mem_takeWhile_imp blank] at visible
    cases visible
  exact List.mem_reverse.mpr (kept (List.mem_reverse.mpr (kept mem)))

theorem Text.trim_subset (cs : List Char) : trim cs ⊆ cs := by
  intro c mem
  have mem := (List.dropWhile_sublist _).subset (List.mem_reverse.mp mem)
  exact (List.dropWhile_sublist _).subset (List.mem_reverse.mp mem)

theorem Text.trim_eq_nil {cs : List Char} : trim cs = [] ↔ ∀ c ∈ cs, isBlank c = true := by
  constructor
  · intro nothing c mem
    cases visible : isBlank c with
    | true => rfl
    | false => exact absurd (mem_trim mem visible) (by simp [nothing])
  · intro blank
    rw [trim, trimStart, List.dropWhile_eq_nil_iff.mpr blank]
    rfl

/-- A query text that no statement can be made of: it is blank or holds a zero character. -/
def Unusable (query : String) : Prop :=
  (∀ c ∈ query.toList, Text.isBlank c = true) ∨ '\x00' ∈ query.toList

theorem ofQuery_fails_iff (query : String) (signature : Signature) :
    (∃ e, StatementKey.ofQuery query signature = .error e) ↔ Unusable query := by
  have nul : (Text.trim query.toList).any (fun c => c.toNat = 0) = true ↔
      '\x00' ∈ query.toList := by
    rw [List.any_eq_true]
    constructor
    · rintro ⟨c, mem, zero⟩
      have same : c = '\x00' := Char.toNat_inj.mp (by simpa using zero)
      exact same ▸ Text.trim_subset _ mem
    · intro mem
      exact ⟨'\x00', Text.mem_trim mem (by decide), by decide⟩
  rw [Unusable, ← Text.trim_eq_nil, ← nul, StatementKey.ofQuery, normalizeQuery,
    ← List.isEmpty_iff]
  split
  · next nothing => simp [nothing, Except.map]
  · next something =>
    split
    · next holds => simp [holds, Except.map]
    · next clean => simp [something, clean, Except.map]

namespace StatementCache

variable {c d : StatementCache} {call : Call} {answer : Answer} {key : StatementKey}
  {id : StatementId} {past trace : List (Call × Answer)}

inductive Room (c : StatementCache) : List (StatementKey × StatementId) → Option String → Prop
  | free (vacant : c.isFull = false) : Room c c.entries none
  | evicts {kept : List (StatementKey × StatementId)} {e : StatementKey × StatementId}
      (full : c.isFull = true) (last : c.entries = kept ++ [e]) :
      Room c kept (if c.isPrepared e.2 then some (c.nameOf e.2) else none)

inductive Did (c : StatementCache) : Call → Answer → StatementCache → Prop
  | hit {query : String} {signature : Signature} {key : StatementKey} {id : StatementId}
      (reads : StatementKey.ofQuery query signature = .ok key) (held : c.peek? key = some id) :
      Did c (.lookup query signature) (.found ⟨key, id, false, none⟩)
        { c with entries := (key, id) :: c.entries.filter fun e => e.1 ≠ key }
  | miss {query : String} {signature : Signature} {key : StatementKey}
      {kept : List (StatementKey × StatementId)} {closed : Option String}
      (reads : StatementKey.ofQuery query signature = .ok key) (new : c.peek? key = none)
      (room : Room c kept closed) :
      Did c (.lookup query signature) (.found ⟨key, c.table.length + 1, true, closed⟩)
        { c with
          entries := (key, c.table.length + 1) :: kept
          table := c.table ++ [Statement.create (c.table.length + 1) key] }
  | refused {query : String} {signature : Signature} {e : QueryError}
      (fails : StatementKey.ofQuery query signature = .error e) :
      Did c (.lookup query signature) (.refused e) c
  | peeked {key : StatementKey} : Did c (.peek key) (.peeked (c.peek? key)) c
  | invalidated {key : StatementKey} {name : String} (holds : c.holds key name = true) :
      Did c (.invalidate key name) (.invalidated true)
        { c with entries := c.entries.filter fun e => e.1 ≠ key }
  | kept {key : StatementKey} {name : String} (other : c.holds key name = false) :
      Did c (.invalidate key name) (.invalidated false) c
  | marked {id : StatementId} (known : (c.statement? id).isSome) :
      Did c (.markPrepared id) (.marked (!c.isPrepared id)) (c.markPrepared id)
  | unknown {id : StatementId} (missing : c.statement? id = none) :
      Did c (.markPrepared id) .unknown c
  | cleared : Did c .clear .cleared c.clear

theorem isFull_iff : c.isFull = true ↔ ∃ n, c.capacity = some n ∧ 0 < n ∧ n ≤ c.size := by
  unfold isFull size
  cases c.capacity <;> simp

theorem closedName (c : StatementCache) (id : StatementId) :
    ((c.statement? id).bind fun s => if s.prepared then some s.name else none) =
      if c.isPrepared id then some (c.nameOf id) else none := by
  unfold isPrepared nameOf
  cases c.statement? id <;> rfl

theorem did_lookup (c : StatementCache) {query : String} {signature : Signature}
    (reads : StatementKey.ofQuery query signature = .ok key) :
    Did c (.lookup query signature) (.found (c.lookupKey key).1) (c.lookupKey key).2 := by
  unfold lookupKey
  cases held : c.peek? key with
  | some id => exact .hit reads held
  | none =>
    refine .miss reads held ?_
    cases full : c.isFull with
    | false => exact .free full
    | true =>
      obtain ⟨n, -, positive, most⟩ := isFull_iff.mp full
      have nonempty : c.entries ≠ [] := List.ne_nil_of_length_pos (Nat.lt_of_lt_of_le positive most)
      have last := List.getLast?_eq_some_getLast nonempty
      generalize c.entries.getLast nonempty = e at last
      have room := Room.evicts full (List.dropLast_append_getLast? e last).symm
      rw [← closedName] at room
      simpa [oldest?, last] using room

theorem did (c : StatementCache) (call : Call) :
    Did c call (c.perform call).1 (c.perform call).2 := by
  cases call with
  | lookup query signature =>
    cases reads : StatementKey.ofQuery query signature with
    | error e =>
      simp only [perform, lookup, reads]
      exact .refused reads
    | ok key =>
      simp only [perform, lookup, reads]
      exact c.did_lookup reads
  | peek key => exact .peeked
  | invalidate key name =>
    cases holds : c.holds key name with
    | true =>
      simp only [perform, invalidate, holds, if_true]
      exact .invalidated holds
    | false =>
      simp only [perform, invalidate, holds]
      exact .kept holds
  | markPrepared id =>
    simp only [perform]
    split
    · next known => exact .marked known
    · next missing => exact .unknown (Option.not_isSome_iff_eq_none.mp missing)
  | clear => exact .cleared

theorem Did.capacity (did : Did c call answer d) : d.capacity = c.capacity := by
  cases did with
  | hit | miss | refused | peeked | kept | unknown | invalidated | cleared => rfl
  | marked =>
    unfold markPrepared update
    split <;> rfl

theorem Did.table_le (did : Did c call answer d) : c.table.length ≤ d.table.length := by
  cases did with
  | hit | refused | peeked | kept | unknown | invalidated | cleared => exact Nat.le_refl _
  | miss => simp
  | marked => exact Nat.le_of_eq (c.update_frame _ _).2.symm

section
variable {used : List StatementKey} {other : StatementKey}

theorem UsedBefore.ne (h : UsedBefore used key other) : key ≠ other := by
  rintro rfl
  obtain ⟨later, -, mem, not_mem⟩ := h
  exact not_mem mem

theorem UsedBefore.asymm (h : UsedBefore used key other) : ¬ UsedBefore used other key := by
  rintro ⟨late, ends, mem, not_mem⟩
  obtain ⟨later, ends_, mem_, not_mem_⟩ := h
  rcases List.suffix_or_suffix_of_suffix ends ends_ with shorter | shorter
  · exact not_mem_ (shorter.subset mem)
  · exact not_mem (shorter.subset mem_)

theorem UsedBefore.append {next : StatementKey} (h : UsedBefore used key other)
    (apart : key ≠ next) : UsedBefore (used ++ [next]) key other := by
  obtain ⟨later, ends, mem, not_mem⟩ := h
  refine ⟨later ++ [next], (List.suffix_append_inj_of_length_eq rfl).mpr ⟨ends, rfl⟩, ?_, ?_⟩
  · exact List.mem_append_left _ mem
  · simp [not_mem, apart]

theorem usedBefore_append (used : List StatementKey) (apart : key ≠ other) :
    UsedBefore (used ++ [other]) key other :=
  ⟨[other], List.suffix_append _ _, List.mem_singleton_self _, by simpa using apart⟩

end

theorem lookups_append (past : List (Call × Answer)) (call : Call) (answer : Answer) :
    lookups (past ++ [(call, answer)]) = lookups past ++ answer.lookup?.toList := by
  cases answer <;> simp [lookups, Answer.lookup?]

theorem uses_append (past : List (Call × Answer)) (call : Call) (answer : Answer) :
    uses (past ++ [(call, answer)]) = uses past ++ answer.lookup?.toList.map (·.key) := by
  rw [uses, lookups_append, List.map_append, uses]

theorem created_append (past : List (Call × Answer)) (call : Call) (answer : Answer) :
    created (past ++ [(call, answer)]) =
      created past ++ answer.lookup?.toList.filter (·.created) := by
  rw [created, lookups_append, List.filter_append, created]

/-- The entries stand in the order of their last use, the most recent one first. -/
structure Regular (c : StatementCache) (past : List (Call × Answer)) : Prop where
  recent : c.entries.Pairwise fun e f => UsedBefore (uses past) f.1 e.1
  ids : (c.entries.map (·.2)).Nodup
  held : ∀ e ∈ c.entries, e.2 ≤ c.table.length
  bounded : ∀ n, c.capacity = some n → 0 < n → c.size ≤ n

theorem Regular.empty (capacity : Option Nat) : Regular (empty capacity) [] :=
  ⟨.nil, List.nodup_nil, nofun, fun n _ _ => Nat.zero_le n⟩

theorem Regular.keys (h : Regular c past) : (c.entries.map (·.1)).Nodup :=
  List.pairwise_map.mpr (h.recent.imp fun before => before.ne.symm)

theorem Regular.of_sublist (h : Regular c past) (table : c.table.length ≤ d.table.length)
    (capacity : d.capacity = c.capacity) (sub : d.entries.Sublist c.entries)
    (used : uses trace = uses past) : Regular d trace := by
  constructor
  · rw [used]
    exact h.recent.sublist sub
  · exact h.ids.sublist (sub.map _)
  · exact fun e he => Nat.le_trans (h.held e (sub.subset he)) table
  · intro n limit positive
    exact Nat.le_trans sub.length_le (h.bounded n (capacity ▸ limit) positive)

theorem Regular.push (h : Regular c past) {kept : List (StatementKey × StatementId)}
    (sub : kept.Sublist c.entries) (apart : ∀ e ∈ kept, e.1 ≠ key ∧ e.2 ≠ id)
    (table : c.table.length ≤ d.table.length) (capacity : d.capacity = c.capacity)
    (entries : d.entries = (key, id) :: kept) (made : id ≤ d.table.length)
    (room : ∀ n, c.capacity = some n → 0 < n → kept.length < n)
    (used : uses trace = uses past ++ [key]) : Regular d trace := by
  constructor
  · rw [used, entries]
    refine List.pairwise_cons.mpr ⟨fun e he => usedBefore_append _ (apart e he).1, ?_⟩
    refine (h.recent.sublist sub).imp_of_mem ?_
    intro e f _ hf before
    exact before.append (apart f hf).1
  · rw [entries]
    refine List.nodup_cons.mpr ⟨fun mem => ?_, h.ids.sublist (sub.map _)⟩
    obtain ⟨e, he, same⟩ := List.mem_map.mp mem
    exact (apart e he).2 same
  · rw [entries]
    refine List.forall_mem_cons.mpr ⟨made, fun e he => ?_⟩
    exact Nat.le_trans (h.held e (sub.subset he)) table
  · intro n limit positive
    rw [size, entries]
    exact room n (capacity ▸ limit) positive

theorem Room.sublist {kept : List (StatementKey × StatementId)} {closed : Option String}
    (room : Room c kept closed) : kept.Sublist c.entries := by
  cases room with
  | free => exact List.Sublist.refl _
  | evicts full last =>
    rw [last]
    exact List.sublist_append_left _ _

theorem Room.length_lt {kept : List (StatementKey × StatementId)} {closed : Option String}
    (room : Room c kept closed) (h : Regular c past) {n : Nat} (limit : c.capacity = some n)
    (positive : 0 < n) : kept.length < n := by
  cases room with
  | free vacant =>
    refine Nat.lt_of_not_le fun most => ?_
    rw [isFull_iff.mpr ⟨n, limit, positive, most⟩] at vacant
    cases vacant
  | evicts full last =>
    have bounded := h.bounded n limit positive
    rw [size, last, List.length_append, List.length_singleton] at bounded
    omega

theorem Did.regular (did : Did c call answer d) (h : Regular c past) :
    Regular d (past ++ [(call, answer)]) := by
  have table := did.table_le
  have capacity := did.capacity
  have used := uses_append past call answer
  have quiet (nothing : answer.lookup? = none) : uses (past ++ [(call, answer)]) = uses past := by
    simp [used, nothing]
  cases did with
  | @hit query signature key id reads held =>
    have mem := (peek?_eq_some_iff h.keys).mp held
    refine h.push List.filter_sublist ?_ table capacity rfl (h.held _ mem) ?_ used
    · intro e he
      obtain ⟨he, apart⟩ := List.mem_filter.mp he
      have apart : e.1 ≠ key := by simpa using apart
      refine ⟨apart, fun same => apart ?_⟩
      exact congrArg Prod.fst (List.inj_on_of_nodup_map h.ids he mem same)
    -- the entry that comes to the front leaves its place
    · intro n limit positive
      refine Nat.lt_of_lt_of_le ?_ (h.bounded n limit positive)
      exact List.length_filter_lt_length_iff_exists.mpr ⟨_, mem, by simp⟩
  | miss reads new room =>
    refine h.push room.sublist ?_ table capacity rfl (by simp)
      (fun n limit positive => room.length_lt h limit positive) used
    intro e he
    have he := room.sublist.subset he
    exact ⟨peek?_eq_none_iff.mp new e he, Nat.ne_of_lt (Nat.lt_succ_of_le (h.held e he))⟩
  | refused | peeked | kept | unknown =>
    exact h.of_sublist table capacity (List.Sublist.refl _) (quiet rfl)
  | invalidated => exact h.of_sublist table capacity List.filter_sublist (quiet rfl)
  | @marked id =>
    have entries : (c.markPrepared id).entries = c.entries := (c.update_frame id _).1
    exact h.of_sublist table capacity (entries ▸ List.Sublist.refl _) (quiet rfl)
  | cleared => exact h.of_sublist table capacity (List.nil_sublist _) (quiet rfl)

structure Recorded (c : StatementCache) (past : List (Call × Answer)) : Prop where
  made : (created past).map (·.id) = List.range' 1 c.table.length
  named : ∀ id s, c.statement? id = some s → s.name = Statement.nameOf id
  carries : ∀ l ∈ created past, ∃ s, c.statement? l.id = some s ∧ s.query = l.key.query ∧
    s.types = l.key.signature
  marked : ∀ id, c.isPrepared id = true ↔ ∃ first, (.markPrepared id, .marked first) ∈ past

theorem Recorded.empty (capacity : Option Nat) : Recorded (empty capacity) [] := by
  refine ⟨rfl, fun id s known => ?_, nofun, fun id => ?_⟩
  · simp [StatementCache.empty, statement?] at known
  · simp [StatementCache.empty, isPrepared, statement?]

theorem Recorded.of_table (h : Recorded c past) (table : d.table = c.table)
    (quiet : created trace = created past)
    (unmarked : ∀ id first, (.markPrepared id, .marked first) ∈ trace ↔
      (.markPrepared id, .marked first) ∈ past) : Recorded d trace := by
  have same (id : Nat) : d.statement? id = c.statement? id := by rw [statement?, statement?, table]
  constructor
  · rw [quiet, table, h.made]
  · intro id s known
    exact h.named id s (same id ▸ known)
  · simpa [quiet, same] using h.carries
  · intro id
    rw [isPrepared, same, ← isPrepared, h.marked]
    simp only [unmarked]

theorem isPrepared_grown (c : StatementCache) (entries : List (StatementKey × StatementId))
    (key : StatementKey) (id : StatementId) :
    ({ c with
      entries
      table := c.table ++ [Statement.create (c.table.length + 1) key] } :
        StatementCache).isPrepared id = c.isPrepared id := by
  rw [isPrepared, statement?_grown, isPrepared]
  split
  · next last =>
    have missing : c.statement? id = none := by
      refine Option.not_isSome_iff_eq_none.mp fun known => ?_
      have within := (isSome_statement?.mp known).2
      omega
    rw [missing]
    rfl
  · rfl

theorem isPrepared_markPrepared (known : (c.statement? id).isSome) (k : StatementId) :
    (c.markPrepared id).isPrepared k = true ↔ k = id ∨ c.isPrepared k = true := by
  rw [isPrepared, markPrepared, statement?_update]
  split
  · next same =>
    subst same
    obtain ⟨s, found⟩ := Option.isSome_iff_exists.mp known
    simp [found]
  · next other => simp [other, isPrepared]

theorem Did.recorded (did : Did c call answer d) (h : Recorded c past) :
    Recorded d (past ++ [(call, answer)]) := by
  have made := created_append past call answer
  have quiet (nothing : answer.lookup?.toList.filter (·.created) = []) :
      created (past ++ [(call, answer)]) = created past := by rw [made, nothing, List.append_nil]
  cases did with
  | hit | refused | peeked | invalidated | kept | unknown | cleared =>
    exact h.of_table rfl (quiet rfl) (by simp)
  | @miss query signature key kept closed reads new room =>
    constructor
    · rw [made]
      simp [Answer.lookup?, h.made, List.range'_concat, Nat.add_comm]
    · intro id s known
      rw [statement?_grown] at known
      split at known
      · next last =>
        cases known
        rw [last]
        rfl
      · exact h.named id s known
    · intro l mem
      rw [made] at mem
      rw [statement?_grown]
      rcases List.mem_append.mp mem with old | new
      · have within : l.id ∈ List.range' 1 c.table.length := h.made ▸ List.mem_map_of_mem old
        rw [List.mem_range'_1] at within
        rw [if_neg (by omega)]
        exact h.carries l old
      · cases List.mem_singleton.mp new
        exact ⟨_, if_pos rfl, rfl, rfl⟩
    · intro id
      rw [isPrepared_grown, h.marked]
      simp
  | @marked id known =>
    constructor
    · rw [quiet rfl, h.made, markPrepared, (c.update_frame id _).2]
    · intro k s found
      rw [markPrepared, statement?_update] at found
      split at found
      · obtain ⟨t, there, rfl⟩ := Option.map_eq_some_iff.mp found
        exact h.named k t there
      · exact h.named k s found
    · intro l mem
      rw [quiet rfl] at mem
      obtain ⟨s, found, query, types⟩ := h.carries l mem
      rw [markPrepared, statement?_update, found]
      split <;> exact ⟨_, rfl, query, types⟩
    · intro k
      rw [isPrepared_markPrepared known, h.marked]
      constructor
      · rintro (rfl | ⟨first, mem⟩)
        · exact ⟨_, List.mem_append_right _ (List.mem_singleton_self _)⟩
        · exact ⟨first, List.mem_append_left _ mem⟩
      · rintro ⟨first, mem⟩
        rcases List.mem_append.mp mem with old | new
        · exact .inr ⟨first, old⟩
        · cases List.mem_singleton.mp new
          exact .inl rfl

theorem Regular.oldest_iff (h : Regular c past) {kept : List (StatementKey × StatementId)}
    {e : StatementKey × StatementId} (last : c.entries = kept ++ [e]) :
    c.Oldest (uses past) key ↔ key = e.1 := by
  have cached {k : StatementKey} : c.peek? k ≠ none ↔ ∃ f ∈ c.entries, f.1 = k := by
    simp [peek?_eq_none_iff]
  -- the last entry was used before all others, so a key that is older than it is no other
  have least : ∀ f ∈ kept, UsedBefore (uses past) e.1 f.1 := by
    have recent := h.recent
    rw [last] at recent
    exact fun f mem => (List.pairwise_append.mp recent).2.2 f mem e (List.mem_singleton_self e)
  constructor
  · rintro ⟨held, before⟩
    by_contra other
    obtain ⟨f, mem, rfl⟩ := cached.mp held
    rw [last] at mem
    rcases List.mem_append.mp mem with mem | mem
    · have late := before e.1 (cached.mpr ⟨e, by simp [last], rfl⟩) (Ne.symm other)
      exact late.asymm (least f mem)
    · exact other (congrArg Prod.fst (List.mem_singleton.mp mem))
  · rintro rfl
    refine ⟨cached.mpr ⟨e, by simp [last], rfl⟩, ?_⟩
    intro k held other
    obtain ⟨f, mem, rfl⟩ := cached.mp held
    rw [last] at mem
    rcases List.mem_append.mp mem with mem | mem
    · exact least f mem
    · exact absurd (congrArg Prod.fst (List.mem_singleton.mp mem)) other

theorem Did.mem_entries (did : Did c call answer d) (h : Regular c past)
    {e : StatementKey × StatementId} (mem : e ∈ d.entries) :
    e ∈ c.entries ∨ c.peek? e.1 = none ∧ e.2 = c.table.length + 1 := by
  cases did with
  | hit reads held =>
    rcases List.mem_cons.mp mem with rfl | mem
    · exact .inl ((peek?_eq_some_iff h.keys).mp held)
    · exact .inl (List.mem_filter.mp mem).1
  | miss reads new room =>
    rcases List.mem_cons.mp mem with rfl | mem
    · exact .inr ⟨new, rfl⟩
    · exact .inl (room.sublist.subset mem)
  | refused | peeked | kept | unknown => exact .inl mem
  | invalidated => exact .inl (List.mem_filter.mp mem).1
  | marked => exact .inl ((c.update_frame _ _).1 ▸ mem)
  | cleared => cases mem

structure Gone (c : StatementCache) (id : StatementId) : Prop where
  made : id ≤ c.table.length
  absent : ∀ e ∈ c.entries, e.2 ≠ id

theorem Did.gone (did : Did c call answer d) (h : Regular c past) (gone : c.Gone id) :
    d.Gone id := by
  refine ⟨Nat.le_trans gone.made did.table_le, fun e mem => ?_⟩
  rcases did.mem_entries h mem with old | ⟨-, new⟩
  · exact gone.absent e old
  · exact Nat.ne_of_gt (new ▸ Nat.lt_succ_of_le gone.made)

theorem Did.entry (did : Did c call answer d) (h : Regular c past) (held : c.peek? key = some id) :
    d.peek? key = some id ∨ d.peek? key = none ∧ d.Gone id := by
  have mem := (peek?_eq_some_iff h.keys).mp held
  have keys := (did.regular h).keys
  cases after : d.peek? key with
  | some k =>
    left
    have there := (peek?_eq_some_iff keys).mp after
    rcases did.mem_entries h there with old | ⟨new, -⟩
    · rw [← held, (peek?_eq_some_iff h.keys).mpr old]
    · rw [held] at new
      cases new
  | none =>
    refine .inr ⟨rfl, Nat.le_trans (h.held _ mem) did.table_le, fun e there same => ?_⟩
    rcases did.mem_entries h there with old | ⟨-, new⟩
    · have same : e = (key, id) := List.inj_on_of_nodup_map h.ids old mem same
      exact peek?_eq_none_iff.mp after e there (congrArg Prod.fst same)
    · exact Nat.ne_of_gt (new ▸ Nat.lt_succ_of_le (h.held _ mem)) same

theorem Did.removal (did : Did c call answer d) (h : Regular c past)
    (held : c.peek? key = some id) (after : d.peek? key = none) :
    call = .clear ∨ call = .invalidate key (c.nameOf id) ∨
      ∃ query signature new, call = .lookup query signature ∧
        StatementKey.ofQuery query signature = .ok new ∧ c.peek? new = none ∧
        c.isFull = true ∧ c.Oldest (uses past) key := by
  have mem := (peek?_eq_some_iff h.keys).mp held
  have absent : (key, id) ∉ d.entries := fun mem => peek?_eq_none_iff.mp after _ mem rfl
  cases did with
  | @hit query signature used k reads there =>
    by_cases same : key = used
    · subst same
      exact absurd rfl (peek?_eq_none_iff.mp after _ List.mem_cons_self)
    · exact absurd (List.mem_cons_of_mem _ (List.mem_filter.mpr ⟨mem, by simpa using same⟩)) absent
  | @miss query signature new kept closed reads missing room =>
    cases room with
    | free => exact absurd (List.mem_cons_of_mem _ mem) absent
    | @evicts _ e full last =>
      rw [last] at mem
      rcases List.mem_append.mp mem with mem | mem
      · exact absurd (List.mem_cons_of_mem _ mem) absent
      · have same : key = e.1 := congrArg Prod.fst (List.mem_singleton.mp mem)
        exact .inr (.inr ⟨_, _, new, rfl, reads, missing, full, (h.oldest_iff last).mpr same⟩)
  | refused | peeked | kept | unknown => exact absurd mem absent
  | @invalidated other name holds =>
    by_cases same : key = other
    · subst same
      simp only [StatementCache.holds, held, beq_iff_eq] at holds
      exact .inr (.inl (by rw [holds]))
    · exact absurd (List.mem_filter.mpr ⟨mem, by simpa using same⟩) absent
  | marked => exact absurd ((c.update_frame _ _).1.symm ▸ mem) absent
  | cleared => exact .inl rfl

/-- An entry leaves the cache when it is cleared, when it is invalidated under its name, or when a
new entry needs room and it is the oldest one. -/
theorem Regular.removes_iff (h : Regular c past) (call : Call) (key : StatementKey) :
    c.Removes call key ↔ ∃ id, c.peek? key = some id ∧
      (call = .clear ∨ call = .invalidate key (c.nameOf id) ∨
        ∃ query signature new, call = .lookup query signature ∧
          StatementKey.ofQuery query signature = .ok new ∧ c.peek? new = none ∧
          c.isFull = true ∧ c.Oldest (uses past) key) := by
  constructor
  · rintro ⟨held, after⟩
    obtain ⟨id, held⟩ := Option.ne_none_iff_exists'.mp held
    exact ⟨id, held, (c.did call).removal h held after⟩
  · rintro ⟨id, held, cause⟩
    refine ⟨by simp [held], ?_⟩
    rcases cause with rfl | rfl | ⟨query, signature, new, rfl, reads, missing, full, oldest⟩
    · rfl
    · have holds : c.holds key (c.nameOf id) = true := by simp [StatementCache.holds, held]
      simp only [perform, invalidate, holds, if_true]
      exact peek?_eq_none_iff.mpr fun e mem => by simpa using (List.mem_filter.mp mem).2
    · have did := c.did (.lookup query signature)
      generalize (c.perform (.lookup query signature)).1 = answer at did
      generalize (c.perform (.lookup query signature)).2 = d at did
      cases did with
      | hit reads_ there =>
        cases reads.symm.trans reads_
        rw [missing] at there
        cases there
      | refused fails =>
        rw [reads] at fails
        cases fails
      | miss reads_ missing room =>
        cases room with
        | free vacant =>
          rw [full] at vacant
          cases vacant
        | @evicts kept e full last =>
          rw [(h.oldest_iff last).mp oldest] at held ⊢
          have keys := h.keys
          rw [last, List.map_append] at keys
          refine peek?_eq_none_iff.mpr (List.forall_mem_cons.mpr ⟨?_, fun f mem => ?_⟩)
          · rintro rfl
            rw [missing] at held
            cases held
          · exact (List.nodup_append.mp keys).2.2 _ (List.mem_map_of_mem mem) _ (by simp)

theorem lookup_id {query : String} {signature : Signature} {l : CacheLookup}
    (found : (c.perform (.lookup query signature)).1 = .found l) :
    StatementKey.ofQuery query signature = .ok l.key ∧
      (l.created = false ∧ c.peek? l.key = some l.id ∨
        l.created = true ∧ c.peek? l.key = none ∧ l.id = c.table.length + 1) := by
  have did := c.did (.lookup query signature)
  rw [found] at did
  generalize (c.perform (.lookup query signature)).2 = d at did
  cases did with
  | hit reads held => exact ⟨reads, .inl ⟨rfl, held⟩⟩
  | miss reads new room => exact ⟨reads, .inr ⟨rfl, new, rfl⟩⟩

theorem peek?_lookup {query : String} {signature : Signature} {l : CacheLookup}
    (found : (c.perform (.lookup query signature)).1 = .found l) :
    (c.perform (.lookup query signature)).2.peek? l.key = some l.id := by
  have did := c.did (.lookup query signature)
  rw [found] at did
  generalize (c.perform (.lookup query signature)).2 = d at did ⊢
  cases did with
  | hit | miss => exact List.lookup_cons_self

theorem run_cons (c : StatementCache) (past : List (Call × Answer)) (call : Call)
    (calls : List Call) : past ++ (c.run (call :: calls)).1 =
      past ++ [(call, (c.perform call).1)] ++ ((c.perform call).2.run calls).1 :=
  List.append_cons ..

theorem Regular.run (h : Regular c past) (calls : List Call) :
    Regular (c.run calls).2 (past ++ (c.run calls).1) := by
  induction calls generalizing c past with
  | nil => rwa [StatementCache.run, List.append_nil]
  | cons call calls ih =>
    rw [run_cons]
    exact ih ((c.did call).regular h)

theorem Recorded.run (h : Recorded c past) (calls : List Call) :
    Recorded (c.run calls).2 (past ++ (c.run calls).1) := by
  induction calls generalizing c past with
  | nil => rwa [StatementCache.run, List.append_nil]
  | cons call calls ih =>
    rw [run_cons]
    exact ih ((c.did call).recorded h)

theorem Regular.gone_run (h : Regular c past) (gone : c.Gone id) (calls : List Call) :
    (c.run calls).2.Gone id := by
  induction calls generalizing c past with
  | nil => exact gone
  | cons call calls ih =>
    have did := c.did call
    exact ih (did.regular h) (did.gone h gone)

theorem Regular.entry_run (h : Regular c past) (held : c.peek? key = some id) (calls : List Call) :
    Spares key c calls ∧ (c.run calls).2.peek? key = some id ∨
      ¬ Spares key c calls ∧ (c.run calls).2.Gone id := by
  induction calls generalizing c past with
  | nil => exact .inl ⟨trivial, held⟩
  | cons call calls ih =>
    have did := c.did call
    have regular := did.regular h
    have there : c.peek? key ≠ none := by simp [held]
    rcases did.entry h held with after | ⟨after, gone⟩
    · have stays : ¬ c.Removes call key := fun removes => by simp [removes.2] at after
      rcases ih regular after with ⟨spares, last⟩ | ⟨ends, last⟩
      · exact .inl ⟨⟨stays, spares⟩, last⟩
      · exact .inr ⟨fun spares => ends spares.2, last⟩
    · exact .inr ⟨fun spares => spares.1 ⟨there, after⟩, regular.gone_run gone calls⟩

theorem Regular.lookup_id_eq_iff (h : Regular c past) (held : c.peek? key = some id)
    {query : String} {signature : Signature} {l : CacheLookup} (calls : List Call)
    (found : ((c.run calls).2.perform (.lookup query signature)).1 = .found l) :
    l.id = id ↔ l.key = key ∧ Spares key c calls := by
  have regular := h.run calls
  have number := (lookup_id found).2
  rcases h.entry_run held calls with ⟨spares, there⟩ | ⟨ends, gone⟩
  -- the entry is still there: another key has another number, and a new number is a later one
  · rw [and_iff_left spares]
    have mem := (peek?_eq_some_iff regular.keys).mp there
    rcases number with ⟨-, hit⟩ | ⟨-, missing, fresh⟩
    · constructor
      · intro same
        have found := (peek?_eq_some_iff regular.keys).mp hit
        exact congrArg Prod.fst (List.inj_on_of_nodup_map regular.ids found mem same)
      · intro same
        rw [same, there] at hit
        exact (Option.some.inj hit).symm
    · constructor
      · intro same
        have made := regular.held _ mem
        exact absurd (same.symm.trans fresh) (Nat.ne_of_lt (Nat.lt_succ_of_le made))
      · intro same
        rw [same, there] at missing
        cases missing
  -- the number is gone, so the lookup has another one whatever its key
  · refine iff_of_false (fun same => ?_) fun both => ends both.2
    rcases number with ⟨-, hit⟩ | ⟨-, -, fresh⟩
    · exact gone.absent _ ((peek?_eq_some_iff regular.keys).mp hit) same
    · exact absurd (same.symm.trans fresh) (Nat.ne_of_lt (Nat.lt_succ_of_le gone.made))

theorem capacity_run (c : StatementCache) (calls : List Call) :
    (c.run calls).2.capacity = c.capacity := by
  induction calls generalizing c with
  | nil => rfl
  | cons call calls ih => exact (ih _).trans (c.did call).capacity

theorem Regular.isFull_iff (h : Regular c past) (limit : c.capacity ≠ some 0) :
    c.isFull = true ↔ c.capacity = some c.size := by
  rw [StatementCache.isFull_iff]
  constructor
  · rintro ⟨n, same, positive, most⟩
    rw [same, Nat.le_antisymm most (h.bounded n same positive)]
  · intro same
    have positive : c.size ≠ 0 := fun zero => limit (zero ▸ same)
    exact ⟨c.size, same, Nat.pos_of_ne_zero positive, Nat.le_refl _⟩

theorem Regular.exists_oldest (h : Regular c past) (full : c.isFull = true) :
    ∃! key, c.Oldest (uses past) key := by
  obtain ⟨n, -, positive, most⟩ := StatementCache.isFull_iff.mp full
  have nonempty : c.entries ≠ [] := List.ne_nil_of_length_pos (Nat.lt_of_lt_of_le positive most)
  have last := (List.dropLast_append_getLast nonempty).symm
  exact ⟨_, (h.oldest_iff last).mpr rfl, fun key oldest => (h.oldest_iff last).mp oldest⟩

theorem Regular.evicted_iff (h : Regular c past) {query : String} {signature : Signature}
    {l : CacheLookup} (found : (c.perform (.lookup query signature)).1 = .found l)
    (name : String) : l.evicted = some name ↔ l.created = true ∧ c.isFull = true ∧
      ∃ key id, c.Oldest (uses past) key ∧ c.peek? key = some id ∧ c.isPrepared id = true ∧
        c.nameOf id = name := by
  have did := c.did (.lookup query signature)
  rw [found] at did
  generalize (c.perform (.lookup query signature)).2 = d at did
  cases did with
  | hit => simp
  | miss reads new room =>
    cases room with
    | free vacant => simp [vacant]
    | @evicts kept e full last =>
      have held : c.peek? e.1 = some e.2 := (peek?_eq_some_iff h.keys).mpr (by simp [last])
      constructor
      · intro closed
        split at closed
        · next prepared =>
          cases closed
          exact ⟨rfl, full, e.1, e.2, (h.oldest_iff last).mpr rfl, held, prepared, rfl⟩
        · cases closed
      · rintro ⟨-, -, key, id, oldest, there, prepared, rfl⟩
        rw [(h.oldest_iff last).mp oldest, held] at there
        cases there
        exact if_pos prepared

theorem Recorded.names_nodup (h : Recorded c past)
    (few : (created past).length < Statement.nameLimit) :
    ((created past).map fun l => c.nameOf l.id).Nodup := by
  have length : (created past).length = c.table.length := by
    simpa using congrArg List.length h.made
  have below (l : CacheLookup) (mem : l ∈ created past) : l.id < Statement.nameLimit := by
    have within : l.id ∈ List.range' 1 c.table.length := h.made ▸ List.mem_map_of_mem mem
    rw [List.mem_range'_1] at within
    exact Nat.lt_of_lt_of_le within.2 (by omega)
  have named (l : CacheLookup) (mem : l ∈ created past) :
      c.nameOf l.id = Statement.nameOf l.id := by
    obtain ⟨s, known, -, -⟩ := h.carries l mem
    rw [nameOf, known]
    exact h.named l.id s known
  have ids : ((created past).map (·.id)).Nodup := h.made ▸ List.nodup_range'
  refine List.Nodup.map_on ?_ ids.of_map
  intro l mem k mem_ same
  rw [named l mem, named k mem_] at same
  exact List.inj_on_of_nodup_map ids mem mem_
    (Statement.nameOf_injective (below l mem) (below k mem_) same)

/-- A cache behaves as a map that forgets what was used the longest ago. A lookup fails only for an
unusable text, and then nothing changes; two lookups come to the same statement if and only if they
are of one key and its entry did not leave the cache in between. An entry leaves it when it is
cleared, invalidated under its name, or, as the oldest one, makes room in a full cache, which tells
its name if it was marked as prepared. Statements carry their keys under names of their own. -/
theorem run_refines_lru {capacity : Option Nat} (limit : capacity ≠ some 0) (calls : List Call)
    (few : (created ((empty capacity).run calls).1).length < Statement.nameLimit) :
    let trace := ((empty capacity).run calls).1
    let c := ((empty capacity).run calls).2
    (∀ query signature, Unusable query →
        ∃ e, c.perform (.lookup query signature) = (.refused e, c)) ∧
      (∀ query signature, ¬ Unusable query →
        ∃ l, (c.perform (.lookup query signature)).1 = .found l) ∧
      (∀ query signature l, (c.perform (.lookup query signature)).1 = .found l →
        let next := (c.perform (.lookup query signature)).2
        StatementKey.ofQuery query signature = .ok l.key ∧
          next.peek? l.key = some l.id ∧
          (l.created = true ↔ c.peek? l.key = none) ∧
          (∀ name, l.evicted = some name ↔ l.created = true ∧ capacity = some c.size ∧
            ∃ key id, c.Oldest (uses trace) key ∧ c.peek? key = some id ∧
              c.isPrepared id = true ∧ c.nameOf id = name) ∧
          ∀ later query' signature' k,
            ((next.run later).2.perform (.lookup query' signature')).1 = .found k →
            (k.id = l.id ↔
              StatementKey.ofQuery query' signature' = StatementKey.ofQuery query signature ∧
                Spares l.key next later)) ∧
      (∀ call key, c.Removes call key ↔ ∃ id, c.peek? key = some id ∧
        (call = .clear ∨ call = .invalidate key (c.nameOf id) ∨
          ∃ query signature new, call = .lookup query signature ∧
            StatementKey.ofQuery query signature = .ok new ∧ c.peek? new = none ∧
            capacity = some c.size ∧ c.Oldest (uses trace) key)) ∧
      (capacity = some c.size → ∃! key, c.Oldest (uses trace) key) ∧
      ((created trace).map fun l => c.nameOf l.id).Nodup ∧
      (∀ l ∈ created trace, ∃ s, c.statement? l.id = some s ∧ s.query = l.key.query ∧
        s.types = l.key.signature) ∧
      (∀ id, c.isPrepared id = true ↔ ∃ first, (.markPrepared id, .marked first) ∈ trace) ∧
      ∀ n, capacity = some n → c.size ≤ n := by
  intro trace c
  have regular : Regular c trace := (Regular.empty capacity).run calls
  have recorded : Recorded c trace := (Recorded.empty capacity).run calls
  have same : c.capacity = capacity := capacity_run (empty capacity) calls
  have full : c.isFull = true ↔ capacity = some c.size := by
    rw [regular.isFull_iff (same.symm ▸ limit), same]
  refine ⟨?_, ?_, ?_, ?_, ?_, recorded.names_nodup few, recorded.carries, recorded.marked, ?_⟩
  · intro query signature unusable
    obtain ⟨e, fails⟩ := (ofQuery_fails_iff query signature).mpr unusable
    exact ⟨e, by simp only [perform, lookup, fails]; rfl⟩
  · intro query signature usable
    cases reads : StatementKey.ofQuery query signature with
    | error e => exact absurd ((ofQuery_fails_iff query signature).mp ⟨e, reads⟩) usable
    | ok key => exact ⟨_, by simp only [perform, lookup, reads]; rfl⟩
  · intro query signature l found next
    obtain ⟨reads, number⟩ := lookup_id found
    have held : next.peek? l.key = some l.id := peek?_lookup found
    refine ⟨reads, held, ?_, ?_, ?_⟩
    · rcases number with ⟨old, hit⟩ | ⟨new, missing, -⟩
      · simp [old, hit]
      · simp [new, missing]
    · intro name
      rw [regular.evicted_iff found, full]
    · intro later query' signature' k again
      have after := (c.did (.lookup query signature)).regular regular
      rw [after.lookup_id_eq_iff held later again, reads, (lookup_id again).1, Except.ok.injEq]
  · intro call key
    rw [regular.removes_iff call key, full]
  · intro most
    exact regular.exists_oldest (full.mpr most)
  · intro n most
    have positive : n ≠ 0 := fun zero => limit (zero ▸ most)
    exact regular.bounded n (same.trans most) (Nat.pos_of_ne_zero positive)

theorem run_refines_lru_second_use :
    let calls : List Call := [.lookup "q1" [], .markPrepared 1, .lookup "q2" [], .lookup "q1" []]
    let trace := ((empty (some 2)).run calls).1
    let c := ((empty (some 2)).run calls).2
    some 2 ≠ some 0 ∧ (created trace).length < Statement.nameLimit ∧ c.size ≤ 2 ∧
      c.Removes (.lookup "q3" []) ⟨"q2", []⟩ ∧ c.Oldest (uses trace) ⟨"q2", []⟩ := by
  intro calls trace c
  have limit : some 2 ≠ some 0 := by decide
  have few : (created trace).length < Statement.nameLimit := by decide
  have removed : c.Removes (.lookup "q3" []) ⟨"q2", []⟩ := ⟨by decide, by decide⟩
  obtain ⟨-, -, -, removes, -, -, -, -, bounded⟩ := run_refines_lru limit calls few
  obtain ⟨id, -, cause⟩ := (removes _ _).mp removed
  rcases cause with other | other | ⟨-, -, -, -, -, -, -, oldest⟩
  · cases other
  · cases other
  · exact ⟨limit, few, bounded 2 rfl, removed, oldest⟩

end StatementCache

end PgPipeline
