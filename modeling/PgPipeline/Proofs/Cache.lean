import Mathlib.Data.List.Nodup
import Mathlib.Data.List.Perm.Subperm
import PgPipeline.Statement.Cache

namespace PgPipeline

open scoped List

/-- How many statements a connection can create before a name comes again. -/
def Statement.nameLimit : Nat := 4294967296

namespace Statement

theorem nameOf_eq_iff {m n : Nat} : nameOf m = nameOf n ↔ m % nameLimit = n % nameLimit := by
  constructor
  · intro h
    have digits : Nat.repr (m % nameLimit) = Nat.repr (n % nameLimit) := by
      have same : "__pm_" ++ Nat.repr (m % nameLimit) = "__pm_" ++ Nat.repr (n % nameLimit) := h
      have lists := congrArg String.toList same
      rw [String.toList_append, String.toList_append] at lists
      exact String.toList_injective (List.append_cancel_left lists)
    have numbers (k : Nat) : Nat.ofDigitChars 10 (Nat.repr k).toList 0 = k := by
      rw [Nat.repr_eq_ofList_toDigits, String.toList_ofList]
      exact Nat.ofDigitChars_toDigits (by decide) (by decide)
    exact (numbers _).symm.trans
      ((congrArg (fun s => Nat.ofDigitChars 10 s.toList 0) digits).trans (numbers _))
  · exact congrArg fun number => "__pm_" ++ Nat.repr number

theorem nameOf_injective {m n : Nat} (hm : m < nameLimit) (hn : n < nameLimit)
    (h : nameOf m = nameOf n) : m = n := by
  have same := nameOf_eq_iff.mp h
  rwa [Nat.mod_eq_of_lt hm, Nat.mod_eq_of_lt hn] at same

end Statement

namespace StatementCache

variable {c d : StatementCache} {id : Nat} {s : Statement} {key : StatementKey}

theorem statement?_update (c : StatementCache) (id k : Nat) (f : Statement → Statement) :
    (c.update id f).statement? k =
      if k = id then (c.statement? k).map f else c.statement? k := by
  unfold update statement?
  rcases Nat.eq_zero_or_pos id with rfl | hid
  · rcases Nat.eq_zero_or_pos k with rfl | hk
    · simp
    · simp [Nat.ne_of_gt hk]
  · rw [if_neg (Nat.ne_of_gt hid)]
    rcases Nat.eq_zero_or_pos k with rfl | hk
    · simp
    · rw [if_neg (Nat.ne_of_gt hk), if_neg (Nat.ne_of_gt hk), List.getElem?_modify]
      have same : id - 1 = k - 1 ↔ k = id := by omega
      simp only [same]
      split <;> simp

theorem update_frame (c : StatementCache) (id : Nat) (f : Statement → Statement) :
    (c.update id f).entries = c.entries ∧ (c.update id f).table.length = c.table.length := by
  unfold update
  split
  · exact ⟨rfl, rfl⟩
  · exact ⟨rfl, List.length_modify _ _ _⟩

theorem columns?_learnColumns (known : (c.statement? id).isSome) (columns : List Column) :
    (c.learnColumns id columns).columns? id = some ((c.columns? id).getD columns) := by
  obtain ⟨s, hs⟩ := Option.isSome_iff_exists.mp known
  unfold columns? learnColumns
  rw [statement?_update, if_pos rfl, hs]
  unfold Statement.learnColumns
  cases h : s.columns <;> simp [h]

structure Keeps (c d : StatementCache) : Prop where
  known : ∀ id, (c.statement? id).isSome → (d.statement? id).isSome
  columns : ∀ id, (c.statement? id).isSome → d.columns? id = c.columns? id

theorem Keeps.of_table (h : d.table = c.table) : Keeps c d := by
  have same (id : Nat) : d.statement? id = c.statement? id := by
    rw [statement?, statement?, h]
  constructor
  · intro id known
    rwa [same]
  · intro id _
    rw [columns?, columns?, same]

theorem Keeps.trans {e : StatementCache} (h : Keeps c d) (k : Keeps d e) : Keeps c e := by
  constructor
  · intro id known
    exact k.known id (h.known id known)
  · intro id known
    exact (k.columns id (h.known id known)).trans (h.columns id known)

theorem Keeps.markPrepared (c : StatementCache) (id : Nat) :
    Keeps c (c.markPrepared id) := by
  constructor
  · intro k known
    rw [StatementCache.markPrepared, statement?_update]
    split
    · rwa [Option.isSome_map]
    · exact known
  · intro k _
    rw [columns?, columns?, StatementCache.markPrepared, statement?_update]
    split
    · cases c.statement? k <;> rfl
    · rfl

structure Forgets (c d : StatementCache) : Prop where
  table : d.table = c.table
  entries : d.entries.Sublist c.entries

theorem Forgets.refl (c : StatementCache) : Forgets c c := ⟨rfl, List.Sublist.refl _⟩

theorem forgets_invalidate (c : StatementCache) (key : StatementKey) (name : String) :
    c.Forgets (c.invalidate key name) := by
  unfold invalidate
  split
  · exact ⟨rfl, List.filter_sublist⟩
  · exact .refl c

theorem known_learnColumns {k : Nat} (known : (c.statement? k).isSome)
    (columns : List Column) : ((c.learnColumns id columns).statement? k).isSome := by
  rw [learnColumns, statement?_update]
  split
  · rwa [Option.isSome_map]
  · exact known

theorem isSome_statement? : (c.statement? id).isSome ↔ 0 < id ∧ id ≤ c.table.length := by
  unfold statement?
  split
  · next h => simp [h]
  · next h =>
    rw [Option.isSome_iff_ne_none, ne_eq, List.getElem?_eq_none_iff]
    have positive : 0 < id := Nat.pos_of_ne_zero h
    omega

theorem statement?_grown (c : StatementCache) (entries : List (StatementKey × StatementId))
    (last : Statement) (k : Nat) :
    ({ c with entries, table := c.table ++ [last] } : StatementCache).statement? k =
      if k = c.table.length + 1 then some last else c.statement? k := by
  unfold statement?
  rcases Nat.eq_zero_or_pos k with rfl | hk
  · simp
  · rw [if_neg (Nat.ne_of_gt hk), if_neg (Nat.ne_of_gt hk)]
    split
    · next h => simp [h]
    · next h =>
      rcases Nat.lt_or_ge (k - 1) c.table.length with lt | ge
      · rw [List.getElem?_append_left lt]
      · rw [List.getElem?_eq_none (by simp; omega), List.getElem?_eq_none (by omega)]

theorem peek?_eq_some_iff (keys : (c.entries.map (·.1)).Nodup) :
    c.peek? key = some id ↔ (key, id) ∈ c.entries := by
  constructor
  · intro found
    obtain ⟨before, after, entries, -⟩ := List.lookup_eq_some_iff.mp found
    simp [entries]
  · intro mem
    obtain ⟨before, after, entries⟩ := List.append_of_mem mem
    refine List.lookup_eq_some_iff.mpr ⟨before, after, entries, fun e he => ?_⟩
    rw [entries, List.map_append, List.map_cons] at keys
    have other := (List.nodup_append.mp keys).2.2 _ (List.mem_map_of_mem he) _ List.mem_cons_self
    exact bne_iff_ne.mpr (Ne.symm other)

theorem peek?_eq_none_iff : c.peek? key = none ↔ ∀ e ∈ c.entries, e.1 ≠ key := by
  refine List.lookup_eq_none_iff.trans (forall₂_congr fun e _ => ?_)
  rw [bne_iff_ne, ne_comm]

/-- The entries are distinct prepared statements, and every statement has the name of its number. -/
structure Sound (c : StatementCache) : Prop where
  keys : (c.entries.map (·.1)).Nodup
  ids : (c.entries.map (·.2)).Nodup
  named : ∀ id s, c.statement? id = some s → s.name = Statement.nameOf id
  prepared : ∀ e ∈ c.entries, ∃ s, c.statement? e.2 = some s ∧ s.prepared = true

def cachedNames (c : StatementCache) : List String := c.entries.map fun e => c.nameOf e.2

namespace Sound

theorem nameOf_eq (h : c.Sound) (hs : c.statement? id = some s) :
    c.nameOf id = Statement.nameOf id := by
  rw [nameOf, hs]
  exact h.named id s hs

theorem cachedNames_eq (h : c.Sound) :
    c.cachedNames = c.entries.map fun e => Statement.nameOf e.2 := by
  refine List.map_congr_left fun e he => ?_
  obtain ⟨s, hs, _⟩ := h.prepared e he
  exact h.nameOf_eq hs

theorem id_le (h : c.Sound) {e : StatementKey × StatementId} (he : e ∈ c.entries) :
    e.2 ≤ c.table.length := by
  obtain ⟨s, hs, _⟩ := h.prepared e he
  exact (isSome_statement?.mp (hs ▸ rfl)).2

theorem nodup_cachedNames (h : c.Sound) (few : c.table.length < Statement.nameLimit) :
    c.cachedNames.Nodup := by
  have lt (e : StatementKey × StatementId) (he : e ∈ c.entries) : e.2 < Statement.nameLimit :=
    Nat.lt_of_le_of_lt (h.id_le he) few
  have ids := h.ids
  rw [h.cachedNames_eq]
  refine List.Nodup.map_on ?_ ids.of_map
  intro a ha b hb same
  have ids_ := Statement.nameOf_injective (lt a ha) (lt b hb) same
  exact List.inj_on_of_nodup_map ids ha hb ids_

theorem empty (capacity : Option Nat) : (StatementCache.empty capacity).Sound := by
  refine ⟨List.nodup_nil, List.nodup_nil, fun id s h => ?_, ?_⟩
  · simp [StatementCache.empty, statement?] at h
  · simp [StatementCache.empty]

theorem update (h : c.Sound) {f : Statement → Statement} (name : ∀ s, (f s).name = s.name)
    (prepared : ∀ s, s.prepared = true → (f s).prepared = true) : (c.update id f).Sound := by
  have entries := (c.update_frame id f).1
  refine ⟨entries ▸ h.keys, entries ▸ h.ids, ?_, ?_⟩
  · intro k s hs
    rw [statement?_update] at hs
    split at hs
    · obtain ⟨r, hr, rfl⟩ := Option.map_eq_some_iff.mp hs
      rw [name]
      exact h.named k r hr
    · exact h.named k s hs
  · rw [entries]
    intro e he
    obtain ⟨s, hs, hp⟩ := h.prepared e he
    rw [statement?_update, hs]
    split
    · exact ⟨f s, rfl, prepared s hp⟩
    · exact ⟨s, rfl, hp⟩

end Sound

/-- What a lookup comes to: the entry is there, or it is made for a new statement, in the place of
the last entry if the cache is full. -/
inductive LookedUp (c : StatementCache) (key : StatementKey) :
    CacheLookup → StatementCache → Prop
  | found {id : Nat} {s : Statement} {entries : List (StatementKey × StatementId)}
      (known : c.statement? id = some s) (prepared : s.prepared = true)
      (mem : (key, id) ∈ entries) (perm : entries ~ c.entries) :
      LookedUp c key ⟨key, id, false, none⟩ { c with entries }
  | created {kept : List (StatementKey × StatementId)} {closed : Option String}
      (new : key ∉ c.entries.map (·.1))
      (room : closed = none ∧ kept = c.entries ∨
        ∃ e, c.entries = kept ++ [e] ∧ closed = some (Statement.nameOf e.2)) :
      LookedUp c key ⟨key, c.table.length + 1, true, closed⟩
        { c with
          entries := (key, c.table.length + 1) :: kept
          table := c.table ++ [Statement.create (c.table.length + 1) key] }

namespace Sound

theorem perm_toFront (h : c.Sound) {key : StatementKey} {id : Nat} (mem : (key, id) ∈ c.entries) :
    (key, id) :: c.entries.filter (fun e => e.1 ≠ key) ~ c.entries := by
  have one : c.entries.filter (fun e => !decide (e.1 ≠ key)) = [(key, id)] := by
    have keys := h.keys
    clear h
    generalize c.entries = entries at mem keys
    induction entries with
    | nil => cases mem
    | cons e rest ih =>
      obtain ⟨fresh, keys⟩ := List.nodup_cons.mp keys
      rcases List.mem_cons.mp mem with first | mem
      · subst first
        have others : rest.filter (fun e => !decide (e.1 ≠ key)) = [] := by
          refine List.filter_eq_nil_iff.mpr fun e he same => fresh ?_
          have same : e.1 = key := by simpa using same
          exact List.mem_map.mpr ⟨e, he, same⟩
        simp only [List.filter_cons, others]
        simp
      · have other : e.1 ≠ key := fun same => fresh (List.mem_map.mpr ⟨_, mem, same.symm⟩)
        rw [List.filter_cons, ih mem keys]
        simp [other]
  have split := List.filter_append_perm (fun e => decide (e.1 ≠ key)) c.entries
  rw [one] at split
  have moved : (key, id) :: c.entries.filter (fun e => e.1 ≠ key) ~
      c.entries.filter (fun e => e.1 ≠ key) ++ [(key, id)] := (List.perm_append_singleton _ _).symm
  exact moved.trans split

theorem lookedUp (h : c.Sound) (key : StatementKey) :
    LookedUp c key (c.lookupKey key).1 (c.lookupKey key).2 := by
  unfold lookupKey
  cases found : c.peek? key with
  | some id =>
    obtain ⟨before, after, entries, _⟩ := List.lookup_eq_some_iff.mp found
    have mem : (key, id) ∈ c.entries := by simp [entries]
    obtain ⟨s, known, prepared⟩ := h.prepared _ mem
    exact .found known prepared List.mem_cons_self (h.perm_toFront mem)
  | none =>
    have new : key ∉ c.entries.map (·.1) := by
      intro mem
      obtain ⟨e, he, rfl⟩ := List.mem_map.mp mem
      have other := List.lookup_eq_none_iff.mp found e he
      simp at other
    refine .created new ?_
    cases full : c.isFull with
    | false => exact .inl ⟨rfl, rfl⟩
    | true =>
      right
      have nonempty : c.entries ≠ [] := by
        intro empty
        unfold isFull at full
        split at full
        · cases full
        · simp [empty] at full
          omega
      have last := List.getLast?_eq_some_getLast nonempty
      generalize c.entries.getLast nonempty = e at last
      obtain ⟨s, known, prepared⟩ := h.prepared e (List.mem_of_getLast? last)
      refine ⟨e, ?_, ?_⟩
      · rw [if_pos rfl, List.dropLast_append_getLast? e last]
      · simp [oldest?, last, known, prepared, h.named _ s known]

theorem of_entries (h : c.Sound) (table : d.table = c.table)
    (entries : d.entries.Subperm c.entries) : d.Sound := by
  obtain ⟨kept, perm, sub⟩ := entries
  have same (id : Nat) : d.statement? id = c.statement? id := by
    rw [statement?, statement?, table]
  refine ⟨?_, ?_, fun id s hs => h.named id s (same id ▸ hs), fun e he => ?_⟩
  · exact (perm.map _).nodup_iff.mp (h.keys.sublist (sub.map _))
  · exact (perm.map _).nodup_iff.mp (h.ids.sublist (sub.map _))
  · rw [same]
    exact h.prepared e (sub.subset (perm.symm.subset he))

theorem forgets (h : c.Sound) (k : c.Forgets d) : d.Sound :=
  h.of_entries k.table k.entries.subperm

theorem peek?_of_mem (h : c.Sound) {key : StatementKey} (mem : (key, id) ∈ c.entries) :
    c.peek? key = some id := (peek?_eq_some_iff h.keys).mpr mem

theorem forgotten_invalidate (h : c.Sound) {key : StatementKey}
    (matched : ∀ e ∈ c.entries, e.2 = id → e.1 = key) :
    ∀ e ∈ (c.invalidate key (c.nameOf id)).entries, e.2 ≠ id := by
  intro e he same
  have old : e ∈ c.entries := (c.forgets_invalidate key (c.nameOf id)).entries.subset he
  have keyed : e.1 = key := matched e old same
  have peeked : c.peek? key = some id := h.peek?_of_mem (keyed ▸ same ▸ old)
  have holds : c.holds key (c.nameOf id) = true := by simp [StatementCache.holds, peeked]
  rw [invalidate, if_pos holds] at he
  have other := (List.mem_filter.mp he).2
  simp [keyed] at other

theorem learnColumns (h : c.Sound) (columns : List Column) : (c.learnColumns id columns).Sound := by
  have same (s : Statement) : (s.learnColumns columns).name = s.name ∧
      (s.learnColumns columns).prepared = s.prepared := by
    unfold Statement.learnColumns
    split <;> exact ⟨rfl, rfl⟩
  exact h.update (fun s => (same s).1) fun s prepared => (same s).2.trans prepared

theorem created (h : c.Sound) {key : StatementKey} {kept : List (StatementKey × StatementId)}
    (new : key ∉ c.entries.map (·.1)) (sub : kept.Sublist c.entries) :
    (({ c with
      entries := (key, c.table.length + 1) :: kept
      table := c.table ++ [Statement.create (c.table.length + 1) key] } :
        StatementCache).markPrepared (c.table.length + 1)).Sound := by
  have entries (d : StatementCache) (id : Nat) : (d.markPrepared id).entries = d.entries :=
    (d.update_frame id _).1
  refine ⟨?_, ?_, ?_, ?_⟩
  · rw [entries]
    exact List.nodup_cons.mpr ⟨fun mem => new ((sub.map _).subset mem), h.keys.sublist (sub.map _)⟩
  · rw [entries]
    refine List.nodup_cons.mpr ⟨fun mem => ?_, h.ids.sublist (sub.map _)⟩
    obtain ⟨e, he, same⟩ := List.mem_map.mp mem
    have le := h.id_le (sub.subset he)
    exact absurd (same ▸ le) (Nat.not_succ_le_self _)
  · intro k s hs
    rw [markPrepared, statement?_update, statement?_grown] at hs
    split at hs
    · next last =>
      rw [last]
      obtain ⟨r, hr, rfl⟩ := Option.map_eq_some_iff.mp hs
      rw [Option.some_inj.mp hr.symm]
      rfl
    · exact h.named k s hs
  · rw [entries]
    intro e he
    rw [markPrepared, statement?_update, statement?_grown]
    rcases List.mem_cons.mp he with rfl | he
    · rw [if_pos rfl, if_pos rfl]
      exact ⟨_, rfl, rfl⟩
    · have le := h.id_le (sub.subset he)
      have old : e.2 ≠ c.table.length + 1 := fun same => absurd (same ▸ le) (Nat.not_succ_le_self _)
      rw [if_neg old, if_neg old]
      exact h.prepared e (sub.subset he)

end Sound

end StatementCache

end PgPipeline
