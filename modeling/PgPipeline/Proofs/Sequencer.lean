import PgPipeline.Sequencer

namespace PgPipeline.Sequencer

variable {α : Type}

def keys (items : List (Nat × α)) : List Nat := items.map (·.1)

structure Tidy (s : Sequencer α) : Prop where
  sorted : (keys s.held).Pairwise (· < ·)
  beyond : ∀ k ∈ keys s.held, s.next < k

theorem tidy_start (first : Nat) : (start first : Sequencer α).Tidy :=
  ⟨List.Pairwise.nil, by simp [start, keys]⟩

theorem insert_perm {n : Nat} (a : α) {items : List (Nat × α)} (h : n ∉ keys items) :
    (insert n a items).Perm ((n, a) :: items) := by
  induction items with
  | nil => exact List.Perm.refl _
  | cons item rest ih =>
    obtain ⟨k, b⟩ := item
    have hk : n ≠ k := fun e => h (by simp [keys, e])
    have hr : n ∉ keys rest := fun e => h (List.mem_cons_of_mem _ e)
    simp only [insert, if_neg hk]
    split
    · exact List.Perm.refl _
    · exact ((ih hr).cons _).trans (List.Perm.swap _ _ _)

theorem keys_insert_perm {n : Nat} (a : α) {items : List (Nat × α)} (h : n ∉ keys items) :
    (keys (insert n a items)).Perm (n :: keys items) := (insert_perm a h).map _

theorem mem_insert {n : Nat} {a : α} {p : Nat × α} {items : List (Nat × α)}
    (h : p ∈ insert n a items) : p = (n, a) ∨ p ∈ items := by
  induction items with
  | nil => exact Or.inl (by simpa [insert] using h)
  | cons item rest ih =>
    simp only [insert] at h
    split at h
    · simpa using h
    · split at h
      · exact (List.mem_cons.mp h).imp_right (List.mem_cons_of_mem _)
      · rcases List.mem_cons.mp h with h | h
        · exact Or.inr (h ▸ List.mem_cons_self)
        · exact (ih h).imp_right (List.mem_cons_of_mem _)

theorem mem_keys_insert {n k : Nat} {a : α} {items : List (Nat × α)}
    (h : k ∈ keys (insert n a items)) : k = n ∨ k ∈ keys items := by
  obtain ⟨p, hp, rfl⟩ := List.mem_map.mp h
  rcases mem_insert hp with rfl | hp
  · exact Or.inl rfl
  · exact Or.inr (List.mem_map_of_mem hp)

theorem sorted_insert {n : Nat} (a : α) {items : List (Nat × α)}
    (h : (keys items).Pairwise (· < ·)) : (keys (insert n a items)).Pairwise (· < ·) := by
  induction items with
  | nil => simp [insert, keys]
  | cons item rest ih =>
    obtain ⟨k, b⟩ := item
    obtain ⟨hk, hr⟩ := List.pairwise_cons.mp h
    simp only [insert]
    split
    · next hlt =>
      refine List.pairwise_cons.mpr ⟨?_, h⟩
      intro j hj
      rcases List.mem_cons.mp hj with rfl | hj
      · exact hlt
      · exact Nat.lt_trans hlt (hk j hj)
    · split
      · next heq => exact heq ▸ h
      · next hle hne =>
        refine List.pairwise_cons.mpr ⟨?_, ih hr⟩
        intro j hj
        rcases mem_keys_insert hj with rfl | hj
        · exact Nat.lt_of_le_of_ne (Nat.le_of_not_lt hle) (Ne.symm hne)
        · exact hk j hj

theorem releaseFrom_spec {next : Nat} {items : List (Nat × α)}
    (sorted : (keys items).Pairwise (· < ·)) (from_ : ∀ k ∈ keys items, next ≤ k) :
    ∃ taken, items = taken ++ (releaseFrom next items).2.held ∧
      (releaseFrom next items).1 = taken.map (·.2) ∧
      keys taken = List.range' next taken.length ∧
      (releaseFrom next items).2.next = next + taken.length ∧ (releaseFrom next items).2.Tidy := by
  induction items generalizing next with
  | nil => exact ⟨[], rfl, rfl, rfl, rfl, List.Pairwise.nil, by simp [releaseFrom, keys]⟩
  | cons item rest ih =>
    obtain ⟨k, a⟩ := item
    obtain ⟨hk, hr⟩ := List.pairwise_cons.mp sorted
    by_cases hkn : k = next
    · subst hkn
      obtain ⟨taken, hrest, hout, hkeys, hnext, htidy⟩ :=
        ih hr fun j hj => Nat.succ_le_of_lt (hk j hj)
      refine ⟨(k, a) :: taken, ?_, ?_, ?_, ?_, ?_⟩
      · simpa [releaseFrom] using hrest
      · simpa [releaseFrom] using hout
      · simpa [keys, List.range'_succ] using hkeys
      · simp only [releaseFrom, if_true, hnext, List.length_cons]
        omega
      · simpa [releaseFrom] using htidy
    · have hlt : next < k := Nat.lt_of_le_of_ne (from_ k List.mem_cons_self) (Ne.symm hkn)
      refine ⟨[], by simp [releaseFrom, hkn], by simp [releaseFrom, hkn], rfl,
        by simp [releaseFrom, hkn], ?_⟩
      simp only [releaseFrom, if_neg hkn]
      refine ⟨sorted, ?_⟩
      intro j hj
      rcases List.mem_cons.mp hj with rfl | hj
      · exact hlt
      · exact Nat.lt_trans hlt (hk j hj)

theorem resolve_spec {s : Sequencer α} (tidy : s.Tidy) {n : Nat} (a : α) (due : s.next ≤ n)
    (new : n ∉ keys s.held) :
    ∃ taken, insert n a s.held = taken ++ (s.resolve n a).2.held ∧
      (s.resolve n a).1 = taken.map (·.2) ∧ keys taken = List.range' s.next taken.length ∧
      (s.resolve n a).2.next = s.next + taken.length ∧ (s.resolve n a).2.Tidy := by
  rw [resolve, if_neg (Nat.not_lt.mpr due)]
  refine releaseFrom_spec (sorted_insert a tidy.sorted) ?_
  intro k hk
  rcases mem_keys_insert hk with rfl | hk
  · exact due
  · exact Nat.le_of_lt (tidy.beyond k hk)

theorem releaseFrom_all (next : Nat) (items : List (Nat × α)) :
    (releaseFrom next items).1 ++ (releaseFrom next items).2.held.map (·.2) = items.map (·.2) := by
  induction items generalizing next with
  | nil => rfl
  | cons item rest ih =>
    obtain ⟨k, a⟩ := item
    unfold releaseFrom
    split
    · exact congrArg (a :: ·) (ih (next + 1))
    · rfl

theorem mem_resolve {s : Sequencer α} {n : Nat} {a b : α}
    (h : b ∈ (s.resolve n a).1 ++ (s.resolve n a).2.held.map (·.2)) :
    b = a ∨ b ∈ s.held.map (·.2) := by
  unfold resolve at h
  split at h
  · exact List.mem_cons.mp h
  · rw [releaseFrom_all] at h
    obtain ⟨p, hp, rfl⟩ := List.mem_map.mp h
    rcases mem_insert hp with rfl | hp
    · exact .inl rfl
    · exact .inr (List.mem_map_of_mem hp)

theorem mem_held_releaseFrom {next : Nat} {p : Nat × α} {items : List (Nat × α)}
    (h : p ∈ (releaseFrom next items).2.held) : p ∈ items := by
  induction items generalizing next with
  | nil => exact h
  | cons item rest ih =>
    unfold releaseFrom at h
    split at h
    · exact List.mem_cons_of_mem _ (ih h)
    · exact h

theorem mem_held_resolve {s : Sequencer α} {n : Nat} {a : α} {p : Nat × α}
    (h : p ∈ (s.resolve n a).2.held) : p = (n, a) ∨ p ∈ s.held := by
  unfold resolve at h
  split at h
  · exact .inr h
  · exact mem_insert (mem_held_releaseFrom h)

theorem resolve_perm {s : Sequencer α} {n : Nat} (a : α) (new : n ∉ keys s.held) :
    ((s.resolve n a).1 ++ (s.resolve n a).2.held.map (·.2)).Perm (a :: s.held.map (·.2)) := by
  unfold resolve
  split
  · exact List.Perm.refl _
  · rw [releaseFrom_all]
    exact (insert_perm a new).map _

/-- What has become of items: a stretch from `first` on without a gap has been released, and the
others are held. -/
structure Released (first : Nat) (items block : List (Nat × α)) (s : Sequencer α) : Prop where
  all : items.Perm (block ++ s.held)
  numbers : keys block = List.range' first block.length
  next : s.next = first + block.length
  tidy : s.Tidy

namespace Released

variable {first n : Nat} {items block : List (Nat × α)} {s : Sequencer α}

theorem start (first : Nat) : Released first ([] : List (Nat × α)) [] (Sequencer.start first) :=
  ⟨List.Perm.refl _, rfl, rfl, tidy_start first⟩

theorem keys_perm (h : Released first items block s) :
    (keys items).Perm (List.range' first block.length ++ keys s.held) := by
  have all := h.all.map Prod.fst
  rwa [List.map_append, ← keys, ← keys, ← keys, h.numbers] at all

theorem due_not_mem (h : Released first items block s) : s.next ∉ keys items := by
  rw [h.keys_perm.mem_iff, List.mem_append, not_or]
  refine ⟨?_, fun mem => Nat.lt_irrefl _ (h.tidy.beyond _ mem)⟩
  rw [List.mem_range'_1, h.next]
  omega

/-- Only the last number of all can take the number that is due past a bound. -/
theorem next_within (h : Released first items block s) {bound : Nat}
    (small : first < bound) (below : ∀ n ∈ keys items, n < bound) :
    s.next < bound ∨ s.next = bound ∧ s.held = [] := by
  have most : s.next ≤ bound := by
    refine Nat.le_of_not_lt fun large => ?_
    have next := h.next
    have seen : s.next - 1 ∈ keys items := by
      rw [h.keys_perm.mem_iff, List.mem_append, List.mem_range'_1]
      omega
    have last := below _ seen
    omega
  refine (Nat.lt_or_eq_of_le most).imp_right fun last => ⟨last, ?_⟩
  refine List.eq_nil_iff_forall_not_mem.mpr fun item held => ?_
  have number : item.1 ∈ keys s.held := List.mem_map_of_mem held
  have seen := below _ (h.keys_perm.mem_iff.mpr (List.mem_append_right _ number))
  have beyond := h.tidy.beyond _ number
  omega

theorem resolve (h : Released first items block s) (a : α) (above : first ≤ n)
    (new : n ∉ keys items) :
    ∃ taken, (s.resolve n a).1 = taken.map (·.2) ∧
      Released first (items ++ [(n, a)]) (block ++ taken) (s.resolve n a).2 := by
  rw [h.keys_perm.mem_iff, List.mem_append, not_or, List.mem_range'_1] at new
  have due : s.next ≤ n := by
    rw [h.next]
    omega
  obtain ⟨taken, kept, out, numbers, next, tidy⟩ := resolve_spec h.tidy a due new.2
  refine ⟨taken, out, ?_, ?_, ?_, tidy⟩
  · calc List.Perm (items ++ [(n, a)]) ((n, a) :: items) := List.perm_append_singleton _ _
      List.Perm _ ((n, a) :: (block ++ s.held)) := h.all.cons _
      List.Perm _ (block ++ (n, a) :: s.held) := List.perm_middle.symm
      List.Perm _ (block ++ insert n a s.held) := (insert_perm a new.2).symm.append_left _
      List.Perm _ (block ++ taken ++ _) := by rw [kept, List.append_assoc]
  · rw [keys, List.map_append, ← keys, ← keys, h.numbers, numbers, h.next, List.length_append,
      List.range'_append_1]
  · rw [next, h.next, List.length_append, Nat.add_assoc]

theorem run {later : List (Nat × α)} (h : Released first items block s)
    (distinct : (keys (items ++ later)).Nodup) (above : ∀ n ∈ keys later, first ≤ n) :
    ∃ taken, (s.run later).1 = taken.map (·.2) ∧
      Released first (items ++ later) (block ++ taken) (s.run later).2 := by
  induction later generalizing items block s with
  | nil => exact ⟨[], rfl, by simpa [Sequencer.run] using h⟩
  | cons item later ih =>
    obtain ⟨n, a⟩ := item
    obtain ⟨least, above⟩ := List.forall_mem_cons.mp above
    have new : n ∉ keys items := by
      rw [keys, List.map_append, List.nodup_append] at distinct
      exact fun mem => distinct.2.2 n mem n List.mem_cons_self rfl
    obtain ⟨taken, out, h⟩ := h.resolve a least new
    rw [List.append_cons] at distinct ⊢
    obtain ⟨more, rest, h⟩ := ih h distinct above
    refine ⟨taken ++ more, ?_, by rwa [← List.append_assoc]⟩
    rw [Sequencer.run, List.map_append, ← out, ← rest]

end Released

/-- Of items with different numbers from `first` on, in any order, those are released, in the order
of their numbers, that follow `first` without a gap. The others are held, and released in the order
of their numbers when the sequencer is flushed. The number that is due leaves a bound on all numbers
only when nothing is held any more. -/
theorem run_releases_block {first : Nat} {items : List (Nat × α)} (distinct : (keys items).Nodup)
    (above : ∀ n ∈ keys items, first ≤ n) :
    let s := ((start first).run items).2
    ∃ block rest, items.Perm (block ++ rest) ∧
      keys block = List.range' first block.length ∧ first + block.length ∉ keys items ∧
      ((start first).run items).1 = block.map (·.2) ∧
      s.held.length = rest.length ∧ (keys rest).Pairwise (· < ·) ∧
      s.flush.1 = rest.map (·.2) ∧ s.flush.2.held = [] ∧
      ∀ bound, first < bound → (∀ n ∈ keys items, n < bound) →
        s.next < bound ∨ s.next = bound ∧ rest = [] := by
  obtain ⟨block, out, h⟩ := (Released.start first).run distinct above
  rw [List.nil_append, List.nil_append] at h
  exact ⟨block, _, h.all, h.numbers, h.next ▸ h.due_not_mem, out, rfl, h.tidy.sorted, rfl, rfl,
    fun bound => h.next_within⟩

theorem run_releases_block_gaps :
    let items := [(7, 'c'), (5, 'a'), (9, 'd'), (6, 'b')]
    let s := ((start 5).run items).2
    (keys items).Nodup ∧ (∀ n ∈ keys items, 5 ≤ n) ∧
      ∃ block rest, items.Perm (block ++ rest) ∧ keys block = [5, 6, 7] ∧
        ((start 5).run items).1 = block.map (·.2) ∧ s.held.length = 1 ∧
        s.flush.1 = rest.map (·.2) ∧ s.flush.2.held = [] := by
  intro items s
  have distinct : (keys items).Nodup := by decide
  have above : ∀ n ∈ keys items, 5 ≤ n := by decide
  obtain ⟨block, rest, all, numbers, gap, out, held, -, flushed, none, -⟩ :=
    run_releases_block distinct above
  have three : block.length = 3 := by
    have count := all.length_eq
    simp only [items, keys, List.map_cons, List.map_nil, List.mem_cons, List.length_append,
      List.length_cons, List.length_nil] at gap count
    omega
  rw [three] at numbers
  exact ⟨distinct, above, block, rest, all, numbers, out, by decide, flushed, none⟩

end PgPipeline.Sequencer
