import PgPipeline.Socket

namespace PgPipeline

namespace ByteQueue

theorem toBytes_pushPiece (q : ByteQueue) (data : Bytes) :
    (q.pushPiece data).toBytes = q.toBytes ++ data := by
  unfold pushPiece
  split
  · next nothing => rw [List.isEmpty_iff.mp nothing, List.append_nil]
  · simp [toBytes, Segment.unread]

theorem unread_consume (n : Nat) (s : Segment) : (s.consume n).unread = s.unread.drop n := by
  cases s <;> rfl

theorem flatMap_consume (n : Nat) (segments : List Segment) :
    (consume n segments).flatMap Segment.unread = (segments.flatMap Segment.unread).drop n := by
  induction segments generalizing n with
  | nil => simp [consume]
  | cons s rest ih =>
    rw [consume, List.flatMap_cons, List.flatMap_cons, ih, unread_consume, List.drop_append]

theorem toBytes_compact (q : ByteQueue) : q.compact.toBytes = q.toBytes := by
  unfold compact toBytes
  dsimp only
  induction q.segments with
  | nil => rfl
  | cons s rest ih =>
    rw [List.dropWhile_cons]
    split
    · next exhausted =>
      have nothing : s.unread = [] := List.isEmpty_iff.mp (Bool.and_eq_true_iff.mp exhausted).1
      rw [ih, List.flatMap_cons, nothing, List.nil_append]
    · rfl

theorem toBytes_advance (q : ByteQueue) (n : Nat) : (q.advance n).toBytes = q.toBytes.drop n :=
  (toBytes_compact _).trans (flatMap_consume n q.segments)

theorem length_toBytes (q : ByteQueue) : q.remaining = q.toBytes.length := by
  unfold remaining toBytes
  induction q.segments with
  | nil => rfl
  | cons s rest ih => rw [List.foldr_cons, ih, List.flatMap_cons, List.length_append]

theorem isEmpty_iff (q : ByteQueue) : q.isEmpty = true ↔ q.toBytes = [] := by
  rw [isEmpty, length_toBytes, decide_eq_true_iff, List.length_eq_zero_iff]

theorem flatten_chunks (q : ByteQueue) : q.chunks.flatten = q.toBytes := by
  unfold chunks toBytes
  induction q.segments with
  | nil => rfl
  | cons s rest ih =>
    rw [List.map_cons, List.filter_cons, List.flatMap_cons, ← ih]
    split
    · rfl
    · next nothing =>
      have nothing : s.unread = [] := by simpa using nothing
      rw [nothing, List.nil_append]

theorem slices_prefix (q : ByteQueue) (count : Nat) : (q.slices count).flatten <+: q.toBytes := by
  refine ⟨(q.chunks.drop count).flatten, ?_⟩
  rw [slices, ← List.flatten_append, List.take_append_drop, flatten_chunks]

theorem slices_ne_nil (q : ByteQueue) {count : Nat} (positive : 0 < count) (holds : q.toBytes ≠ []) :
    (q.slices count).flatten ≠ [] := by
  unfold slices
  rw [← flatten_chunks] at holds
  cases chunks : q.chunks with
  | nil =>
    rw [chunks] at holds
    exact absurd rfl holds
  | cons first rest =>
    obtain ⟨n, rfl⟩ := Nat.exists_eq_succ_of_ne_zero (Nat.ne_of_gt positive)
    have member : first ∈ q.chunks := chunks ▸ List.mem_cons_self
    have holds : first ≠ [] := by simpa using (List.mem_filter.mp member).2
    simp [holds]

theorem writeSlices_bytes (q : ByteQueue) (count accepted : Nat) :
    (q.writeSlices count accepted).1 ++ (q.writeSlices count accepted).2.toBytes = q.toBytes := by
  have offered : (q.slices count).flatten.take accepted <+: q.toBytes :=
    (List.take_prefix _ _).trans (q.slices_prefix count)
  unfold writeSlices
  dsimp only
  rw [toBytes_advance]
  obtain ⟨rest, same⟩ := offered
  rw [← same, List.drop_left]

theorem writeTo_keeps {P : ByteQueue → Prop} {q : ByteQueue}
    (advance : ∀ q n, P q → P (q.advance n)) (start : P q) (answers : List WriteAnswer) :
    P (q.writeTo answers).queue := by
  fun_induction writeTo q answers with
  | case1 | case2 | case3 | case4 => exact start
  | case5 q holds rest ih => exact ih start
  | case6 q holds count rest sent left taken nothing =>
    cases taken
    exact advance q _ start
  | case7 q holds count rest sent left taken something w ih =>
    cases taken
    exact ih (advance q _ start)

theorem writeTo_bytes (q : ByteQueue) (answers : List WriteAnswer) :
    (q.writeTo answers).sent ++ (q.writeTo answers).queue.toBytes = q.toBytes := by
  fun_induction writeTo q answers with
  | case1 | case2 | case3 | case4 => rfl
  | case5 q holds rest ih => exact ih
  | case6 q holds count rest sent left taken nothing =>
    have bytes := q.writeSlices_bytes slicesPerWrite count
    rw [taken, List.isEmpty_iff.mp nothing] at bytes
    exact bytes
  | case7 q holds count rest sent left taken something w ih =>
    have bytes := q.writeSlices_bytes slicesPerWrite count
    rw [taken] at bytes
    rw [List.append_assoc, ih]
    exact bytes

theorem writeTo_drained (q : ByteQueue) (answers : List WriteAnswer) :
    (q.writeTo answers).ending = .drained ↔ (q.writeTo answers).queue.toBytes = [] := by
  fun_induction writeTo q answers with
  | case1 answers q nothing => exact ⟨fun _ => (isEmpty_iff q).mp nothing, fun _ => rfl⟩
  | case2 q holds | case3 q holds | case4 q holds =>
    rw [isEmpty_iff] at holds
    exact ⟨fun drained => (by cases drained), fun nothing => absurd nothing holds⟩
  | case5 q holds rest ih => exact ih
  | case6 q holds count rest sent left taken nothing =>
    have bytes := q.writeSlices_bytes slicesPerWrite count
    rw [taken, List.isEmpty_iff.mp nothing, List.nil_append] at bytes
    rw [isEmpty_iff, ← bytes] at holds
    exact ⟨fun drained => (by cases drained), fun nothing => absurd nothing holds⟩
  | case7 q holds count rest sent left taken something w ih => exact ih

end ByteQueue

/-- The socket refuses for good, or takes nothing of what it is offered. -/
def WriteAnswer.breaks : WriteAnswer → Bool
  | takes count => count == 0
  | failed _ => true
  | _ => false

theorem ByteQueue.writeTo_works (q : ByteQueue) {answers : List WriteAnswer}
    (works : answers.any WriteAnswer.breaks = false) (text : String) :
    (q.writeTo answers).ending ≠ .failed text := by
  fun_induction writeTo q answers with
  | case1 | case2 | case3 => simp
  | case4 q holds text rest => simp [WriteAnswer.breaks] at works
  | case5 q holds rest ih => exact ih (by simpa [WriteAnswer.breaks] using works)
  | case6 q holds count rest sent left taken nothing =>
    rw [List.any_cons, Bool.or_eq_false_iff] at works
    have positive : count ≠ 0 := by simpa [WriteAnswer.breaks] using works.1
    have offers : (q.slices slicesPerWrite).flatten ≠ [] :=
      q.slices_ne_nil (by decide) fun none_ => holds ((isEmpty_iff q).mpr none_)
    have same : (q.slices slicesPerWrite).flatten.take count = sent := congrArg Prod.fst taken
    rw [List.isEmpty_iff.mp nothing, List.take_eq_nil_iff] at same
    rcases same with zero | none_
    · exact absurd zero positive
    · exact absurd none_ offers
  | case7 q holds count rest sent left taken something w ih =>
    rw [List.any_cons, Bool.or_eq_false_iff] at works
    exact ih works.2

end PgPipeline
