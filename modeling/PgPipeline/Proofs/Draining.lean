import Mathlib.Data.List.Induction
import PgPipeline.Proofs.Fifo

/-!
What a byte queue keeps of segments that have been read.

A region that a piece closes before it is full has room that nothing fills any more
(`ByteQueue.strandedRoom`). It never counts as exhausted, so it stays in front when all before it
has been read, and everything behind it stays too (`ByteQueue.Pins.run`). Without one, reading
leaves no spent segment in front, and nothing at all of a queue that is drained
(`ByteQueue.read_frees_spent_iff`).
-/

namespace PgPipeline

namespace Segment

variable {s : Segment}

@[simp] theorem roomOf_append (front behind : List Segment) :
    roomOf (front ++ behind) = roomOf front + roomOf behind := by
  simp [roomOf]

theorem isExhausted_iff : s.isExhausted = true ↔ s.unread = [] ∧ s.room = 0 := by
  simp [isExhausted]

theorem consume_of_read (n : Nat) (read : s.unread = []) : s.consume n = s := by
  cases s with
  | piece data | region data room =>
    obtain rfl : data = [] := read
    simp [consume]

end Segment

namespace ByteQueue

open Segment (roomOf isExhausted_iff)

variable {q : ByteQueue} {s : Segment} {segments : List Segment} {data : Bytes} {n count : Nat}
  {call : Call} {calls : List Call}

/-- The room that is left in regions that take no more bytes. -/
def strandedRoom (q : ByteQueue) : Nat := roomOf (q.segments.take q.writeFrom)

theorem strandedRoom_add_writable (q : ByteQueue) :
    q.strandedRoom + q.writable = roomOf q.segments := by
  rw [strandedRoom, writable_eq, ← Segment.roomOf_append, List.take_append_drop]

theorem strandedRoom_pushPiece (q : ByteQueue) (data : Bytes) :
    (q.pushPiece data).strandedRoom =
      if data = [] then q.strandedRoom else q.strandedRoom + q.writable := by
  unfold pushPiece
  cases data with
  | nil => simp
  | cons b data =>
    rw [strandedRoom_add_writable]
    simp only [List.isEmpty_cons, reduceCtorEq, if_false, strandedRoom, List.take_length]
    simp [Segment.room]

theorem strandedRoom_pushRegion (h : q.Orderly) (capacity : Nat) :
    (q.pushRegion capacity).strandedRoom = q.strandedRoom := by
  rw [strandedRoom, pushRegion, List.take_append_of_le_length h.within, strandedRoom]

theorem roomOf_closed (segments : List Segment) (data : Bytes) :
    roomOf ((fill segments data).segments.take (fill segments data).closed) = 0 := by
  fun_induction fill segments data with
  | case1 | case2 | case5 => simp
  | case3 unread rest data holds f ih => simpa [Segment.room] using ih
  | case4 unread room rest data holds full f ih => simpa [Segment.room] using ih

theorem length_fill (segments : List Segment) (data : Bytes) :
    (fill segments data).segments.length = segments.length := by
  fun_induction fill segments data with
  | case1 | case2 | case5 => rfl
  | case3 unread rest data holds f ih => exact congrArg (· + 1) ih
  | case4 unread room rest data holds full f ih => exact congrArg (· + 1) ih

theorem exists_filled {r : ByteQueue} (put : q.put? data = some (count, r)) : ∃ filled closed,
    r = ⟨q.segments.take q.writeFrom ++ filled, q.writeFrom + closed⟩ ∧
    filled.length = (q.segments.drop q.writeFrom).length ∧ roomOf (filled.take closed) = 0 := by
  unfold put? at put
  split at put
  · cases put
    exact ⟨q.segments.drop q.writeFrom, 0, by rw [List.take_append_drop]; rfl, rfl, rfl⟩
  split at put
  · cases put
  · cases put
    exact ⟨_, _, rfl, length_fill _ data, roomOf_closed _ data⟩

theorem strandedRoom_put (h : q.Orderly) {r : ByteQueue} (put : q.put? data = some (count, r)) :
    r.strandedRoom = q.strandedRoom := by
  obtain ⟨filled, closed, rfl, -, full⟩ := exists_filled put
  have front : (q.segments.take q.writeFrom).length = q.writeFrom :=
    List.length_take_of_le h.within
  rw [strandedRoom, List.take_append, front, Nat.add_sub_cancel_left, Segment.roomOf_append, full,
    List.take_of_length_le (by rw [front]; exact Nat.le_add_right _ _), Nat.add_zero, strandedRoom]

theorem take_consume (w n : Nat) (segments : List Segment) :
    (consume n segments).take w = consume n (segments.take w) := by
  induction segments generalizing w n with
  | nil => simp [consume]
  | cons s rest ih =>
    cases w with
    | zero => rfl
    | succ w => simp [consume, ih]

theorem strandedRoom_compact (q : ByteQueue) : q.compact.strandedRoom = q.strandedRoom := by
  obtain ⟨segments, w⟩ := q
  induction segments generalizing w with
  | nil => simp [compact, strandedRoom]
  | cons s rest ih =>
    cases exhausted : s.isExhausted with
    | false => rw [compact_of_not w exhausted]
    | true =>
      rw [compact_cons w exhausted, ih]
      cases w with
      | zero => simp [strandedRoom]
      | succ w => simp [strandedRoom, room_of_isExhausted exhausted]

theorem strandedRoom_advance (q : ByteQueue) (n : Nat) :
    (q.advance n).strandedRoom = q.strandedRoom := by
  rw [advance, strandedRoom_compact, strandedRoom, take_consume, roomOf_consume, strandedRoom]

def strands (q : ByteQueue) : Call → Nat
  | .pushPiece data => if data = [] then 0 else q.writable
  | _ => 0

theorem strandedRoom_perform (h : q.Orderly) (uncleared : call ≠ .clear) :
    (q.perform call).2.strandedRoom = q.strandedRoom + q.strands call := by
  cases call with
  | pushPiece data =>
    rw [perform, strandedRoom_pushPiece, strands]
    split <;> rfl
  | pushRegion capacity => exact strandedRoom_pushRegion h capacity
  | put data =>
    rw [perform]
    cases put : q.put? data with
    | none => rfl
    | some filled => exact strandedRoom_put h put
  | get n | advance n => exact strandedRoom_advance q n
  | clear => exact absurd rfl uncleared
  | writeTo answers =>
    exact writeTo_keeps (P := fun r => r.strandedRoom = q.strandedRoom)
      (fun r n same => (strandedRoom_advance r n).trans same) rfl answers

theorem strandedRoom_clear : (q.perform .clear).2.strandedRoom = 0 := rfl

theorem run_concat (q : ByteQueue) (calls : List Call) (call : Call) :
    (q.run (calls ++ [call])).2 = ((q.run calls).2.perform call).2 := by
  induction calls generalizing q with
  | nil => rfl
  | cons first calls ih => exact ih (q.perform first).2

/-- Since the queue was cleared last, no piece was queued while a region had room. -/
def ClosesFull (calls : List Call) : Prop :=
  ∀ before data after, calls = before ++ .pushPiece data :: after → data ≠ [] → .clear ∉ after →
    (empty.run before).2.writable = 0

theorem split_concat {α : Type} {xs before after : List α} {x y : α}
    (same : xs ++ [x] = before ++ y :: after) :
    (xs = before ∧ x = y ∧ after = []) ∨
      ∃ more, after = more ++ [x] ∧ xs = before ++ y :: more := by
  rcases List.eq_nil_or_concat after with rfl | ⟨more, last, rfl⟩
  · obtain ⟨front, last⟩ := List.append_inj' same rfl
    exact .inl ⟨front, List.singleton_inj.mp last, rfl⟩
  · rw [List.concat_eq_append] at same ⊢
    rw [← List.cons_append, ← List.append_assoc] at same
    obtain ⟨front, last⟩ := List.append_inj' same rfl
    exact .inr ⟨more, by rw [List.singleton_inj.mp last], front⟩

theorem closesFull_clear (calls : List Call) : ClosesFull (calls ++ [.clear]) := by
  intro before data after same _ uncleared
  rcases split_concat same with ⟨-, last, -⟩ | ⟨more, rfl, -⟩
  · cases last
  · simp at uncleared

theorem closesFull_concat (uncleared : call ≠ .clear) : ClosesFull (calls ++ [call]) ↔
    ClosesFull calls ∧ (empty.run calls).2.strands call = 0 := by
  constructor
  · intro full
    constructor
    · intro before data after same something kept
      refine full before data (after ++ [call]) (by simp [same]) something ?_
      simp [kept, uncleared.symm]
    · cases call with
      | pushPiece data =>
        rw [strands]
        split
        · rfl
        · next something => exact full calls data [] rfl something List.not_mem_nil
      | pushRegion | put | get | advance | clear | writeTo => rfl
  · rintro ⟨full, strands⟩ before data after same something kept
    rcases split_concat same with ⟨rfl, rfl, rfl⟩ | ⟨more, rfl, earlier⟩
    · rwa [ByteQueue.strands, if_neg something] at strands
    · exact full before data more earlier something fun mem => kept (List.mem_append_left _ mem)

/-- Room is stranded exactly by queueing a piece too early. -/
theorem strandedRoom_run_iff (calls : List Call) :
    (empty.run calls).2.strandedRoom = 0 ↔ ClosesFull calls := by
  -- From the last call on, as nothing counts that came before the queue was cleared.
  induction calls using List.reverseRecOn with
  | nil => exact iff_of_true rfl fun before data after same => by simp at same
  | append_singleton calls call ih =>
    rw [run_concat]
    by_cases cleared : call = .clear
    · subst cleared
      exact iff_of_true strandedRoom_clear (closesFull_clear calls)
    · rw [strandedRoom_perform (Orderly.empty.run calls).1 cleared, Nat.add_eq_zero_iff, ih,
        closesFull_concat cleared]

/-- The first segment has been read and takes no more bytes: it stands in front of the place to
write at, or has no room. -/
def HasSpentFront (q : ByteQueue) : Prop :=
  ∃ s rest, q.segments = s :: rest ∧ s.unread = [] ∧ (0 < q.writeFrom ∨ s.room = 0)

theorem unread_of_drained (drained : q.remaining = 0) : ∀ s ∈ q.segments, s.unread = [] := by
  rw [length_toBytes, List.length_eq_zero_iff, toBytes, List.flatMap_eq_nil_iff] at drained
  exact drained

theorem room_ne_zero_of_front {rest : List Segment} (front : (q.advance n).segments = s :: rest)
    (read : s.unread = []) : s.room ≠ 0 := by
  intro room
  have first := List.head?_dropWhile_not Segment.isExhausted (consume n q.segments)
  rw [advance, compact] at front
  dsimp only at front
  rw [front] at first
  simp [isExhausted_iff.mpr ⟨read, room⟩] at first

theorem not_hasSpentFront_advance (none : q.strandedRoom = 0) (n : Nat) :
    ¬ (q.advance n).HasSpentFront := by
  rintro ⟨s, rest, front, read, closed | full⟩
  · obtain ⟨w, place⟩ := Nat.exists_eq_succ_of_ne_zero (Nat.ne_of_gt closed)
    have kept := strandedRoom_advance q n
    rw [strandedRoom, front, place, List.take_succ_cons, Segment.roomOf_cons] at kept
    exact room_ne_zero_of_front front read (by omega)
  · exact room_ne_zero_of_front front read full

theorem hasSpentFront_of_drained (some : q.strandedRoom ≠ 0) (drained : q.remaining = 0) :
    q.HasSpentFront := by
  unfold strandedRoom at some
  cases front : q.segments with
  | nil => simp [front] at some
  | cons s rest =>
    refine ⟨s, rest, front, unread_of_drained drained s (front ▸ List.mem_cons_self), .inl ?_⟩
    refine Nat.pos_of_ne_zero fun place => some ?_
    rw [place, List.take_zero, Segment.roomOf_nil]

theorem segments_advance_eq_nil_iff (drained : (q.advance n).remaining = 0)
    (full : (q.advance n).writable = 0) :
    (q.advance n).segments = [] ↔ q.strandedRoom = 0 := by
  have kept := strandedRoom_advance q n
  constructor
  · intro none
    rw [← kept, strandedRoom, none, List.take_nil, Segment.roomOf_nil]
  · intro none
    have room := strandedRoom_add_writable (q.advance n)
    cases front : (q.advance n).segments with
    | nil => rfl
    | cons s rest =>
      rw [front, Segment.roomOf_cons] at room
      have read := unread_of_drained drained s (front ▸ List.mem_cons_self)
      exact absurd (by omega) (room_ne_zero_of_front front read)

def Call.queues : Call → Bool
  | .pushPiece data => !data.isEmpty
  | .pushRegion _ => true
  | _ => false

/-- The first of so many segments has been read, and is closed though it has room. -/
structure Pins (s : Segment) (count : Nat) (q : ByteQueue) : Prop where
  first : q.segments.head? = some s
  count : q.segments.length = count
  read : s.unread = []
  room : s.room ≠ 0
  closed : 0 < q.writeFrom

namespace Pins

theorem pushPiece (h : Pins s count q) (data : Bytes) :
    Pins s (count + if data.isEmpty then 0 else 1) (q.pushPiece data) := by
  unfold ByteQueue.pushPiece
  split
  · exact h
  · refine { h with first := ?_, count := ?_, closed := ?_ }
    · simp [h.first]
    · simp [h.count]
    · simp

theorem pushRegion (h : Pins s count q) (capacity : Nat) :
    Pins s (count + 1) (q.pushRegion capacity) := by
  refine { h with first := ?_, count := ?_ }
  · simp [ByteQueue.pushRegion, h.first]
  · simp [ByteQueue.pushRegion, h.count]

theorem put {taken : Nat} {r : ByteQueue} (h : Pins s count q)
    (put : q.put? data = some (taken, r)) : Pins s count r := by
  obtain ⟨filled, closed, rfl, same, -⟩ := exists_filled put
  refine { h with first := ?_, count := ?_, closed := Nat.add_pos_left h.closed _ }
  · rw [List.head?_append, List.head?_take, if_neg (Nat.ne_of_gt h.closed), h.first]
    rfl
  · rw [List.length_append, same, ← List.length_append, List.take_append_drop, h.count]

theorem advance (h : Pins s count q) (n : Nat) : Pins s count (q.advance n) := by
  obtain ⟨segments, w⟩ := q
  obtain ⟨rest, rfl⟩ := List.head?_eq_some_iff.mp h.first
  -- There is nothing to read in it, and its room keeps it from being dropped.
  have kept : s.isExhausted = false :=
    Bool.eq_false_iff.mpr fun exhausted => h.room (isExhausted_iff.mp exhausted).2
  rw [ByteQueue.advance, consume, Segment.consume_of_read n h.read, compact_of_not w kept]
  exact { h with first := rfl, count := by simpa [length_consume] using h.count }

theorem perform (h : Pins s count q) (uncleared : call ≠ .clear) :
    Pins s (count + if call.queues then 1 else 0) (q.perform call).2 := by
  cases call with
  | pushPiece data =>
    have pushed := h.pushPiece data
    cases data <;> exact pushed
  | pushRegion capacity => exact h.pushRegion capacity
  | put data =>
    rw [ByteQueue.perform]
    cases put : q.put? data with
    | none => exact h
    | some filled => exact h.put put
  | get n | advance n => exact h.advance n
  | clear => exact absurd rfl uncleared
  | writeTo answers => exact writeTo_keeps (fun q n pins => pins.advance n) h answers

theorem run (h : Pins s count q) (uncleared : .clear ∉ calls) :
    Pins s (count + calls.countP Call.queues) (q.run calls).2 := by
  induction calls generalizing q count with
  | nil => exact h
  | cons call calls ih =>
    rw [List.mem_cons, not_or] at uncleared
    have next := ih (h.perform (Ne.symm uncleared.1)) uncleared.2
    rw [List.countP_cons, Nat.add_comm (calls.countP _), ← Nat.add_assoc]
    exact next

end Pins

/-- Reading leaves no spent segment in front as long as no piece closed a region that had room, and
then nothing is left of a queue that is drained and takes no more bytes. Otherwise a queue that is
drained has a spent segment in front; and once there is one it stays, and no segment goes, until the
queue is cleared. -/
theorem read_frees_spent_iff (calls : List Call) {call : Call} {n : Nat}
    (reads : call = .get n ∨ call = .advance n) :
    let r := ((empty.run calls).2.perform call).2
    (ClosesFull calls → ¬ r.HasSpentFront) ∧
    (¬ ClosesFull calls → r.remaining = 0 → r.HasSpentFront) ∧
    (r.remaining = 0 → r.writable = 0 → (r.segments = [] ↔ ClosesFull calls)) ∧
    (r.HasSpentFront → ∀ later, .clear ∉ later →
      (r.run later).2.segments.head? = r.segments.head? ∧
      (r.run later).2.segments.length = r.segments.length + later.countP Call.queues) := by
  have same : ((empty.run calls).2.perform call).2 = (empty.run calls).2.advance n := by
    rcases reads with rfl | rfl <;> rfl
  rw [same, ← strandedRoom_run_iff]
  generalize (empty.run calls).2 = q
  refine ⟨fun none => not_hasSpentFront_advance none n, fun some drained => ?_,
    segments_advance_eq_nil_iff, ?_⟩
  · exact hasSpentFront_of_drained (by rwa [strandedRoom_advance]) drained
  · rintro ⟨s, rest, front, read, closed⟩ later uncleared
    have room := room_ne_zero_of_front front read
    have pins : Pins s (q.advance n).segments.length (q.advance n) :=
      ⟨by rw [front, List.head?_cons], rfl, read, room, closed.resolve_right room⟩
    have pins_later := pins.run uncleared
    exact ⟨pins_later.first.trans pins.first.symm, pins_later.count⟩

theorem read_frees_spent_iff_filled :
    let filled : List Call := [.pushRegion 2, .put [97, 98], .pushPiece [99]]
    let early : List Call := [.pushRegion 4, .put [97, 98], .pushPiece [99]]
    let q := ((empty.run filled).2.perform (.get 3)).2
    let r := ((empty.run early).2.perform (.advance 3)).2
    ClosesFull filled ∧ q.remaining = 0 ∧ q.writable = 0 ∧ q.segments = [] ∧
      ¬ ClosesFull early ∧ r.remaining = 0 ∧ r.HasSpentFront ∧
      (r.run [.pushPiece [100], .get 1]).2.segments.length = 3 := by
  intro filled early q r
  have full : ClosesFull filled := (strandedRoom_run_iff filled).mp (by decide)
  have not_full : ¬ ClosesFull early := mt (strandedRoom_run_iff early).mpr (by decide)
  obtain ⟨-, -, drained, -⟩ := read_frees_spent_iff filled (n := 3) (.inl rfl)
  obtain ⟨-, spent, -, stays⟩ := read_frees_spent_iff early (n := 3) (.inr rfl)
  have front : r.HasSpentFront := spent not_full (by decide)
  have nothing : q.segments = [] := (drained (by decide) (by decide)).mpr full
  exact ⟨full, by decide, by decide, nothing, not_full, by decide, front,
    (stays front _ (by decide)).2⟩

/-- A queue that is drained and takes no more bytes holds two segments, and one more for each piece
that goes through it. -/
theorem drained_keeps_segments :
    let q := (empty.run [.pushRegion 4, .put [97, 98], .pushPiece [99], .get 3]).2
    let r := (q.run [.pushPiece [100], .get 1]).2
    q.remaining = 0 ∧ q.writable = 0 ∧ q.segments = [.region [] 2, .piece []] ∧
      r.remaining = 0 ∧ r.writable = 0 ∧ r.segments.length = 3 := by
  decide

end ByteQueue

end PgPipeline
