import Mathlib.Algebra.GroupWithZero.Nat
import PgPipeline.ByteQueue.History
import PgPipeline.Proofs.ByteQueue

/-!
A byte queue refines a plain queue of bytes.

Only the first segment that takes more bytes can hold some already; those behind it are blank
(`ByteQueue.Orderly`). So bytes that are put find their place at the end, reading never changes the
room, and every call is a step of a plain queue (`Orderly.perform`). What leaves a plain queue is
the stream of what came in, stretch after stretch (`Fifo.Steps.conserves`).
-/

namespace PgPipeline

namespace Segment

def unreadOf (segments : List Segment) : Bytes := segments.flatMap unread

def roomOf (segments : List Segment) : Nat := (segments.map room).sum

variable {s : Segment} {segments : List Segment}

@[simp] theorem unreadOf_nil : unreadOf [] = [] := rfl

@[simp] theorem unreadOf_cons : unreadOf (s :: segments) = s.unread ++ unreadOf segments := rfl

@[simp] theorem roomOf_nil : roomOf [] = 0 := rfl

@[simp] theorem roomOf_cons : roomOf (s :: segments) = s.room + roomOf segments := List.sum_cons

@[simp] theorem room_consume (n : Nat) : (s.consume n).room = s.room := by cases s <;> rfl

theorem unreadOf_eq_nil (blank : ∀ s ∈ segments, s.unread = []) : unreadOf segments = [] :=
  List.flatMap_eq_nil_iff.mpr blank

end Segment

namespace ByteQueue

open Segment (unreadOf roomOf)

variable {q : ByteQueue} {segments : List Segment} {data : Bytes}

theorem writable_eq (q : ByteQueue) : q.writable = roomOf (q.segments.drop q.writeFrom) := by
  unfold writable
  induction q.segments.drop q.writeFrom with
  | nil => rfl
  | cons s rest ih => rw [List.foldr_cons, ih, Segment.roomOf_cons]

structure Fills (segments : List Segment) (data : Bytes) (f : Filled) : Prop where
  unread : unreadOf f.segments = unreadOf segments ++ data.take (roomOf segments)
  left : f.left = data.drop (roomOf segments)
  closed : f.closed ≤ f.segments.length
  room : roomOf (f.segments.drop f.closed) = roomOf segments - data.length
  behind : ∀ s ∈ (f.segments.drop f.closed).tail, s.unread = []

theorem fills (blank : ∀ s ∈ segments.tail, s.unread = []) :
    Fills segments data (fill segments data) := by
  fun_induction fill segments data with
  | case1 segments =>
    constructor
    · simp
    · simp
    · simp
    · simp
    · simpa using blank
  | case2 data holds => constructor <;> simp
  | case3 unread rest data holds f ih =>
    have blank : ∀ s ∈ rest, s.unread = [] := blank
    have fills : Fills rest data f := ih fun s mem => blank s (List.mem_of_mem_tail mem)
    have nothing := Segment.unreadOf_eq_nil blank
    constructor
    · simpa [Segment.room, nothing] using fills.unread
    · simpa [Segment.room] using fills.left
    · simpa using fills.closed
    · simpa [Segment.room] using fills.room
    · simpa using fills.behind
  | case4 unread room rest data holds full f ih =>
    have blank : ∀ s ∈ rest, s.unread = [] := blank
    have fills : Fills rest (data.drop room) f := ih fun s mem => blank s (List.mem_of_mem_tail mem)
    have nothing := Segment.unreadOf_eq_nil blank
    constructor
    · have added : data.take room ++ (data.drop room).take (roomOf rest) =
          data.take (room + roomOf rest) := List.take_add.symm
      simp [Segment.unread, Segment.room, fills.unread, nothing, added]
    · simp [Segment.room, fills.left]
    · simpa using fills.closed
    · have less := fills.room
      rw [List.length_drop] at less
      simp only [List.drop_succ_cons, less, Segment.roomOf_cons, Segment.room]
      omega
    · simpa using fills.behind
  | case5 unread room rest data holds partly =>
    have blank : ∀ s ∈ rest, s.unread = [] := blank
    have nothing := Segment.unreadOf_eq_nil blank
    have short : data.length ≤ room + roomOf rest := by omega
    constructor
    · simp [Segment.unread, Segment.room, nothing, List.take_of_length_le short]
    · simp [Segment.room, List.drop_eq_nil_of_le short]
    · simp
    · simp only [List.drop_zero, Segment.roomOf_cons, Segment.room]
      omega
    · simpa using blank

/-- Behind the first segment that takes more bytes, all segments are blank. -/
structure Orderly (q : ByteQueue) : Prop where
  within : q.writeFrom ≤ q.segments.length
  behind : ∀ s ∈ (q.segments.drop q.writeFrom).tail, s.unread = []

theorem Orderly.empty : Orderly empty := ⟨Nat.le_refl _, nofun⟩

theorem Orderly.pushPiece (h : q.Orderly) (data : Bytes) : (q.pushPiece data).Orderly := by
  unfold ByteQueue.pushPiece
  split
  · exact h
  · exact ⟨Nat.le_refl _, by simp⟩

theorem writable_pushPiece (q : ByteQueue) (data : Bytes) :
    (q.pushPiece data).writable = if data = [] then q.writable else 0 := by
  unfold ByteQueue.pushPiece
  cases data with
  | nil => simp
  | cons b data => simp [writable_eq]

theorem Orderly.pushRegion (h : q.Orderly) (capacity : Nat) : (q.pushRegion capacity).Orderly := by
  constructor
  · have within := h.within
    simp only [ByteQueue.pushRegion, List.length_append]
    omega
  · intro s mem
    simp only [ByteQueue.pushRegion, List.drop_append_of_le_length h.within] at mem
    cases open_ : q.segments.drop q.writeFrom with
    | nil => simp [open_] at mem
    | cons first rest =>
      rw [open_, List.cons_append, List.tail_cons] at mem
      rcases List.mem_append.mp mem with old | new
      · exact h.behind s (by rwa [open_])
      · rw [List.mem_singleton.mp new]
        rfl

theorem toBytes_pushRegion (q : ByteQueue) (capacity : Nat) :
    (q.pushRegion capacity).toBytes = q.toBytes := by
  simp [ByteQueue.pushRegion, toBytes, Segment.unread]

theorem writable_pushRegion (h : q.Orderly) (capacity : Nat) :
    (q.pushRegion capacity).writable = q.writable + capacity := by
  simp [writable_eq, ByteQueue.pushRegion, List.drop_append_of_le_length h.within, Segment.roomOf,
    Segment.room]

theorem put?_eq (q : ByteQueue) (data : Bytes) :
    q.put? data = none ↔ data ≠ [] ∧ q.isReadOnly = true := by
  unfold put?
  cases data with
  | nil => simp
  | cons b data => simp

theorem roomOf_eq_zero (closed : segments.any Segment.isRegion = false) : roomOf segments = 0 := by
  induction segments with
  | nil => rfl
  | cons s rest ih =>
    rw [List.any_cons, Bool.or_eq_false_iff] at closed
    cases s with
    | piece unread => simp [Segment.room, ih closed.2]
    | region unread room => cases closed.1

theorem writable_eq_zero (closed : q.isReadOnly = true) : q.writable = 0 := by
  rw [writable_eq]
  exact roomOf_eq_zero (by simpa [isReadOnly] using closed)

structure Put (q : ByteQueue) (data : Bytes) (count : Nat) (r : ByteQueue) : Prop where
  taken : count = min data.length q.writable
  bytes : r.toBytes = q.toBytes ++ data.take count
  room : r.writable = q.writable - count
  orderly : r.Orderly

theorem Orderly.put {count : Nat} {r : ByteQueue} (h : q.Orderly)
    (put : q.put? data = some (count, r)) : Put q data count r := by
  unfold put? at put
  split at put
  · next nothing =>
    rw [List.isEmpty_iff] at nothing
    cases put
    constructor <;> simp [nothing, h]
  split at put
  · cases put
  · have fills : Fills (q.segments.drop q.writeFrom) data _ := fills h.behind
    generalize fill (q.segments.drop q.writeFrom) data = f at put fills
    rw [Option.some.injEq, Prod.mk.injEq] at put
    obtain ⟨count_, rfl⟩ := put
    have taken : count = min data.length q.writable := by
      rw [← count_, fills.left, List.length_drop, writable_eq]
      omega
    have front : (q.segments.take q.writeFrom).length = q.writeFrom :=
      List.length_take_of_le h.within
    have behind : (q.segments.take q.writeFrom ++ f.segments).drop (q.writeFrom + f.closed) =
        f.segments.drop f.closed := by
      rw [List.drop_append, front, List.drop_eq_nil_of_le (by omega), List.nil_append]
      congr 1
      omega
    constructor
    · exact taken
    · have all : q.toBytes = unreadOf (q.segments.take q.writeFrom) ++
          unreadOf (q.segments.drop q.writeFrom) := by
        rw [Segment.unreadOf, Segment.unreadOf, ← List.flatMap_append, List.take_append_drop,
          toBytes]
      have same : data.take count = data.take (roomOf (q.segments.drop q.writeFrom)) := by
        rw [List.take_eq_take_iff, taken, writable_eq]
        omega
      have unread := fills.unread
      rw [Segment.unreadOf] at unread
      rw [toBytes, List.flatMap_append, unread, all, same, List.append_assoc]
      rfl
    · rw [writable_eq]
      dsimp only
      rw [behind, fills.room, taken, writable_eq]
      omega
    · constructor
      · have closed := fills.closed
        simp only [List.length_append, front]
        omega
      · dsimp only
        rw [behind]
        exact fills.behind

theorem compact_cons {s : Segment} (w : Nat) (exhausted : s.isExhausted = true) :
    compact ⟨s :: segments, w⟩ = compact ⟨segments, w - 1⟩ := by
  have less := (List.dropWhile_sublist (p := Segment.isExhausted) (l := segments)).length_le
  simp only [compact, List.dropWhile_cons, exhausted, if_true, List.length_cons, mk.injEq, true_and]
  omega

theorem compact_of_not {s : Segment} (w : Nat) (holds : s.isExhausted = false) :
    compact ⟨s :: segments, w⟩ = ⟨s :: segments, w⟩ := by
  simp [compact, holds]

theorem room_of_isExhausted {s : Segment} (exhausted : s.isExhausted = true) : s.room = 0 := by
  simp only [Segment.isExhausted, Bool.and_eq_true, decide_eq_true_eq] at exhausted
  exact exhausted.2

theorem writable_compact (q : ByteQueue) : q.compact.writable = q.writable := by
  obtain ⟨segments, w⟩ := q
  induction segments generalizing w with
  | nil => simp [compact, writable]
  | cons s rest ih =>
    cases exhausted : s.isExhausted with
    | false => rw [compact_of_not w exhausted]
    | true =>
      rw [compact_cons w exhausted, ih, writable_eq, writable_eq]
      cases w with
      | zero => simp [room_of_isExhausted exhausted]
      | succ w => simp

theorem Orderly.compact (h : q.Orderly) : q.compact.Orderly := by
  obtain ⟨segments, w⟩ := q
  induction segments generalizing w with
  | nil => exact ⟨by simpa [ByteQueue.compact] using h.within, by simp [ByteQueue.compact]⟩
  | cons s rest ih =>
    cases exhausted : s.isExhausted with
    | false => rwa [compact_of_not w exhausted]
    | true =>
      rw [compact_cons w exhausted]
      refine ih (w - 1) ?_
      obtain ⟨within, behind⟩ := h
      cases w with
      | zero => exact ⟨Nat.zero_le _, fun t mem => behind t (List.mem_of_mem_tail mem)⟩
      | succ w => exact ⟨by simpa using within, by simpa using behind⟩

theorem copy_eq (n : Nat) (segments : List Segment) :
    copy n segments = (unreadOf segments).take n := by
  induction segments generalizing n with
  | nil => simp [copy]
  | cons s rest ih => rw [copy, ih, Segment.unreadOf_cons, List.take_append]

theorem drop_consume (w n : Nat) (segments : List Segment) :
    ∃ k, (consume n segments).drop w = consume k (segments.drop w) := by
  induction w generalizing n segments with
  | zero => exact ⟨n, rfl⟩
  | succ w ih =>
    cases segments with
    | nil => exact ⟨n, by simp [consume]⟩
    | cons s rest => exact ih (n - s.unread.length) rest

theorem roomOf_consume (n : Nat) (segments : List Segment) :
    roomOf (consume n segments) = roomOf segments := by
  induction segments generalizing n with
  | nil => rfl
  | cons s rest ih => simp [consume, ih]

theorem blank_consume (n : Nat) (blank : ∀ s ∈ segments, s.unread = []) :
    ∀ s ∈ consume n segments, s.unread = [] := by
  induction segments generalizing n with
  | nil => simp [consume]
  | cons s rest ih =>
    rw [List.forall_mem_cons] at blank
    rw [consume, List.forall_mem_cons]
    exact ⟨by rw [unread_consume, blank.1, List.drop_nil], ih _ blank.2⟩

theorem length_consume (n : Nat) (segments : List Segment) :
    (consume n segments).length = segments.length := by
  induction segments generalizing n with
  | nil => rfl
  | cons s rest ih => simp [consume, ih]

theorem writable_advance (q : ByteQueue) (n : Nat) : (q.advance n).writable = q.writable := by
  obtain ⟨k, later⟩ := drop_consume q.writeFrom n q.segments
  rw [advance, writable_compact, writable_eq, writable_eq]
  dsimp only
  rw [later, roomOf_consume]

theorem Orderly.advance (h : q.Orderly) (n : Nat) : (q.advance n).Orderly := by
  obtain ⟨k, later⟩ := drop_consume q.writeFrom n q.segments
  refine Orderly.compact ⟨?_, ?_⟩
  · rw [length_consume]
    exact h.within
  · dsimp only
    rw [later]
    cases open_ : q.segments.drop q.writeFrom with
    | nil => simp [consume]
    | cons s rest =>
      refine blank_consume _ fun t mem => h.behind t ?_
      rwa [open_]

inductive Removal where
  | sent (count : Nat)
  | dropped (count : Nat)

/-- What is left of a stream when the stretches that were dropped are cut out, one removal taking up
where the one before it ended. -/
def spare : List Removal → Bytes → Bytes
  | [], stream => stream
  | .sent count :: removals, stream => stream.take count ++ spare removals (stream.drop count)
  | .dropped count :: removals, stream => spare removals (stream.drop count)

def appendedBy : Call × Outcome → Bytes
  | (.pushPiece data, .queued) => data
  | (.put data, .stored count) => data.take count
  | _ => []

def sentBy : Call × Outcome → Bytes
  | (.writeTo _, .sent data _) => data
  | _ => []

def removalsBy : Call × Outcome → List Removal
  | (.get _, .given data) => [.dropped data.length]
  | (.advance _, .dropped count) => [.dropped count]
  | (.clear, .dropped count) => [.dropped count]
  | (.writeTo _, .sent data _) => [.sent data.length]
  | _ => []

/-- A plain queue of bytes, and how many more may be put into it. -/
structure Fifo where
  bytes : Bytes
  room : Nat

namespace Fifo

/-- Bytes are written to a socket with these answers: so many are sent, and the others are left. The
socket takes a stretch from the front, as long as it likes, until nothing is left or it refuses. -/
inductive Writes : Bytes → List WriteAnswer → Bytes → Bytes → WriteEnd → Prop
  | drained {answers : List WriteAnswer} : Writes [] answers [] [] .drained
  | silent {left : Bytes} (holds : left ≠ []) : Writes left [] [] left .blocked
  | blocked {left : Bytes} {answers : List WriteAnswer} (holds : left ≠ []) :
      Writes left (.blocked :: answers) [] left .blocked
  | failed {left : Bytes} {answers : List WriteAnswer} {text : String} (holds : left ≠ []) :
      Writes left (.failed text :: answers) [] left (.failed text)
  | takesNothing {left : Bytes} {answers : List WriteAnswer} (holds : left ≠ []) :
      Writes left (.takes 0 :: answers) [] left (.failed "write zero")
  | interrupted {bytes sent left : Bytes} {answers : List WriteAnswer} {ending : WriteEnd}
      (holds : bytes ≠ []) (again : Writes bytes answers sent left ending) :
      Writes bytes (.interrupted :: answers) sent left ending
  | takes {stretch bytes sent left : Bytes} {answers : List WriteAnswer} {ending : WriteEnd}
      {count : Nat} (something : stretch ≠ []) (most : stretch.length ≤ count)
      (further : Writes bytes answers sent left ending) :
      Writes (stretch ++ bytes) (.takes count :: answers) (stretch ++ sent) left ending

inductive Step : Fifo → Call → Outcome → Fifo → Prop
  | pushPiece {f : Fifo} {data : Bytes} :
      Step f (.pushPiece data) .queued ⟨f.bytes ++ data, if data = [] then f.room else 0⟩
  | pushRegion {f : Fifo} {capacity : Nat} :
      Step f (.pushRegion capacity) .queued ⟨f.bytes, f.room + capacity⟩
  | put {f : Fifo} {data : Bytes} {count : Nat} (most : count = min data.length f.room) :
      Step f (.put data) (.stored count) ⟨f.bytes ++ data.take count, f.room - count⟩
  | refuse {f : Fifo} {data : Bytes} (something : data ≠ []) (full : f.room = 0) :
      Step f (.put data) .refused f
  | get {f : Fifo} {count : Nat} :
      Step f (.get count) (.given (f.bytes.take count)) ⟨f.bytes.drop count, f.room⟩
  | advance {f : Fifo} {count : Nat} :
      Step f (.advance count) (.dropped (min count f.bytes.length)) ⟨f.bytes.drop count, f.room⟩
  | clear {f : Fifo} : Step f .clear (.dropped f.bytes.length) ⟨[], 0⟩
  | writeTo {f : Fifo} {answers : List WriteAnswer} {sent left : Bytes} {ending : WriteEnd}
      (writes : Writes f.bytes answers sent left ending) :
      Step f (.writeTo answers) (.sent sent ending) ⟨left, f.room⟩

theorem Writes.bytes_eq {bytes sent left : Bytes} {answers : List WriteAnswer} {ending : WriteEnd}
    (h : Writes bytes answers sent left ending) : bytes = sent ++ left := by
  induction h with
  | drained | silent | blocked | failed | takesNothing => rfl
  | interrupted holds again ih => exact ih
  | takes something most further ih => rw [ih, List.append_assoc]

inductive Steps : Fifo → List (Call × Outcome) → Fifo → Prop
  | nil {f : Fifo} : Steps f [] f
  | cons {f g h : Fifo} {call : Call} {outcome : Outcome} {trace : List (Call × Outcome)}
      (first : Step f call outcome g) (others : Steps g trace h) :
      Steps f ((call, outcome) :: trace) h

theorem spare_dropped (count : Nat) (removals : List Removal) (bytes later : Bytes) :
    spare (.dropped (min count bytes.length) :: removals) (bytes ++ later) =
      spare removals (bytes.drop count ++ later) := by
  have same : bytes.drop (min count bytes.length) = bytes.drop count := by
    rw [List.drop_eq_drop_iff]
    omega
  rw [spare, List.drop_append_of_le_length (Nat.min_le_right _ _), same]

theorem Steps.conserves {f g : Fifo} {trace : List (Call × Outcome)} (h : Steps f trace g) :
    trace.flatMap sentBy ++ g.bytes =
      spare (trace.flatMap removalsBy) (f.bytes ++ trace.flatMap appendedBy) := by
  induction h with
  | nil => simp [spare]
  | cons first others ih =>
    simp only [List.flatMap_cons, List.append_assoc, ih]
    cases first with
    | pushPiece | pushRegion | put | refuse => simp [sentBy, removalsBy, appendedBy]
    | get => simp [sentBy, removalsBy, appendedBy, spare_dropped]
    | advance => simp [sentBy, removalsBy, appendedBy, spare_dropped]
    | clear => simp [sentBy, removalsBy, appendedBy, spare]
    | writeTo writes => simp [sentBy, removalsBy, appendedBy, spare, writes.bytes_eq]

end Fifo

variable {answers : List WriteAnswer}

theorem Orderly.writeTo (h : q.Orderly) (answers : List WriteAnswer) :
    (q.writeTo answers).queue.Orderly ∧ (q.writeTo answers).queue.writable = q.writable :=
  writeTo_keeps (P := fun r => r.Orderly ∧ r.writable = q.writable)
    (fun r n kept => ⟨kept.1.advance n, (writable_advance r n).trans kept.2⟩) ⟨h, rfl⟩ answers

theorem writes_writeTo (q : ByteQueue) (answers : List WriteAnswer) :
    Fifo.Writes q.toBytes answers (q.writeTo answers).sent (q.writeTo answers).queue.toBytes
      (q.writeTo answers).ending := by
  fun_induction ByteQueue.writeTo q answers with
  | case1 answers q nothing =>
    rw [(isEmpty_iff q).mp nothing]
    exact .drained
  | case2 q holds => exact .silent (mt (isEmpty_iff q).mpr holds)
  | case3 q holds => exact .blocked (mt (isEmpty_iff q).mpr holds)
  | case4 q holds => exact .failed (mt (isEmpty_iff q).mpr holds)
  | case5 q holds rest ih => exact .interrupted (mt (isEmpty_iff q).mpr holds) ih
  | case6 q holds count rest sent left taken nothing =>
    have holds := mt (isEmpty_iff q).mpr holds
    have bytes := q.writeSlices_bytes slicesPerWrite count
    have same : (q.slices slicesPerWrite).flatten.take count = sent := congrArg Prod.fst taken
    rw [List.isEmpty_iff.mp nothing, List.take_eq_nil_iff] at same
    rw [taken, List.isEmpty_iff.mp nothing, List.nil_append] at bytes
    dsimp only
    rw [bytes, same.resolve_right (q.slices_ne_nil (by decide) holds)]
    exact .takesNothing holds
  | case7 q holds count rest sent left taken something w ih =>
    have bytes := q.writeSlices_bytes slicesPerWrite count
    have same : (q.slices slicesPerWrite).flatten.take count = sent := congrArg Prod.fst taken
    rw [taken] at bytes
    rw [← bytes]
    refine .takes (by simpa using something) ?_ ih
    rw [← same]
    exact List.length_take_le _ _

def fifo (q : ByteQueue) : Fifo := ⟨q.toBytes, q.writable⟩

theorem Orderly.perform (h : q.Orderly) (call : Call) :
    (q.perform call).2.Orderly ∧
      Fifo.Step q.fifo call (q.perform call).1 (q.perform call).2.fifo := by
  cases call with
  | pushPiece data =>
    refine ⟨h.pushPiece data, ?_⟩
    simp only [ByteQueue.perform, fifo, toBytes_pushPiece, writable_pushPiece]
    exact .pushPiece
  | pushRegion capacity =>
    refine ⟨h.pushRegion capacity, ?_⟩
    simp only [ByteQueue.perform, fifo, toBytes_pushRegion, writable_pushRegion h]
    exact .pushRegion
  | put data =>
    simp only [ByteQueue.perform]
    cases put : q.put? data with
    | none =>
      obtain ⟨something, closed⟩ := (put?_eq q data).mp put
      exact ⟨h, .refuse something (writable_eq_zero closed)⟩
    | some filled =>
      have put := h.put put
      refine ⟨put.orderly, ?_⟩
      simp only [fifo, put.bytes, put.room]
      exact .put put.taken
  | get count =>
    refine ⟨h.advance count, ?_⟩
    simp only [ByteQueue.perform, get, copy_eq, fifo, toBytes_advance, writable_advance]
    exact .get
  | advance count =>
    refine ⟨h.advance count, ?_⟩
    simp only [ByteQueue.perform, fifo, toBytes_advance, writable_advance, length_toBytes]
    exact .advance
  | clear =>
    refine ⟨.empty, ?_⟩
    simp only [ByteQueue.perform, length_toBytes]
    exact .clear
  | writeTo answers =>
    obtain ⟨orderly, same⟩ := h.writeTo answers
    refine ⟨orderly, ?_⟩
    simp only [ByteQueue.perform, fifo, same]
    exact .writeTo (writes_writeTo q answers)

theorem Orderly.run (h : q.Orderly) (calls : List Call) :
    (q.run calls).2.Orderly ∧ Fifo.Steps q.fifo (q.run calls).1 (q.run calls).2.fifo := by
  induction calls generalizing q with
  | nil => exact ⟨h, .nil⟩
  | cons call calls ih =>
    obtain ⟨next, step⟩ := h.perform call
    obtain ⟨last, steps⟩ := ih next
    exact ⟨last, .cons step steps⟩

theorem Orderly.perform_put (h : q.Orderly) (data : Bytes) :
    if data ≠ [] ∧ q.isReadOnly = true then q.perform (.put data) = (.refused, q)
    else (q.perform (.put data)).1 = .stored (min data.length q.writable) := by
  cases put : q.put? data with
  | none =>
    rw [if_pos ((put?_eq q data).mp put), ByteQueue.perform, put]
  | some filled =>
    rw [if_neg fun closed => ?_, ByteQueue.perform, put, ← (h.put put).taken]
    rw [(put?_eq q data).mpr closed] at put
    cases put

/-- Whatever is done to a queue, it behaves as a plain one: every call is a step of the plain queue
(`Fifo.Step`), only a queue without a region refuses bytes, and what the sockets took together with
what is left is the stream of everything appended, without what was given up. -/
theorem run_refines_fifo (calls : List Call) :
    let trace := (empty.run calls).1
    let q := (empty.run calls).2
    (∀ call, Fifo.Step q.fifo call (q.perform call).1 (q.perform call).2.fifo) ∧
      (∀ data, if data ≠ [] ∧ q.isReadOnly = true then q.perform (.put data) = (.refused, q)
        else (q.perform (.put data)).1 = .stored (min data.length q.writable)) ∧
      (∀ answers, (q.writeTo answers).ending = .drained ↔
        (q.writeTo answers).queue.isEmpty = true) ∧
      q.remaining = q.toBytes.length ∧
      trace.flatMap sentBy ++ q.toBytes =
        spare (trace.flatMap removalsBy) (trace.flatMap appendedBy) := by
  intro trace q
  obtain ⟨orderly, steps⟩ := Orderly.empty.run calls
  refine ⟨fun call => (orderly.perform call).2, orderly.perform_put, fun answers => ?_,
    length_toBytes q, steps.conserves⟩
  rw [isEmpty_iff]
  exact writeTo_drained q answers

end ByteQueue

end PgPipeline
