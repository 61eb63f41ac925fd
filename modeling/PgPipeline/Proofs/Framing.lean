import PgPipeline.Proofs.Readers
import PgPipeline.Wire.Field
import PgPipeline.Wire.Frame

/-!
The inbound stream as a sequence of frames.

Every byte string is a sequence of frames and a rest that begins with none (`Frame.exists_frames`).
What is taken off the stream are the contents of these frames (`Inbound.results_frames`), so it
does not matter in which pieces the bytes come in (`Inbound.pour_flatten`).
-/

namespace PgPipeline

namespace Bytes

theorem bigEndian_add (width n m : Nat) :
    bigEndian width (n * 256 ^ width + m) = bigEndian width m := by
  induction width generalizing n with
  | zero => rfl
  | succ width ih =>
    have pos : 0 < 256 ^ width := Nat.pow_pos (by decide)
    have high : n * 256 ^ (width + 1) = n * 256 * 256 ^ width := by
      rw [Nat.pow_succ, Nat.mul_comm (256 ^ width), Nat.mul_assoc]
    have byte : (n * 256 * 256 ^ width + m) / 256 ^ width = m / 256 ^ width + n * 256 := by
      rw [Nat.add_comm, Nat.add_mul_div_right _ _ pos]
    rw [bigEndian, bigEndian, high, ih, byte]
    congr 1
    rw [← UInt8.toNat_inj]
    simp

theorem bigEndian_toNat (bs : Bytes) : bigEndian bs.length (toNat bs) = bs := by
  induction bs with
  | nil => rfl
  | cons b rest ih =>
    have tail := toNat_lt rest
    have pos : 0 < 256 ^ rest.length := Nat.pow_pos (by decide)
    have first : (b.toNat * 256 ^ rest.length + toNat rest) / 256 ^ rest.length = b.toNat := by
      rw [Nat.add_comm, Nat.add_mul_div_right _ _ pos, Nat.div_eq_of_lt tail, Nat.zero_add]
    rw [toNat, List.length_cons, bigEndian, first, bigEndian_add, ih, UInt8.ofNat_toNat]

theorem int16_toInt16 {bs : Bytes} (two : bs.length = 2) : int16 (toInt16 bs) = bs := by
  have small : toNat bs < 2 ^ 16 := by simpa [two] using toNat_lt bs
  rw [int16, toInt16, UInt16.toUInt16_toInt16, UInt16.toNat_ofNat_of_lt' small, ← two,
    bigEndian_toNat]

theorem int32_toInt32 {bs : Bytes} (four : bs.length = 4) : int32 (toInt32 bs) = bs := by
  have small : toNat bs < 2 ^ 32 := by simpa [four] using toNat_lt bs
  rw [int32, toInt32, UInt32.toUInt32_toInt32, UInt32.toNat_ofNat_of_lt' small, ← four,
    bigEndian_toNat]

theorem int64_toInt64 {bs : Bytes} (eight : bs.length = 8) : int64 (toInt64 bs) = bs := by
  have small : toNat bs < 2 ^ 64 := by simpa [eight] using toNat_lt bs
  rw [int64, toInt64, UInt64.toUInt64_toInt64, UInt64.toNat_ofNat_of_lt' small, ← eight,
    bigEndian_toNat]

theorem toInt32_bigEndian {n : Nat} (h : n < 2 ^ 31) : (toInt32 (bigEndian 4 n)).toInt = n := by
  have word : toInt32 (bigEndian 4 n) = Int32.ofNat n := by
    rw [toInt32, toNat_bigEndian, Nat.mod_eq_of_lt (by omega), UInt32.toInt32_ofNat']
  rw [word, Int32.toInt_ofNat_of_lt h]

theorem not_toInt32_lt {n : Nat} (small : n < 2 ^ 31) {k : Int32} (le : k.toInt ≤ n) :
    ¬ toInt32 (bigEndian 4 n) < k := by
  intro below
  have below := Int32.lt_iff_toInt_lt.mp below
  rw [toInt32_bigEndian small] at below
  omega

theorem not_toInt32_neg {n : Nat} (small : n < 2 ^ 31) : ¬ toInt32 (bigEndian 4 n) < 0 :=
  not_toInt32_lt small (Int32.toInt_zero ▸ Int.natCast_nonneg n)

theorem bigEndian_toInt32 {bs : Bytes} (four : bs.length = 4) {n : Nat}
    (word : (toInt32 bs).toInt = n) : bs = bigEndian 4 n ∧ n < 2 ^ 31 := by
  have lt : toNat bs < 2 ^ 32 := by simpa [four] using toNat_lt bs
  have value : (toInt32 bs).toInt = ((toNat bs : Nat) : Int).bmod (2 ^ 32) := Int32.toInt_ofNat'
  rw [word] at value
  have same : n = toNat bs ∧ n < 2 ^ 31 := by
    rw [Int.bmod_def] at value
    omega
  refine ⟨?_, same.2⟩
  rw [same.1, ← four, bigEndian_toNat]

end Bytes

structure Frame where
  tag : UInt8
  body : Bytes
  deriving DecidableEq, Repr

namespace Frame

def bytes (f : Frame) : Bytes := f.tag :: Wire.withLength f.body

def Fits (limit : Nat) (f : Frame) : Prop := f.body.length + 4 < 2 ^ 31 ∧ f.body.length + 4 ≤ limit

/-- What the frame says, or why its body cannot be read. -/
def content (f : Frame) : Except WireError BackendMessage := BackendMessage.decodeBody f.tag f.body

def Begins (limit : Nat) (s : Bytes) : Prop :=
  ∃ (f : Frame) (t : Bytes), f.Fits limit ∧ s = f.bytes ++ t

end Frame

namespace WireError

def isFrameLength : WireError → Bool
  | invalidFrameLength .. => true
  | _ => false

end WireError

namespace Inbound

def lengthFault? (limit : Nat) : Bytes → Option WireError
  | tag :: a :: b :: c :: d :: _ =>
    let length := Bytes.toInt32 [a, b, c, d]
    if length < 4 ∨ limit < length.toInt.toNat then some (.invalidFrameLength length tag)
    else none
  | _ => none

theorem isFrameLength_of_lengthFault? {limit : Nat} {s : Bytes} {e : WireError}
    (h : lengthFault? limit s = some e) : e.isFrameLength := by
  unfold lengthFault? at h
  split at h
  · dsimp only at h
    split at h <;> cases h
    rfl
  · cases h

theorem lengthFault?_append {limit : Nat} {s : Bytes} {e : WireError} (t : Bytes)
    (h : lengthFault? limit s = some e) : lengthFault? limit (s ++ t) = some e := by
  unfold lengthFault? at h
  split at h
  · exact h
  · cases h

end Inbound

namespace Frame

variable {limit : Nat} {f : Frame} {s t : Bytes}

theorem bytes_eq (f : Frame) (t : Bytes) : ∃ a b c d : UInt8,
    f.bytes ++ t = f.tag :: a :: b :: c :: d :: (f.body ++ t) ∧
      [a, b, c, d] = Bytes.bigEndian 4 (f.body.length + 4) :=
  ⟨_, _, _, _, by rw [bytes, Wire.withLength, List.cons_append, List.append_assoc]; rfl, rfl⟩

theorem length_word (small : f.body.length + 4 < 2 ^ 31) :
    ¬ Bytes.toInt32 (Bytes.bigEndian 4 (f.body.length + 4)) < 4 ∧
      (Bytes.toInt32 (Bytes.bigEndian 4 (f.body.length + 4))).toInt.toNat = f.body.length + 4 := by
  have four : (4 : Int32).toInt = 4 := by decide
  exact ⟨Bytes.not_toInt32_lt small (by omega),
    by rw [Bytes.toInt32_bigEndian small, Int.toNat_natCast]⟩

theorem decode_bytes (small : f.body.length + 4 < 2 ^ 31) (t : Bytes) :
    BackendMessage.decode (f.bytes ++ t) = (f.content, t) := by
  obtain ⟨a, b, c, d, all, word⟩ := f.bytes_eq t
  obtain ⟨low, length⟩ := length_word small
  rw [all, BackendMessage.decode, word]
  dsimp only
  rw [if_neg low, length, Nat.add_sub_cancel, if_neg (by simp), List.take_left, List.drop_left]
  rfl

theorem next_bytes (fits : f.Fits limit) (t : Bytes) :
    Inbound.next ⟨f.bytes ++ t, limit⟩ = (f.content.map some, ⟨t, limit⟩) := by
  obtain ⟨a, b, c, d, all, word⟩ := f.bytes_eq t
  obtain ⟨low, length⟩ := length_word fits.1
  have accepted := fits.2
  rw [Inbound.next, all]
  dsimp only
  rw [word, length, if_neg (not_or.mpr ⟨low, by omega⟩), Nat.add_sub_cancel, if_neg (by simp),
    List.take_left, List.drop_left]
  rfl

theorem lengthFault?_bytes (fits : f.Fits limit) (t : Bytes) :
    Inbound.lengthFault? limit (f.bytes ++ t) = none := by
  obtain ⟨a, b, c, d, all, word⟩ := f.bytes_eq t
  obtain ⟨low, length⟩ := length_word fits.1
  have accepted := fits.2
  rw [all, Inbound.lengthFault?, word]
  exact if_neg (not_or.mpr ⟨low, by omega⟩)

theorem begins_of_length {tag a b c d : UInt8} {rest : Bytes}
    (good : ¬ (Bytes.toInt32 [a, b, c, d] < 4 ∨
      limit < (Bytes.toInt32 [a, b, c, d]).toInt.toNat))
    (whole : ¬ rest.length < (Bytes.toInt32 [a, b, c, d]).toInt.toNat - 4) :
    Begins limit (tag :: a :: b :: c :: d :: rest) := by
  obtain ⟨low, accepted⟩ := not_or.mp good
  have low : 4 ≤ (Bytes.toInt32 [a, b, c, d]).toInt := by
    have four : (4 : Int32).toInt = 4 := by decide
    have := mt Int32.lt_iff_toInt_lt.mpr low
    omega
  have nonneg : 0 ≤ (Bytes.toInt32 [a, b, c, d]).toInt := by omega
  obtain ⟨n, word⟩ := Int.eq_ofNat_of_zero_le nonneg
  rw [word, Int.toNat_natCast] at whole accepted
  have four : [a, b, c, d].length = 4 := rfl
  obtain ⟨written, small⟩ := Bytes.bigEndian_toInt32 four word
  have length : (rest.take (n - 4)).length + 4 = n := by
    rw [List.length_take]
    omega
  refine ⟨⟨tag, rest.take (n - 4)⟩, rest.drop (n - 4), ⟨?_, ?_⟩, ?_⟩
  · dsimp only
    omega
  · dsimp only
    omega
  · rw [bytes, Wire.withLength, length, ← written]
    simp

theorem next_of_not_begins (frameless : ¬ Begins limit s) : Inbound.next ⟨s, limit⟩ =
    ((Inbound.lengthFault? limit s).elim (.ok none) .error, ⟨s, limit⟩) := by
  unfold Inbound.next Inbound.lengthFault?
  match s, frameless with
  | [], _ | [_], _ | [_, _], _ | [_, _, _], _ | [_, _, _, _], _ => rfl
  | tag :: a :: b :: c :: d :: rest, frameless =>
    dsimp only
    by_cases bad : Bytes.toInt32 [a, b, c, d] < 4 ∨
        limit < (Bytes.toInt32 [a, b, c, d]).toInt.toNat
    · rw [if_pos bad, if_pos bad]
      rfl
    · rw [if_neg bad, if_neg bad]
      by_cases short : rest.length < (Bytes.toInt32 [a, b, c, d]).toInt.toNat - 4
      · rw [if_pos short]
        rfl
      · exact absurd (begins_of_length bad short) frameless

theorem exists_frames (limit : Nat) (s : Bytes) : ∃ (frames : List Frame) (rest : Bytes),
    s = frames.flatMap bytes ++ rest ∧ (∀ f ∈ frames, f.Fits limit) ∧ ¬ Begins limit rest := by
  induction length : s.length using Nat.strongRecOn generalizing s with
  | ind n ih =>
    rcases Classical.em (Begins limit s) with ⟨f, t, fits, rfl⟩ | frameless
    · have shorter : t.length < n := by
        rw [← length, List.length_append, bytes, List.length_cons]
        omega
      obtain ⟨frames, rest, rfl, all, frameless⟩ := ih t.length shorter t rfl
      refine ⟨f :: frames, rest, ?_, ?_, frameless⟩
      · rw [List.flatMap_cons, List.append_assoc]
      · rintro g (_ | ⟨_, mem⟩)
        · exact fits
        · exact all g mem
    · exact ⟨[], s, rfl, by simp, frameless⟩

end Frame

namespace BodyReader

def Contained {α : Type} (r : BodyReader α) : Prop :=
  ∀ data e, r data = .error e → e.isFrameLength = false

theorem IsLocal.contained {α : Type} {r : BodyReader α} (isLocal : IsLocal r) : Contained r := by
  intro data e failed
  have fault := isLocal.faults failed
  cases e <;> first | rfl | cases fault

theorem textsUntilEmpty_contained {data : Bytes} {e : WireError}
    (h : textsUntilEmpty data = .error e) : e.isFrameLength = false := by
  fun_induction textsUntilEmpty data with
  | case1 => cases h
  | case2 data _ f taken =>
    cases h
    exact isLocal_cstring.contained data _ taken
  | case3 => cases h
  | case4 data _ text rest taken _ _ ih =>
    cases more : textsUntilEmpty rest with
    | error f =>
      rw [more] at h
      cases h
      exact ih more
    | ok texts =>
      rw [more] at h
      cases h

theorem reportFields_contained {fields : ReportFields} {data : Bytes} {e : WireError}
    (h : reportFields fields data = .error e) : e.isFrameLength = false := by
  fun_induction reportFields fields data with
  | case1 => cases h
  | case2 => cases h
  | case3 fields key tail _ f taken =>
    cases h
    exact isLocal_cstring.contained tail _ taken
  | case4 fields key tail _ text rest taken _ ih => exact ih h

end BodyReader

namespace BackendMessage

open BodyReader

theorem error_of_map {ε α β : Type} {r : Except ε α} {f : α → β} {e : ε} (h : r.map f = .error e) :
    r = .error e := by
  cases r with
  | error e' =>
    cases h
    rfl
  | ok a => cases h

theorem whole_contained {reader : BodyReader BackendMessage} (h : Contained reader) {data : Bytes}
    {e : WireError} (failed : whole reader data = .error e) : e.isFrameLength = false :=
  h data e (error_of_map failed)

theorem decodeBody_contained {tag : UInt8} {data : Bytes} {e : WireError}
    (h : decodeBody tag data = .error e) : e.isFrameLength = false := by
  unfold decodeBody at h
  split at h
  case h_1 =>
    unfold decodeAuthentication at h
    split at h
    · next f taken =>
      cases h
      exact isLocal_int32.contained data _ taken
    · repeat' split at h
      all_goals first
        | cases h; done
        | exact (isLocal_bytes 4).contained _ _ (error_of_map h)
        | exact textsUntilEmpty_contained (error_of_map h)
        | cases h; rfl
  case h_2 => exact whole_contained isLocal_column.counted.map.contained h
  case h_3 => exact whole_contained isLocal_sized.counted.map.contained h
  case h_4 => exact whole_contained isLocal_cstring.map.contained h
  case h_5 => exact whole_contained isLocal_byte.map.contained h
  case h_6 => exact reportFields_contained (error_of_map h)
  case h_7 => exact reportFields_contained (error_of_map h)
  case h_8 =>
    exact whole_contained (isLocal_cstring.bind fun _ => isLocal_cstring.map).contained h
  case h_9 =>
    exact whole_contained (isLocal_int32.bind fun _ => isLocal_int32.map).contained h
  case h_16 =>
    exact whole_contained isLocal_int32.map.counted.map.contained h
  case h_17 =>
    exact whole_contained
      (isLocal_int32.bind fun _ => isLocal_cstring.bind fun _ => isLocal_cstring.map).contained h
  all_goals cases h
  rfl

end BackendMessage

theorem Frame.content_contained {f : Frame} {e : WireError} (h : f.content = .error e) :
    e.isFrameLength = false :=
  BackendMessage.decodeBody_contained h

def isStuck : Except WireError BackendMessage → Bool
  | .ok _ => false
  | .error e => e.isFrameLength

namespace Inbound

theorem length_next_lt_of_error {i j : Inbound} {e : WireError} (h : i.next = (.error e, j))
    (contained : e.isFrameLength = false) : j.buffered.length < i.buffered.length := by
  obtain ⟨s, limit⟩ := i
  rcases Classical.em (Frame.Begins limit s) with ⟨f, t, fits, rfl⟩ | frameless
  · rw [Frame.next_bytes fits t] at h
    obtain ⟨-, rfl⟩ := Prod.mk.inj h
    dsimp only
    rw [List.length_append, Frame.bytes, List.length_cons]
    omega
  · rw [Frame.next_of_not_begins frameless] at h
    obtain ⟨fault, -⟩ := Prod.mk.inj h
    cases there : lengthFault? limit s with
    | none =>
      rw [there] at fault
      cases fault
    | some f =>
      rw [there] at fault
      cases fault
      exact absurd (contained.symm.trans (isFrameLength_of_lengthFault? there)) (by decide)

/-- Takes one frame after the other, each with what it says or why its body cannot be read, until
the input is exhausted or goes on with a length that no frame has. -/
def results (i : Inbound) : List (Except WireError BackendMessage) × Inbound :=
  match h : i.next with
  | (.ok none, rest) => ([], rest)
  | (.ok (some m), rest) =>
    have := length_next_lt h
    (.ok m :: (results rest).1, (results rest).2)
  | (.error e, rest) =>
    if stuck : e.isFrameLength then ([.error e], rest)
    else
      have := length_next_lt_of_error h (Bool.eq_false_iff.mpr stuck)
      (.error e :: (results rest).1, (results rest).2)
  termination_by i.buffered.length

def pour (i : Inbound) : List Bytes → List (Except WireError BackendMessage) × Inbound
  | [] => ([], i)
  | piece :: rest =>
    let (taken, left) := (i.feed piece).results
    let (more, last) := left.pour rest
    (taken ++ more, last)

/-- The results up to the first one that says that no frame can follow. -/
def untilStuck : List (Except WireError BackendMessage) → List (Except WireError BackendMessage)
  | [] => []
  | r :: rest => if isStuck r then [r] else r :: untilStuck rest

variable {limit : Nat} {frames : List Frame} {s t : Bytes}

theorem results_of_next {i j : Inbound} {r : Except WireError BackendMessage}
    (h : i.next = (r.map some, j)) (goesOn : isStuck r = false) :
    i.results = (r :: j.results.1, j.results.2) := by
  rw [results]
  cases r with
  | ok m =>
    split
    · next h' => cases h.symm.trans h'
    · next h' =>
      cases h.symm.trans h'
      rfl
    · next h' => cases h.symm.trans h'
  | error e =>
    split
    · next h' => cases h.symm.trans h'
    · next h' => cases h.symm.trans h'
    · next h' =>
      cases h.symm.trans h'
      exact dif_neg (Bool.eq_false_iff.mp goesOn)

theorem results_of_idle {i j : Inbound} (h : i.next = (.ok none, j)) : i.results = ([], j) := by
  rw [results]
  split
  · next h' =>
    cases h.symm.trans h'
    rfl
  · next h' => cases h.symm.trans h'
  · next h' => cases h.symm.trans h'

theorem results_of_stuck {i j : Inbound} {e : WireError} (h : i.next = (.error e, j))
    (stuck : e.isFrameLength) : i.results = ([.error e], j) := by
  rw [results]
  split
  · next h' => cases h.symm.trans h'
  · next h' => cases h.symm.trans h'
  · next h' =>
    cases h.symm.trans h'
    rw [dif_pos stuck]

theorem isStuck_content (f : Frame) : isStuck f.content = false := by
  cases said : f.content with
  | ok m => rfl
  | error e => exact Frame.content_contained said

theorem results_bytes {f : Frame} (fits : f.Fits limit) (t : Bytes) :
    results ⟨f.bytes ++ t, limit⟩ =
      (f.content :: (results ⟨t, limit⟩).1, (results ⟨t, limit⟩).2) :=
  results_of_next (Frame.next_bytes fits t) (isStuck_content f)

theorem results_of_not_begins (frameless : ¬ Frame.Begins limit s) : results ⟨s, limit⟩ =
    ((lengthFault? limit s).toList.map .error, ⟨s, limit⟩) := by
  have next := Frame.next_of_not_begins frameless
  cases fault : lengthFault? limit s with
  | none =>
    rw [fault] at next
    exact results_of_idle next
  | some e =>
    rw [fault] at next
    exact results_of_stuck next (isFrameLength_of_lengthFault? fault)

theorem results_frames (fit : ∀ f ∈ frames, f.Fits limit) (t : Bytes) :
    results ⟨frames.flatMap Frame.bytes ++ t, limit⟩ =
      (frames.map Frame.content ++ (results ⟨t, limit⟩).1, (results ⟨t, limit⟩).2) := by
  induction frames with
  | nil => rfl
  | cons f rest ih =>
    rw [List.flatMap_cons, List.append_assoc, results_bytes (fit f List.mem_cons_self),
      ih fun g mem => fit g (List.mem_cons_of_mem _ mem)]
    rfl

theorem not_begins_of_lengthFault? {e : WireError} (h : lengthFault? limit s = some e) (t : Bytes) :
    ¬ Frame.Begins limit (s ++ t) := by
  rintro ⟨f, u, fits, same⟩
  have there := lengthFault?_append t h
  rw [same, Frame.lengthFault?_bytes fits u] at there
  cases there

theorem exists_results (limit : Nat) (s : Bytes) : ∃ (frames : List Frame) (rest : Bytes),
    s = frames.flatMap Frame.bytes ++ rest ∧ (∀ f ∈ frames, f.Fits limit) ∧
      ¬ Frame.Begins limit rest ∧
      results ⟨s, limit⟩ =
        (frames.map Frame.content ++ (lengthFault? limit rest).toList.map .error,
          ⟨rest, limit⟩) := by
  obtain ⟨frames, rest, rfl, fit, ended⟩ := Frame.exists_frames limit s
  refine ⟨frames, rest, rfl, fit, ended, ?_⟩
  rw [results_frames fit, results_of_not_begins ended]

theorem results_append {rs : List (Except WireError BackendMessage)} {i : Inbound}
    (h : results ⟨s, limit⟩ = (rs, i)) (goesOn : ∀ r ∈ rs, isStuck r = false) (t : Bytes) :
    results ⟨s ++ t, limit⟩ = (rs ++ (i.feed t).results.1, (i.feed t).results.2) := by
  obtain ⟨frames, rest, rfl, fit, ended, all⟩ := exists_results limit s
  obtain ⟨rfl, rfl⟩ := Prod.mk.inj (h.symm.trans all)
  have idle : lengthFault? limit rest = none := by
    cases fault : lengthFault? limit rest with
    | none => rfl
    | some e =>
      have stuck : isStuck (.error e) = true := isFrameLength_of_lengthFault? fault
      exact absurd (goesOn (.error e) (by simp [fault])) (by simp [stuck])
  rw [List.append_assoc, results_frames fit, idle, feed, Option.toList_none, List.map_nil,
    List.append_nil]

theorem results_prefix (limit : Nat) (s t : Bytes) :
    (results ⟨s, limit⟩).1 <+: (results ⟨s ++ t, limit⟩).1 := by
  obtain ⟨frames, rest, rfl, fit, ended, all⟩ := exists_results limit s
  rw [all, List.append_assoc, results_frames fit]
  cases fault : lengthFault? limit rest with
  | none => exact (List.prefix_append_right_inj _).mpr List.nil_prefix
  | some e =>
    have longer := results_of_not_begins (not_begins_of_lengthFault? fault t)
    rw [lengthFault?_append t fault] at longer
    exact ⟨[], by rw [List.append_nil, longer]⟩

theorem drain_results (i : Inbound) : i.drain.1.map .ok <+: i.results.1 ∧
    (i.drain.2.1 = none → i.results = (i.drain.1.map .ok, i.drain.2.2)) := by
  fun_induction drain i with
  | case1 i m rest next shorter ms e last drained ih =>
    rw [drained] at ih
    rw [results_of_next (r := .ok m) next rfl]
    refine ⟨(List.prefix_cons_inj _).mpr ih.1, fun whole => ?_⟩
    rw [ih.2 whole]
    rfl
  | case2 i rest next =>
    rw [results_of_idle next]
    exact ⟨List.nil_prefix, fun _ => rfl⟩
  | case3 i e rest next => exact ⟨List.nil_prefix, fun whole => by cases whole⟩

theorem untilStuck_contents (frames : List Frame)
    (more : List (Except WireError BackendMessage)) :
    untilStuck (frames.map Frame.content ++ more) =
      frames.map Frame.content ++ untilStuck more := by
  induction frames with
  | nil => rfl
  | cons f rest ih =>
    rw [List.map_cons, List.cons_append, untilStuck, isStuck_content, ih]
    rfl

theorem pour_of_lengthFault? {e : WireError} (h : lengthFault? limit s = some e)
    (pieces : List Bytes) : (pour ⟨s, limit⟩ pieces).2 = ⟨s ++ pieces.flatten, limit⟩ := by
  induction pieces generalizing s with
  | nil => rw [pour, List.flatten_nil, List.append_nil]
  | cons piece rest ih =>
    have fed := results_of_not_begins (not_begins_of_lengthFault? h piece)
    rw [pour, feed]
    dsimp only
    rw [fed, ih (lengthFault?_append piece h), List.flatten_cons, List.append_assoc]

theorem pour_flatten (frameless : ¬ Frame.Begins limit s) (idle : lengthFault? limit s = none)
    (pieces : List Bytes) :
    untilStuck (pour ⟨s, limit⟩ pieces).1 = (results ⟨s ++ pieces.flatten, limit⟩).1 ∧
      (pour ⟨s, limit⟩ pieces).2 = (results ⟨s ++ pieces.flatten, limit⟩).2 := by
  induction pieces generalizing s with
  | nil =>
    rw [List.flatten_nil, List.append_nil, results_of_not_begins frameless, idle]
    exact ⟨rfl, rfl⟩
  | cons piece rest ih =>
    obtain ⟨frames, left, split, fit, ended⟩ := Frame.exists_frames limit (s ++ piece)
    have taken := results_frames fit left
    have whole := results_frames fit (left ++ rest.flatten)
    rw [results_of_not_begins ended] at taken
    rw [List.flatten_cons, ← List.append_assoc, split, List.append_assoc, whole, pour, feed]
    dsimp only
    rw [split, taken]
    dsimp only
    cases fault : lengthFault? limit left with
    | none =>
      obtain ⟨same, last⟩ := ih ended fault
      refine ⟨?_, last⟩
      rw [Option.toList_none, List.map_nil, List.append_nil, untilStuck_contents, same]
    | some e =>
      rw [results_of_not_begins (not_begins_of_lengthFault? fault _), lengthFault?_append _ fault]
      refine ⟨?_, pour_of_lengthFault? fault rest⟩
      rw [List.append_assoc, untilStuck_contents]
      have stuck : isStuck (.error e) := isFrameLength_of_lengthFault? fault
      simp [untilStuck, stuck]

end Inbound

def BackendMessage.decodeMany : Nat → Bytes → List (Except WireError BackendMessage) × Bytes
  | 0, data => ([], data)
  | n + 1, data =>
    let (first, rest) := decode data
    let (more, last) := decodeMany n rest
    (first :: more, last)

theorem BackendMessage.decodeMany_frames {frames : List Frame}
    (small : ∀ f ∈ frames, f.body.length + 4 < 2 ^ 31) (t : Bytes) :
    decodeMany frames.length (frames.flatMap Frame.bytes ++ t) = (frames.map Frame.content, t) := by
  induction frames with
  | nil => rfl
  | cons f rest ih =>
    rw [List.length_cons, decodeMany, List.flatMap_cons, List.append_assoc,
      Frame.decode_bytes (small f List.mem_cons_self)]
    dsimp only
    rw [ih fun g mem => small g (List.mem_cons_of_mem _ mem)]
    rfl

/-- The pieces in which the bytes of a stream come in make no difference: up to the first length
that no frame has, the results are the same, and in the end the same bytes are left. They are what
single readings find in the frames that the stream is made of, each of which ends where its length
says, whether or not its body can be read; and only a length that no frame has is told of
besides. -/
theorem Inbound.pour_reassembles (limit : Nat) (pieces : List Bytes) :
    let split := (empty limit).pour pieces
    let whole := ((empty limit).feed pieces.flatten).results
    (untilStuck split.1 = whole.1 ∧ split.2 = whole.2) ∧
      (∃ (frames : List Frame) (rest : Bytes),
        pieces.flatten = frames.flatMap Frame.bytes ++ rest ∧ (∀ f ∈ frames, f.Fits limit) ∧
          ¬ Frame.Begins limit rest ∧
          BackendMessage.decodeMany frames.length pieces.flatten =
            (frames.map Frame.content, rest) ∧
          whole =
            (frames.map Frame.content ++ (lengthFault? limit rest).toList.map .error,
              ⟨rest, limit⟩)) ∧
      ∀ (f : Frame) (t : Bytes), f.Fits limit →
        BackendMessage.decode (f.bytes ++ t) = (f.content, t) ∧
          next ⟨f.bytes ++ t, limit⟩ = (f.content.map some, ⟨t, limit⟩) := by
  refine ⟨?_, ?_, fun f t fits => ⟨Frame.decode_bytes fits.1 t, Frame.next_bytes fits t⟩⟩
  · refine pour_flatten ?_ rfl pieces
    rintro ⟨f, t, -, same⟩
    cases same
  · obtain ⟨frames, rest, same, fit, ended, all⟩ := exists_results limit pieces.flatten
    refine ⟨frames, rest, same, fit, ended, ?_, all⟩
    rw [same]
    exact BackendMessage.decodeMany_frames (fun f mem => (fit f mem).1) rest

end PgPipeline
