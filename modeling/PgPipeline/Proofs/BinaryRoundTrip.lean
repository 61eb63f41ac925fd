import PgPipeline.Proofs.Checked
import PgPipeline.Proofs.Framing
import PgPipeline.Proofs.Utf8
import PgPipeline.Value.Binary

namespace PgPipeline

namespace Oid

variable {oid : Oid}

def IsVerbatim (oid : Oid) : Prop :=
  oid ∈ [int2, int4, int8, float4, float8, bytea, uuid, date, time, timestamp, timestamptz] ∨
    oid.isTextLike ∨ oid.layout = .raw

theorem mem_scalarLayouts {l : Layout} (h : oid.layout = l) (scalar : l ≠ .array) (own : l ≠ .raw) :
    (oid, l) ∈ scalarLayouts := by
  rw [layout] at h
  split at h
  · next found =>
    subst h
    obtain ⟨before, behind, table, -⟩ := List.lookup_eq_some_iff.mp found
    rw [table]
    exact List.mem_append_right _ List.mem_cons_self
  · split at h
    · exact absurd h.symm scalar
    · exact absurd h.symm own

theorem isVerbatim_iff : oid.IsVerbatim ↔
    oid.layout ∉ [Layout.bool, .timetz, .json, .jsonb, .numeric, .array] := by
  constructor
  · rintro (listed | text | own)
    · simp only [List.mem_cons, List.not_mem_nil, or_false] at listed
      rcases listed with rfl | rfl | rfl | rfl | rfl | rfl | rfl | rfl | rfl | rfl | rfl <;> decide
    · have layout : oid.layout = .text := of_decide_eq_true text
      rw [layout]
      decide
    · rw [own]
      decide
  · intro verbatim
    have table := mem_scalarLayouts (rfl : oid.layout = _)
    generalize layout : oid.layout = l at verbatim table
    cases l <;> simp only [List.mem_cons, reduceCtorEq, not_true_eq_false, or_false, or_true,
      not_false_eq_true, List.not_mem_nil] at verbatim
    case text => exact .inr (.inl (decide_eq_true layout))
    case raw => exact .inr (.inr layout)
    all_goals
      have row := table nofun nofun
      simp only [scalarLayouts, List.mem_cons, Prod.mk.injEq, reduceCtorEq, and_false, and_true,
        false_or, or_false, List.not_mem_nil] at row
      subst row
      exact .inl (by decide)

end Oid

namespace Value

variable {oid : Oid} {data : Bytes} {v : Value}

/-- The values that are sent in the binary format and read back under their own type. Of the values
of unknown types these are the ones whose type has no representation of its own. -/
def HasBinaryForm : Value → Prop
  | null => False
  | numeric _ => False
  | array _ _ => False
  | raw oid _ => oid.layout = .raw
  | _ => True

theorem ofLength_map {n : Nat} (length : data.length = n) (f : Bytes → Value) :
    (ofLength oid n data).map f = .ok (f data) := by
  rw [ofLength, if_pos length]
  rfl

theorem ofLength_map_ok {n : Nat} {f : Bytes → Value} (h : (ofLength oid n data).map f = .ok v) :
    data.length = n ∧ f data = v := by
  obtain ⟨bs, taken, made⟩ := map_ok h
  unfold ofLength at taken
  split at taken <;> cases taken
  exact ⟨‹_›, made⟩

theorem ofLength_int32_map (n : Int32) (f : Int32 → Value) :
    ((ofLength oid 4 (Bytes.int32 n)).map fun bs => f (Bytes.toInt32 bs)) = .ok (f n) := by
  rw [ofLength_map (Bytes.length_int32 n), Bytes.toInt32_int32]

theorem ofLength_int64_map (n : Int64) (f : Int64 → Value) :
    ((ofLength oid 8 (Bytes.int64 n)).map fun bs => f (Bytes.toInt64 bs)) = .ok (f n) := by
  rw [ofLength_map (Bytes.length_int64 n), Bytes.toInt64_int64]

theorem utf8_encode_map (s : String) (f : String → Value) :
    (utf8 oid (Utf8.encode s)).map f = .ok (f s) := by
  rw [utf8, Utf8.decode_encode]
  rfl

theorem utf8_map_ok {f : String → Value} (h : (utf8 oid data).map f = .ok v) :
    ∃ s, Utf8.encode s = data ∧ f s = v := by
  obtain ⟨s, read, made⟩ := map_ok h
  exact ⟨s, Utf8.decode_eq_ok_iff.mp (mapError_ok read), made⟩

theorem ofBinary_toBinary (sent : v.HasBinaryForm) :
    ∃ data, v.toBinary = .ok data ∧ ofBinary v.oid data = .ok v := by
  cases v with
  | null => exact sent.elim
  | numeric digits => exact sent.elim
  | array element values => exact sent.elim
  | bool b =>
    refine ⟨_, rfl, ?_⟩
    rw [ofBinary.eq_def]
    cases b <;> rfl
  | int2 n =>
    refine ⟨_, rfl, ?_⟩
    rw [ofBinary.eq_def]
    exact (ofLength_map (Bytes.length_int16 n) _).trans (by rw [Bytes.toInt16_int16])
  | int4 n =>
    refine ⟨_, rfl, ?_⟩
    rw [ofBinary.eq_def]
    exact ofLength_int32_map n _
  | int8 n =>
    refine ⟨_, rfl, ?_⟩
    rw [ofBinary.eq_def]
    exact ofLength_int64_map n _
  | float4 bits =>
    refine ⟨_, rfl, ?_⟩
    rw [ofBinary.eq_def]
    exact (ofLength_map (Bytes.length_bigEndian 4 _) _).trans
      (by rw [Bytes.toNat_bigEndian, Nat.mod_eq_of_lt bits.toNat_lt, UInt32.ofNat_toNat])
  | float8 bits =>
    refine ⟨_, rfl, ?_⟩
    rw [ofBinary.eq_def]
    exact (ofLength_map (Bytes.length_bigEndian 8 _) _).trans
      (by rw [Bytes.toNat_bigEndian, Nat.mod_eq_of_lt bits.toNat_lt, UInt64.ofNat_toNat])
  | text s =>
    refine ⟨_, rfl, ?_⟩
    rw [ofBinary.eq_def]
    exact utf8_encode_map s _
  | bytea data =>
    refine ⟨_, rfl, ?_⟩
    rw [ofBinary.eq_def]
    rfl
  | uuid u =>
    refine ⟨_, rfl, ?_⟩
    rw [ofBinary.eq_def]
    exact dif_pos u.length_eq
  | timestamp micros =>
    refine ⟨_, rfl, ?_⟩
    rw [ofBinary.eq_def]
    exact ofLength_int64_map micros _
  | timestamptz micros =>
    refine ⟨_, rfl, ?_⟩
    rw [ofBinary.eq_def]
    exact ofLength_int64_map micros _
  | date days =>
    refine ⟨_, rfl, ?_⟩
    rw [ofBinary.eq_def]
    exact ofLength_int32_map days _
  | time micros =>
    refine ⟨_, rfl, ?_⟩
    rw [ofBinary.eq_def]
    exact ofLength_int64_map micros _
  | json document =>
    refine ⟨_, rfl, ?_⟩
    rw [ofBinary.eq_def]
    exact utf8_encode_map document _
  | raw oid data =>
    have own : oid.layout = .raw := sent
    refine ⟨_, rfl, ?_⟩
    rw [ofBinary.eq_def, Value.oid, own]

theorem toBinary_ofBinary (verbatim : oid.IsVerbatim) (read : ofBinary oid data = .ok v) :
    v.toBinary = .ok data := by
  have known := Oid.isVerbatim_iff.mp verbatim
  rw [ofBinary.eq_def] at read
  cases layout : oid.layout <;> rw [layout] at read known <;> dsimp only at read
  case int2 =>
    obtain ⟨two, rfl⟩ := ofLength_map_ok read
    rw [toBinary, Bytes.int16_toInt16 two]
  case int4 =>
    obtain ⟨four, rfl⟩ := ofLength_map_ok read
    rw [toBinary, Bytes.int32_toInt32 four]
  case int8 =>
    obtain ⟨eight, rfl⟩ := ofLength_map_ok read
    rw [toBinary, Bytes.int64_toInt64 eight]
  case float4 =>
    obtain ⟨four, rfl⟩ := ofLength_map_ok read
    rw [toBinary, UInt32.toNat_ofNat_of_lt' (by simpa [four] using Bytes.toNat_lt data), ← four,
      Bytes.bigEndian_toNat]
  case float8 =>
    obtain ⟨eight, rfl⟩ := ofLength_map_ok read
    rw [toBinary, UInt64.toNat_ofNat_of_lt' (by simpa [eight] using Bytes.toNat_lt data), ← eight,
      Bytes.bigEndian_toNat]
  case text =>
    obtain ⟨s, written, rfl⟩ := utf8_map_ok read
    rw [toBinary, written]
  case bytea =>
    cases read
    rfl
  case uuid =>
    unfold uuidOfBytes at read
    split at read <;> cases read
    rfl
  case timestamp =>
    obtain ⟨eight, rfl⟩ := ofLength_map_ok read
    rw [toBinary, Bytes.int64_toInt64 eight]
  case timestamptz =>
    obtain ⟨eight, rfl⟩ := ofLength_map_ok read
    rw [toBinary, Bytes.int64_toInt64 eight]
  case date =>
    obtain ⟨four, rfl⟩ := ofLength_map_ok read
    rw [toBinary, Bytes.int32_toInt32 four]
  case time =>
    obtain ⟨eight, rfl⟩ := ofLength_map_ok read
    rw [toBinary, Bytes.int64_toInt64 eight]
  case raw =>
    cases read
    rfl
  all_goals exact absurd known (by decide)

/-- Under every other type some bytes are accepted that are not written for the value: the same is
said in more than one way, or the value has no binary form. -/
theorem exists_other_form (other : ¬ oid.IsVerbatim) :
    ∃ data v, ofBinary oid data = .ok v ∧ v.toBinary ≠ .ok data := by
  have known := not_not.mp (mt Oid.isVerbatim_iff.mpr other)
  simp only [List.mem_cons, List.not_mem_nil, or_false] at known
  rcases known with layout | layout | layout | layout | layout | layout
  · refine ⟨[2], bool true, ?_, by decide⟩
    rw [ofBinary.eq_def, layout]
    rfl
  · refine ⟨List.replicate 12 0, time 0, ?_, by decide⟩
    rw [ofBinary.eq_def, layout]
    rfl
  · refine ⟨[], json "", ?_, by decide⟩
    rw [ofBinary.eq_def, layout]
    exact utf8_encode_map "" _
  · refine ⟨[], json "", ?_, by decide⟩
    rw [ofBinary.eq_def, layout]
    exact utf8_encode_map "" _
  · refine ⟨[0, 0, 0, 0, 0xC0, 0, 0, 0], numeric "NaN", ?_, nofun⟩
    rw [ofBinary.eq_def, layout]
    rfl
  · refine ⟨List.replicate 12 0, array ⟨0⟩ [], ?_, nofun⟩
    rw [ofBinary.eq_def, layout]
    rfl

/-- A value that is sent in the binary format comes back from its bytes, bit by bit for numbers with
a point; and the bytes that a type accepts come back from the value exactly for the types whose
values stand as they are. -/
theorem binary_form_round_trips :
    (∀ v : Value, v.HasBinaryForm →
      ∃ data, v.toBinary = .ok data ∧ ofBinary v.oid data = .ok v) ∧
    ∀ oid : Oid, oid.IsVerbatim ↔
      ∀ data v, ofBinary oid data = .ok v → v.toBinary = .ok data := by
  refine ⟨fun v sent => ofBinary_toBinary sent, fun oid => ⟨?_, ?_⟩⟩
  · intro verbatim data v read
    exact toBinary_ofBinary verbatim read
  · intro kept
    by_contra other
    obtain ⟨data, v, read, changed⟩ := exists_other_form other
    exact changed (kept data v read)

theorem binary_form_round_trips_nan :
    ((float4 0x7F800001).HasBinaryForm ∧ ∃ data, (float4 0x7F800001).toBinary = .ok data ∧
      ofBinary (float4 0x7F800001).oid data = .ok (float4 0x7F800001)) ∧
    (Oid.varchar.IsVerbatim ∧ ofBinary .varchar [0xC3, 0xA4] = .ok (text "ä") ∧
      (text "ä").toBinary = .ok [0xC3, 0xA4]) := by
  have verbatim : Oid.varchar.IsVerbatim := .inr (.inl rfl)
  have read : ofBinary .varchar [0xC3, 0xA4] = .ok (text "ä") := by
    rw [ofBinary.eq_def]
    exact utf8_encode_map "ä" text
  exact ⟨⟨trivial, binary_form_round_trips.1 _ trivial⟩, verbatim, read,
    (binary_form_round_trips.2 .varchar).mp verbatim _ _ read⟩

end Value

end PgPipeline
