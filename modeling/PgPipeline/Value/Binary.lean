import PgPipeline.Value
import PgPipeline.Value.Numeric

namespace PgPipeline

namespace Value

def toBinary : Value → Except ConversionError Bytes
  | null => .ok []
  | bool b => .ok [if b then 1 else 0]
  | int2 n => .ok (Bytes.int16 n)
  | int4 n => .ok (Bytes.int32 n)
  | int8 n => .ok (Bytes.int64 n)
  | float4 bits => .ok (Bytes.bigEndian 4 bits.toNat)
  | float8 bits => .ok (Bytes.bigEndian 8 bits.toNat)
  | text s => .ok (Utf8.encode s)
  | bytea data => .ok data
  | uuid u => .ok u.bytes
  | timestamp micros => .ok (Bytes.int64 micros)
  | timestamptz micros => .ok (Bytes.int64 micros)
  | time micros => .ok (Bytes.int64 micros)
  | date days => .ok (Bytes.int32 days)
  | json document => .ok (1 :: Utf8.encode document)
  | raw _ data => .ok data
  | value@(numeric _) => .error (.noBinaryForm value.oid)
  | value@(array _ _) => .error (.noBinaryForm value.oid)

def encode (format : Format) (value : Value) : Except ConversionError (Option Bytes) :=
  if value.isNull then .ok none
  else
    match format with
    | .binary => value.toBinary.map some
    | .text => .ok (some (Utf8.encode value.toText))

def ofLength (oid : Oid) (n : Nat) (data : Bytes) : Except ConversionError Bytes :=
  if data.length = n then .ok data else .error (.wrongLength oid data.length)

def utf8 (oid : Oid) (data : Bytes) : Except ConversionError String :=
  (Utf8.decode data).mapError fun fault => .malformedText oid fault

def uuidOfBytes (oid : Oid) (data : Bytes) : Except ConversionError Value :=
  if h : data.length = 16 then .ok (uuid ⟨data, h⟩) else .error (.wrongLength oid data.length)

end Value

/-- The elements of a binary array before they are read, and the fault that cuts them short. -/
structure ArrayElements where
  slices : List (Option Bytes)
  fault : Option ConversionError
  deriving Repr

namespace ArrayElements

def split : Nat → Bytes → ArrayElements
  | 0, _ => ⟨[], none⟩
  | n + 1, data =>
    match takeInt32 data with
    | .error e => ⟨[], some e⟩
    | .ok (length, rest) =>
      if length < 0 then
        let tail := split n rest
        ⟨none :: tail.slices, tail.fault⟩
      else
        match takeBytes length.toInt.toNat rest with
        | .error e => ⟨[], some e⟩
        | .ok (slice, rest) =>
          let tail := split n rest
          ⟨some slice :: tail.slices, tail.fault⟩

theorem takeBytes_eq_ok {n : Nat} {data a b : Bytes} (h : takeBytes n data = .ok (a, b)) :
    n ≤ data.length ∧ a = data.take n ∧ b = data.drop n := by
  unfold takeBytes at h
  split at h
  · cases h
  · injection h with h
    injection h with ha hb
    exact ⟨by omega, ha.symm, hb.symm⟩

theorem takeInt32_eq_ok {data rest : Bytes} {v : Int32} (h : takeInt32 data = .ok (v, rest)) :
    4 ≤ data.length ∧ v = Bytes.toInt32 (data.take 4) ∧ rest = data.drop 4 := by
  unfold takeInt32 at h
  cases hb : takeBytes 4 data with
  | error e => rw [hb] at h; cases h
  | ok p =>
    rw [hb] at h
    obtain ⟨a, b⟩ := p
    obtain ⟨hlen, ha, hrest⟩ := takeBytes_eq_ok hb
    injection h with h
    injection h with hv hr
    exact ⟨hlen, by rw [← hv, ha], by rw [← hr, hrest]⟩

theorem length_lt_of_mem_split {n : Nat} {data slice : Bytes}
    (h : some slice ∈ (split n data).slices) : slice.length < data.length := by
  induction n generalizing data with
  | zero => simp [split] at h
  | succ n ih =>
    unfold split at h
    split at h
    · simp at h
    · next length rest hlen =>
      obtain ⟨h4, -, hrest⟩ := takeInt32_eq_ok hlen
      have hr : rest.length + 4 = data.length := by rw [hrest, List.length_drop]; omega
      split at h
      · simp only [List.mem_cons, reduceCtorEq, false_or] at h
        have := ih h
        omega
      · split at h
        · simp at h
        · next s rest' hs =>
          obtain ⟨hn, hs', hrest'⟩ := takeBytes_eq_ok hs
          simp only [List.mem_cons, Option.some.injEq] at h
          rcases h with rfl | h
          · rw [hs', List.length_take]; omega
          · have := ih h
            rw [hrest', List.length_drop] at this
            omega

end ArrayElements

structure ArrayHeader where
  element : Oid
  dimensions : List Nat
  body : Bytes
  deriving Repr

namespace ArrayHeader

def takeDimensions : Nat → Bytes → Except ConversionError (List Nat × Bytes)
  | 0, data => .ok ([], data)
  | n + 1, data => do
    let (length, afterLength) ← takeInt32 data
    let (_, rest) ← takeInt32 afterLength
    if length < 0 then throw .negativeLength
    let (lengths, body) ← takeDimensions n rest
    return (length.toInt.toNat :: lengths, body)

def decode (data : Bytes) : Except ConversionError ArrayHeader := do
  let (count, afterCount) ← takeInt32 data
  let (_, afterFlag) ← takeInt32 afterCount
  let (element, rest) ← takeInt32 afterFlag
  if count = 0 then return ⟨⟨element⟩, [], []⟩
  else if count < 1 ∨ 6 < count then throw (.dimensionCount count)
  else
    let (dimensions, body) ← takeDimensions count.toInt.toNat rest
    return ⟨⟨element⟩, dimensions, body⟩

theorem takeDimensions_length_le {n : Nat} {data body : Bytes} {lengths : List Nat}
    (h : takeDimensions n data = .ok (lengths, body)) : body.length ≤ data.length := by
  induction n generalizing data lengths body with
  | zero =>
    simp only [takeDimensions, Except.ok.injEq, Prod.mk.injEq] at h
    exact Nat.le_of_eq (congrArg List.length h.2.symm)
  | succ n ih =>
    simp only [takeDimensions, bind, Except.bind] at h
    split at h
    · cases h
    · next v hv =>
      obtain ⟨a, r⟩ := v
      obtain ⟨-, -, hr⟩ := ArrayElements.takeInt32_eq_ok hv
      dsimp only at h
      split at h
      · cases h
      · next w hw =>
        obtain ⟨b, r'⟩ := w
        obtain ⟨-, -, hr'⟩ := ArrayElements.takeInt32_eq_ok hw
        dsimp only at h
        split at h
        · cases h
        · dsimp only [pure, Except.pure] at h
          split at h
          · cases h
          · next u hu =>
            obtain ⟨ls, b'⟩ := u
            have := ih hu
            simp only [Except.ok.injEq, Prod.mk.injEq] at h
            rw [← h.2]
            rw [hr', hr, List.length_drop, List.length_drop] at this
            omega

theorem length_body_le {data : Bytes} {header : ArrayHeader} (h : decode data = .ok header) :
    header.body.length ≤ data.length := by
  simp only [decode, bind, Except.bind] at h
  split at h
  · cases h
  · next v hv =>
    obtain ⟨count, r₁⟩ := v
    obtain ⟨-, -, h₁⟩ := ArrayElements.takeInt32_eq_ok hv
    dsimp only at h
    split at h
    · cases h
    · next w hw =>
      obtain ⟨flag, r₂⟩ := w
      obtain ⟨-, -, h₂⟩ := ArrayElements.takeInt32_eq_ok hw
      dsimp only at h
      split at h
      · cases h
      · next u hu =>
        obtain ⟨element, r₃⟩ := u
        obtain ⟨-, -, h₃⟩ := ArrayElements.takeInt32_eq_ok hu
        dsimp only [pure, Except.pure] at h
        split at h
        · injection h with h
          rw [← h]
          simp
        · split at h
          · cases h
          · split at h
            · cases h
            · next p hp =>
              obtain ⟨ds, body⟩ := p
              have := takeDimensions_length_le hp
              injection h with h
              rw [← h]
              rw [h₃, h₂, h₁] at this
              simp only [List.length_drop] at this
              dsimp only
              omega

/-- The product of the lengths, worked out from left to right; it has to fit 64 bits all the way. -/
def product? (lengths : List Nat) : Option Nat :=
  lengths.foldlM (fun total length =>
    if total * length < 2 ^ 64 then some (total * length) else none) 1

/-- The number of elements. Each takes at least its length word, so the input bounds it. -/
def total (header : ArrayHeader) : Except ConversionError Nat :=
  match product? header.dimensions with
  | some n =>
    if n ≤ header.body.length / 4 then .ok n
    else .error (.tooManyElements header.dimensions header.body.length)
  | none => .error (.tooManyElements header.dimensions header.body.length)

end ArrayHeader

namespace Value

def chunks (size : Nat) : Nat → List Value → List (List Value)
  | 0, _ => []
  | count + 1, values => values.take size :: chunks size count (values.drop size)

def nest (element : Oid) : List Nat → List Value → Value
  | [], flat => array element flat
  | [_], flat => array element flat
  | length :: inner, flat =>
    array element ((chunks (inner.foldr (· * ·) 1) length flat).map (nest element inner))

def ofBinary (oid : Oid) (data : Bytes) : Except ConversionError Value :=
  match oid.layout with
  | .bool => (ofLength oid 1 data).map fun bs => bool (Bytes.toNat bs != 0)
  | .int2 => (ofLength oid 2 data).map fun bs => int2 (Bytes.toInt16 bs)
  | .int4 => (ofLength oid 4 data).map fun bs => int4 (Bytes.toInt32 bs)
  | .int8 => (ofLength oid 8 data).map fun bs => int8 (Bytes.toInt64 bs)
  | .float4 => (ofLength oid 4 data).map fun bs => float4 (UInt32.ofNat (Bytes.toNat bs))
  | .float8 => (ofLength oid 8 data).map fun bs => float8 (UInt64.ofNat (Bytes.toNat bs))
  | .text => (utf8 oid data).map text
  | .bytea => .ok (bytea data)
  | .uuid => uuidOfBytes oid data
  | .timestamp => (ofLength oid 8 data).map fun bs => timestamp (Bytes.toInt64 bs)
  | .timestamptz => (ofLength oid 8 data).map fun bs => timestamptz (Bytes.toInt64 bs)
  | .date => (ofLength oid 4 data).map fun bs => date (Bytes.toInt32 bs)
  | .time => (ofLength oid 8 data).map fun bs => time (Bytes.toInt64 bs)
  | .timetz =>
    if data.length < 8 then .error (.wrongLength oid data.length)
    else .ok (time (Bytes.toInt64 (data.take 8)))
  | .json => (utf8 oid data).map json
  | .jsonb => (utf8 oid (data.drop 1)).map json
  | .numeric => (Numeric.decode data).map numeric
  | .raw => .ok (raw oid data)
  | .array =>
    match hheader : ArrayHeader.decode data with
    | .error e => .error e
    | .ok header =>
      if header.dimensions = [] then .ok (array header.element [])
      else
        match header.total with
        | .error e => .error e
        | .ok 0 => .ok (array header.element [])
        | .ok n =>
          let elements := ArrayElements.split n header.body
          let values : Except ConversionError (List Value) :=
            elements.slices.attach.mapM fun slice =>
              match hslice : slice.1 with
              | none => .ok null
              | some bs =>
                have : bs.length < data.length := by
                  have hmem := slice.2
                  rw [hslice] at hmem
                  have := ArrayElements.length_lt_of_mem_split hmem
                  have := ArrayHeader.length_body_le hheader
                  omega
                ofBinary header.element bs
          match values, elements.fault with
          | .error e, _ => .error e
          | .ok _, some e => .error e
          | .ok flat, none => .ok (nest header.element header.dimensions flat)
  termination_by data.length

/-- Reads the text form of a value of the given type; bytes that are not UTF-8 are replaced. -/
def ofText (oid : Oid) (data : Bytes) : Except ConversionError Value :=
  let s := Utf8.lossy data
  let readInteger (typeName : String) (bits : Nat) : Except ConversionError Int :=
    ((Number.IntegerRange.signed bits).read s.toList).mapError (.integer typeName)
  match oid.layout with
  | .bool => .ok (bool (s == "t" || s == "true" || s == "1"))
  | .int2 => (readInteger "INT2" 16).map fun n => int2 (Int16.ofInt n)
  | .int4 => (readInteger "INT4" 32).map fun n => int4 (Int32.ofInt n)
  | .int8 => (readInteger "INT8" 64).map fun n => int8 (Int64.ofInt n)
  | .float4 =>
    match Number.BinaryFormat.single.read s.toList with
    | .error e => .error (.float "FLOAT4" e)
    | .ok bits => .ok (float4 (UInt32.ofNat bits))
  | .float8 =>
    match Number.BinaryFormat.double.read s.toList with
    | .error e => .error (.float "FLOAT8" e)
    | .ok bits => .ok (float8 (UInt64.ofNat bits))
  | .numeric => .ok (numeric s)
  | .json => .ok (json s)
  | .jsonb => .ok (json s)
  | .array =>
    match ArrayLiteral.parse s with
    | .error e => .error (.literal e)
    | .ok elements => .ok (array .text (elements.map fun e => (e.map text).getD null))
  | _ => .ok (text s)

def decode (oid : Oid) (format : Format) (data : Bytes) : Except ConversionError Value :=
  match format with
  | .text => ofText oid data
  | .binary => ofBinary oid data

end Value

end PgPipeline
