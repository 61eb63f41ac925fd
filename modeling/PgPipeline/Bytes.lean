namespace PgPipeline

-- Powers of numbers are those of the core library, whatever else is in scope.
attribute [instance (high), default_instance (high + 1)] instPowNat

abbrev Bytes := List UInt8

namespace Bytes

/-- The `width` bytes of `n` in network order; higher bytes of `n` are dropped. -/
def bigEndian : Nat → Nat → Bytes
  | 0, _ => []
  | width + 1, n => UInt8.ofNat (n / 256 ^ width) :: bigEndian width n

def toNat : Bytes → Nat
  | [] => 0
  | b :: rest => b.toNat * 256 ^ rest.length + toNat rest

@[simp] theorem length_bigEndian (width n : Nat) : (bigEndian width n).length = width := by
  induction width with
  | zero => rfl
  | succ width ih => simp [bigEndian, ih]

theorem toNat_bigEndian (width n : Nat) : toNat (bigEndian width n) = n % 256 ^ width := by
  induction width with
  | zero => simp [bigEndian, toNat, Nat.mod_one]
  | succ width ih =>
    have byte : (UInt8.ofNat (n / 256 ^ width)).toNat = n / 256 ^ width % 256 := by simp
    rw [bigEndian, toNat, byte, length_bigEndian, ih, Nat.pow_succ, Nat.mod_mul, Nat.mul_comm,
      Nat.add_comm]

theorem toNat_lt (bs : Bytes) : toNat bs < 256 ^ bs.length := by
  induction bs with
  | nil => simp [toNat]
  | cons b rest ih =>
    have hb := b.toNat_lt
    simp only [toNat, List.length_cons, Nat.pow_succ]
    have : b.toNat * 256 ^ rest.length ≤ 255 * 256 ^ rest.length :=
      Nat.mul_le_mul_right _ (by omega)
    omega

def ascii (c : Char) : UInt8 := UInt8.ofNat c.toNat

def int16 (v : Int16) : Bytes := bigEndian 2 v.toUInt16.toNat

def int32 (v : Int32) : Bytes := bigEndian 4 v.toUInt32.toNat

def int64 (v : Int64) : Bytes := bigEndian 8 v.toUInt64.toNat

def toInt16 (bs : Bytes) : Int16 := (UInt16.ofNat (toNat bs)).toInt16

def toInt32 (bs : Bytes) : Int32 := (UInt32.ofNat (toNat bs)).toInt32

def toInt64 (bs : Bytes) : Int64 := (UInt64.ofNat (toNat bs)).toInt64

@[simp] theorem length_int16 (v : Int16) : (int16 v).length = 2 := length_bigEndian _ _

@[simp] theorem length_int32 (v : Int32) : (int32 v).length = 4 := length_bigEndian _ _

@[simp] theorem length_int64 (v : Int64) : (int64 v).length = 8 := length_bigEndian _ _

@[simp] theorem toInt16_int16 (v : Int16) : toInt16 (int16 v) = v := by
  have h := v.toUInt16.toNat_lt
  simp only [toInt16, int16, toNat_bigEndian]
  rw [Nat.mod_eq_of_lt (by simpa using h)]
  simp

@[simp] theorem toInt32_int32 (v : Int32) : toInt32 (int32 v) = v := by
  have h := v.toUInt32.toNat_lt
  simp only [toInt32, int32, toNat_bigEndian]
  rw [Nat.mod_eq_of_lt (by simpa using h)]
  simp

@[simp] theorem toInt64_int64 (v : Int64) : toInt64 (int64 v) = v := by
  have h := v.toUInt64.toNat_lt
  simp only [toInt64, int64, toNat_bigEndian]
  rw [Nat.mod_eq_of_lt (by simpa using h)]
  simp

def hexDigit (n : Nat) : Char :=
  if n < 10 then Char.ofNat (48 + n) else Char.ofNat (87 + n)

def hexChars : Bytes → List Char
  | [] => []
  | b :: rest => hexDigit (b.toNat / 16) :: hexDigit (b.toNat % 16) :: hexChars rest

def hex (bs : Bytes) : String := String.ofList (hexChars bs)

def hexValue? (c : Char) : Option Nat :=
  let n := c.toNat
  if 48 ≤ n ∧ n ≤ 57 then some (n - 48)
  else if 97 ≤ n ∧ n ≤ 102 then some (n - 87)
  else if 65 ≤ n ∧ n ≤ 70 then some (n - 55)
  else none

def ofHexChars? : List Char → Option Bytes
  | [] => some []
  | a :: b :: rest => do
    let hi ← hexValue? a
    let lo ← hexValue? b
    let tail ← ofHexChars? rest
    return UInt8.ofNat (hi * 16 + lo) :: tail
  | [_] => none

def ofHex? (s : String) : Option Bytes := ofHexChars? s.toList

end Bytes

end PgPipeline
