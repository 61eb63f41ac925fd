import PgPipeline.Bytes
import PgPipeline.Calendar
import PgPipeline.Value.Conversion

namespace PgPipeline

def takeBytes (n : Nat) (data : Bytes) : Except ConversionError (Bytes × Bytes) :=
  if data.length < n then .error .truncated else .ok (data.take n, data.drop n)

def takeInt16 (data : Bytes) : Except ConversionError (Int16 × Bytes) :=
  (takeBytes 2 data).map fun p => (Bytes.toInt16 p.1, p.2)

def takeInt32 (data : Bytes) : Except ConversionError (Int32 × Bytes) :=
  (takeBytes 4 data).map fun p => (Bytes.toInt32 p.1, p.2)

theorem takeBytes_append {n : Nat} {bs : Bytes} (length : bs.length = n) (rest : Bytes) :
    takeBytes n (bs ++ rest) = .ok (bs, rest) := by
  subst length
  rw [takeBytes, if_neg (by simp), List.take_left, List.drop_left]

theorem takeInt16_append {bs : Bytes} (length : bs.length = 2) (rest : Bytes) :
    takeInt16 (bs ++ rest) = .ok (Bytes.toInt16 bs, rest) := by
  rw [takeInt16, takeBytes_append length]
  rfl

theorem takeInt32_append {bs : Bytes} (length : bs.length = 4) (rest : Bytes) :
    takeInt32 (bs ++ rest) = .ok (Bytes.toInt32 bs, rest) := by
  rw [takeInt32, takeBytes_append length]
  rfl

def takeGroups : Nat → Bytes → Except ConversionError (List Int)
  | 0, _ => .ok []
  | n + 1, data => do
    let (g, rest) ← takeInt16 data
    let gs ← takeGroups n rest
    return g.toInt :: gs

structure Numeric where
  negative : Bool
  /-- The position of the first group, 0 being the group left of the point. -/
  weight : Int
  scale : Nat
  groups : List Int
  deriving DecidableEq, Repr

namespace Numeric

/-- A group that is not the first: four places, the sign of a group below zero included. -/
def groupChars (g : Int) : List Char :=
  if g < 0 then '-' :: padded 3 g.natAbs else padded 4 g.natAbs

def leadingChars (g : Int) : List Char := (toString g).toList

def group (n : Numeric) (i : Int) : Int :=
  if i < 0 then 0 else n.groups.getD i.toNat 0

def wholeChars (n : Numeric) : List Char :=
  if n.weight < 0 then ['0']
  else
    leadingChars (n.group 0)
      ++ (List.range n.weight.toNat).flatMap fun (i : Nat) => groupChars (n.group (i + 1))

/-- Whether a fraction that is written so far has fewer places than it needs. Their number is kept in
a word of 16 bits. -/
def isShort (n : Numeric) (written : List Char) : Bool :=
  (Int16.ofNat written.length).toInt < n.scale

/-- The filling of the fraction with group after group, from a position on. It need not end: a number
of places that is not below the scale may not fit the word. -/
inductive Fills (n : Numeric) : Int → List Char → List Char → Prop
  | enough {i : Int} {written : List Char} (full : n.isShort written = false) : Fills n i written written
  | more {i : Int} {written filled : List Char} (short : n.isShort written = true)
    (rest : Fills n (i + 1) (written ++ groupChars (n.group i)) filled) : Fills n i written filled

def fill (n : Numeric) : Nat → Int → List Char → List Char
  | 0, _, written => written
  | m + 1, i, written =>
    if n.isShort written then n.fill m (i + 1) (written ++ groupChars (n.group i)) else written

/-- As each group has four places at least, a quarter of the scale is enough of them
(`Fills.fractionChars_eq`). -/
def fractionChars (n : Numeric) : List Char :=
  (n.fill ((n.scale + 3) / 4) (n.weight + 1) []).take n.scale

def chars (n : Numeric) : List Char :=
  (if n.negative then ['-'] else []) ++ n.wholeChars
    ++ if n.scale = 0 then [] else '.' :: n.fractionChars

/-- Reads the binary form: the number of groups, the weight, the sign, the scale, the groups. The
signs of the numbers that are not finite make the rest irrelevant. -/
def decode (data : Bytes) : Except ConversionError String := do
  let (count, afterCount) ← takeInt16 data
  let (weight, afterWeight) ← takeInt16 afterCount
  let (sign, afterSign) ← takeInt16 afterWeight
  let (scale, rest) ← takeInt16 afterSign
  let signBits := sign.toUInt16.toNat
  if signBits = 0xC000 then return "NaN"
  else if signBits = 0xD000 then return "Infinity"
  else if signBits = 0xF000 then return "-Infinity"
  else
    let groups ← takeGroups count.toInt.toNat rest
    return String.ofList (chars ⟨signBits = 0x4000, weight.toInt, scale.toInt.toNat, groups⟩)

end Numeric

end PgPipeline
