namespace PgPipeline.Number

structure BinaryFormat where
  fractionBits : Nat
  exponentBits : Nat
  deriving DecidableEq, Repr

def BinaryFormat.single : BinaryFormat := ⟨23, 8⟩

def BinaryFormat.double : BinaryFormat := ⟨52, 11⟩

/-- What a bit pattern stands for; a finite number is `m * 2 ^ q` with its sign. -/
inductive BinaryValue where
  | nan
  | infinite (negative : Bool)
  | finite (negative : Bool) (m : Nat) (q : Int)
  deriving DecidableEq, Repr

namespace BinaryFormat

variable (f : BinaryFormat)

def minScale : Int := 2 - 2 ^ (f.exponentBits - 1) - f.fractionBits

def signBit : Nat := 2 ^ (f.fractionBits + f.exponentBits)

def topExponent : Nat := 2 ^ f.exponentBits - 1

def infinityBits : Nat := f.topExponent * 2 ^ f.fractionBits

def nanBits : Nat := f.infinityBits + 2 ^ (f.fractionBits - 1)

def decode (bits : Nat) : BinaryValue :=
  let negative := f.signBit ≤ bits
  let fraction := bits % 2 ^ f.fractionBits
  let exponent := bits / 2 ^ f.fractionBits % 2 ^ f.exponentBits
  if exponent = f.topExponent then
    if fraction = 0 then .infinite negative else .nan
  else if exponent = 0 then .finite negative fraction f.minScale
  else .finite negative (2 ^ f.fractionBits + fraction) (f.minScale + exponent - 1)

def withSign (negative : Bool) (magnitude : Nat) : Nat :=
  if negative then f.signBit + magnitude else magnitude

def floorLog2 (num den : Nat) : Int :=
  let e : Int := (Nat.log2 num : Int) - (Nat.log2 den : Int)
  let fits := if 0 ≤ e then den * 2 ^ e.toNat ≤ num else den ≤ num * 2 ^ (-e).toNat
  if fits then e else e - 1

/-- The quotient of two naturals rounded to nearest, a tie to the even neighbour. -/
def roundQuotient (num den : Nat) : Nat :=
  let m := num / den
  let r := num % den
  if den < 2 * r ∨ (2 * r = den ∧ m % 2 = 1) then m + 1 else m

def ofRatio (num den : Nat) : Nat :=
  if num = 0 then 0
  else
    let q := max (floorLog2 num den - f.fractionBits) f.minScale
    let m :=
      if 0 ≤ q then roundQuotient num (den * 2 ^ q.toNat)
      else roundQuotient (num * 2 ^ (-q).toNat) den
    let bits :=
      if m < 2 ^ f.fractionBits then m
      else ((q - f.minScale).toNat + 1) * 2 ^ f.fractionBits + (m - 2 ^ f.fractionBits)
    if f.infinityBits ≤ bits then f.infinityBits else bits

end BinaryFormat

def widen (bits : UInt32) : UInt64 :=
  let pattern :=
    match BinaryFormat.single.decode bits.toNat with
    | .nan => BinaryFormat.double.withSign (2 ^ 31 ≤ bits.toNat) BinaryFormat.double.nanBits
    | .infinite negative =>
      BinaryFormat.double.withSign negative BinaryFormat.double.infinityBits
    | .finite negative m q =>
      BinaryFormat.double.withSign negative
        (if 0 ≤ q then BinaryFormat.double.ofRatio (m * 2 ^ q.toNat) 1
         else BinaryFormat.double.ofRatio m (2 ^ (-q).toNat))
  UInt64.ofNat pattern

end PgPipeline.Number
