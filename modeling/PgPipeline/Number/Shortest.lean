import PgPipeline.Number.Binary

/-!
The shortest decimal that reads back as a given binary number.

For one digit, two digits and so on, the two neighbours of the number on that decimal grid are
tested against the interval of reals that round to it. The first grid with a hit wins; of two hits
the nearer is taken, and a tie goes as the caller asks.
-/

namespace PgPipeline.Number

structure Decimal where
  digits : Nat
  exponent : Int
  deriving DecidableEq, Repr

inductive TieRule where
  | up
  | even
  deriving DecidableEq, Repr

/-- The reals that round to `m * 2 ^ q`, over one denominator: the bounds, the number itself, and
whether the bounds belong to the interval. -/
structure RoundingInterval where
  low : Nat
  value : Nat
  high : Nat
  denominator : Nat
  closed : Bool

namespace RoundingInterval

/-- The interval of `m * 2 ^ q`. Below a power of two the neighbours lie closer together, unless
the number is one of the smallest. -/
def ofBinary (f : BinaryFormat) (m : Nat) (q : Int) : RoundingInterval :=
  let lowerHalf := if m = 2 ^ f.fractionBits ∧ f.minScale < q then 1 else 2
  let scale := if 0 ≤ q - 2 then 2 ^ (q - 2).toNat else 1
  let den := if 0 ≤ q - 2 then 1 else 2 ^ (2 - q).toNat
  ⟨(4 * m - lowerHalf) * scale, 4 * m * scale, (4 * m + 2) * scale, den, m % 2 = 0⟩

variable (i : RoundingInterval)

def contains (n : Nat) (k : Int) : Bool :=
  let point := if 0 ≤ k then n * 10 ^ k.toNat * i.denominator else n * i.denominator
  let unit := if 0 ≤ k then 1 else 10 ^ (-k).toNat
  if i.closed then i.low * unit ≤ point && point ≤ i.high * unit
  else i.low * unit < point && point < i.high * unit

def digitCount (n : Nat) : Nat := (Nat.toDigits 10 n).length

/-- The largest `e` with `10 ^ e` at most the number; `margin` zeros make every number of the
format at least one. -/
def floorLog10 (margin : Nat) : Int :=
  (digitCount (i.value * 10 ^ margin / i.denominator) : Int) - 1 - margin

def hit? (tie : TieRule) (k : Int) : Option Nat :=
  let num := if 0 ≤ k then i.value else i.value * 10 ^ (-k).toNat
  let den := if 0 ≤ k then i.denominator * 10 ^ k.toNat else i.denominator
  let below := num / den
  let rest := num % den
  match i.contains below k, i.contains (below + 1) k with
  | true, true =>
    if 2 * rest < den then some below
    else if den < 2 * rest then some (below + 1)
    else
      match tie with
      | .up => some (below + 1)
      | .even => some (if below % 2 = 0 then below else below + 1)
  | true, false => some below
  | false, true => some (below + 1)
  | false, false => none

end RoundingInterval

def Decimal.trim : Nat → Decimal → Decimal
  | 0, d => d
  | limit + 1, d =>
    if d.digits ≠ 0 ∧ d.digits % 10 = 0 then trim limit ⟨d.digits / 10, d.exponent + 1⟩ else d

def shortest (f : BinaryFormat) (tie : TieRule) (m : Nat) (q : Int) : Decimal :=
  let i := RoundingInterval.ofBinary f m q
  let top := i.floorLog10 (2 ^ (f.exponentBits - 1))
  let counts := List.range (f.fractionBits / 3 + 2)
  let found := counts.findSome? fun (n : Nat) =>
    let k := top - (n : Int)
    (i.hit? tie k).map fun digits => Decimal.mk digits k
  (found.getD ⟨0, 0⟩).trim 20

def digitChars (n : Nat) : List Char := Nat.toDigits 10 n

def Decimal.positional (d : Decimal) : List Char :=
  let ds := digitChars d.digits
  if 0 ≤ d.exponent then ds ++ List.replicate d.exponent.toNat '0'
  else
    let places := (-d.exponent).toNat
    if places < ds.length then
      ds.take (ds.length - places) ++ '.' :: ds.drop (ds.length - places)
    else ['0', '.'] ++ List.replicate (places - ds.length) '0' ++ ds

end PgPipeline.Number
