import PgPipeline.Number.Integer
import PgPipeline.Number.Shortest
import PgPipeline.Text.Blank

namespace PgPipeline.Number

def floatText (bits : UInt64) : String :=
  match BinaryFormat.double.decode bits.toNat with
  | .nan => "NaN"
  | .infinite negative => if negative then "-Infinity" else "Infinity"
  | .finite negative m q =>
    let digits := if m = 0 then ['0'] else (shortest .double .up m q).positional
    String.ofList (if negative then '-' :: digits else digits)

inductive FloatError where
  | empty
  | invalid
  deriving DecidableEq, Repr

def FloatError.message : FloatError → String
  | .empty => "cannot parse float from empty string"
  | .invalid => "invalid float literal"

def isDigit (c : Char) : Bool := (digitValue? c).isSome

def appendDigits (acc : Nat) (cs : List Char) : Nat :=
  cs.foldl (fun n c => n * 10 + (digitValue? c).getD 0) acc

def spanDigits (cs : List Char) : List Char × List Char :=
  (cs.takeWhile isDigit, cs.dropWhile isDigit)

def readExponent? (cs : List Char) : Option Int :=
  let (negative, rest) :=
    match cs with
    | '-' :: rest => (true, rest)
    | '+' :: rest => (false, rest)
    | rest => (false, rest)
  let (ds, left) := spanDigits rest
  if ds.isEmpty ∨ ¬ left.isEmpty then none
  else
    let n : Int := appendDigits 0 ds
    some (if negative then -n else n)

def readDecimal? (cs : List Char) : Option Decimal :=
  let (whole, afterWhole) := spanDigits cs
  let (fraction, rest) :=
    match afterWhole with
    | '.' :: tail => spanDigits tail
    | tail => ([], tail)
  if whole.isEmpty ∧ fraction.isEmpty then none
  else
    let digits := appendDigits (appendDigits 0 whole) fraction
    let scale : Int := -(fraction.length : Int)
    match rest with
    | [] => some ⟨digits, scale⟩
    | c :: tail =>
      if c = 'e' ∨ c = 'E' then (readExponent? tail).map fun e => ⟨digits, scale + e⟩ else none

/-- The pattern nearest to a decimal. Far outside the range of the format the result is known
without working out the power of ten. -/
def BinaryFormat.ofDecimal (f : BinaryFormat) (d : Decimal) : Nat :=
  if d.digits = 0 then 0
  else
    let top : Int := (RoundingInterval.digitCount d.digits : Int) + d.exponent
    let reach : Int := 2 ^ (f.exponentBits - 1)
    if reach < top then f.infinityBits
    else if top < -reach then 0
    else if 0 ≤ d.exponent then f.ofRatio (d.digits * 10 ^ d.exponent.toNat) 1
    else f.ofRatio d.digits (10 ^ (-d.exponent).toNat)

def BinaryFormat.read (f : BinaryFormat) (cs : List Char) : Except FloatError Nat :=
  match cs with
  | [] => .error .empty
  | c :: tail =>
    let negative := c = '-'
    let body := if c = '-' ∨ c = '+' then tail else cs
    match readDecimal? body with
    | some d => .ok (f.withSign negative (f.ofDecimal d))
    | none =>
      if Text.equalIgnoringCase body "nan".toList then .ok (f.withSign negative f.nanBits)
      else if Text.equalIgnoringCase body "inf".toList
          ∨ Text.equalIgnoringCase body "infinity".toList then
        .ok (f.withSign negative f.infinityBits)
      else .error .invalid

end PgPipeline.Number
