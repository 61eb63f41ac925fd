namespace PgPipeline.Number

inductive IntegerError where
  | empty
  | invalidDigit
  | tooLarge
  | tooSmall
  deriving DecidableEq, Repr

def IntegerError.message : IntegerError → String
  | .empty => "cannot parse integer from empty string"
  | .invalidDigit => "invalid digit found in string"
  | .tooLarge => "number too large to fit in target type"
  | .tooSmall => "number too small to fit in target type"

def digitValue? (c : Char) : Option Nat :=
  if 48 ≤ c.toNat ∧ c.toNat ≤ 57 then some (c.toNat - 48) else none

structure IntegerRange where
  low : Int
  high : Int
  deriving DecidableEq, Repr

namespace IntegerRange

def signed (bits : Nat) : IntegerRange := ⟨-(2 ^ (bits - 1)), 2 ^ (bits - 1) - 1⟩

def unsigned (bits : Nat) : IntegerRange := ⟨0, 2 ^ bits - 1⟩

/-- Appends digits to `acc`; after a minus every digit is subtracted. -/
def readDigits (range : IntegerRange) (negative : Bool) (acc : Int) :
    List Char → Except IntegerError Int
  | [] => .ok acc
  | c :: rest =>
    match digitValue? c with
    | none => .error .invalidDigit
    | some d =>
      let next := if negative then acc * 10 - d else acc * 10 + d
      if range.high < next then .error .tooLarge
      else if next < range.low then .error .tooSmall
      else readDigits range negative next rest

def read (range : IntegerRange) : List Char → Except IntegerError Int
  | [] => .error .empty
  | '+' :: rest => if rest.isEmpty then .error .invalidDigit else range.readDigits false 0 rest
  | '-' :: rest =>
    if rest.isEmpty ∨ 0 ≤ range.low then .error .invalidDigit else range.readDigits true 0 rest
  | c :: rest => range.readDigits false 0 (c :: rest)

end IntegerRange

end PgPipeline.Number
