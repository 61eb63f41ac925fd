import PgPipeline.KeyOrder
import PgPipeline.Number.FloatText

namespace PgPipeline

inductive Json where
  | null
  | bool (b : Bool)
  | integer (n : Int)
  | float (bits : UInt64)
  | string (s : String)
  | array (items : List Json)
  | object (members : List (String × Json))
  deriving Repr, Inhabited

namespace Json

def member? (document : Json) (key : String) : Option Json :=
  match document with
  | object members => members.lookup key
  | _ => none

def escapeChar (c : Char) : List Char :=
  let n := c.toNat
  if c = '"' then ['\\', '"']
  else if c = '\\' then ['\\', '\\']
  else if n = 8 then ['\\', 'b']
  else if n = 9 then ['\\', 't']
  else if n = 10 then ['\\', 'n']
  else if n = 12 then ['\\', 'f']
  else if n = 13 then ['\\', 'r']
  else if n < 32 then
    let ds := Nat.toDigits 16 n
    ['\\', 'u'] ++ List.replicate (4 - ds.length) '0' ++ ds
  else [c]

def stringChars (s : String) : List Char := '"' :: s.toList.flatMap escapeChar ++ ['"']

/-- The digits of a float: positional from `0.00001` up to sixteen places before the point, with at
least one place after it, and with an exponent beyond. -/
def decimalChars (d : Number.Decimal) : List Char :=
  let ds := Number.digitChars d.digits
  let point : Int := ds.length + d.exponent
  if -5 < point ∧ point ≤ 16 then
    if 0 ≤ d.exponent then d.positional ++ ['.', '0'] else d.positional
  else
    let e := point - 1
    let mantissa :=
      match ds with
      | [] => []
      | [c] => [c]
      | c :: rest => c :: '.' :: rest
    mantissa ++ 'e' :: (if e < 0 then '-' else '+') :: Number.digitChars e.natAbs

def floatChars (bits : UInt64) : List Char :=
  match Number.BinaryFormat.double.decode bits.toNat with
  | .finite negative m q =>
    let chars := if m = 0 then ['0', '.', '0'] else decimalChars (Number.shortest .double .even m q)
    if negative then '-' :: chars else chars
  | _ => "null".toList

mutual

def chars : Json → List Char
  | null => "null".toList
  | bool b => (if b then "true" else "false").toList
  | integer n => (toString n).toList
  | float bits => floatChars bits
  | string s => stringChars s
  | array items => '[' :: ",".toList.intercalate (itemsChars items) ++ [']']
  | object members => '\x7b' :: ",".toList.intercalate (membersChars members) ++ ['\x7d']

def itemsChars : List Json → List (List Char)
  | [] => []
  | item :: rest => chars item :: itemsChars rest

def membersChars : List (String × Json) → List (List Char)
  | [] => []
  | (key, value) :: rest => (stringChars key ++ ':' :: chars value) :: membersChars rest

end

def text (document : Json) : String := String.ofList document.chars

end Json

end PgPipeline
