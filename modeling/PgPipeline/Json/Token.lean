import PgPipeline.Bytes
import PgPipeline.Json

namespace PgPipeline.Json

inductive Token where
  | openArray
  | closeArray
  | openObject
  | closeObject
  | comma
  | colon
  | scalar (document : Json)
  deriving Repr

def quotient? : Number.BinaryValue → Option (Nat × Nat)
  | .finite _ m q => some (if 0 ≤ q then (m * 2 ^ q.toNat, 1) else (m, 2 ^ (-q).toNat))
  | _ => none

def nearest? (n : Nat) : Option (Nat × Nat) :=
  quotient? (Number.BinaryFormat.double.decode (Number.BinaryFormat.double.ofRatio n 1))

def topPower : Nat := 308

/-- Divides a quotient by a power of ten, and gives the pattern of the number nearest to it. A
divisor that is too large is taken in parts, with a rounding for each. -/
def scaledDown? (num den places : Nat) : Option Nat := do
  let (c, d) ← nearest? (10 ^ min places topPower)
  let bits := Number.BinaryFormat.double.ofRatio (num * d) (den * c)
  if _h : topPower < places ∧ bits ≠ 0 then
    let (a, b) ← quotient? (Number.BinaryFormat.double.decode bits)
    scaledDown? a b (places - topPower)
  else return bits
termination_by places
decreasing_by simp only [topPower] at *; omega

def scaled? (significand : Nat) (exponent : Int) : Option Nat := do
  if significand = 0 then return 0
  let (a, b) ← nearest? significand
  if exponent < 0 then scaledDown? a b exponent.natAbs
  else if topPower < exponent.natAbs then none
  else
    let (c, d) ← nearest? (10 ^ exponent.natAbs)
    let bits := Number.BinaryFormat.double.ofRatio (a * c) (b * d)
    if bits = Number.BinaryFormat.double.infinityBits then none else return bits

/-- The digits of a number as far as they fit 64 bits, and how many were left out. -/
def significand (ds : List Char) : Nat × Nat :=
  let rec go (acc : Nat) : List Char → Nat × Nat
    | [] => (acc, 0)
    | c :: rest =>
      let next := Number.appendDigits acc [c]
      if next < 2 ^ 64 then go next rest else (acc, rest.length + 1)
  go 0 ds

def readUnsigned? (cs : List Char) : Option (Sum Nat (Nat × Int)) := do
  let (whole, afterWhole) := Number.spanDigits cs
  if whole.isEmpty ∨ (whole.head? = some '0' ∧ 1 < whole.length) then none
  let (fraction, rest) ←
    match afterWhole with
    | '.' :: tail =>
      let (ds, rest) := Number.spanDigits tail
      if ds.isEmpty then none else some (ds, rest)
    | tail => some ([], tail)
  let (digits, dropped) := significand (whole ++ fraction)
  let scale : Int := (dropped : Int) - fraction.length
  match rest with
  | [] =>
    if fraction.isEmpty ∧ dropped = 0 then return .inl digits else return .inr (digits, scale)
  | c :: tail =>
    if c = 'e' ∨ c = 'E' then
      let e ← Number.readExponent? tail
      return .inr (digits, scale + e)
    else none

def ofNumber? (cs : List Char) : Option Json := do
  let (negative, body) :=
    match cs with
    | '-' :: body => (true, body)
    | body => (false, body)
  let sign := Number.BinaryFormat.double.withSign negative
  match ← readUnsigned? body with
  | .inl n =>
    if negative ∧ (n = 0 ∨ 2 ^ 63 < n) then
      let bits ← scaled? n 0
      return .float (UInt64.ofNat (sign bits))
    else return .integer (if negative then -n else n)
  | .inr (digits, exponent) =>
    let bits ← scaled? digits exponent
    return .float (UInt64.ofNat (sign bits))

def ofWord? (cs : List Char) : Option Json :=
  if cs = "null".toList then some .null
  else if cs = "true".toList then some (.bool true)
  else if cs = "false".toList then some (.bool false)
  else ofNumber? cs

inductive Lexing where
  | between
  | word (chars : List Char)
  | string (chars : List Char)
  | escape (chars : List Char)
  /-- In the digits of a character number, after a lead surrogate if there was one. -/
  | number (chars : List Char) (lead : Option Nat) (digits : List Nat)
  | trailing (chars : List Char) (lead : Nat) (backslash : Bool)
  deriving Repr

structure Lexer where
  tokens : List Token
  place : Lexing
  deriving Repr

namespace Lexer

def start : Lexer := ⟨[], .between⟩

def isBlank (c : Char) : Bool := c = ' ' || c = '\t' || c = '\n' || c = '\r'

def open? (tokens : List Token) (c : Char) : Option Lexer :=
  if isBlank c then some ⟨tokens, .between⟩
  else if c = '[' then some ⟨.openArray :: tokens, .between⟩
  else if c = ']' then some ⟨.closeArray :: tokens, .between⟩
  else if c = '\x7b' then some ⟨.openObject :: tokens, .between⟩
  else if c = '\x7d' then some ⟨.closeObject :: tokens, .between⟩
  else if c = ',' then some ⟨.comma :: tokens, .between⟩
  else if c = ':' then some ⟨.colon :: tokens, .between⟩
  else if c = '"' then some ⟨tokens, .string []⟩
  else some ⟨tokens, .word [c]⟩

def continuesWord (c : Char) : Bool :=
  c.isAlphanum || c = '+' || c = '-' || c = '.'

def escaped? (c : Char) : Option Char :=
  if c = '"' ∨ c = '\\' ∨ c = '/' then some c
  else if c = 'b' then some (Char.ofNat 8)
  else if c = 'f' then some (Char.ofNat 12)
  else if c = 'n' then some '\n'
  else if c = 'r' then some '\r'
  else if c = 't' then some '\t'
  else none

def endNumber (tokens : List Token) (chars : List Char) (lead : Option Nat) (code : Nat) :
    Option Lexer :=
  match lead with
  | none =>
    if 0xD800 ≤ code ∧ code < 0xDC00 then some ⟨tokens, .trailing chars code false⟩
    else if 0xDC00 ≤ code ∧ code < 0xE000 then none
    else some ⟨tokens, .string (Char.ofNat code :: chars)⟩
  | some high =>
    if 0xDC00 ≤ code ∧ code < 0xE000 then
      let n := 0x10000 + (high - 0xD800) * 0x400 + (code - 0xDC00)
      some ⟨tokens, .string (Char.ofNat n :: chars)⟩
    else none

def step? (l : Lexer) (c : Char) : Option Lexer :=
  match l.place with
  | .between => open? l.tokens c
  | .word chars =>
    if continuesWord c then some { l with place := .word (c :: chars) }
    else do
      let document ← ofWord? chars.reverse
      open? (.scalar document :: l.tokens) c
  | .string chars =>
    if c = '"' then
      some ⟨.scalar (.string (String.ofList chars.reverse)) :: l.tokens, .between⟩
    else if c = '\\' then some { l with place := .escape chars }
    else if c.toNat < 32 then none
    else some { l with place := .string (c :: chars) }
  | .escape chars =>
    if c = 'u' then some { l with place := .number chars none [] }
    else (escaped? c).map fun e => { l with place := .string (e :: chars) }
  | .number chars lead digits => do
    let d ← Bytes.hexValue? c
    match digits with
    | [x, y, z] => endNumber l.tokens chars lead (((z * 16 + y) * 16 + x) * 16 + d)
    | _ => some { l with place := .number chars lead (d :: digits) }
  | .trailing chars lead backslash =>
    if backslash = false ∧ c = '\\' then some { l with place := .trailing chars lead true }
    else if backslash = true ∧ c = 'u' then some { l with place := .number chars (some lead) [] }
    else none

def finish? (l : Lexer) : Option (List Token) :=
  match l.place with
  | .between => some l.tokens.reverse
  | .word chars => (ofWord? chars.reverse).map fun d => (.scalar d :: l.tokens).reverse
  | _ => none

end Lexer

def tokens? (cs : List Char) : Option (List Token) :=
  (cs.foldlM Lexer.step? Lexer.start).bind Lexer.finish?

end PgPipeline.Json
