import PgPipeline.Text.Blank

namespace PgPipeline.ArrayLiteral

inductive Error where
  | malformed (input : String)
  | endsInEscape
  | unterminatedQuote
  deriving DecidableEq, Repr

def Error.message : Error → String
  | .malformed input => s!"Malformed array literal: {input}"
  | .endsInEscape => "Array literal ends inside an escape"
  | .unterminatedQuote => "Unterminated quote in array literal"

def isBrace (c : Char) : Bool := c = '\x7b' || c = '\x7d'

def isSpecial (c : Char) : Bool :=
  isBrace c || c = ',' || c = '"' || c = '\\' || Text.isAsciiBlank c

def nullWord : List Char := "NULL".toList

def needsQuotes (cs : List Char) : Bool :=
  cs.isEmpty || Text.equalIgnoringCase cs nullWord || cs.any isSpecial

def escapeChar (c : Char) : List Char := if c = '"' ∨ c = '\\' then ['\\', c] else [c]

def formatElement (cs : List Char) : List Char :=
  if needsQuotes cs then '"' :: cs.flatMap escapeChar ++ ['"'] else cs

def brace (elements : List (List Char)) : List Char :=
  '\x7b' :: ",".toList.intercalate elements ++ ['\x7d']

def format (elements : List (Option (List Char))) : List Char :=
  brace (elements.map fun e => (e.map formatElement).getD nullWord)

/-- What has been read of a literal: the finished elements and the characters of the current one,
both latest first, and where the reader stands. -/
structure Progress where
  elements : List (Option (List Char))
  current : List Char
  quoted : Bool
  wasQuoted : Bool
  depth : Nat
  deriving DecidableEq, Repr

namespace Progress

def start : Progress := ⟨[], [], false, false, 0⟩

def push (p : Progress) (c : Char) : Progress := { p with current := c :: p.current }

/-- The element that the characters read so far make up: quoted text stands for itself, other text
is trimmed and may be the null word. -/
def element (p : Progress) : Option (List Char) :=
  let raw := p.current.reverse
  if p.wasQuoted then some raw
  else
    let trimmed := Text.trim raw
    if Text.equalIgnoringCase trimmed nullWord then none else some trimmed

def finish (p : Progress) : Progress :=
  { p with elements := p.element :: p.elements, current := [], wasQuoted := false }

def step (p : Progress) (c : Char) : Progress :=
  if c = '"' then
    let flipped := { p with quoted := !p.quoted }
    if 0 < p.depth then flipped.push c else { flipped with wasQuoted := true }
  else if Text.isBlank c ∧ p.quoted = false ∧ p.depth = 0
      ∧ (p.wasQuoted = true ∨ p.current = []) then p
  else if c = '\x7b' ∧ p.quoted = false then { p.push c with depth := p.depth + 1 }
  else if c = '\x7d' ∧ p.quoted = false ∧ 0 < p.depth then { p.push c with depth := p.depth - 1 }
  else if c = ',' ∧ p.quoted = false ∧ p.depth = 0 then p.finish
  else p.push c

/-- Takes an escaped character; a nested group keeps the backslash. -/
def escaped (p : Progress) (c : Char) : Progress :=
  if 0 < p.depth then (p.push '\\').push c else p.push c

end Progress

def scan (p : Progress) : List Char → Except Error Progress
  | [] => .ok p
  | '\\' :: [] => .error .endsInEscape
  | '\\' :: c :: rest => scan (p.escaped c) rest
  | c :: rest => scan (p.step c) rest

def inside? : List Char → Option (List Char)
  | [] => none
  | c :: rest =>
    if c = '\x7b' ∧ rest.getLast? = some '\x7d' then some rest.dropLast else none

def parseChars (input : List Char) : Except Error (List (Option (List Char))) :=
  let trimmed := Text.trim input
  match inside? trimmed with
  | none => .error (.malformed (String.ofList trimmed))
  | some [] => .ok []
  | some inner =>
    match scan .start inner with
    | .error e => .error e
    | .ok p => if p.quoted then .error .unterminatedQuote else .ok p.finish.elements.reverse

def parse (input : String) : Except Error (List (Option String)) :=
  (parseChars input.toList).map fun es => es.map fun e => e.map String.ofList

end PgPipeline.ArrayLiteral
