import PgPipeline.Bytes

namespace PgPipeline.Utf8

def encodeChar (c : Char) : Bytes :=
  let n := c.toNat
  if n < 0x80 then [UInt8.ofNat n]
  else if n < 0x800 then [UInt8.ofNat (0xC0 + n / 64), UInt8.ofNat (0x80 + n % 64)]
  else if n < 0x10000 then
    [UInt8.ofNat (0xE0 + n / 4096), UInt8.ofNat (0x80 + n / 64 % 64), UInt8.ofNat (0x80 + n % 64)]
  else
    [UInt8.ofNat (0xF0 + n / 262144), UInt8.ofNat (0x80 + n / 4096 % 64),
      UInt8.ofNat (0x80 + n / 64 % 64), UInt8.ofNat (0x80 + n % 64)]

def encodeChars (cs : List Char) : Bytes := cs.flatMap encodeChar

def encode (s : String) : Bytes := encodeChars s.toList

/-- Part of a byte string: a character, a run of bytes that no character continues, or the start
of a character that the input does not finish. -/
inductive Piece where
  | char (c : Char)
  | invalid (length : Nat)
  | cut (length : Nat)
  deriving DecidableEq, Repr

def isTail (n : Nat) : Bool := 0x80 ≤ n && n < 0xC0

/-- Which second bytes a lead byte allows: the narrower ranges exclude overlong forms, surrogates
and numbers above the last code point. -/
def secondAllowed (lead second : Nat) : Bool :=
  if lead = 0xE0 then 0xA0 ≤ second && second < 0xC0
  else if lead = 0xED then 0x80 ≤ second && second < 0xA0
  else if lead = 0xF0 then 0x90 ≤ second && second < 0xC0
  else if lead = 0xF4 then 0x80 ≤ second && second < 0x90
  else isTail second

def pieces : Bytes → List Piece
  | [] => []
  | a :: rest =>
    let lead := a.toNat
    if lead < 0x80 then .char (Char.ofNat lead) :: pieces rest
    else if lead < 0xC2 ∨ 0xF5 ≤ lead then .invalid 1 :: pieces rest
    else
      match rest with
      | [] => [.cut 1]
      | b :: rest₂ =>
        if ¬ secondAllowed lead b.toNat then .invalid 1 :: pieces (b :: rest₂)
        else if lead < 0xE0 then
          .char (Char.ofNat ((lead - 0xC0) * 64 + (b.toNat - 0x80))) :: pieces rest₂
        else
          match rest₂ with
          | [] => [.cut 2]
          | c :: rest₃ =>
            if ¬ isTail c.toNat then .invalid 2 :: pieces (c :: rest₃)
            else if lead < 0xF0 then
              .char (Char.ofNat
                ((lead - 0xE0) * 4096 + (b.toNat - 0x80) * 64 + (c.toNat - 0x80))) :: pieces rest₃
            else
              match rest₃ with
              | [] => [.cut 3]
              | d :: rest₄ =>
                if ¬ isTail d.toNat then .invalid 3 :: pieces (d :: rest₄)
                else
                  .char (Char.ofNat
                    ((lead - 0xF0) * 262144 + (b.toNat - 0x80) * 4096 + (c.toNat - 0x80) * 64
                      + (d.toNat - 0x80))) :: pieces rest₄
  termination_by bs => bs.length

/-- Where a byte string stops being UTF-8: the index of the first offending byte, and how many
bytes are in error, or `none` when the input ends inside a character. -/
structure Malformed where
  index : Nat
  length : Option Nat
  deriving DecidableEq, Repr

def Malformed.message (e : Malformed) : String :=
  match e.length with
  | some n => s!"invalid utf-8 sequence of {n} bytes from index {e.index}"
  | none => s!"incomplete utf-8 byte sequence from index {e.index}"

def collect (index : Nat) : List Piece → Except Malformed (List Char)
  | [] => .ok []
  | .char c :: rest => (collect (index + (encodeChar c).length) rest).map (c :: ·)
  | .invalid n :: _ => .error ⟨index, some n⟩
  | .cut _ :: _ => .error ⟨index, none⟩

def decode (bs : Bytes) : Except Malformed String :=
  (collect 0 (pieces bs)).map String.ofList

def replacement : Char := Char.ofNat 0xFFFD

def Piece.toChar : Piece → Char
  | .char c => c
  | .invalid _ => replacement
  | .cut _ => replacement

def lossy (bs : Bytes) : String := String.ofList ((pieces bs).map Piece.toChar)

end PgPipeline.Utf8
