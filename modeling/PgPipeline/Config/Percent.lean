import PgPipeline.Bytes
import PgPipeline.Config
import PgPipeline.Text.Utf8

namespace PgPipeline.Percent

def byte? (a b : Char) : Option UInt8 := do
  let low ← Bytes.hexValue? b
  if a = '+' then return UInt8.ofNat low
  let high ← Bytes.hexValue? a
  return UInt8.ofNat (high * 16 + low)

def bytes? : List Char → Option Bytes
  | [] => some []
  | '%' :: a :: b :: rest => do
    let first ← byte? a b
    let others ← bytes? rest
    return first :: others
  | '%' :: _ => none
  | c :: rest => (bytes? rest).map (Utf8.encodeChar c ++ ·)

def decode (cs : List Char) : Except ConfigError String :=
  match bytes? cs with
  | none => .error (.invalidEscape (String.ofList cs))
  | some bs =>
    match Utf8.decode bs with
    | .error _ => .error (.malformedText (String.ofList cs))
    | .ok text => .ok text

end PgPipeline.Percent
