import PgPipeline.Digest.Sha2

namespace PgPipeline.Certificate

structure Field where
  tag : UInt8
  contents : Bytes
  rest : Bytes
  deriving DecidableEq, Repr

/-- Reads a length of one byte below 128, or of one to four bytes behind their count. -/
def readLength? : Bytes → Option (Nat × Bytes)
  | [] => none
  | first :: rest =>
    let n := first.toNat
    if n < 128 then some (n, rest)
    else
      let count := n - 128
      if count = 0 ∨ 4 < count ∨ rest.length < count then none
      else some (Bytes.toNat (rest.take count), rest.drop count)

def readField? : Bytes → Option Field
  | [] => none
  | tag :: rest =>
    match readLength? rest with
    | none => none
    | some (n, body) =>
      if body.length < n then none else some ⟨tag, body.take n, body.drop n⟩

def sequenceTag : UInt8 := 0x30

def identifierTag : UInt8 := 0x06

def signatureAlgorithm? (certificate : Bytes) : Option Bytes := do
  let outer ← readField? certificate
  if outer.tag ≠ sequenceTag then none
  let body ← readField? outer.contents
  let algorithm ← readField? body.rest
  if algorithm.tag ≠ sequenceTag then none
  let identifier ← readField? algorithm.contents
  if identifier.tag ≠ identifierTag then none
  return identifier.contents

/-- Signatures over the digest of 48 bytes: by RSA and by elliptic curves. -/
def algorithms384 : List Bytes :=
  [[0x2A, 0x86, 0x48, 0x86, 0xF7, 0x0D, 0x01, 0x01, 0x0C],
    [0x2A, 0x86, 0x48, 0xCE, 0x3D, 0x04, 0x03, 0x03]]

/-- Signatures over the digest of 64 bytes: by RSA and by elliptic curves. -/
def algorithms512 : List Bytes :=
  [[0x2A, 0x86, 0x48, 0x86, 0xF7, 0x0D, 0x01, 0x01, 0x0D],
    [0x2A, 0x86, 0x48, 0xCE, 0x3D, 0x04, 0x03, 0x04]]

def endPointDigest (certificate : Bytes) : Bytes :=
  match signatureAlgorithm? certificate with
  | some identifier =>
    if identifier ∈ algorithms384 then Digest.sha384 certificate
    else if identifier ∈ algorithms512 then Digest.sha512 certificate
    else Digest.sha256 certificate
  | none => Digest.sha256 certificate

end PgPipeline.Certificate
