import PgPipeline.Digest.Sha2

namespace PgPipeline.Digest

def xorBytes (a b : Bytes) : Bytes := List.zipWith (· ^^^ ·) a b

/-- A key of one block: a longer key is digested first, a shorter one is filled up with zeros. -/
def blockKey (key : Bytes) : Bytes :=
  let short := if 64 < key.length then sha256 key else key
  short ++ List.replicate (64 - short.length) 0

def hmac (key message : Bytes) : Bytes :=
  let block := blockKey key
  sha256 (block.map (· ^^^ 0x5c) ++ sha256 (block.map (· ^^^ 0x36) ++ message))

@[simp] theorem length_hmac (key message : Bytes) : (hmac key message).length = 32 :=
  length_sha256 _

/-- Adds `n` further iterations: each digests the one before, and all are combined. -/
def stretch (key : Bytes) : Nat → Bytes → Bytes → Bytes
  | 0, _, sum => sum
  | n + 1, last, sum =>
    let next := hmac key last
    stretch key n next (xorBytes sum next)

def stretchPassword (password salt : Bytes) (iterations : Nat) : Bytes :=
  let first := hmac password (salt ++ [0, 0, 0, 1])
  stretch password (iterations - 1) first first

theorem length_stretch (key : Bytes) (n : Nat) (last sum : Bytes) (h : sum.length = 32) :
    (stretch key n last sum).length = 32 := by
  induction n generalizing last sum with
  | zero => exact h
  | succ n ih => exact ih _ _ (by simp [xorBytes, h])

@[simp] theorem length_stretchPassword (password salt : Bytes) (iterations : Nat) :
    (stretchPassword password salt iterations).length = 32 :=
  length_stretch _ _ _ _ (length_hmac _ _)

end PgPipeline.Digest
