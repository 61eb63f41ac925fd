import PgPipeline.Bytes

namespace PgPipeline.Digest

def rotate32 (x : UInt32) (n : UInt32) : UInt32 := (x >>> n) ||| (x <<< (32 - n))

def rotate64 (x : UInt64) (n : UInt64) : UInt64 := (x >>> n) ||| (x <<< (64 - n))

def zeroCount (block field length : Nat) : Nat :=
  (block - (length + 1 + field) % block) % block

def pad (block field : Nat) (lengthField : Nat → Bytes) (message : Bytes) : Bytes :=
  message ++ 0x80 :: List.replicate (zeroCount block field message.length) 0
    ++ lengthField (8 * message.length)

def blocks (size : Nat) : Nat → Bytes → List Bytes
  | 0, _ => []
  | count + 1, data => data.take size :: blocks size count (data.drop size)

def words32 : Bytes → List UInt32
  | a :: b :: c :: d :: rest => UInt32.ofNat (Bytes.toNat [a, b, c, d]) :: words32 rest
  | _ => []

def words64 : Bytes → List UInt64
  | a :: b :: c :: d :: e :: f :: g :: h :: rest =>
    UInt64.ofNat (Bytes.toNat [a, b, c, d, e, f, g, h]) :: words64 rest
  | _ => []

end PgPipeline.Digest
