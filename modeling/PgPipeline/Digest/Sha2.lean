import PgPipeline.Digest.Word

namespace PgPipeline.Digest

/-- The leading 64 bits of the fractional parts of the cube roots of the first eighty primes. -/
def roundConstants : List UInt64 := [
    0x428a2f98d728ae22, 0x7137449123ef65cd, 0xb5c0fbcfec4d3b2f, 0xe9b5dba58189dbbc,
    0x3956c25bf348b538, 0x59f111f1b605d019, 0x923f82a4af194f9b, 0xab1c5ed5da6d8118,
    0xd807aa98a3030242, 0x12835b0145706fbe, 0x243185be4ee4b28c, 0x550c7dc3d5ffb4e2,
    0x72be5d74f27b896f, 0x80deb1fe3b1696b1, 0x9bdc06a725c71235, 0xc19bf174cf692694,
    0xe49b69c19ef14ad2, 0xefbe4786384f25e3, 0x0fc19dc68b8cd5b5, 0x240ca1cc77ac9c65,
    0x2de92c6f592b0275, 0x4a7484aa6ea6e483, 0x5cb0a9dcbd41fbd4, 0x76f988da831153b5,
    0x983e5152ee66dfab, 0xa831c66d2db43210, 0xb00327c898fb213f, 0xbf597fc7beef0ee4,
    0xc6e00bf33da88fc2, 0xd5a79147930aa725, 0x06ca6351e003826f, 0x142929670a0e6e70,
    0x27b70a8546d22ffc, 0x2e1b21385c26c926, 0x4d2c6dfc5ac42aed, 0x53380d139d95b3df,
    0x650a73548baf63de, 0x766a0abb3c77b2a8, 0x81c2c92e47edaee6, 0x92722c851482353b,
    0xa2bfe8a14cf10364, 0xa81a664bbc423001, 0xc24b8b70d0f89791, 0xc76c51a30654be30,
    0xd192e819d6ef5218, 0xd69906245565a910, 0xf40e35855771202a, 0x106aa07032bbd1b8,
    0x19a4c116b8d2d0c8, 0x1e376c085141ab53, 0x2748774cdf8eeb99, 0x34b0bcb5e19b48a8,
    0x391c0cb3c5c95a63, 0x4ed8aa4ae3418acb, 0x5b9cca4f7763e373, 0x682e6ff3d6b2b8a3,
    0x748f82ee5defb2fc, 0x78a5636f43172f60, 0x84c87814a1f0ab72, 0x8cc702081a6439ec,
    0x90befffa23631e28, 0xa4506cebde82bde9, 0xbef9a3f7b2c67915, 0xc67178f2e372532b,
    0xca273eceea26619c, 0xd186b8c721c0c207, 0xeada7dd6cde0eb1e, 0xf57d4f7fee6ed178,
    0x06f067aa72176fba, 0x0a637dc5a2c898a6, 0x113f9804bef90dae, 0x1b710b35131c471b,
    0x28db77f523047d84, 0x32caab7b40c72493, 0x3c9ebe0a15c9bebc, 0x431d67c49c100d4c,
    0x4cc5d4becb3e42b6, 0x597f299cfc657e2a, 0x5fcb6fab3ad6faec, 0x6c44198c4a475817]

def roundConstants32 : List UInt32 :=
  (roundConstants.take 64).map fun (k : UInt64) => (k >>> (32 : UInt64)).toUInt32

structure Chain (α : Type) where
  a : α
  b : α
  c : α
  d : α
  e : α
  f : α
  g : α
  h : α
  deriving DecidableEq, Repr

namespace Chain

def zipWith {α : Type} (f : α → α → α) (x y : Chain α) : Chain α :=
  ⟨f x.a y.a, f x.b y.b, f x.c y.c, f x.d y.d, f x.e y.e, f x.f y.f, f x.g y.g, f x.h y.h⟩

def toList {α : Type} (x : Chain α) : List α := [x.a, x.b, x.c, x.d, x.e, x.f, x.g, x.h]

end Chain

namespace Sha256

def schedule (block : List UInt32) : Array UInt32 :=
  (List.range 48).foldl (fun w i =>
    let x := w.getD (i + 1) 0
    let y := w.getD (i + 14) 0
    let s0 := rotate32 x 7 ^^^ rotate32 x 18 ^^^ (x >>> 3)
    let s1 := rotate32 y 17 ^^^ rotate32 y 19 ^^^ (y >>> 10)
    w.push (w.getD i 0 + s0 + w.getD (i + 9) 0 + s1)) block.toArray

def round (x : Chain UInt32) (k : UInt32) : Chain UInt32 :=
  let s1 := rotate32 x.e 6 ^^^ rotate32 x.e 11 ^^^ rotate32 x.e 25
  let choice := (x.e &&& x.f) ^^^ (~~~x.e &&& x.g)
  let t1 := x.h + s1 + choice + k
  let s0 := rotate32 x.a 2 ^^^ rotate32 x.a 13 ^^^ rotate32 x.a 22
  let majority := (x.a &&& x.b) ^^^ (x.a &&& x.c) ^^^ (x.b &&& x.c)
  ⟨t1 + s0 + majority, x.a, x.b, x.c, x.d + t1, x.e, x.f, x.g⟩

def compress (x : Chain UInt32) (block : Bytes) : Chain UInt32 :=
  let keyed := List.zipWith (· + ·) roundConstants32 (schedule (words32 block)).toList
  (keyed.foldl round x).zipWith (· + ·) x

def initial : Chain UInt32 :=
  ⟨0x6a09e667, 0xbb67ae85, 0x3c6ef372, 0xa54ff53a,
    0x510e527f, 0x9b05688c, 0x1f83d9ab, 0x5be0cd19⟩

end Sha256

def sha256 (message : Bytes) : Bytes :=
  let padded := pad 64 8 (Bytes.bigEndian 8) message
  let chain := (blocks 64 (padded.length / 64) padded).foldl Sha256.compress Sha256.initial
  chain.toList.flatMap fun w => Bytes.bigEndian 4 w.toNat

@[simp] theorem length_sha256 (message : Bytes) : (sha256 message).length = 32 := by
  simp [sha256, Chain.toList]

namespace Sha512

def schedule (block : List UInt64) : Array UInt64 :=
  (List.range 64).foldl (fun w i =>
    let x := w.getD (i + 1) 0
    let y := w.getD (i + 14) 0
    let s0 := rotate64 x 1 ^^^ rotate64 x 8 ^^^ (x >>> 7)
    let s1 := rotate64 y 19 ^^^ rotate64 y 61 ^^^ (y >>> 6)
    w.push (w.getD i 0 + s0 + w.getD (i + 9) 0 + s1)) block.toArray

def round (x : Chain UInt64) (k : UInt64) : Chain UInt64 :=
  let s1 := rotate64 x.e 14 ^^^ rotate64 x.e 18 ^^^ rotate64 x.e 41
  let choice := (x.e &&& x.f) ^^^ (~~~x.e &&& x.g)
  let t1 := x.h + s1 + choice + k
  let s0 := rotate64 x.a 28 ^^^ rotate64 x.a 34 ^^^ rotate64 x.a 39
  let majority := (x.a &&& x.b) ^^^ (x.a &&& x.c) ^^^ (x.b &&& x.c)
  ⟨t1 + s0 + majority, x.a, x.b, x.c, x.d + t1, x.e, x.f, x.g⟩

def compress (x : Chain UInt64) (block : Bytes) : Chain UInt64 :=
  let keyed := List.zipWith (· + ·) roundConstants (schedule (words64 block)).toList
  (keyed.foldl round x).zipWith (· + ·) x

def run (start : Chain UInt64) (message : Bytes) : Chain UInt64 :=
  let padded := pad 128 16 (Bytes.bigEndian 16) message
  (blocks 128 (padded.length / 128) padded).foldl compress start

def initial : Chain UInt64 :=
  ⟨0x6a09e667f3bcc908, 0xbb67ae8584caa73b, 0x3c6ef372fe94f82b, 0xa54ff53a5f1d36f1,
    0x510e527fade682d1, 0x9b05688c2b3e6c1f, 0x1f83d9abfb41bd6b, 0x5be0cd19137e2179⟩

def initial384 : Chain UInt64 :=
  ⟨0xcbbb9d5dc1059ed8, 0x629a292a367cd507, 0x9159015a3070dd17, 0x152fecd8f70e5939,
    0x67332667ffc00b31, 0x8eb44a8768581511, 0xdb0c2e0d64f98fa7, 0x47b5481dbefa4fa4⟩

end Sha512

def sha512 (message : Bytes) : Bytes :=
  (Sha512.run Sha512.initial message).toList.flatMap fun w => Bytes.bigEndian 8 w.toNat

def sha384 (message : Bytes) : Bytes :=
  ((Sha512.run Sha512.initial384 message).toList.flatMap fun w => Bytes.bigEndian 8 w.toNat).take 48

end PgPipeline.Digest
