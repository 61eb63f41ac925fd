import PgPipeline.Value.Binary
import PgPipeline.Wire.Field

namespace PgPipeline

def Numeric.bytes (n : Numeric) : Bytes :=
  Bytes.bigEndian 2 n.groups.length ++ Bytes.int16 (Int16.ofInt n.weight)
    ++ Bytes.bigEndian 2 (if n.negative then 0x4000 else 0) ++ Bytes.bigEndian 2 n.scale
    ++ n.groups.flatMap fun g => Bytes.int16 (Int16.ofInt g)

structure Dimension where
  length : Nat
  lowerBound : Int32
  deriving DecidableEq, Repr

namespace Dimension

def bytes (d : Dimension) : Bytes := Bytes.bigEndian 4 d.length ++ Bytes.int32 d.lowerBound

end Dimension

/-- The binary form of an array: the number of dimensions, whether a member is absent, the type of
the members, the dimensions, and the members in row-major order. -/
def arrayBytes (element : Oid) (dimensions : List Dimension) (members : List (Option Bytes)) :
    Bytes :=
  Bytes.bigEndian 4 dimensions.length ++ Bytes.bigEndian 4 (if none ∈ members then 1 else 0)
    ++ Bytes.int32 element.number ++ dimensions.flatMap Dimension.bytes
    ++ members.flatMap Wire.sized

end PgPipeline
