import PgPipeline.Bytes
import PgPipeline.Text.Utf8

namespace PgPipeline.Wire

def cstring (s : String) : Bytes := Utf8.encode s ++ [0]

/-- The length word in front of a body; it counts its own four bytes. -/
def withLength (body : Bytes) : Bytes := Bytes.bigEndian 4 (body.length + 4) ++ body

def frame (tag : Char) (body : Bytes) : Bytes := Bytes.ascii tag :: withLength body

/-- A value in front of which its length stands; an absent value has length -1. -/
def sized : Option Bytes → Bytes
  | none => Bytes.int32 (-1)
  | some data => Bytes.bigEndian 4 data.length ++ data

def counted {α : Type} (item : α → Bytes) (items : List α) : Bytes :=
  Bytes.bigEndian 2 items.length ++ items.flatMap item

end PgPipeline.Wire
