import PgPipeline.Json.Token

namespace PgPipeline.Json

inductive Open where
  | array (items : List Json)
  | object (members : List (String × Json))
  | member (members : List (String × Json)) (key : String)
  deriving Repr

inductive Expecting where
  | value
  | valueOrClose
  | key
  | keyOrClose
  | colon
  | commaOrClose
  | nothing
  deriving DecidableEq, Repr

structure Reading where
  stack : List Open
  expecting : Expecting
  result : Option Json
  deriving Repr

namespace Reading

def start : Reading := ⟨[], .value, none⟩

def give? (document : Json) : List Open → Option Reading
  | [] => some ⟨[], .nothing, some document⟩
  | .array items :: rest => some ⟨.array (document :: items) :: rest, .commaOrClose, none⟩
  | .member members key :: rest =>
    some ⟨.object (KeyOrder.insert key document members) :: rest, .commaOrClose, none⟩
  | .object _ :: _ => none

def step? (r : Reading) (t : Token) : Option Reading :=
  match t, r.expecting, r.stack with
  | .scalar (.string key), .key, .object members :: rest =>
    some ⟨.member members key :: rest, .colon, none⟩
  | .scalar (.string key), .keyOrClose, .object members :: rest =>
    some ⟨.member members key :: rest, .colon, none⟩
  | .scalar document, .value, stack => give? document stack
  | .scalar document, .valueOrClose, stack => give? document stack
  | .openArray, .value, stack => some ⟨.array [] :: stack, .valueOrClose, none⟩
  | .openArray, .valueOrClose, stack => some ⟨.array [] :: stack, .valueOrClose, none⟩
  | .openObject, .value, stack => some ⟨.object [] :: stack, .keyOrClose, none⟩
  | .openObject, .valueOrClose, stack => some ⟨.object [] :: stack, .keyOrClose, none⟩
  | .closeArray, .valueOrClose, .array items :: rest => give? (.array items.reverse) rest
  | .closeArray, .commaOrClose, .array items :: rest => give? (.array items.reverse) rest
  | .closeObject, .keyOrClose, .object members :: rest => give? (.object members) rest
  | .closeObject, .commaOrClose, .object members :: rest => give? (.object members) rest
  | .comma, .commaOrClose, stack@(.array _ :: _) => some ⟨stack, .value, none⟩
  | .comma, .commaOrClose, stack@(.object _ :: _) => some ⟨stack, .key, none⟩
  | .colon, .colon, stack => some ⟨stack, .value, none⟩
  | _, _, _ => none

end Reading

def read? (s : String) : Option Json := do
  let tokens ← tokens? s.toList
  let r ← tokens.foldlM Reading.step? Reading.start
  r.result

end PgPipeline.Json
