import PgPipeline.Auth.Scram

namespace PgPipeline.Scram.Client

inductive Call where
  | first (message : Bytes)
  | final (message : Bytes)
  deriving DecidableEq, Repr

/-- Takes the server's first message. The exchange is noted last, when nothing can fail any more. -/
def process (message : Bytes) : EStateM Error Client (List Char) := do
  let .ok text := Utf8.decode message | throw .invalidServerMessage
  let challenge ← ofExcept <|
    (Text.splitAll ',' text.toList).foldlM Challenge.read ⟨none, none, none⟩
  let c ← get
  let (nonce, salt, iterations) ← ofExcept (c.accept challenge)
  let exchange : Exchange :=
    ⟨Digest.stretchPassword (Utf8.encode c.password) salt iterations,
      Utf8.encodeChars (c.transcript text.toList nonce)⟩
  set { c with exchange := some exchange }
  return c.finalWithoutProof nonce ++ ',' :: 'p' :: '=' :: Base64.encode exchange.proof

def perform (c : Client) : Call → Client
  | .first message =>
    match process message c with
    | .ok _ next => next
    | .error _ next => next
  | .final _ => c

def run (c : Client) (calls : List Call) : Client := calls.foldl perform c

variable {α β : Type} (c : Client)

theorem get_bind (f : Client → EStateM Error Client α) : (get >>= f) c = f c c := rfl

theorem ofExcept_bind (x : Except Error α) (f : α → EStateM Error Client β) :
    (ofExcept x >>= f) c =
      match x with
      | .ok a => f a c
      | .error e => .error e c := by
  cases x <;> rfl

theorem process_eq (message : Bytes) :
    process message c =
      match c.receiveFirst message with
      | .ok (reply, next) => .ok reply next
      | .error e => .error e c := by
  unfold process receiveFirst
  cases Utf8.decode message with
  | error fault => rfl
  | ok text =>
    simp only [ofExcept_bind, get_bind]
    cases (Text.splitAll ',' text.toList).foldlM Challenge.read ⟨none, none, none⟩ with
    | error e => rfl
    | ok challenge =>
      dsimp only [bind, Except.bind]
      cases c.accept challenge <;> rfl

end PgPipeline.Scram.Client
