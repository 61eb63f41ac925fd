import PgPipeline.Wire.Frontend

/-!
How a server reads the messages of a client.

A server knows from the state of the session what it may be sent: the messages that open a session
have no tag, and three kinds of messages share one tag. It is told which of them is due.
-/

namespace PgPipeline

inductive Due where
  | opening
  | password
  | saslInitial
  | saslResponse
  deriving DecidableEq, Repr

abbrev FieldReader (α : Type) := StateT Bytes Option α

namespace FieldReader

def bytes (n : Nat) : FieldReader Bytes := fun data =>
  if data.length < n then none else some (data.take n, data.drop n)

def number (n : Nat) : FieldReader Nat := do return Bytes.toNat (← bytes n)

def cstring : FieldReader String := fun data =>
  if data.contains 0 then
    match Utf8.decode (data.takeWhile (· != 0)) with
    | .ok text => some (text, (data.dropWhile (· != 0)).drop 1)
    | .error _ => none
  else none

def items {α : Type} (item : FieldReader α) : Nat → FieldReader (List α)
  | 0 => return []
  | n + 1 => do
    let first ← item
    let rest ← items item n
    return first :: rest

def counted {α : Type} (item : FieldReader α) : FieldReader (List α) := do items item (← number 2)

def sized : FieldReader (Option Bytes) := do
  let length := Bytes.toInt32 (← bytes 4)
  if length = -1 then return none
  else if length < 0 then failure
  else return some (← bytes length.toInt.toNat)

def rest : FieldReader Bytes := fun data => some (data, [])

def oid : FieldReader Oid := do return ⟨Bytes.toInt32 (← bytes 4)⟩

def format : FieldReader Format := do
  match ← number 2 with
  | 0 => return .text
  | 1 => return .binary
  | _ => failure

def target : FieldReader Target := do
  let code ← bytes 1
  if code = [Target.statement.code] then return .statement
  else if code = [Target.portal.code] then return .portal
  else failure

def whole? {α : Type} (reader : FieldReader α) (data : Bytes) : Option α :=
  match reader data with
  | some (a, []) => some a
  | _ => none

end FieldReader

namespace FrontendMessage

open FieldReader

def readSettings (data : Bytes) : Option (List (String × String)) :=
  match h : FieldReader.cstring data with
  | none => none
  | some (name, afterName) =>
    if name = "" then if afterName = [] then some [] else none
    else
      match h' : FieldReader.cstring afterName with
      | none => none
      | some (value, rest) =>
        have : rest.length < data.length := by
          have shorter {t : String} {a b : Bytes} (ht : FieldReader.cstring a = some (t, b)) :
              b.length < a.length := by
            unfold FieldReader.cstring at ht
            split at ht
            · next hc =>
              have hpos : 0 < a.length := List.length_pos_of_mem (List.contains_iff_mem.1 hc)
              have hd := (List.dropWhile_sublist (l := a) (· != 0)).length_le
              split at ht
              · injection ht with ht
                injection ht with _ hb
                rw [← hb, List.length_drop]
                omega
              · cases ht
            · cases ht
          exact Nat.lt_trans (shorter h') (shorter h)
        (readSettings rest).map ((name, value) :: ·)
  termination_by data.length

/-- Reads the body of a message that opens a session. The names `user` and `database` stand for
themselves; every other name is an option. -/
def readOpening (data : Bytes) : Option FrontendMessage :=
  match FieldReader.number 4 data with
  | none => none
  | some (code, rest) =>
    if code = sslRequestCode then if rest = [] then some sslRequest else none
    else if code = protocolVersion then
      match readSettings rest with
      | some (("user", user) :: ("database", database) :: options) =>
        some (startup user (some database) options)
      | some (("user", user) :: options) => some (startup user none options)
      | _ => none
    else none

def readBody (due : Due) (tag : Char) : Bytes → Option FrontendMessage :=
  match tag with
  | 'P' => whole? do return parse (← FieldReader.cstring) (← FieldReader.cstring) (← counted oid)
  | 'B' => whole? do
    return bind (← FieldReader.cstring) (← FieldReader.cstring) (← counted format)
      (← counted sized) (← counted format)
  | 'E' => whole? do return execute (← FieldReader.cstring) (Bytes.toInt32 (← bytes 4))
  | 'D' => whole? do return describe (← target) (← FieldReader.cstring)
  | 'C' => whole? do return close (← target) (← FieldReader.cstring)
  | 'S' => whole? do return sync
  | 'X' => whole? do return terminate
  | 'p' =>
    match due with
    | .opening => fun _ => none
    | .password => whole? do return password (← FieldReader.cstring)
    | .saslInitial => whole? do return saslInitial (← FieldReader.cstring) ((← sized).getD [])
    | .saslResponse => whole? do return saslResponse (← rest)
  | _ => fun _ => none

def readFrame : FieldReader Bytes := do
  let length ← number 4
  if length < 4 then failure else bytes (length - 4)

def read? (due : Due) (data : Bytes) : Option (FrontendMessage × Bytes) :=
  match due, data with
  | .opening, data => do
    let (body, rest) ← readFrame data
    return (← readOpening body, rest)
  | _, [] => none
  | due, tag :: data => do
    let (body, rest) ← readFrame data
    return (← readBody due (Char.ofNat tag.toNat) body, rest)

def readAll? : List Due → Bytes → Option (List FrontendMessage)
  | [], [] => some []
  | [], _ :: _ => none
  | due :: dues, data => do
    let (m, rest) ← read? due data
    return m :: (← readAll? dues rest)

def due : FrontendMessage → Due
  | startup .. => .opening
  | sslRequest => .opening
  | saslInitial .. => .saslInitial
  | saslResponse _ => .saslResponse
  | _ => .password

end FrontendMessage

end PgPipeline
