import PgPipeline.Bytes
import PgPipeline.Failure
import PgPipeline.Oid
import PgPipeline.Text.Utf8

namespace PgPipeline

inductive TransactionStatus where
  | idle
  | inTransaction
  | failed
  deriving DecidableEq, Repr

def TransactionStatus.ofByte (b : UInt8) : TransactionStatus :=
  if b = Bytes.ascii 'T' then .inTransaction
  else if b = Bytes.ascii 'E' then .failed
  else .idle

structure Column where
  name : String
  table : Int32
  position : Int16
  type : Oid
  size : Int16
  modifier : Int32
  format : Format
  deriving DecidableEq, Repr

inductive BackendMessage where
  | authenticationOk
  | cleartextPassword
  | md5Password (salt : Bytes)
  | sasl (mechanisms : List String)
  | saslContinue (data : Bytes)
  | saslFinal (data : Bytes)
  | rowDescription (columns : List Column)
  | dataRow (values : List (Option Bytes))
  | commandComplete (tag : String)
  | emptyQueryResponse
  | parseComplete
  | bindComplete
  | closeComplete
  | noData
  | portalSuspended
  | readyForQuery (status : TransactionStatus)
  | parameterStatus (name value : String)
  | backendKeyData (process secret : Int32)
  | errorResponse (fields : ReportFields)
  | noticeResponse (fields : ReportFields)
  | notification (process : Int32) (channel payload : String)
  | parameterDescription (types : List Oid)
  deriving DecidableEq, Repr

inductive WireError where
  | incompleteHeader
  | invalidLength (length : Int32)
  | incompleteBody
  | invalidFrameLength (length : Int32) (tag : UInt8)
  | unknownTag (tag : UInt8)
  | truncatedBody
  | missingTerminator
  | negativeCount (count : Int16)
  | unsupportedAuthentication (code : Int32)
  deriving DecidableEq, Repr

namespace WireError

def tagChar (tag : UInt8) : Char := Char.ofNat tag.toNat

def message : WireError → String
  | incompleteHeader => "Incomplete message header"
  | invalidLength length => s!"Invalid message length: {length.toInt}"
  | incompleteBody => "Incomplete message body"
  | invalidFrameLength length tag =>
    s!"Invalid frame length {length.toInt} for message '" ++ (tagChar tag).toString ++ "'"
  | unknownTag tag => "Unknown message type: " ++ (tagChar tag).toString
  | truncatedBody => "Truncated message body"
  | missingTerminator => "Missing null terminator in string"
  | negativeCount count => s!"Negative count: {count.toInt}"
  | unsupportedAuthentication code => s!"Unsupported authentication method: {code.toInt}"

/-- The failure that a caller sees: an unknown way to authenticate is the server's choice, the rest
breaks the protocol. -/
def failure (e : WireError) : Failure :=
  match e with
  | unsupportedAuthentication _ => .authentication e.message
  | _ => .protocol e.message

end WireError

abbrev BodyReader (α : Type) := StateT Bytes (Except WireError) α

namespace BodyReader

def bytes (n : Nat) : BodyReader Bytes := fun data =>
  if data.length < n then .error .truncatedBody else .ok (data.take n, data.drop n)

def byte : BodyReader UInt8 := fun data =>
  match data with
  | [] => .error .truncatedBody
  | b :: rest => .ok (b, rest)

def int16 : BodyReader Int16 := do return Bytes.toInt16 (← bytes 2)

def int32 : BodyReader Int32 := do return Bytes.toInt32 (← bytes 4)

def count : BodyReader Nat := do
  let n ← int16
  if n < 0 then throw (.negativeCount n) else return n.toInt.toNat

def cstring : BodyReader String := fun data =>
  if data.contains 0 then
    .ok (Utf8.lossy (data.takeWhile (· != 0)), (data.dropWhile (· != 0)).drop 1)
  else .error .missingTerminator

def items {α : Type} (item : BodyReader α) : Nat → BodyReader (List α)
  | 0 => return []
  | n + 1 => do
    let first ← item
    let rest ← items item n
    return first :: rest

def counted {α : Type} (item : BodyReader α) : BodyReader (List α) := do
  items item (← count)

def sized : BodyReader (Option Bytes) := do
  let length ← int32
  if length < 0 then return none else return some (← bytes length.toInt.toNat)

def column : BodyReader Column := do
  let name ← cstring
  let table ← int32
  let position ← int16
  let type ← int32
  let size ← int16
  let modifier ← int32
  let format ← int16
  return ⟨name, table, position, ⟨type⟩, size, modifier, .ofCode format⟩

/-- The texts of a list that an empty text or the end of the input closes. -/
def textsUntilEmpty (data : Bytes) : Except WireError (List String) :=
  if hdata : data = [] then .ok []
  else
    match h : cstring data with
    | .error e => .error e
    | .ok (text, rest) =>
      if text.isEmpty then .ok []
      else
        have : rest.length < data.length := by
          unfold cstring at h
          split at h
          · injection h with h
            injection h with _ hrest
            rw [← hrest, List.length_drop]
            have hd := (List.dropWhile_sublist (l := data) (· != 0)).length_le
            have : 0 < data.length := List.length_pos_iff.2 hdata
            omega
          · cases h
        (textsUntilEmpty rest).map (text :: ·)
  termination_by data.length

/-- The fields of a report, which a zero key or the end of the input closes. -/
def reportFields (fields : ReportFields) (data : Bytes) : Except WireError ReportFields :=
  match data with
  | [] => .ok fields
  | key :: tail =>
    if key = 0 then .ok fields
    else
      match h : cstring tail with
      | .error e => .error e
      | .ok (text, rest) =>
        have : rest.length < tail.length + 1 := by
          unfold cstring at h
          split at h
          · injection h with h
            injection h with _ hrest
            rw [← hrest, List.length_drop]
            have hd := (List.dropWhile_sublist (l := tail) (· != 0)).length_le
            omega
          · cases h
        reportFields (fields.insert key text) rest
  termination_by data.length

end BodyReader

namespace BackendMessage

open BodyReader

def decodeAuthentication (data : Bytes) : Except WireError BackendMessage :=
  match int32 data with
  | .error e => .error e
  | .ok (code, rest) =>
    if code = 0 then .ok authenticationOk
    else if code = 3 then .ok cleartextPassword
    else if code = 5 then (bytes 4 rest).map fun p => md5Password p.1
    else if code = 10 then (textsUntilEmpty rest).map sasl
    else if code = 11 then .ok (saslContinue rest)
    else if code = 12 then .ok (saslFinal rest)
    else .error (.unsupportedAuthentication code)

def whole (reader : BodyReader BackendMessage) (data : Bytes) : Except WireError BackendMessage :=
  (reader data).map (·.1)

def decodeBody (tag : UInt8) (data : Bytes) : Except WireError BackendMessage :=
  match WireError.tagChar tag with
  | 'R' => decodeAuthentication data
  | 'T' => whole (do return rowDescription (← counted column)) data
  | 'D' => whole (do return dataRow (← counted sized)) data
  | 'C' => whole (do return commandComplete (← cstring)) data
  | 'Z' => whole (do return readyForQuery (.ofByte (← byte))) data
  | 'E' => (reportFields [] data).map errorResponse
  | 'N' => (reportFields [] data).map noticeResponse
  | 'S' => whole (do return parameterStatus (← cstring) (← cstring)) data
  | 'K' => whole (do return backendKeyData (← int32) (← int32)) data
  | '1' => .ok parseComplete
  | '2' => .ok bindComplete
  | '3' => .ok closeComplete
  | 'I' => .ok emptyQueryResponse
  | 'n' => .ok noData
  | 's' => .ok portalSuspended
  | 't' => whole (do return parameterDescription (← counted (do return Oid.mk (← int32)))) data
  | 'A' => whole (do return notification (← int32) (← cstring) (← cstring)) data
  | _ => .error (.unknownTag tag)

def name : BackendMessage → String
  | authenticationOk => "AuthenticationOk"
  | cleartextPassword => "AuthenticationCleartextPassword"
  | md5Password _ => "AuthenticationMD5Password"
  | sasl _ => "AuthenticationSASL"
  | saslContinue _ => "AuthenticationSASLContinue"
  | saslFinal _ => "AuthenticationSASLFinal"
  | rowDescription _ => "RowDescription"
  | dataRow _ => "DataRow"
  | commandComplete _ => "CommandComplete"
  | emptyQueryResponse => "EmptyQueryResponse"
  | parseComplete => "ParseComplete"
  | bindComplete => "BindComplete"
  | closeComplete => "CloseComplete"
  | noData => "NoData"
  | portalSuspended => "PortalSuspended"
  | readyForQuery _ => "ReadyForQuery"
  | parameterStatus .. => "ParameterStatus"
  | backendKeyData .. => "BackendKeyData"
  | errorResponse _ => "ErrorResponse"
  | noticeResponse _ => "NoticeResponse"
  | notification .. => "NotificationResponse"
  | parameterDescription _ => "ParameterDescription"

end BackendMessage

end PgPipeline
