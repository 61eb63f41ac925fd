import PgPipeline.Wire.Backend
import PgPipeline.Wire.Field

namespace PgPipeline

def TransactionStatus.byte : TransactionStatus → UInt8
  | .idle => Bytes.ascii 'I'
  | .inTransaction => Bytes.ascii 'T'
  | .failed => Bytes.ascii 'E'

namespace BackendMessage

open Wire

def columnBytes (c : Column) : Bytes :=
  cstring c.name ++ Bytes.int32 c.table ++ Bytes.int16 c.position ++ Bytes.int32 c.type.number
    ++ Bytes.int16 c.size ++ Bytes.int32 c.modifier ++ Bytes.int16 c.format.code

def reportBytes (fields : ReportFields) : Bytes :=
  (fields.flatMap fun f => f.1 :: cstring f.2) ++ [0]

def textsBytes (texts : List String) : Bytes := texts.flatMap cstring ++ [0]

def tag : BackendMessage → Char
  | authenticationOk => 'R'
  | cleartextPassword => 'R'
  | md5Password _ => 'R'
  | sasl _ => 'R'
  | saslContinue _ => 'R'
  | saslFinal _ => 'R'
  | rowDescription _ => 'T'
  | dataRow _ => 'D'
  | commandComplete _ => 'C'
  | emptyQueryResponse => 'I'
  | parseComplete => '1'
  | bindComplete => '2'
  | closeComplete => '3'
  | noData => 'n'
  | portalSuspended => 's'
  | readyForQuery _ => 'Z'
  | parameterStatus .. => 'S'
  | backendKeyData .. => 'K'
  | errorResponse _ => 'E'
  | noticeResponse _ => 'N'
  | notification .. => 'A'
  | parameterDescription _ => 't'

def body : BackendMessage → Bytes
  | authenticationOk => Bytes.int32 0
  | cleartextPassword => Bytes.int32 3
  | md5Password salt => Bytes.int32 5 ++ salt
  | sasl mechanisms => Bytes.int32 10 ++ textsBytes mechanisms
  | saslContinue data => Bytes.int32 11 ++ data
  | saslFinal data => Bytes.int32 12 ++ data
  | rowDescription columns => counted columnBytes columns
  | dataRow values => counted sized values
  | commandComplete tag => cstring tag
  | readyForQuery status => [status.byte]
  | parameterStatus name value => cstring name ++ cstring value
  | backendKeyData process secret => Bytes.int32 process ++ Bytes.int32 secret
  | errorResponse fields => reportBytes fields
  | noticeResponse fields => reportBytes fields
  | notification process channel payload =>
    Bytes.int32 process ++ cstring channel ++ cstring payload
  | parameterDescription types => counted (fun oid : Oid => Bytes.int32 oid.number) types
  | emptyQueryResponse => []
  | parseComplete => []
  | bindComplete => []
  | closeComplete => []
  | noData => []
  | portalSuspended => []

def encode (m : BackendMessage) : Bytes := frame m.tag m.body

def IsPlain (text : String) : Prop := '\x00' ∉ text.toList

/-- Fields that can be read back as they are: the keys differ and are not zero. -/
def AreFields (fields : ReportFields) : Prop :=
  (fields.map (·.1)).Nodup ∧ ∀ f ∈ fields, f.1 ≠ 0 ∧ IsPlain f.2

def maxCount : Nat := 32767

def IsWritable : BackendMessage → Prop
  | md5Password salt => salt.length = 4
  | sasl mechanisms => ∀ name ∈ mechanisms, name ≠ "" ∧ IsPlain name
  | rowDescription columns => columns.length ≤ maxCount ∧ ∀ c ∈ columns, IsPlain c.name
  | dataRow values =>
    values.length ≤ maxCount ∧ ∀ v ∈ values, ∀ data, v = some data → data.length < 2 ^ 31
  | commandComplete tag => IsPlain tag
  | parameterStatus name value => IsPlain name ∧ IsPlain value
  | errorResponse fields => AreFields fields
  | noticeResponse fields => AreFields fields
  | notification _ channel payload => IsPlain channel ∧ IsPlain payload
  | parameterDescription types => types.length ≤ maxCount
  | _ => True

end BackendMessage

end PgPipeline
