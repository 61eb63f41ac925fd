import PgPipeline.Oid
import PgPipeline.Wire.Field

namespace PgPipeline

inductive Target where
  | statement
  | portal
  deriving DecidableEq, Repr

def Target.code : Target → UInt8
  | .statement => Bytes.ascii 'S'
  | .portal => Bytes.ascii 'P'

inductive FrontendMessage where
  | startup (user : String) (database : Option String) (options : List (String × String))
  | sslRequest
  | password (secret : String)
  | parse (name query : String) (types : List Oid)
  | bind (portal statement : String) (formats : List Format) (values : List (Option Bytes))
      (results : List Format)
  | execute (portal : String) (maxRows : Int32)
  | describe (target : Target) (name : String)
  | close (target : Target) (name : String)
  | sync
  | terminate
  | saslInitial (mechanism : String) (data : Bytes)
  | saslResponse (data : Bytes)
  deriving DecidableEq, Repr

namespace FrontendMessage

open Wire

def protocolVersion : Nat := 196608

def sslRequestCode : Nat := 80877103

def formatCode (f : Format) : Bytes := Bytes.int16 f.code

def tag? : FrontendMessage → Option Char
  | startup .. => none
  | sslRequest => none
  | password _ => some 'p'
  | parse .. => some 'P'
  | bind .. => some 'B'
  | execute .. => some 'E'
  | describe .. => some 'D'
  | close .. => some 'C'
  | sync => some 'S'
  | terminate => some 'X'
  | saslInitial .. => some 'p'
  | saslResponse _ => some 'p'

def body : FrontendMessage → Bytes
  | startup user database options =>
    Bytes.bigEndian 4 protocolVersion ++ cstring "user" ++ cstring user
      ++ (match database with
          | some name => cstring "database" ++ cstring name
          | none => [])
      ++ (options.flatMap fun option => cstring option.1 ++ cstring option.2) ++ [0]
  | sslRequest => Bytes.bigEndian 4 sslRequestCode
  | password secret => cstring secret
  | parse name query types =>
    cstring name ++ cstring query ++ counted (fun oid : Oid => Bytes.int32 oid.number) types
  | bind portal statement formats values results =>
    cstring portal ++ cstring statement ++ counted formatCode formats ++ counted sized values
      ++ counted formatCode results
  | execute portal maxRows => cstring portal ++ Bytes.int32 maxRows
  | describe target name => target.code :: cstring name
  | close target name => target.code :: cstring name
  | sync => []
  | terminate => []
  | saslInitial mechanism data => cstring mechanism ++ sized (some data)
  | saslResponse data => data

def encode (m : FrontendMessage) : Bytes :=
  match m.tag? with
  | some tag => frame tag m.body
  | none => withLength m.body

def encodeAll (ms : List FrontendMessage) : Bytes := ms.flatMap encode

def patchLength (start : Nat) (buffer : Bytes) : Bytes :=
  buffer.take start ++ Bytes.bigEndian 4 (buffer.length - start) ++ buffer.drop (start + 4)

/-- Appends a message to a buffer that may hold others; its length is known when its body is
there. -/
def appendTo (buffer : Bytes) (m : FrontendMessage) : Bytes :=
  match m with
  | sslRequest => buffer ++ Bytes.bigEndian 4 8 ++ Bytes.bigEndian 4 sslRequestCode
  | m =>
    let tagged := buffer ++ (m.tag?.map Bytes.ascii).toList
    patchLength tagged.length (tagged ++ Bytes.bigEndian 4 0 ++ m.body)

end FrontendMessage

end PgPipeline
