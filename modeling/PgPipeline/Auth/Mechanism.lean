import PgPipeline.Bytes
import PgPipeline.Failure
import PgPipeline.Text.Quoted

namespace PgPipeline

inductive BindingPolicy where
  | disable
  | prefer
  | require
  deriving DecidableEq, Repr

inductive Mechanism where
  | scramPlus
  | scram
  deriving DecidableEq, Repr

namespace Mechanism

def name : Mechanism → String
  | scramPlus => "SCRAM-SHA-256-PLUS"
  | scram => "SCRAM-SHA-256"

def bindsChannel : Mechanism → Bool
  | scramPlus => true
  | scram => false

def all : List Mechanism := [scramPlus, scram]

def rank : Mechanism → Nat
  | scramPlus => 0
  | scram => 1

def ofName? (name : String) : Option Mechanism := all.find? fun m => m.name == name

end Mechanism

inductive BindingMode where
  /-- There is nothing to bind to, or binding is switched off. -/
  | unsupported
  /-- The client could bind, but the server did not offer it. -/
  | notOffered
  | endPoint (data : Bytes)
  deriving DecidableEq, Repr

inductive MechanismError where
  | bindingUnavailable (offered : List String) (encrypted : Bool)
  | noneSupported (offered : List String)
  deriving DecidableEq, Repr

namespace MechanismError

def message : MechanismError → String
  | bindingUnavailable offered encrypted =>
    "channel binding required but not available (server offered "
      ++ Text.quotedList offered ++ ", TLS " ++ (if encrypted then "on" else "off") ++ ")"
  | noneSupported offered =>
    "none of the SASL mechanisms offered by the server are supported: " ++ Text.quotedList offered

def failure (e : MechanismError) : Failure := .authentication e.message

end MechanismError

namespace Mechanism

/-- The mechanisms in the order of preference; an empty list stands for all in the default order. -/
def candidates (preferred : List String) : List Mechanism :=
  if preferred.isEmpty then all else preferred.filterMap ofName?

def mode? (offered : List String) (policy : BindingPolicy) (binding : Option Bytes)
    (m : Mechanism) : Option BindingMode :=
  if m.bindsChannel then
    if policy = .disable then none else binding.map .endPoint
  else if policy = .require then none
  else if binding.isSome ∧ policy ≠ .disable ∧ scramPlus.name ∉ offered then some .notOffered
  else some .unsupported

def select (offered preferred : List String) (policy : BindingPolicy) (binding : Option Bytes) :
    Except MechanismError (Mechanism × BindingMode) :=
  let usable (m : Mechanism) : Option (Mechanism × BindingMode) :=
    if m.name ∈ offered then (mode? offered policy binding m).map fun mode => (m, mode) else none
  match (candidates preferred).findSome? usable with
  | some choice => .ok choice
  | none =>
    if policy = .require then .error (.bindingUnavailable offered binding.isSome)
    else .error (.noneSupported offered)

end Mechanism

end PgPipeline
