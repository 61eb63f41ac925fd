import PgPipeline.Failure
import PgPipeline.Text.Cut

namespace PgPipeline.ServerName

def isLabelChar (c : Char) : Bool := c.isAlphanum || c = '_'

def isLabel (cs : List Char) : Bool :=
  1 ≤ cs.length && cs.length ≤ 63 && cs.all (fun c => isLabelChar c || c = '-')
    && cs.head? != some '-' && cs.getLast? != some '-'

/-- A name of at most 253 characters whose last label is not a number; one dot may close it. -/
def isDomainName (cs : List Char) : Bool :=
  let parts := Text.splitAll '.' cs
  let named := if 1 < parts.length ∧ parts.getLast? = some [] then parts.dropLast else parts
  cs.length ≤ 253 && named.all isLabel
    && match named.getLast? with
      | some last => !last.all Char.isDigit
      | none => false

def isOctet (cs : List Char) : Bool :=
  1 ≤ cs.length && cs.length ≤ 3 && cs.all Char.isDigit && (cs.length = 1 || cs.head? != some '0')
    && cs.foldl (fun n c => n * 10 + (c.toNat - 48)) 0 ≤ 255

def isShortAddress (cs : List Char) : Bool :=
  let parts := Text.splitAll '.' cs
  parts.length = 4 && parts.all isOctet

def isGroup (cs : List Char) : Bool :=
  1 ≤ cs.length && cs.length ≤ 4
    && cs.all fun c => c.isDigit || ('a' ≤ c && c ≤ 'f') || ('A' ≤ c && c ≤ 'F')

/-- The number of 16-bit groups that the parts stand for; the last part may be a short address,
which stands for two. -/
def groupCount? (shortAllowed : Bool) : List (List Char) → Option Nat
  | [] => some 0
  | [part] =>
    if isGroup part then some 1
    else if shortAllowed ∧ isShortAddress part then some 2
    else none
  | part :: rest => if isGroup part then (groupCount? shortAllowed rest).map (· + 1) else none

def splitGap : List (List Char) → List (List Char) × Option (List (List Char))
  | [] => ([], none)
  | part :: rest =>
    if part.isEmpty then ([], some rest)
    else
      let (front, behind) := splitGap rest
      (part :: front, behind)

/-- Eight groups with colons between them, or fewer with one gap of two colons. -/
def isLongAddress (cs : List Char) : Bool :=
  match cs with
  | ':' :: ':' :: [] => true
  | ':' :: ':' :: rest =>
    match groupCount? true (Text.splitAll ':' rest) with
    | some n => n ≤ 7
    | none => false
  | _ =>
    match splitGap (Text.splitAll ':' cs) with
    | (front, none) => groupCount? true front = some 8
    | (front, some [[]]) =>
      match groupCount? false front with
      | some n => 1 ≤ n && n ≤ 7
      | none => false
    | (front, some behind) =>
      match groupCount? false front, groupCount? true behind with
      | some m, some n => 1 ≤ m && 1 ≤ n && m + n ≤ 7
      | _, _ => false

def isValid (host : String) : Bool :=
  isDomainName host.toList || isShortAddress host.toList || isLongAddress host.toList

def check (host : String) : Except Failure Unit :=
  if isValid host then .ok () else .error (.tls s!"invalid hostname for TLS: {host}")

end PgPipeline.ServerName
