import EcsPlan.Snapshot

/-!
What a pass reports. A `Finding` is a cause; its code, its place and its wording
follow from it, and nothing else words a diagnostic.
-/
namespace EcsPlan

inductive Severity where
  | warning
  | error
  deriving DecidableEq, Repr

def Severity.all : List Severity := [.warning, .error]

def Severity.text : Severity → String
  | .warning => "warning"
  | .error => "error"

/-- A published code keeps its meaning. -/
inductive Code where
  | structuralDefect
  | notUnmanaged
  | tagHasFields
  | nestedInGeneric
  | malformedGuid
  | manualIdAboveLimit
  | duplicateName
  | duplicateId
  | capacityExceeded
  | unknownReference
  | duplicateUsage
  | unknownSystem
  | dependencyCycle
  | scheduleUnavailable
  deriving DecidableEq, Repr

def Code.all : List Code :=
  [.structuralDefect, .notUnmanaged, .tagHasFields, .nestedInGeneric, .malformedGuid,
    .manualIdAboveLimit, .duplicateName, .duplicateId, .capacityExceeded, .unknownReference,
    .duplicateUsage, .unknownSystem, .dependencyCycle, .scheduleUnavailable]

def Code.text : Code → String
  | .structuralDefect => "ECS0001"
  | .notUnmanaged => "ECS0002"
  | .tagHasFields => "ECS0003"
  | .nestedInGeneric => "ECS0004"
  | .malformedGuid => "ECS0005"
  | .manualIdAboveLimit => "ECS0006"
  | .duplicateName => "ECS0007"
  | .duplicateId => "ECS0008"
  | .capacityExceeded => "ECS0009"
  | .unknownReference => "ECS0010"
  | .duplicateUsage => "ECS0011"
  | .unknownSystem => "ECS0012"
  | .dependencyCycle => "ECS0013"
  | .scheduleUnavailable => "ECS0014"

/-- What drops something from the output is an error. -/
def Code.severity : Code → Severity
  | .duplicateUsage | .unknownSystem => .warning
  | _ => .error

structure Diagnostic where
  code : Code
  severity : Severity
  message : String
  place : Option Place
  deriving DecidableEq, Repr

def Diagnostic.isError (d : Diagnostic) : Bool := d.severity = .error

def Diagnostic.text (d : Diagnostic) : String :=
  let main := s!"{d.severity.text}[{d.code.text}]: {d.message}"
  match d.place with
  | none => main
  | some p => s!"{main} ({p.text})"

inductive Defect where
  | structural
  | notUnmanaged
  | hasFields
  | nestedInGeneric
  | malformedGuid (guid : String)
  | idAboveLimit (id limit : UInt32)
  deriving DecidableEq, Repr

def Defect.code : Defect → Code
  | .structural => .structuralDefect
  | .notUnmanaged => .notUnmanaged
  | .hasFields => .tagHasFields
  | .nestedInGeneric => .nestedInGeneric
  | .malformedGuid _ => .malformedGuid
  | .idAboveLimit .. => .manualIdAboveLimit

def Defect.message (kind : Kind) (name : String) : Defect → String
  | .structural => s!"{kind.text} '{name}' is not a valid {kind.text} declaration"
  | .notUnmanaged => s!"{kind.text} '{name}' must be an unmanaged type"
  | .hasFields => s!"{kind.text} '{name}' must not declare instance fields"
  | .nestedInGeneric => s!"{kind.text} '{name}' must not be nested inside a generic type"
  | .malformedGuid guid => s!"{kind.text} '{name}' has malformed GUID '{guid}'"
  | .idAboveLimit id limit =>
    s!"{kind.text} '{name}' requests ID {id}, above the maximum of {limit}"

inductive Direction where
  | after
  | before
  deriving DecidableEq, Repr

def Direction.text : Direction → String
  | .after => "after"
  | .before => "before"

inductive Finding where
  | defect (kind : Kind) (name : String) (place : Option Place) (cause : Defect)
  | sharedName (kind : Kind) (name : String) (count : Nat) (place : Option Place)
  | contestedId (kind : Kind) (id : UInt32) (names : List String) (place : Option Place)
  | capacity (kind : Kind) (highest limit : UInt32)
  | contradiction (query : String) (names : List String) (place : Option Place)
  | unresolved (query : String) (names : List String) (place : Option Place)
  | unknownSystem (name : String) (direction : Direction) (target : String)
      (place : Option Place)
  | cycle (names : List String)
  | unscheduled
  deriving DecidableEq, Repr

namespace Finding

def code : Finding → Code
  | .defect _ _ _ cause => cause.code
  | .sharedName .. => .duplicateName
  | .contestedId .. => .duplicateId
  | .capacity .. => .capacityExceeded
  | .contradiction .. => .duplicateUsage
  | .unresolved .. => .unknownReference
  | .unknownSystem .. => .unknownSystem
  | .cycle _ => .dependencyCycle
  | .unscheduled => .scheduleUnavailable

def listed (names : List String) : String := ", ".intercalate names

def message : Finding → String
  | .defect kind name _ cause => cause.message kind name
  | .sharedName kind name count _ =>
    s!"{kind.text} '{name}' is declared {count} times; all declarations are ignored"
  | .contestedId kind id names _ =>
    s!"manual {kind.text} ID {id} is requested by {listed names}; none of them receive an ID"
  | .capacity kind highest limit =>
    s!"{kind.text} IDs exceed the maximum: highest assigned ID is {highest}, " ++
      s!"maximum is {limit}; no {kind.text} IDs are generated"
  | .contradiction query names _ =>
    s!"query '{query}' both requires and excludes {listed names}; it will never match"
  | .unresolved query names _ =>
    let verb := if names.length = 1 then "is" else "are"
    s!"query '{query}' references {listed names}, which {verb} not a valid component or tag"
  | .unknownSystem name direction target _ =>
    s!"system '{name}' declares {direction.text} '{target}', which is not a known system; " ++
      "the relation is ignored"
  | .cycle names =>
    s!"system ordering contains a cycle involving {listed names}; no schedule is generated"
  | .unscheduled => "system IDs could not be allocated; no schedule is generated"

/-- Where it can be pinned to: a finding about a whole kind or about the whole
    order has no place. -/
def place : Finding → Option Place
  | .defect _ _ place _ => place
  | .sharedName _ _ _ place => place
  | .contestedId _ _ _ place => place
  | .contradiction _ _ place => place
  | .unresolved _ _ place => place
  | .unknownSystem _ _ _ place => place
  | .capacity .. | .cycle _ | .unscheduled => none

def diagnostic (f : Finding) : Diagnostic := ⟨f.code, f.code.severity, f.message, f.place⟩

end Finding
end EcsPlan
