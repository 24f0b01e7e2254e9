import EcsPlan.Load
import EcsPlan.Report

namespace EcsPlan.CommandLine

structure Options where
  input : String
  output : Option String
  maxId : Option UInt32
  pretty : Bool
  deriving DecidableEq, Repr

inductive Request where
  | help
  | run (options : Options)
  deriving DecidableEq, Repr

inductive Key where
  | input
  | output
  | maxId
  deriving DecidableEq, Repr

def Key.all : List Key := [.input, .output, .maxId]

def Key.long : Key → String
  | .input => "input"
  | .output => "output"
  | .maxId => "max-id"

def Key.short? : Key → Option Char
  | .input => some 'i'
  | .output => some 'o'
  | .maxId => none

inductive Refusal where
  | unexpected (argument : String)
  | repeated (option : String)
  | valueMissing (option : String)
  | badValue (option value : String)
  | inputMissing
  deriving DecidableEq, Repr

def Refusal.message : Refusal → String
  | .unexpected argument => s!"unexpected argument '{argument}' found"
  | .repeated option => s!"the argument '--{option}' cannot be used multiple times"
  | .valueMissing option => s!"a value is required for '--{option}' but none was supplied"
  | .badValue option value => s!"invalid value '{value}' for '--{option}'"
  | .inputMissing => "the argument '--input' was not provided"

structure Draft where
  input : Option String := none
  output : Option String := none
  maxId : Option UInt32 := none
  pretty : Bool := false

def Draft.finish (d : Draft) : Except Refusal Request :=
  match d.input with
  | some input => .ok (.run ⟨input, d.output, d.maxId, d.pretty⟩)
  | none => .error .inputMissing

def unsigned? (digits : List Char) : Option Nat :=
  if digits ≠ [] ∧ digits.all Char.isDigit then
    some (digits.foldl (fun n c => n * 10 + (c.toNat - 48)) 0)
  else none

/-- An ID may carry a sign, so only zero may carry a minus. -/
def readId (value : String) : Option UInt32 :=
  let number : Option Nat :=
    match value.toList with
    | '+' :: digits => unsigned? digits
    | '-' :: digits => (unsigned? digits).filter (· = 0)
    | digits => unsigned? digits
  (number.filter (· < UInt32.size)).map UInt32.ofNat

def fill {α : Type} (key : Key) (value : String) (read : Option α) :
    Option α → Except Refusal (Option α)
  | some _ => .error (.repeated key.long)
  | none => if read.isSome then .ok read else .error (.badValue key.long value)

def readPath (value : String) : Option String := if value = "" then none else some value

def Draft.set (d : Draft) (key : Key) (value : String) : Except Refusal Draft :=
  match key with
  | .input => do return { d with input := ← fill key value (readPath value) d.input }
  | .output => do return { d with output := ← fill key value (readPath value) d.output }
  | .maxId => do return { d with maxId := ← fill key value (readId value) d.maxId }

inductive Argument where
  | help
  | pretty
  | option (key : Key) (attached : Option String)
  | other

def longArgument (cs : List Char) : Argument :=
  let name := String.ofList (cs.takeWhile (· ≠ '='))
  let attached : Option String :=
    match cs.dropWhile (· ≠ '=') with
    | _ :: value => some (String.ofList value)
    | [] => none
  match Key.all.find? (·.long = name), attached with
  | some key, _ => .option key attached
  | none, none => if name = "pretty" then .pretty else if name = "help" then .help else .other
  | none, some _ => .other

/-- A short option may have its value right behind it, with or without an equals
    sign. -/
def shortArgument (c : Char) (cs : List Char) : Argument :=
  match Key.all.find? (·.short? = some c), cs with
  | some key, [] => .option key none
  | some key, '=' :: value => .option key (some (String.ofList value))
  | some key, value => .option key (some (String.ofList value))
  | none, _ => if c = 'h' then .help else .other

def argument (s : String) : Argument :=
  match s.toList with
  | '-' :: '-' :: cs => longArgument cs
  | '-' :: c :: cs => shortArgument c cs
  | _ => .other

def isValue (s : String) : Bool := s = "-" || s.toList.head? ≠ some '-'

def readFrom (d : Draft) : List String → Except Refusal Request
  | [] | ["--"] => d.finish
  | "--" :: surplus :: _ => .error (.unexpected surplus)
  | s :: rest =>
    match argument s with
    | .help => .ok .help
    | .pretty =>
      if d.pretty then .error (.repeated "pretty") else readFrom { d with pretty := true } rest
    | .option key (some value) => do
      let d ← d.set key value
      readFrom d rest
    | .option key none =>
      match rest with
      | [] => .error (.valueMissing key.long)
      | value :: rest =>
        if isValue value then do
          let d ← d.set key value
          readFrom d rest
        else .error (.valueMissing key.long)
    | .other => .error (.unexpected s)

def request (args : List String) : Except Refusal Request := readFrom {} args

def helpText : String :=
  "Allocate ECS IDs and validate system ordering\n\n" ++
  "Options:\n" ++
  "  -i, --input <INPUT>    Path to the JSON declaration manifest\n" ++
  "  -o, --output <OUTPUT>  Where to write the generated JSON (stdout if omitted)\n" ++
  "      --max-id <MAX_ID>  Override the manifest's maximum ID\n" ++
  "      --pretty           Pretty-print the JSON output\n" ++
  "  -h, --help             Print help\n"

def usageCode : UInt32 := 2

def failureCode : UInt32 := 1

/-- What a successful load leads to. Without an output file the report goes to
    standard output as a line. -/
structure Response where
  exitCode : UInt32
  printed : String
  written : Option (String × String)
  deriving DecidableEq, Repr

def Options.report (o : Options) (s : Snapshot) : Report :=
  match o.maxId with
  | some maxId => .ofSnapshot { s with limits.maxId := maxId }
  | none => .ofSnapshot s

def Options.respond (o : Options) (s : Snapshot) : Response :=
  let report := o.report s
  let text := report.text o.pretty
  match o.output with
  | some path => ⟨report.exitCode, "", some (path, text)⟩
  | none => ⟨report.exitCode, text ++ "\n", none⟩

end EcsPlan.CommandLine
