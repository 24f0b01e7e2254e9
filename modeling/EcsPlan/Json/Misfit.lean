import EcsPlan.Decimal
import EcsPlan.Json.Outline
import EcsPlan.Text.CharClass

namespace EcsPlan.Text

def hexDigits (n : Nat) : List Char := Nat.toDigits 16 n

def visible (c : Char) : List Char :=
  match c with
  | '\x00' => ['\\', '0']
  | '\t' => ['\\', 't']
  | '\r' => ['\\', 'r']
  | '\n' => ['\\', 'n']
  | '"' => ['\\', '"']
  | '\\' => ['\\', '\\']
  | c =>
    if isPrintable c && !isExtender c then [c]
    else ['\\', 'u', '{'] ++ hexDigits c.toNat ++ ['}']

def literal (s : String) : String :=
  String.ofList ('"' :: (s.toList.flatMap visible ++ ['"']))

end EcsPlan.Text

namespace EcsPlan.Json

inductive Found where
  | null
  | boolean (value : Bool)
  | integer (value : Int)
  | real (value : Float)
  | string (value : String)
  | sequence
  | map

/-- A number between 10⁻⁵ and 10¹⁶ is written without an exponent. -/
def foundStyle : Decimal.DecimalStyle := ⟨-5, 15, true⟩

def floatText (x : Float) : String :=
  String.ofList (Decimal.ofBits foundStyle x.toBits.toNat)

def Found.text : Found → String
  | .null => "null"
  | .boolean b => s!"boolean `{b}`"
  | .integer n => s!"integer `{n}`"
  | .real x => s!"floating point `{floatText x}`"
  | .string s => s!"string {Text.literal s}"
  | .sequence => "sequence"
  | .map => "map"

inductive Misfit where
  | wrongType (found : Found) (expected : String)
  | outOfRange (value : Int) (expected : String)
  | duplicateField (name : String)
  | missingField (name : String)
  | wrongLength (count : Nat) (record : String) (size : Nat)
  | unknownVariant (name : String) (known : List String)

def inBackticks (s : String) : String := s!"`{s}`"

def choice : List String → String
  | [a, b] => s!"{inBackticks a} or {inBackticks b}"
  | known => "one of " ++ ", ".intercalate (known.map inBackticks)

def Misfit.message : Misfit → String
  | .wrongType found expected => s!"invalid type: {found.text}, expected {expected}"
  | .outOfRange n expected => s!"invalid value: integer `{n}`, expected {expected}"
  | .duplicateField name => s!"duplicate field `{name}`"
  | .missingField name => s!"missing field `{name}`"
  | .wrongLength count record size =>
    s!"invalid length {count}, expected struct {record} with {size} elements"
  | .unknownVariant name known => s!"unknown variant `{name}`, expected {choice known}"

inductive Fault where
  | broken (why : Break)
  | misfit (m : Misfit)

end EcsPlan.Json
