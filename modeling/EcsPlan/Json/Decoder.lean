import EcsPlan.Json.Misfit

namespace EcsPlan.Json

def Literal.text : Literal → Except Fault String
  | .whole (some s) => .ok s
  | .whole none => .error (.broken .malformed)
  | .broken wanted _ => .error (.broken wanted)

def Literal.firstBreak? : Literal → Option Break
  | .whole _ => none
  | .broken _ passed => some passed

mutual

def Outline.firstBreak? : Outline → Option Break
  | .absent why | .brokenWord why => some why
  | .brokenNumeral _ => some .malformed
  | .word _ | .numeral _ => none
  | .text l => l.firstBreak?
  | .list items => items.firstBreak?
  | .object members => members.firstBreak?

def Items.firstBreak? : Items → Option Break
  | .closed => none
  | .broken why => some why
  | .item value rest => value.firstBreak?.or rest.firstBreak?

def Members.firstBreak? : Members → Option Break
  | .closed => none
  | .broken why => some why
  | .member key value rest => (key.firstBreak?.or value.firstBreak?).or rest.firstBreak?

end

abbrev Decoder (α : Type) := Outline → Except Fault α

def Outline.passOver (o : Outline) : Except Fault Unit :=
  match o.firstBreak? with
  | none => .ok ()
  | some why => .error (.broken why)

def wrongType {α : Type} (found : Found) (expected : String) : Except Fault α :=
  .error (.misfit (.wrongType found expected))

def Number.found : Number → Found
  | .integer n => .integer n
  | .real x => .real x

/-- The answer to one who wanted something that no such outline is. -/
def misplaced {α : Type} (expected : String) : Decoder α
  | .absent why | .brokenWord why | .brokenNumeral why => .error (.broken why)
  | .word .null => wrongType .null expected
  | .word (.bool b) => wrongType (.boolean b) expected
  | .numeral n =>
    match n.value? with
    | some number => wrongType number.found expected
    | none => .error (.broken .malformed)
  | .text l => do
    let s ← l.text
    wrongType (.string s) expected
  | .list _ => wrongType .sequence expected
  | .object _ => wrongType .map expected

namespace Decoder
variable {α : Type}

def bool : Decoder Bool
  | .word (.bool b) => .ok b
  | o => misplaced "a boolean" o

def string : Decoder String
  | .text l => l.text
  | o => misplaced "a string" o

def word32 : Decoder UInt32
  | .numeral n =>
    match n.value? with
    | some (.integer i) =>
      if 0 ≤ i ∧ i < UInt32.size then .ok (.ofNat i.toNat)
      else .error (.misfit (.outOfRange i "u32"))
    | _ => misplaced "u32" (.numeral n)
  | o => misplaced "u32" o

def unit : Decoder Unit
  | .word .null => .ok ()
  | o => misplaced "unit" o

def optional (inner : Decoder α) : Decoder (Option α)
  | .word .null => .ok none
  | o => (inner o).map some

def items (inner : Decoder α) : Items → Except Fault (List α)
  | .closed => .ok []
  | .broken why => .error (.broken why)
  | .item value rest => do
    let a ← inner value
    let more ← items inner rest
    return a :: more

def list (inner : Decoder α) : Decoder (List α)
  | .list elements => items inner elements
  | o => misplaced "a sequence" o

def variant (known : List α) (text : α → String) (name : String) : Except Fault α :=
  match known.find? (text · = name) with
  | some a => .ok a
  | none => .error (.misfit (.unknownVariant name (known.map text)))

/-- A closed choice: the name of a variant, or an object whose only member has
    that name and no value. -/
def choice (known : List α) (text : α → String) : Decoder α
  | .text l => do
    let name ← l.text
    variant known text name
  | .absent why | .object (.broken why) => .error (.broken why)
  | .object (.member key value rest) => do
    let name ← key.text
    let a ← variant known text name
    unit value
    match rest with
    | .closed => .ok a
    | .broken why => .error (.broken why)
    | .member .. => .error (.broken .malformed)
  | .object .closed | .word _ | .brokenWord _ | .numeral _ | .brokenNumeral _ | .list _ =>
    .error (.broken .malformed)

def run (d : Decoder α) (cs : List Char) : Except Fault α := do
  let (o, rest) := outline cs
  let a ← d o
  if (dropBlanks rest).isEmpty then .ok a else .error (.broken .malformed)

end Decoder
end EcsPlan.Json
