import EcsPlan.Json.Quoted

namespace EcsPlan.Json

structure Numeral where
  negative : Bool
  whole : List Nat
  fraction : Option (List Nat)
  exponent : Option (Bool × List Nat)
  deriving DecidableEq, Repr

def digitValue (c : Char) : Nat := c.toNat - 48

def readDigits (cs : List Char) : Except Break (List Nat × List Char) :=
  match cs.takeWhile Char.isDigit with
  | [] => .error (if cs.isEmpty then .truncated else .malformed)
  | digits => .ok (digits.map digitValue, cs.dropWhile Char.isDigit)

def readWhole (cs : List Char) : Except Break (List Nat × List Char) := do
  let (digits, rest) ← readDigits cs
  match digits with
  | 0 :: _ :: _ => .error .malformed
  | _ => .ok (digits, rest)

def readFraction : List Char → Except Break (Option (List Nat) × List Char)
  | '.' :: cs => do
    let (digits, rest) ← readDigits cs
    return (some digits, rest)
  | cs => .ok (none, cs)

def readSign : List Char → Bool × List Char
  | '-' :: cs => (true, cs)
  | '+' :: cs => (false, cs)
  | cs => (false, cs)

def readExponent : List Char → Except Break (Option (Bool × List Nat) × List Char)
  | c :: cs =>
    if c = 'e' ∨ c = 'E' then do
      let (negative, cs) := readSign cs
      let (digits, rest) ← readDigits cs
      return (some (negative, digits), rest)
    else .ok (none, c :: cs)
  | [] => .ok (none, [])

def readUnsigned (negative : Bool) (cs : List Char) : Except Break (Numeral × List Char) := do
  let (whole, cs) ← readWhole cs
  let (fraction, cs) ← readFraction cs
  let (exponent, cs) ← readExponent cs
  return (⟨negative, whole, fraction, exponent⟩, cs)

def readNumeral : List Char → Except Break (Numeral × List Char)
  | '-' :: cs => readUnsigned true cs
  | cs => readUnsigned false cs

inductive Number where
  | integer (value : Int)
  | real (value : Float)

def greatestSignificand : Nat := 0xFFFFFFFFFFFFFFFF

def greatestNegated : Nat := 0x8000000000000000

def fits (significand digit : Nat) : Bool := significand * 10 + digit ≤ greatestSignificand

/-- Takes digits while they fit. Gives the significand and how many digits
    before the point were left over. -/
def takeWhole (significand : Nat) : List Nat → Nat × Nat
  | [] => (significand, 0)
  | d :: rest =>
    if fits significand d then takeWhole (significand * 10 + d) rest
    else (significand, rest.length + 1)

def takeFraction (significand : Nat) : List Nat → Nat × Nat
  | [] => (significand, 0)
  | d :: rest =>
    if fits significand d then
      let (s, taken) := takeFraction (significand * 10 + d) rest
      (s, taken + 1)
    else (significand, 0)

def natOfDigits (digits : List Nat) : Nat := digits.foldl (fun n d => n * 10 + d) 0

def Numeral.signedExponent (n : Numeral) : Int :=
  match n.exponent with
  | none => 0
  | some (true, digits) => -(natOfDigits digits : Int)
  | some (false, digits) => natOfDigits digits

def greatestPower : Nat := 308

def powerOfTen (e : Nat) : Float := Float.ofScientific 1 false e

def divideByPower (x : Float) (e : Nat) : Float :=
  if _far : greatestPower < e then
    if x == 0.0 then x else divideByPower (x / powerOfTen greatestPower) (e - greatestPower)
  else x / powerOfTen e
termination_by e
decreasing_by simp only [greatestPower] at *; omega

/-- A significand times a power of ten, each rounded once; nothing if the result
    is not finite. -/
def scaled? (significand : Nat) (exponent : Int) : Option Float :=
  let x := (UInt64.ofNat significand).toFloat
  if exponent < 0 then some (divideByPower x exponent.natAbs)
  else if greatestPower < exponent.natAbs then
    if significand = 0 then some x else none
  else
    let y := x * powerOfTen exponent.natAbs
    if y.isInf then none else some y

def signed (negative : Bool) (x : Float) : Float := if negative then -x else x

def integerNumber (negative : Bool) (n : Nat) : Number :=
  if !negative then .integer n
  else if 0 < n ∧ n ≤ greatestNegated then .integer (-n)
  else .real (-(UInt64.ofNat n).toFloat)

def Numeral.value? (n : Numeral) : Option Number :=
  let (whole, dropped) := takeWhole 0 n.whole
  if dropped = 0 ∧ n.fraction = none ∧ n.exponent = none then
    some (integerNumber n.negative whole)
  else
    let (significand, taken) := takeFraction whole (n.fraction.getD [])
    (scaled? significand (dropped - taken + n.signedExponent)).map
      (.real <| signed n.negative ·)

end EcsPlan.Json
