namespace EcsPlan.Decimal

structure Digits where
  significand : Nat
  exponent : Int
  deriving DecidableEq, Repr

structure Binary where
  mantissa : Nat
  exponent : Int
  deriving DecidableEq, Repr

def leastExponent : Int := -1074

def hiddenBit : Nat := 0x10000000000000

def signBit : Nat := 0x8000000000000000

def Binary.ofBits (bits : Nat) : Binary :=
  let fraction := bits % hiddenBit
  let field := bits / hiddenBit % 2048
  if field = 0 then ⟨fraction, leastExponent⟩
  else ⟨hiddenBit + fraction, leastExponent + (field - 1)⟩

/-- Half the distance to the neighbour below, in quarters of the last place. -/
def Binary.lowerGap (b : Binary) : Nat :=
  if b.mantissa = hiddenBit ∧ leastExponent < b.exponent then 1 else 2

def power (base : Nat) (e : Int) : Nat := if 0 ≤ e then Nat.pow base e.toNat else 1

/-- The multiple of ten to the `exponent` that lies nearest to `b` among those
    that read back as `b`. Of two equally near ones the even one is taken. -/
def onGrid (b : Binary) (exponent : Int) : Option Nat :=
  let scale := power 2 (b.exponent - 2) * power 10 (-exponent)
  let cell := power 10 exponent * power 2 (2 - b.exponent)
  let value := 4 * b.mantissa * scale
  let low := (4 * b.mantissa - b.lowerGap) * scale
  let high := (4 * b.mantissa + 2) * scale
  let inside := fun c : Nat =>
    if b.mantissa % 2 = 0 then low ≤ c * cell && c * cell ≤ high
    else low < c * cell && c * cell < high
  let below := value / cell
  let above := below + 1
  let preferred :=
    match compare (2 * (value % cell)) cell with
    | .lt => [below, above]
    | .gt => [above, below]
    | .eq => if below % 2 = 0 then [below, above] else [above, below]
  preferred.find? inside

def search (b : Binary) (exponent : Int) : Nat → Digits
  | 0 => ⟨0, 0⟩
  | steps + 1 =>
    match onGrid b exponent with
    | some c => ⟨c, exponent⟩
    | none => search b (exponent - 1) steps

/-- The coarsest grid is beyond every binary64 number and the finest below the
    least one. -/
def shortest (b : Binary) : Digits := search b 309 (309 + 325)

structure DecimalStyle where
  leastPositional : Int
  greatestPositional : Int
  plusSign : Bool

def digitsOf (n : Nat) : List Char := Nat.toDigits 10 n

def zeros (n : Nat) : List Char := List.replicate n '0'

def positional (digits : List Char) (leading : Int) : List Char :=
  if leading < 0 then '0' :: '.' :: (zeros (leading.natAbs - 1) ++ digits)
  else
    let before := leading.toNat + 1
    let whole := digits.take before ++ zeros (before - digits.length)
    let fraction := digits.drop before
    whole ++ '.' :: (if fraction.isEmpty then ['0'] else fraction)

def scientific (plusSign : Bool) (digits : List Char) (leading : Int) : List Char :=
  let sign := if leading < 0 then ['-'] else if plusSign then ['+'] else []
  let fraction := digits.drop 1
  digits.take 1 ++ (if fraction.isEmpty then [] else '.' :: fraction) ++
    'e' :: (sign ++ digitsOf leading.natAbs)

def write (style : DecimalStyle) (d : Digits) : List Char :=
  let digits := digitsOf d.significand
  let leading := d.exponent + digits.length - 1
  if style.leastPositional ≤ leading ∧ leading ≤ style.greatestPositional then
    positional digits leading
  else scientific style.plusSign digits leading

def ofBits (style : DecimalStyle) (bits : Nat) : List Char :=
  let sign := if signBit ≤ bits then ['-'] else []
  let b := Binary.ofBits (bits % signBit)
  sign ++ (if b.mantissa = 0 then ['0', '.', '0'] else write style (shortest b))

end EcsPlan.Decimal
