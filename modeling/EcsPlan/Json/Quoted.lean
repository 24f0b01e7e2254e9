/-!
JSON string literals. Writing escapes the quote, the backslash and the control
characters. Reading is in two steps: the literal is split into pieces, which
finds its end, and the pieces are then joined to text, which pairs surrogates.
-/
namespace EcsPlan.Json

/-- How a text fails to be JSON: something else stands there, or it ends. -/
inductive Break where
  | malformed
  | truncated
  deriving DecidableEq, Repr

def hexChar (n : Nat) : Char := "0123456789abcdef".toList.getD n '0'

def escaped (c : Char) : List Char :=
  match c with
  | '"' => ['\\', '"']
  | '\\' => ['\\', '\\']
  | '\x08' => ['\\', 'b']
  | '\x0c' => ['\\', 'f']
  | '\n' => ['\\', 'n']
  | '\r' => ['\\', 'r']
  | '\t' => ['\\', 't']
  | c =>
    if c.toNat < 32 then
      ['\\', 'u', '0', '0', hexChar (c.toNat / 16), hexChar (c.toNat % 16)]
    else [c]

def quote (s : String) : List Char := '"' :: (s.toList.flatMap escaped ++ ['"'])

inductive Piece where
  | char (c : Char)
  | unit (u : Nat)
  deriving DecidableEq, Repr

structure Quoted where
  pieces : List Piece
  rest : Except Break (List Char)

def Quoted.push (p : Piece) (q : Quoted) : Quoted := { q with pieces := p :: q.pieces }

def shortEscape : Char → Option Char
  | '"' => some '"'
  | '\\' => some '\\'
  | '/' => some '/'
  | 'b' => some '\x08'
  | 'f' => some '\x0c'
  | 'n' => some '\n'
  | 'r' => some '\r'
  | 't' => some '\t'
  | _ => none

def hexValue (c : Char) : Option Nat :=
  if c.isDigit then some (c.toNat - 48)
  else if 'a' ≤ c ∧ c ≤ 'f' then some (c.toNat - 87)
  else if 'A' ≤ c ∧ c ≤ 'F' then some (c.toNat - 55)
  else none

def hexUnit (a b c d : Char) : Option Nat := do
  return (((← hexValue a) * 16 + (← hexValue b)) * 16 + (← hexValue c)) * 16 + (← hexValue d)

def byteLength (cs : List Char) : Nat := cs.foldl (fun n c => n + c.utf8Size) 0

/-- Reads on from behind the opening quote. An escape that gives a unit takes
    four bytes of the text, whatever they are. -/
def readQuoted : List Char → Quoted
  | [] => ⟨[], .error .truncated⟩
  | '"' :: rest => ⟨[], .ok rest⟩
  | '\\' :: 'u' :: a :: b :: c :: d :: rest =>
    match hexUnit a b c d with
    | some u => (readQuoted rest).push (.unit u)
    | none => ⟨[], .error .malformed⟩
  | '\\' :: 'u' :: rest =>
    ⟨[], .error (if byteLength rest < 4 then .truncated else .malformed)⟩
  | ['\\'] => ⟨[], .error .truncated⟩
  | '\\' :: c :: rest =>
    match shortEscape c with
    | some e => (readQuoted rest).push (.char e)
    | none => ⟨[], .error .malformed⟩
  | c :: rest =>
    if c.toNat < 32 then ⟨[], .error .malformed⟩ else (readQuoted rest).push (.char c)

def isHigh (u : Nat) : Bool := 0xD800 ≤ u && u ≤ 0xDBFF

def isLow (u : Nat) : Bool := 0xDC00 ≤ u && u ≤ 0xDFFF

def surrogatePair (high low : Nat) : Char :=
  .ofNat (0x10000 + (high - 0xD800) * 0x400 + (low - 0xDC00))

/-- The text of the pieces, and whether a high surrogate still waits for its
    other half. Nothing if a surrogate is alone. -/
def joinPieces : Option Nat → List Piece → Option (List Char × Bool)
  | none, [] => some ([], false)
  | some _, [] => some ([], true)
  | none, .char c :: rest => (joinPieces none rest).map fun (cs, waits) => (c :: cs, waits)
  | some _, .char _ :: _ => none
  | none, .unit u :: rest =>
    if isHigh u then joinPieces (some u) rest
    else if isLow u then none
    else (joinPieces none rest).map fun (cs, waits) => (.ofNat u :: cs, waits)
  | some high, .unit u :: rest =>
    if isLow u then
      (joinPieces none rest).map fun (cs, waits) => (surrogatePair high u :: cs, waits)
    else none

def textOf? (pieces : List Piece) : Option String :=
  match joinPieces none pieces with
  | some (cs, false) => some (String.ofList cs)
  | _ => none

/-- The first problem in a literal that breaks off: a surrogate alone comes
    before the break. -/
def firstBreak (pieces : List Piece) (atEnd : Break) : Break :=
  if (joinPieces none pieces).isSome then atEnd else .malformed

end EcsPlan.Json
