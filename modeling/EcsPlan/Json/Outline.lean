import EcsPlan.Json.Numeral

/-!
The outline of a text: the JSON tree that it holds, as far as it holds one. The
outline keeps what a reader would meet from left to right, so that a reader who
knows what it wants can say which problem comes first. Where a text breaks off
the outline ends.

A reader who wants a value refuses some literals that one who passes it over
lets through: text with a surrogate alone, and numbers that are too large.
-/
namespace EcsPlan.Json

inductive Word where
  | null
  | bool (value : Bool)
  deriving DecidableEq, Repr

/-- A string literal. A whole one without content has a surrogate alone. A broken
    one tells what is met by a reader who wants it and by one who passes it over. -/
inductive Literal where
  | whole (content : Option String)
  | broken (wanted passed : Break)
  deriving DecidableEq, Repr

mutual

inductive Outline where
  | absent (why : Break)
  | word (w : Word)
  | brokenWord (why : Break)
  | numeral (n : Numeral)
  | brokenNumeral (why : Break)
  | text (l : Literal)
  | list (items : Items)
  | object (members : Members)

inductive Items where
  | closed
  | broken (why : Break)
  | item (value : Outline) (rest : Items)

inductive Members where
  | closed
  | broken (why : Break)
  | member (key : Literal) (value : Outline) (rest : Members)

end

instance : Inhabited Outline := ⟨.absent .truncated⟩

def isBlank (c : Char) : Bool := c = ' ' || c = '\t' || c = '\n' || c = '\r'

def dropBlanks (cs : List Char) : List Char := cs.dropWhile isBlank

def spell : List Char → List Char → Except Break (List Char)
  | [], cs => .ok cs
  | _ :: _, [] => .error .truncated
  | e :: es, c :: cs => if e = c then spell es cs else .error .malformed

def readWord (w : Word) (letters : List Char) (cs : List Char) : Outline × List Char :=
  match spell letters cs with
  | .ok rest => (.word w, rest)
  | .error why => (.brokenWord why, [])

def readLiteral (cs : List Char) : Literal × List Char :=
  let q := readQuoted cs
  match q.rest with
  | .ok rest => (.whole (textOf? q.pieces), rest)
  | .error why => (.broken (firstBreak q.pieces why) why, [])

def readKey (cs : List Char) : Literal × List Char :=
  match dropBlanks cs with
  | [] => (.broken .truncated .truncated, [])
  | '"' :: cs => readLiteral cs
  | _ => (.broken .malformed .malformed, [])

def readNumber (cs : List Char) : Outline × List Char :=
  match readNumeral cs with
  | .ok (n, rest) => (.numeral n, rest)
  | .error why => (.brokenNumeral why, [])

mutual

def readValue : Nat → List Char → Outline × List Char
  | 0, _ => (.absent .truncated, [])
  | fuel + 1, cs =>
    match dropBlanks cs with
    | [] => (.absent .truncated, [])
    | '"' :: cs =>
      let (l, rest) := readLiteral cs
      (.text l, rest)
    | 'n' :: cs => readWord .null ['u', 'l', 'l'] cs
    | 't' :: cs => readWord (.bool true) ['r', 'u', 'e'] cs
    | 'f' :: cs => readWord (.bool false) ['a', 'l', 's', 'e'] cs
    | '[' :: cs =>
      match dropBlanks cs with
      | [] => (.list (.broken .truncated), [])
      | ']' :: rest => (.list .closed, rest)
      | cs =>
        let (items, rest) := readItems fuel cs
        (.list items, rest)
    | '{' :: cs =>
      match dropBlanks cs with
      | [] => (.object (.broken .truncated), [])
      | '}' :: rest => (.object .closed, rest)
      | cs =>
        let (members, rest) := readMembers fuel cs
        (.object members, rest)
    | c :: cs =>
      if c = '-' || c.isDigit then readNumber (c :: cs) else (.absent .malformed, [])

def readItems : Nat → List Char → Items × List Char
  | 0, _ => (.broken .truncated, [])
  | fuel + 1, cs =>
    let (value, rest) := readValue fuel cs
    match dropBlanks rest with
    | [] => (.item value (.broken .truncated), [])
    | ']' :: rest => (.item value .closed, rest)
    | ',' :: rest =>
      let (items, rest) := readItems fuel rest
      (.item value items, rest)
    | _ => (.item value (.broken .malformed), [])

def readMembers : Nat → List Char → Members × List Char
  | 0, _ => (.broken .truncated, [])
  | fuel + 1, cs =>
    let (key, rest) := readKey cs
    match dropBlanks rest with
    | [] => (.member key (.absent .truncated) (.broken .truncated), [])
    | ':' :: rest =>
      let (value, rest) := readValue fuel rest
      match dropBlanks rest with
      | [] => (.member key value (.broken .truncated), [])
      | '}' :: rest => (.member key value .closed, rest)
      | ',' :: rest =>
        let (members, rest) := readMembers fuel rest
        (.member key value members, rest)
      | _ => (.member key value (.broken .malformed), [])
    | _ => (.member key (.absent .malformed) (.broken .malformed), [])

end

/-- The outline of the value that a text begins with, and what follows it. A
    value takes at least one character, and an item one step more than a value. -/
def outline (cs : List Char) : Outline × List Char := readValue (2 * cs.length + 1) cs

end EcsPlan.Json
