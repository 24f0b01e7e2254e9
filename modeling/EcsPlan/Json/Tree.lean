import EcsPlan.Json.Quoted

namespace EcsPlan.Json

inductive Tree where
  | null
  | bool (value : Bool)
  | num (value : Nat)
  | str (value : String)
  | arr (items : List Tree)
  | obj (members : List (String × Tree))

structure Layout where
  /-- What precedes an item or a closing bracket at a depth. -/
  gap : Nat → List Char
  afterColon : List Char

def Layout.compact : Layout := ⟨fun _ => [], []⟩

def Layout.pretty : Layout := ⟨fun depth => '\n' :: List.replicate (2 * depth) ' ', [' ']⟩

namespace Tree

def wordText (b : Bool) : List Char :=
  if b then ['t', 'r', 'u', 'e'] else ['f', 'a', 'l', 's', 'e']

mutual

def write (l : Layout) (depth : Nat) : Tree → List Char
  | .null => ['n', 'u', 'l', 'l']
  | .bool b => wordText b
  | .num n => Nat.toDigits 10 n
  | .str s => quote s
  | .arr [] => ['[', ']']
  | .arr (item :: rest) =>
    '[' :: (l.gap (depth + 1) ++ (write l (depth + 1) item ++
      (writeItems l (depth + 1) rest ++ (l.gap depth ++ [']']))))
  | .obj [] => ['{', '}']
  | .obj ((key, value) :: rest) =>
    '{' :: (l.gap (depth + 1) ++ (quote key ++ (':' :: (l.afterColon ++
      (write l (depth + 1) value ++
        (writeMembers l (depth + 1) rest ++ (l.gap depth ++ ['}'])))))))

def writeItems (l : Layout) (depth : Nat) : List Tree → List Char
  | [] => []
  | item :: rest =>
    ',' :: (l.gap depth ++ (write l depth item ++ writeItems l depth rest))

def writeMembers (l : Layout) (depth : Nat) : List (String × Tree) → List Char
  | [] => []
  | (key, value) :: rest =>
    ',' :: (l.gap depth ++ (quote key ++ (':' :: (l.afterColon ++
      (write l depth value ++ writeMembers l depth rest)))))

end

def text (l : Layout) (t : Tree) : String := String.ofList (write l 0 t)

end Tree
end EcsPlan.Json
