import EcsPlan.Json.Decoder
import EcsPlan.Json.Tree

/-!
Records as tables of fields. One table gives both directions: an object with all
fields in the order of the table, and a decoder for an object with the fields in
any order or for an array with the fields in the order of the table.
-/
namespace EcsPlan.Json

inductive Presence where
  | required
  | requiredInArray
  | optional
  deriving DecidableEq, Repr

structure Field (α : Type) where
  name : String
  presence : Presence
  decode : α → Decoder α
  encode : α → Tree

/-- A record is decoded by filling in `blank`, field by field. -/
structure Record (α : Type) where
  title : String
  blank : α
  fields : List (Field α)

namespace Record
variable {α : Type}

def encode (r : Record α) (a : α) : Tree := .obj (r.fields.map fun f => (f.name, f.encode a))

def field? (r : Record α) (name : String) : Option (Field α) := r.fields.find? (·.name = name)

def fromMembers (r : Record α) (a : α) (seen : List String) : Members → Except Fault α
  | .closed =>
    match r.fields.find? fun f => f.presence = .required && !seen.contains f.name with
    | some f => .error (.misfit (.missingField f.name))
    | none => .ok a
  | .broken why => .error (.broken why)
  | .member key value rest => do
    let name ← key.text
    match r.field? name with
    | none => do
      value.passOver
      fromMembers r a seen rest
    | some f =>
      if seen.contains name then .error (.misfit (.duplicateField name))
      else do
        let a ← f.decode a value
        fromMembers r a (name :: seen) rest

def fromItems (r : Record α) (a : α) (count : Nat) : List (Field α) → Items → Except Fault α
  | [], .closed => .ok a
  | [], .item _ _ => .error (.broken .malformed)
  | fields, .closed =>
    if fields.all (·.presence = .optional) then .ok a
    else .error (.misfit (.wrongLength count r.title r.fields.length))
  | _, .broken why => .error (.broken why)
  | f :: fields, .item value rest => do
    let a ← f.decode a value
    fromItems r a (count + 1) fields rest

def decode (r : Record α) : Decoder α
  | .object members => r.fromMembers r.blank [] members
  | .list items => r.fromItems r.blank 0 r.fields items
  | o => misplaced ("struct " ++ r.title) o

end Record

section Fields
variable {α β : Type}

def Field.of (name : String) (presence : Presence) (decoder : Decoder β) (encoder : β → Tree)
    (get : α → β) (set : α → β → α) : Field α :=
  { name, presence
    decode := fun a o => (decoder o).map (set a)
    encode := fun a => encoder (get a) }

end Fields

def wordTree (n : UInt32) : Tree := .num n.toNat

def optionTree {α : Type} (f : α → Tree) : Option α → Tree
  | none => .null
  | some a => f a

def listTree {α : Type} (f : α → Tree) (l : List α) : Tree := .arr (l.map f)

end EcsPlan.Json
