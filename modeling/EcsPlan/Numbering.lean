import EcsPlan.Outcome
import EcsPlan.Screening

/-!
Numbers for the candidates of one kind. An ID that exactly one candidate asks
for is granted first. The candidates that ask for none then take, in the order
of the kind, the least slots that are still free. An ID that several ask for is
granted to none of them and its slot stays free. Slots are counted without a
bound; a numbering that leaves the limit is rejected as a whole.
-/
namespace EcsPlan

inductive IdSource where
  | manual
  | auto
  deriving DecidableEq, Repr

def IdSource.text : IdSource → String
  | .manual => "manual"
  | .auto => "auto"

structure Entry where
  owner : TypeDecl
  id : UInt32
  source : IdSource
  deriving DecidableEq, Repr

def Entry.name (e : Entry) : String := e.owner.name

def requestedIds (candidates : List TypeDecl) : SortedSet UInt32 :=
  .ofList (candidates.filterMap (·.manualId))

def requesters (candidates : List TypeDecl) (id : UInt32) : List TypeDecl :=
  candidates.filter (·.manualId = some id)

def grant (candidates : List TypeDecl) (id : UInt32) : Option Entry :=
  match requesters candidates id with
  | [owner] => some ⟨owner, id, .manual⟩
  | _ => none

def sortNames (names : List String) : List String :=
  names.mergeSort fun a b => (compare a b).isLE

def contest (kind : Kind) (candidates : List TypeDecl) (id : UInt32) : Option Diagnostic :=
  match requesters candidates id with
  | [] | [_] => none
  | group =>
    let names := sortNames (group.map (·.name))
    some (Finding.contestedId kind id names (firstPlace group)).diagnostic

/-- Components of wide alignment get the low IDs and so pack first. -/
def Kind.order (kind : Kind) (a b : TypeDecl) : Ordering :=
  match kind with
  | .component => (compare b.alignment a.alignment).then (compare a.name b.name)
  | .tag | .queryable | .system => compare a.name b.name

def unpinned (kind : Kind) (candidates : List TypeDecl) : List TypeDecl :=
  (candidates.filter (·.manualId.isNone)).mergeSort fun a b => (kind.order a b).isLE

/-- The least slot from `next` on that an ascending list does not reserve, and
    what is reserved beyond it. -/
def freeSlot : List Nat → Nat → Nat × List Nat
  | r :: rest, next => if r = next then freeSlot rest (next + 1) else (next, r :: rest)
  | [], next => (next, [])

def fillSlots (reserved : List Nat) (next : Nat) : List TypeDecl → List (TypeDecl × Nat)
  | [] => []
  | d :: rest =>
    let (slot, beyond) := freeSlot reserved next
    (d, slot) :: fillSlots beyond (slot + 1) rest

def highestSlot (granted : List Entry) (filled : List (TypeDecl × Nat)) : Option Nat :=
  (granted.map (·.id.toNat) ++ filled.map (·.2)).max?

def sortById (entries : List Entry) : List Entry :=
  entries.mergeSort fun a b => (compare a.id b.id).isLE

def numbering (kind : Kind) (maxId : UInt32) (candidates : List TypeDecl) :
    Outcome (List Entry) :=
  let requested := (requestedIds candidates).toList
  let granted := requested.filterMap (grant candidates)
  let contests := requested.filterMap (contest kind candidates)
  let filled := fillSlots (granted.map (·.id.toNat)) 0 (unpinned kind candidates)
  match (highestSlot granted filled).filter (maxId.toNat < ·) with
  | some highest =>
    let shown := UInt32.ofNat (min highest (UInt32.size - 1))
    .rejected (contests ++ [(Finding.capacity kind shown maxId).diagnostic])
  | none =>
    let automatic := filled.map fun (d, slot) => Entry.mk d (.ofNat slot) .auto
    .usable (sortById (granted ++ automatic)) contests

abbrev NameTable := List (String × UInt32)

/-- Of several pairs with one name the last counts. -/
def NameTable.find? (table : NameTable) (name : String) : Option UInt32 :=
  table.reverse.lookup name

def nameTable (entries : List Entry) : NameTable := entries.map fun e => (e.name, e.id)

end EcsPlan
