import EcsPlan.Mask.Bits
import EcsPlan.Numbering

namespace EcsPlan

inductive Reference where
  | component (id : UInt32)
  | tag (id : UInt32)
  deriving DecidableEq, Repr

structure NameTables where
  components : NameTable
  tags : NameTable

def NameTables.resolve (tables : NameTables) (name : String) : Option Reference :=
  match tables.components.find? name with
  | some id => some (.component id)
  | none => (tables.tags.find? name).map .tag

structure ReferencedIds where
  components : SortedSet UInt32
  tags : SortedSet UInt32
  deriving DecidableEq, Repr

def Reference.component? : Reference → Option UInt32
  | .component id => some id
  | .tag _ => none

def Reference.tag? : Reference → Option UInt32
  | .component _ => none
  | .tag id => some id

def NameTables.idsOf (tables : NameTables) (names : List String) : ReferencedIds :=
  let found := names.filterMap tables.resolve
  ⟨.ofList (found.filterMap Reference.component?), .ofList (found.filterMap Reference.tag?)⟩

structure ResolvedQuery where
  name : String
  ids : Filter ReferencedIds
  deriving DecidableEq, Repr

def QueryDecl.contradictions (q : QueryDecl) : SortedSet String :=
  .ofList (q.names.all.filter (· ∈ q.names.none))

def QueryDecl.unresolved (tables : NameTables) (q : QueryDecl) : SortedSet String :=
  .ofList ((q.names.all ++ q.names.none ++ q.names.any).filter fun name =>
    (tables.resolve name).isNone)

def QueryDecl.reports (tables : NameTables) (q : QueryDecl) : List Diagnostic :=
  let contradictions := q.contradictions
  let unresolved := q.unresolved tables
  (if contradictions.isEmpty then []
    else [(Finding.contradiction q.name contradictions.toList q.place).diagnostic]) ++
  (if unresolved.isEmpty then []
    else [(Finding.unresolved q.name unresolved.toList q.place).diagnostic])

def QueryDecl.resolve? (tables : NameTables) (q : QueryDecl) : Option ResolvedQuery :=
  if (q.unresolved tables).isEmpty then some ⟨q.name, q.names.map tables.idsOf⟩ else none

/-- Masks for three lists of IDs, all of one width that has a bit for each ID
    even where the width that was asked for has not. -/
def Filter.masks (ids : Filter (List UInt32)) (width : Mask.Width) : Filter Mask :=
  ids.map (.ofBits (width.wider (.ofIds (ids.all ++ ids.none ++ ids.any))))

def Filter.accepts (masks : Filter Mask) (archetype : Mask) : Bool :=
  masks.all.subset archetype && !masks.none.intersects archetype &&
    (masks.any.isEmpty || masks.any.intersects archetype)

structure CompiledQuery where
  name : String
  components : Filter Mask
  tags : Filter Mask
  deriving DecidableEq, Repr

def ResolvedQuery.compile (q : ResolvedQuery) (componentWidth tagWidth : Mask.Width) :
    CompiledQuery :=
  { name := q.name
    components := (q.ids.map (·.components.toList)).masks componentWidth
    tags := (q.ids.map (·.tags.toList)).masks tagWidth }

def CompiledQuery.accepts (q : CompiledQuery) (components tags : Mask) : Bool :=
  q.components.accepts components && q.tags.accepts tags

end EcsPlan
