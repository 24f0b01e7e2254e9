import EcsPlan.Numbering

/-!
Which system runs before which. `after` and `before` are two spellings of one
relation; a node holds the IDs of the systems that run before it. A relation
with an unknown system is reported and left out.
-/
namespace EcsPlan

structure Node where
  id : UInt32
  name : String
  predecessors : SortedSet UInt32
  deriving DecidableEq, Repr

def Entry.relations (e : Entry) : List (Direction × String) :=
  e.owner.after.map (.after, ·) ++ e.owner.before.map (.before, ·)

structure Precedes where
  first : UInt32
  second : UInt32
  deriving DecidableEq, Repr

def precedence (table : NameTable) (e : Entry) : Direction × String → Option Precedes
  | (.after, target) => (table.find? target).map (⟨·, e.id⟩)
  | (.before, target) => (table.find? target).map (⟨e.id, ·⟩)

def precedences (systems : List Entry) : List Precedes :=
  systems.flatMap fun e => e.relations.filterMap (precedence (nameTable systems) e)

def Entry.unknownRelations (table : NameTable) (e : Entry) : List Diagnostic :=
  (e.relations.filter fun (_, target) => (table.find? target).isNone).map
    fun (direction, target) =>
      (Finding.unknownSystem e.name direction target e.owner.place).diagnostic

def unknownRelations (systems : List Entry) : List Diagnostic :=
  systems.flatMap (Entry.unknownRelations (nameTable systems))

def predecessorsOf (relation : List Precedes) (id : UInt32) : SortedSet UInt32 :=
  .ofList ((relation.filter (·.second = id)).map (·.first))

/-- Of entries with one ID the last alone is given the predecessors. -/
def nodesOf (relation : List Precedes) : List Entry → List Node
  | [] => []
  | e :: rest =>
    let predecessors :=
      if rest.any (·.id = e.id) then .empty else predecessorsOf relation e.id
    ⟨e.id, e.name, predecessors⟩ :: nodesOf relation rest

def systemNodes (systems : List Entry) : List Node :=
  nodesOf (precedences systems) (sortById systems)

end EcsPlan
