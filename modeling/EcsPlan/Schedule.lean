import EcsPlan.Arrangement

namespace EcsPlan

structure Schedule where
  nodes : Array Node
  order : List UInt32
  deriving DecidableEq, Repr

namespace Schedule

def bisect (nodes : Array Node) (id : UInt32) (low high : Nat) : Option Node :=
  if _inside : low < high then
    let middle := (low + high) / 2
    match nodes[middle]? with
    | none => none
    | some node =>
      match compare node.id id with
      | .eq => some node
      | .lt => bisect nodes id (middle + 1) high
      | .gt => bisect nodes id low middle
  else none
termination_by high - low

def node? (s : Schedule) (id : UInt32) : Option Node := bisect s.nodes id 0 s.nodes.size

def predecessors? (s : Schedule) (name : String) : Option (SortedSet UInt32) :=
  (s.nodes.find? (·.name = name)).map (·.predecessors)

end Schedule

/-- The names of the blocked IDs; of nodes with one ID the first names it. -/
def blockedNames (nodes : List Node) (ids : List UInt32) : List String :=
  ids.filterMap fun id => (nodes.find? (·.id = id)).map (·.name)

def schedule (systems : List Entry) : Outcome Schedule :=
  let nodes := systemNodes systems
  let unknown := unknownRelations systems
  match arrange nodes with
  | .ordered order => .usable ⟨nodes.toArray, order⟩ unknown
  | .blocked ids => .rejected (unknown ++ [(Finding.cycle (blockedNames nodes ids)).diagnostic])

end EcsPlan
