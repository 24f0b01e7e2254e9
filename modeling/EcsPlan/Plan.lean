import EcsPlan.Query
import EcsPlan.Schedule

/-!
One pass over a snapshot. The four kinds are numbered independently; queries use
the component and the tag registry, the schedule uses the system registry.
-/
namespace EcsPlan

structure Registry where
  kind : Kind
  entries : List Entry
  width : Mask.Width
  customStorage : Bool
  deriving DecidableEq, Repr

namespace Registry

def ofEntries (limits : Limits) (kind : Kind) (entries : List Entry) : Registry :=
  let width := Mask.Width.ofIds (entries.map (·.id))
  { kind, entries, width
    customStorage := kind = .component && limits.customStorageThreshold.toNat < width.bits }

def id? (r : Registry) (name : String) : Option UInt32 :=
  (r.entries.find? (·.name = name)).map (·.id)

def table (r : Registry) : NameTable := nameTable r.entries

end Registry

def registry (limits : Limits) (declarations : List TypeDecl) (kind : Kind) :
    Outcome Registry :=
  let screened := screen limits kind declarations
  ((numbering kind limits.maxId screened.candidates).map (.ofEntries limits kind)).precededBy
    screened.diagnostics

/-- What queries see of a registry; a rejected one has no names and the least width. -/
def visibleNames (o : Outcome Registry) : NameTable := (o.value?.map Registry.table).getD []

def visibleWidth (o : Outcome Registry) : Mask.Width := (o.value?.map (·.width)).getD .least

def compileQueries (components tags : Outcome Registry) (queries : List QueryDecl) :
    Outcome (List CompiledQuery) :=
  let tables : NameTables := ⟨visibleNames components, visibleNames tags⟩
  let compiled := (queries.filterMap (QueryDecl.resolve? tables)).map fun q =>
    q.compile (visibleWidth components) (visibleWidth tags)
  .usable compiled (queries.flatMap (QueryDecl.reports tables))

def scheduleSystems (systems : Outcome Registry) : Outcome Schedule :=
  match systems.value? with
  | some r => schedule r.entries
  | none => .rejected [Finding.unscheduled.diagnostic]

structure Plan where
  components : Outcome Registry
  tags : Outcome Registry
  queryables : Outcome Registry
  systems : Outcome Registry
  queries : Outcome (List CompiledQuery)
  schedule : Outcome Schedule
  deriving DecidableEq, Repr

namespace Plan

def make (limits : Limits) (declarations : List TypeDecl) (queries : List QueryDecl) : Plan :=
  let components := EcsPlan.registry limits declarations .component
  let tags := EcsPlan.registry limits declarations .tag
  let systems := EcsPlan.registry limits declarations .system
  { components, tags, systems
    queryables := EcsPlan.registry limits declarations .queryable
    queries := compileQueries components tags queries
    schedule := scheduleSystems systems }

def ofSnapshot (s : Snapshot) : Plan := make s.limits s.declarations s.queries

def registry (p : Plan) : Kind → Outcome Registry
  | .component => p.components
  | .tag => p.tags
  | .queryable => p.queryables
  | .system => p.systems

def diagnostics (p : Plan) : List Diagnostic :=
  p.components.diagnostics ++ p.tags.diagnostics ++ p.queryables.diagnostics ++
    p.systems.diagnostics ++ p.queries.diagnostics ++ p.schedule.diagnostics

def hasErrors (p : Plan) : Bool := p.diagnostics.any (·.isError)

end Plan
end EcsPlan
