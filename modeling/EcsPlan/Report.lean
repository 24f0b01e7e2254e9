import EcsPlan.Plan
import EcsPlan.Wire

namespace EcsPlan
open Json

def diagnosticsTree : List Diagnostic → Tree := listTree Diagnostic.record.encode

def Outcome.tree {α : Type} (value : α → Tree) (o : Outcome α) : Tree :=
  .obj [("status", .str o.statusText), ("value", optionTree value o.value?),
    ("diagnostics", diagnosticsTree o.diagnostics)]

def Entry.tree (e : Entry) : Tree :=
  .obj [("name", .str e.name), ("value", wordTree e.id), ("source", .str e.source.text)]

def Registry.tree (r : Registry) : Tree :=
  .obj [("kind", r.kind.tree), ("ids", listTree Entry.tree r.entries),
    ("mask_width", .num r.width.bits), ("requires_custom_storage", .bool r.customStorage)]

def Mask.tree (m : Mask) : Tree :=
  .obj [("width", .num m.width.bits), ("words", listTree (fun w => .num w.toNat) m.words)]

def Filter.tree (f : Filter Mask) : Tree :=
  .obj [("all", f.all.tree), ("none", f.none.tree), ("any", f.any.tree)]

def CompiledQuery.tree (q : CompiledQuery) : Tree :=
  .obj [("name", .str q.name), ("components", q.components.tree), ("tags", q.tags.tree)]

def Node.tree (n : Node) : Tree :=
  .obj [("id", wordTree n.id), ("name", .str n.name),
    ("predecessors", listTree wordTree n.predecessors.toList)]

def Schedule.tree (s : Schedule) : Tree :=
  .obj [("nodes", listTree Node.tree s.nodes.toList), ("order", listTree wordTree s.order)]

structure Report where
  limits : Limits
  plan : Plan
  deriving DecidableEq, Repr

namespace Report

def ofSnapshot (s : Snapshot) : Report := ⟨s.limits, .ofSnapshot s⟩

def diagnostics (r : Report) : List Diagnostic := r.plan.diagnostics

def count (r : Report) (severity : Severity) : Nat :=
  r.diagnostics.countP (·.severity = severity)

def tree (r : Report) : Tree :=
  .obj
    [("config", Limits.record.encode r.limits),
     ("components", r.plan.components.tree Registry.tree),
     ("tags", r.plan.tags.tree Registry.tree),
     ("queryables", r.plan.queryables.tree Registry.tree),
     ("systems", r.plan.systems.tree Registry.tree),
     ("queries", r.plan.queries.tree (listTree CompiledQuery.tree)),
     ("schedule", r.plan.schedule.tree Schedule.tree),
     ("diagnostics", diagnosticsTree r.diagnostics)]

def text (r : Report) (pretty : Bool) : String :=
  r.tree.text (if pretty then .pretty else .compact)

def exitCode (r : Report) : UInt32 := if r.count .error = 0 then 0 else 1

end Report
end EcsPlan
