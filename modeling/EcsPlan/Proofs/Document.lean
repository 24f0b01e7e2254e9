import EcsPlan.Proofs.Relevance
import EcsPlan.Proofs.RoundTrip
import Mathlib.Logic.Function.Basic

namespace EcsPlan
open Json

section Told
variable {α β : Type} {e : α → Tree} {v : α → β}

theorem listTree_tells (told : v.FactorsThrough e) :
    (List.map v).FactorsThrough (listTree e) := by
  intro l m same
  replace same : l.map e = m.map e := Tree.arr.inj same
  induction l generalizing m with
  | nil => rw [List.map_eq_nil_iff.mp same.symm]
  | cons a rest ih =>
    obtain ⟨b, others, rfl, first, later⟩ := List.map_eq_cons_iff.mp same.symm
    rw [List.map_cons, List.map_cons, told first.symm, ih later.symm]

theorem listTree_injective (injective : e.Injective) : (listTree e).Injective := by
  intro l m same
  simpa using listTree_tells (injective.factorsThrough id) same

theorem optionTree_tells (told : v.FactorsThrough e) (solid : ∀ a, e a ≠ .null) :
    (Option.map v).FactorsThrough (optionTree e) := by
  intro o p same
  cases o with
  | none =>
    cases p with
    | none => rfl
    | some b => exact False.elim (solid b same.symm)
  | some a =>
    cases p with
    | none => exact False.elim (solid a same)
    | some b => exact congrArg some (told same)

theorem diagnosticsTree_injective : diagnosticsTree.Injective :=
  listTree_injective diagnostic_undoes.injective

theorem outcomeTree_tells (told : v.FactorsThrough e) (solid : ∀ a, e a ≠ .null) :
    (Outcome.map v).FactorsThrough (Outcome.tree e) := by
  intro o p same
  simp only [Outcome.tree, Tree.obj.injEq, List.cons.injEq, Prod.mk.injEq, Tree.str.injEq,
    true_and, and_true] at same
  obtain ⟨status, values, reports⟩ := same
  have value := optionTree_tells told solid values
  have diagnostics := diagnosticsTree_injective reports
  cases o <;> cases p <;>
    simp_all [Outcome.statusText, Outcome.value?, Outcome.diagnostics, Outcome.map]

theorem outcomeTree_injective (injective : e.Injective) (solid : ∀ a, e a ≠ .null) :
    (Outcome.tree e).Injective := by
  intro o p same
  have told := outcomeTree_tells (injective.factorsThrough id) solid same
  cases o <;> cases p <;> simp_all [Outcome.map]

end Told

section Parts

theorem width_tells {v w : Mask.Width} (same : v.bits = w.bits) : v = w := by
  cases v; cases w
  simp_all

theorem idSource_injective : IdSource.text.Injective := by
  intro s t same
  cases s <;> cases t <;> simp_all [IdSource.text]

theorem maskTree_injective : Mask.tree.Injective := by
  intro m n same
  simp only [Mask.tree, Tree.obj.injEq, List.cons.injEq, Prod.mk.injEq, Tree.num.injEq,
    true_and, and_true] at same
  obtain ⟨width, words⟩ := same
  have word : (fun w : UInt64 => Tree.num w.toNat).Injective := fun v w equal =>
    UInt64.toNat_inj.mp (Tree.num.inj equal)
  have both := And.intro (width_tells width) (listTree_injective word words)
  cases m; cases n
  simp_all

theorem filterTree_injective : Filter.tree.Injective := by
  intro f g same
  simp only [Filter.tree, Tree.obj.injEq, List.cons.injEq, Prod.mk.injEq, true_and,
    and_true] at same
  obtain ⟨all, none, any⟩ := same
  cases f; cases g
  simp_all [maskTree_injective.eq_iff]

theorem compiledQueryTree_injective : CompiledQuery.tree.Injective := by
  intro p q same
  simp only [CompiledQuery.tree, Tree.obj.injEq, List.cons.injEq, Prod.mk.injEq, Tree.str.injEq,
    true_and, and_true] at same
  obtain ⟨name, components, tags⟩ := same
  cases p; cases q
  simp_all [filterTree_injective.eq_iff]

theorem nodeTree_injective : Node.tree.Injective := by
  intro m n same
  simp only [Node.tree, Tree.obj.injEq, List.cons.injEq, Prod.mk.injEq, Tree.str.injEq,
    true_and, and_true] at same
  obtain ⟨id, name, predecessors⟩ := same
  have lists := listTree_injective word32_undoes.injective predecessors
  have sets := SortedSet.ext_toList lists
  cases m; cases n
  simp_all [word32_undoes.injective.eq_iff]

theorem scheduleTree_injective : Schedule.tree.Injective := by
  intro s t same
  simp only [Schedule.tree, Tree.obj.injEq, List.cons.injEq, Prod.mk.injEq,
    true_and, and_true] at same
  obtain ⟨nodes, order⟩ := same
  have arrays := Array.toList_inj.mp (listTree_injective nodeTree_injective nodes)
  have lists := listTree_injective word32_undoes.injective order
  cases s; cases t
  simp_all

structure PublishedRegistry where
  kind : Kind
  entries : List (String × UInt32 × IdSource)
  width : Mask.Width
  customStorage : Bool
  deriving DecidableEq, Repr

def Entry.published (e : Entry) : String × UInt32 × IdSource := (e.name, e.id, e.source)

def Registry.published (r : Registry) : PublishedRegistry :=
  ⟨r.kind, r.entries.map Entry.published, r.width, r.customStorage⟩

theorem entryTree_tells : Entry.published.FactorsThrough Entry.tree := by
  intro a b same
  simp only [Entry.tree, Tree.obj.injEq, List.cons.injEq, Prod.mk.injEq, Tree.str.injEq,
    true_and, and_true] at same
  obtain ⟨name, id, source⟩ := same
  rw [Entry.published, Entry.published, name, word32_undoes.injective id,
    idSource_injective source]

theorem registryTree_tells : Registry.published.FactorsThrough Registry.tree := by
  intro r s same
  simp only [Registry.tree, Tree.obj.injEq, List.cons.injEq, Prod.mk.injEq, Tree.num.injEq,
    Tree.bool.injEq, true_and, and_true] at same
  obtain ⟨kind, entries, width, storage⟩ := same
  rw [Registry.published, Registry.published, kind_undoes.injective kind,
    listTree_tells entryTree_tells entries, width_tells width, storage]

end Parts

section Members

def Json.Tree.member? (key : String) : Tree → Option Tree
  | .obj members => members.lookup key
  | _ => none

def Json.Tree.items? : Tree → Option (List Tree)
  | .arr items => some items
  | _ => none

def reported? (t : Tree) : Option (List Tree) := (t.member? "diagnostics").bind Tree.items?

def stageKeys : List String :=
  ["components", "tags", "queryables", "systems", "queries", "schedule"]

/-- A document has an array of diagnostics for each stage, and one of its own that is all of
    them one after the other. -/
def Gathers (document : Tree) : Prop :=
  ∃ stages, stageKeys.mapM (fun key => (document.member? key).bind reported?) = some stages ∧
    reported? document = some stages.flatten

end Members

namespace Report

/-- Two reports tell the same: they differ in nothing but the declarations that own the IDs,
    and not in the names of these. -/
structure SameContent (r s : Report) : Prop where
  limits : r.limits = s.limits
  registries : ∀ kind, (r.plan.registry kind).map Registry.published =
    (s.plan.registry kind).map Registry.published
  queries : r.plan.queries = s.plan.queries
  schedule : r.plan.schedule = s.plan.schedule
  diagnostics : r.diagnostics = s.diagnostics

theorem sameContent_of_tree {r s : Report} (same : r.tree = s.tree) : r.SameContent s := by
  simp only [tree, Tree.obj.injEq, List.cons.injEq, Prod.mk.injEq, true_and, and_true] at same
  obtain ⟨limits, components, tags, queryables, systems, queries, schedule, diagnostics⟩ := same
  have registry : (Outcome.map Registry.published).FactorsThrough (Outcome.tree Registry.tree) :=
    outcomeTree_tells registryTree_tells fun r null => by contradiction
  exact
    { limits := limits_undoes.injective limits
      registries := by
        intro kind
        cases kind with
        | component => exact registry components
        | tag => exact registry tags
        | queryable => exact registry queryables
        | system => exact registry systems
      queries := outcomeTree_injective (listTree_injective compiledQueryTree_injective)
        (fun q null => by contradiction) queries
      schedule := outcomeTree_injective scheduleTree_injective (fun s null => by contradiction)
        schedule
      diagnostics := diagnosticsTree_injective diagnostics }

theorem tree_gathers (r : Report) : Gathers r.tree := by
  refine ⟨[r.plan.components.diagnostics, r.plan.tags.diagnostics, r.plan.queryables.diagnostics,
    r.plan.systems.diagnostics, r.plan.queries.diagnostics, r.plan.schedule.diagnostics].map
      (List.map Diagnostic.record.encode), rfl, ?_⟩
  have all : reported? r.tree = some (r.diagnostics.map Diagnostic.record.encode) := rfl
  rw [all, diagnostics, Plan.diagnostics]
  simp

end Report

/-- Whatever the pass, both layouts of its report are JSON of one tree, which gathers the
    diagnostics of the stages; and reports of one text, in whatever layouts, tell the same. -/
theorem report_tells_pass (r : Report) :
    (∀ pretty, parse (r.text pretty) = some r.tree) ∧ Gathers r.tree ∧
      ∀ (s : Report) (pretty pretty' : Bool), r.text pretty = s.text pretty' →
        r.SameContent s := by
  refine ⟨?_, r.tree_gathers, ?_⟩
  · intro pretty
    exact parse_text (layout_blank pretty) r.tree
  · intro s pretty pretty' same
    have trees := text_injective (layout_blank pretty) (layout_blank pretty') same
    exact Report.sameContent_of_tree trees

/-- Two passes of one text whose components are aligned differently. -/
theorem rocky_report_tells :
    let r := Report.ofSnapshot ⟨{}, [rock, fog], []⟩
    let s := Report.ofSnapshot ⟨{}, [{ rock with alignment := 4 }, fog], []⟩
    r.text true = s.text true ∧ r.SameContent s := by
  intro r s
  have essences : [rock, fog].map TypeDecl.essence =
    [{ rock with alignment := 4 }, fog].map TypeDecl.essence := rfl
  have trees : r.tree = s.tree := by
    rw [← reportTree_essence, essences, reportTree_essence]
  have texts : r.text true = s.text true := by rw [Report.text, Report.text, trees]
  exact ⟨texts, (report_tells_pass r).2.2 s true true texts⟩

end EcsPlan
