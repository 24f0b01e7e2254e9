import EcsPlan.Proofs.Assignments

namespace EcsPlan

section Passes
variable {limits : Limits} {left right : List TypeDecl}

theorem queries_congr (components : ofKind .component left = ofKind .component right)
    (tags : ofKind .tag left = ofKind .tag right) (queries : List QueryDecl) :
    (Plan.make limits left queries).queries = (Plan.make limits right queries).queries := by
  change compileQueries (registry limits left .component) (registry limits left .tag) queries =
    compileQueries (registry limits right .component) (registry limits right .tag) queries
  rw [registry_congr components, registry_congr tags]

theorem schedule_congr (systems : ofKind .system left = ofKind .system right)
    (queries others : List QueryDecl) :
    (Plan.make limits left queries).schedule = (Plan.make limits right others).schedule := by
  change scheduleSystems (registry limits left .system) =
    scheduleSystems (registry limits right .system)
  rw [registry_congr systems]

end Passes

/-- Two passes under the same limits agree on a kind whose declarations they have in common,
    reports included, whatever else is declared. They agree on common queries if they have
    the components and the tags in common, and on the schedule if they have the systems. -/
theorem kinds_isolated (limits : Limits) (left right : List TypeDecl)
    (queries others : List QueryDecl) :
    let p := Plan.make limits left queries
    let q := Plan.make limits right others
    (∀ kind, ofKind kind left = ofKind kind right → p.registry kind = q.registry kind) ∧
      (ofKind .component left = ofKind .component right → ofKind .tag left = ofKind .tag right →
        queries = others → p.queries = q.queries) ∧
      (ofKind .system left = ofKind .system right → p.schedule = q.schedule) := by
  intro p q
  refine ⟨fun kind common => ?_, fun components tags same => ?_, fun systems => ?_⟩
  · rw [plan_registry, plan_registry]
    exact registry_congr common
  · subst same
    exact queries_congr components tags queries
  · exact schedule_congr systems queries others

def hull : TypeDecl := { name := "Hull", kind := .component }

def mast : TypeDecl := { name := "Mast", kind := .component }

def docked : TypeDecl := { name := "Docked", kind := .tag }

theorem crowded_components_leave_tags :
    let p := Plan.make { maxId := 0 } [hull, docked, mast] []
    p.components.isRejected = true ∧ p.tags = (Plan.make { maxId := 0 } [docked] []).tags ∧
      p.tags.value? = some (.ofEntries { maxId := 0 } .tag [⟨docked, 0, .auto⟩]) := by
  intro p
  have crowded : Assigns .component
      (candidatesOf { maxId := 0 } .component [hull, docked, mast])
      [⟨hull, 0, .auto⟩, ⟨mast, 1, .auto⟩] := by decide
  obtain ⟨registries, _⟩ := kinds_isolated { maxId := 0 } [hull, docked, mast] [docked] [] []
  exact ⟨(registry_rejected_iff crowded).mpr (by decide), registries .tag (by decide),
    registry_iff_assigns.mpr ⟨by decide, by decide⟩⟩

end EcsPlan
