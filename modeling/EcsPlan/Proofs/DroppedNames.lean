import EcsPlan.Proofs.QueryMasks
import EcsPlan.Proofs.Survivors

/-!
Names of dropped types in queries. Names are resolved against the IDs that were given, so a
query that names a dropped type is dropped as well, and reported. There is one way out:
a component and a tag may bear one name, and where the one is dropped the name is taken
for the other. The query is then lost for its other names only.
-/
namespace EcsPlan

/-- The two kinds that queries refer to, either beside the other, and how a query refers
    to a type of the other. -/
inductive Rivals : Kind → Kind → (UInt32 → Reference) → Prop where
  | tag : Rivals .component .tag .tag
  | component : Rivals .tag .component .component

/-- Why a declaration of the kind has no ID: it is unsound, it shares its name, it contests
    an ID, or its kind is rejected. -/
def Lost (limits : Limits) (declarations : List TypeDecl) (kind : Kind) (d : TypeDecl) : Prop :=
  d.sound limits = false ∨ isShared (soundOf limits kind declarations) d.name = true ∨
    uncontested (candidatesOf limits kind declarations) d = false ∨
    (registry limits declarations kind).isRejected = true

namespace Plan

/-- A type of the kind is declared by the name, but none of them was given an ID. -/
structure Drops (p : Plan) (declarations : List TypeDecl) (kind : Kind) (name : String) :
    Prop where
  declared : ∃ d ∈ ofKind kind declarations, d.name = name
  unnumbered : ∀ d ∈ ofKind kind declarations, d.name = name → p.numbers d = false

/-- An error lists the name among those that the query names in vain. -/
def ReportsUnknown (p : Plan) (q : QueryDecl) (name : String) : Prop :=
  ∃ names, name ∈ names ∧ missedReport q names ∈ p.queries.diagnostics

end Plan

section Passes
variable {limits : Limits} {declarations : List TypeDecl} {queries : List QueryDecl} {p : Plan}
  {kind rival : Kind} {form : UInt32 → Reference} {name : String} {q : QueryDecl}
variable (made : p = .make limits declarations queries)
include made

theorem numbers_iff_kept {d : TypeDecl} (own : d ∈ ofKind kind declarations) :
    p.numbers d = true ↔ (d.sound limits = true ∧
      isShared (soundOf limits kind declarations) d.name = false) ∧
        uncontested (candidatesOf limits kind declarations) d = true ∧
          (registry limits declarations kind).isRejected = false := by
  have kindly := (mem_ofKind.mp own).2
  have candidate : d ∈ candidatesOf limits kind declarations ↔ d.sound limits = true ∧
      isShared (soundOf limits kind declarations) d.name = false := by
    rw [mem_candidatesOf, soundOf, List.mem_filter, and_iff_right own]
  rw [← candidate, Outcome.not_isRejected_iff]
  cases accepted : (registry limits declarations kind).value? with
  | none => simp [Plan.numbers, made, plan_registry, kindly, accepted]
  | some r =>
    rw [numbers_iff made accepted kindly, (registry_assigns accepted).2.1.mem_owners]
    simp

theorem numbers_eq_false_iff {d : TypeDecl} (own : d ∈ ofKind kind declarations) :
    p.numbers d = false ↔ Lost limits declarations kind d := by
  rw [← Bool.not_eq_true, numbers_iff_kept made own]
  simp only [Lost, not_and_or, Bool.not_eq_true, Bool.not_eq_false, or_assoc]

theorem dropped_unnumbered (dropped : p.Drops declarations kind name) (id : UInt32) :
    ¬ (p.registry kind).Numbers name id := by
  rintro ⟨r, accepted, e, member, named, -⟩
  rw [made, plan_registry] at accepted
  have own : e.owner ∈ ofKind kind declarations := by
    have a := (registry_assigns accepted).2.1
    exact candidate_of_kind (a.mem_owners.mp ⟨e, member, rfl⟩).1
  have numbered := (numbers_iff made accepted (mem_ofKind.mp own).2).mpr ⟨e, member, rfl⟩
  rw [dropped.unnumbered e.owner own named] at numbered
  contradiction

theorem drops_of_unsound (declared : ∃ d ∈ ofKind kind declarations, d.name = name)
    (unsound : ∀ d ∈ ofKind kind declarations, d.sound limits = false) :
    p.Drops declarations kind name where
  declared := declared
  unnumbered d own _ := (numbers_eq_false_iff made own).mpr (.inl (unsound d own))

omit made in
theorem knows_iff_rival (rivals : Rivals kind rival form)
    (without : ∀ id, ¬ (p.registry kind).Numbers name id) :
    p.Knows name ↔ ∃ id, (p.registry rival).Numbers name id := by
  cases rivals with
  | tag => exact or_iff_right fun ⟨id, numbered⟩ => without id numbered
  | component => exact or_iff_left fun ⟨id, numbered⟩ => without id numbered

theorem resolve_rival (rivals : Rivals kind rival form)
    (without : ∀ id, ¬ (p.registry kind).Numbers name id) {id : UInt32}
    (numbered : (p.registry rival).Numbers name id) :
    p.tables.resolve name = some (form id) := by
  cases rivals with
  | tag =>
    have isTag : ¬ p.IsComponent name := fun ⟨i, component⟩ => without i component
    exact (resolve_tag_iff made).mpr ⟨isTag, numbered⟩
  | component => exact (resolve_component_iff made).mpr numbered

theorem compile?_eq_none_iff :
    p.compile? q = none ↔ ∃ name ∈ q.mentions, ¬ p.Knows name := by
  rw [← Option.not_isSome_iff_eq_none, compile?_isSome_iff made]
  simp only [not_forall, exists_prop]

theorem unknown_reported (member : q ∈ queries) (named : name ∈ q.mentions)
    (unknown : ¬ p.Knows name) : p.ReportsUnknown q name := by
  have lost := (compile?_eq_none_iff made).mpr ⟨name, named, unknown⟩
  have raised := unknown_reports p q
  rw [lost, Option.isSome_none, if_neg Bool.false_ne_true] at raised
  have reported := List.mem_of_mem_filter (raised.symm ▸ List.mem_singleton_self _)
  rw [Plan.ReportsUnknown, queries_diagnostics made]
  exact ⟨_, ((misses_unresolved made).exact name).mpr ⟨named, unknown⟩,
    List.mem_flatMap.mpr ⟨q, member, reported⟩⟩

end Passes

/-- A query that names a dropped type is lost and reported, unless the other kind has
    given an ID to the name. The name then stands for the type of that kind, and the query
    is lost only if it names something else in vain. -/
theorem query_of_dropped_name {limits : Limits} {declarations : List TypeDecl}
    {queries : List QueryDecl} {kind rival : Kind} {form : UInt32 → Reference}
    (rivals : Rivals kind rival form) {name : String}
    (dropped : (Plan.make limits declarations queries).Drops declarations kind name)
    {q : QueryDecl} (member : q ∈ queries) (named : name ∈ q.mentions) :
    let p := Plan.make limits declarations queries
    p.queries.value? = some (queries.filterMap p.compile?) ∧
      (∀ d ∈ ofKind kind declarations, d.name = name → Lost limits declarations kind d) ∧
      ((∀ id, ¬ (p.registry rival).Numbers name id) →
        p.compile? q = none ∧ p.ReportsUnknown q name) ∧
      (∀ id, (p.registry rival).Numbers name id → p.tables.resolve name = some (form id)) ∧
      (p.compile? q = none ↔ (∀ id, ¬ (p.registry rival).Numbers name id) ∨
        ∃ other ∈ q.mentions, other ≠ name ∧ ¬ p.Knows other) := by
  intro p
  have without := dropped_unnumbered rfl dropped
  have known : p.Knows name ↔ ∃ id, (p.registry rival).Numbers name id :=
    knows_iff_rival rivals without
  refine ⟨queries_value rfl, ?_, ?_, fun id => resolve_rival rfl rivals without, ?_⟩
  · intro d own same
    exact (numbers_eq_false_iff rfl own).mp (dropped.unnumbered d own same)
  · intro neither
    have unknown : ¬ p.Knows name := fun knows =>
      let ⟨id, numbered⟩ := known.mp knows
      neither id numbered
    exact ⟨(compile?_eq_none_iff rfl).mpr ⟨name, named, unknown⟩,
      unknown_reported rfl member named unknown⟩
  · rw [compile?_eq_none_iff rfl, ← not_exists, ← known]
    constructor
    · rintro ⟨other, mentioned, unknown⟩
      by_cases same : other = name
      · exact .inl (same ▸ unknown)
      · exact .inr ⟨other, mentioned, same, unknown⟩
    · rintro (unknown | ⟨other, mentioned, -, unknown⟩)
      · exact ⟨name, named, unknown⟩
      · exact ⟨other, mentioned, unknown⟩

def wetness : TypeDecl := { name := "Wet", kind := .component, wellFormed := false }

def wet : TypeDecl := { name := "Wet", kind := .tag }

def soaked : QueryDecl := { name := "Soaked", names := ⟨["Wet"], [], []⟩ }

theorem soaked_query_lost :
    let p := Plan.make {} [wetness] [soaked]
    p.Drops [wetness] .component "Wet" ∧ "Wet" ∈ soaked.mentions ∧
      p.compile? soaked = none ∧ p.ReportsUnknown soaked "Wet" := by
  intro p
  have dropped : p.Drops [wetness] .component "Wet" :=
    drops_of_unsound rfl (by decide) (by decide)
  have noTags : p.tags.value? = some (.ofEntries {} .tag []) :=
    registry_iff_assigns.mpr ⟨by decide, by decide⟩
  have neither : ∀ id, ¬ p.tags.Numbers "Wet" id := by
    rintro id ⟨r, accepted, e, member, _⟩
    rw [noTags] at accepted
    cases accepted
    contradiction
  obtain ⟨_, _, lost, _⟩ :=
    query_of_dropped_name .tag dropped (List.mem_singleton_self soaked) (by decide)
  exact ⟨dropped, by decide, lost neither⟩

/-- Not every query that names a dropped type is lost. -/
theorem dropped_name_resolves :
    ¬ ∀ (limits : Limits) (declarations : List TypeDecl) (queries : List QueryDecl),
      ∀ q ∈ queries, ∀ kind, kind = .component ∨ kind = .tag → ∀ name ∈ q.mentions,
        (Plan.make limits declarations queries).Drops declarations kind name →
          (Plan.make limits declarations queries).compile? q = none := by
  intro always
  have dropped : (Plan.make {} [wetness, wet] [soaked]).Drops [wetness, wet] .component "Wet" :=
    drops_of_unsound rfl (by decide) (by decide)
  have lost := always {} [wetness, wet] [soaked] soaked (List.mem_singleton_self _) .component
    (.inl rfl) "Wet" (by decide) dropped
  have tags : (registry {} [wetness, wet] .tag).value? =
      some (.ofEntries {} .tag [⟨wet, 0, .auto⟩]) :=
    registry_iff_assigns.mpr ⟨by decide, by decide⟩
  obtain ⟨name, named, unknown⟩ := (compile?_eq_none_iff rfl).mp lost
  have same : name = "Wet" := by simpa [QueryDecl.mentions, soaked] using named
  subst same
  exact unknown (.inr ⟨0, _, tags, _, List.mem_singleton_self _, rfl, rfl⟩)

end EcsPlan
