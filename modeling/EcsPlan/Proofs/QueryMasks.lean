import EcsPlan.Proofs.Assignments
import EcsPlan.Proofs.Losses

namespace EcsPlan

def QueryDecl.mentions (q : QueryDecl) : List String :=
  q.names.all ++ q.names.none ++ q.names.any

structure Mask.Holds (m : Mask) (width : Mask.Width) (ids : UInt32 → Prop) : Prop where
  width : m.width = width
  bits : ∀ j, m.bit j = true ↔ ∃ id, ids id ∧ id.toNat = j

/-- Masks of one width that hold the IDs which the names of each part stand for. -/
structure Filter.Holds (masks : Filter Mask) (width : Mask.Width) (names : Filter (List String))
    (spells : String → UInt32 → Prop) : Prop where
  all : masks.all.Holds width fun id => ∃ name ∈ names.all, spells name id
  none : masks.none.Holds width fun id => ∃ name ∈ names.none, spells name id
  any : masks.any.Holds width fun id => ∃ name ∈ names.any, spells name id

namespace Plan

def Knows (p : Plan) (name : String) : Prop :=
  p.IsComponent name ∨ ∃ id, p.tags.Numbers name id

/-- The compiled form of a query. A name that is a component has no bit among the tags. -/
structure Compiles (p : Plan) (q : QueryDecl) (c : CompiledQuery) : Prop where
  known : ∀ name ∈ q.mentions, p.Knows name
  name : c.name = q.name
  components : c.components.Holds (visibleWidth p.components) q.names p.components.Numbers
  tags : c.tags.Holds (visibleWidth p.tags) q.names fun name id =>
    ¬ p.IsComponent name ∧ p.tags.Numbers name id

/-- What the query names without an ID, in ascending order. -/
structure Misses (p : Plan) (q : QueryDecl) (names : List String) : Prop where
  ascending : names.Pairwise (· < ·)
  exact : ∀ name, name ∈ names ↔ name ∈ q.mentions ∧ ¬ p.Knows name

end Plan

def missedReport (q : QueryDecl) (names : List String) : Diagnostic where
  code := .unknownReference
  severity := .error
  message :=
    "query '" ++ q.name ++ "' references " ++ ", ".intercalate names ++ ", which " ++
      (if names.length = 1 then "is" else "are") ++ " not a valid component or tag"
  place := q.place

section Masks
variable {width : Mask.Width} {ids : UInt32 → Prop}

theorem Mask.Holds.unique {m n : Mask} (left : m.Holds width ids) (right : n.Holds width ids) :
    m = n := by
  apply Mask.ext_bit (left.width.trans right.width.symm)
  intro j
  exact Bool.eq_iff_iff.mpr ((left.bits j).trans (right.bits j).symm)

theorem Filter.Holds.unique {masks others : Filter Mask} {names : Filter (List String)}
    {spells : String → UInt32 → Prop} (left : masks.Holds width names spells)
    (right : others.Holds width names spells) : masks = others := by
  have all := left.all.unique right.all
  have none := left.none.unique right.none
  have any := left.any.unique right.any
  cases masks; cases others
  simp_all

theorem Mask.ofBits_holds {l : List UInt32} (same : ∀ id, id ∈ l ↔ ids id)
    (room : ∀ id ∈ l, id.toNat < width.bits) : (Mask.ofBits width l).Holds width ids where
  width := Mask.ofBits_width width l
  bits j := by
    rw [Mask.ofBits_hasBits_of_room room]
    simp only [same]

theorem Plan.Misses.unique {p : Plan} {q : QueryDecl} {names others : List String}
    (left : p.Misses q names) (right : p.Misses q others) : names = others :=
  left.ascending.eq_of_mem_iff right.ascending fun name =>
    (left.exact name).trans (right.exact name).symm

theorem Filter.masks_hold {lists : Filter (List UInt32)} {names : Filter (List String)}
    {spells : String → UInt32 → Prop} (pick : List String → List UInt32)
    (picks : ∀ l id, id ∈ pick l ↔ ∃ name ∈ l, spells name id)
    (formed : lists = names.map pick)
    (room : ∀ name id, spells name id → id.toNat < width.bits) :
    (lists.masks width).Holds width names spells := by
  have inside : ∀ l, ∀ id ∈ pick l, id.toNat < width.bits := by
    intro l id member
    obtain ⟨name, _, spelled⟩ := (picks l id).mp member
    exact room name id spelled
  have narrow : ∀ id ∈ lists.all ++ lists.none ++ lists.any, id.toNat < width.bits := by
    intro id member
    subst formed
    simp only [Filter.map, List.mem_append] at member
    rcases member with (all | none) | any
    · exact inside _ id all
    · exact inside _ id none
    · exact inside _ id any
  rw [masks_of_room narrow]
  subst formed
  exact ⟨Mask.ofBits_holds (picks _) (inside _), Mask.ofBits_holds (picks _) (inside _),
    Mask.ofBits_holds (picks _) (inside _)⟩

end Masks

theorem unknown_reports (p : Plan) (q : QueryDecl) :
    (q.reports p.tables).filter (·.code = .unknownReference) =
      if (p.compile? q).isSome then [] else
        [missedReport q (q.unresolved p.tables).toList] := by
  have warned : (if q.contradictions.isEmpty then [] else
      [(Finding.contradiction q.name q.contradictions.toList q.place).diagnostic]).filter
        (·.code = .unknownReference) = [] := by
    split <;> rfl
  rw [QueryDecl.reports, List.filter_append, warned, List.nil_append, compile?_isSome,
    QueryDecl.resolve?]
  split <;> rfl

section Passes
variable {limits : Limits} {declarations : List TypeDecl} {queries : List QueryDecl} {p : Plan}
  {q : QueryDecl}
variable (made : p = .make limits declarations queries)
include made

theorem resolve_isSome_iff {name : String} :
    (p.tables.resolve name).isSome = true ↔ p.Knows name := by
  rw [Option.isSome_iff_exists]
  constructor
  · intro resolved
    obtain ⟨r, found⟩ := resolved
    cases r with
    | component id => exact .inl ⟨id, (resolve_component_iff made).mp found⟩
    | tag id => exact .inr ⟨id, ((resolve_tag_iff made).mp found).2⟩
  · intro known
    by_cases component : p.IsComponent name
    · obtain ⟨id, numbered⟩ := component
      exact ⟨_, (resolve_component_iff made).mpr numbered⟩
    · obtain ⟨id, numbered⟩ := known.resolve_left component
      exact ⟨_, (resolve_tag_iff made).mpr ⟨component, numbered⟩⟩

theorem compile?_isSome_iff :
    (p.compile? q).isSome = true ↔ ∀ name ∈ q.mentions, p.Knows name := by
  rw [compile?_isSome, QueryDecl.resolve?]
  simp only [← resolve_isSome_iff made]
  rw [QueryDecl.mentions, ← unresolved_isEmpty_iff]
  split <;> simp_all

theorem registry_room (kind : Kind) {name : String} {id : UInt32}
    (numbered : (p.registry kind).Numbers name id) :
    id.toNat < (visibleWidth (p.registry kind)).bits := by
  rw [made, plan_registry] at numbered ⊢
  exact numbered_room numbered

theorem compiled_holds {c : CompiledQuery} (compiled : p.compile? q = some c) :
    p.Compiles q c := by
  obtain ⟨known, rfl⟩ := compiled_known compiled
  refine ⟨fun name member => (resolve_isSome_iff made).mp (known name member), rfl, ?_, ?_⟩
  · refine Filter.masks_hold (p.tables.picked Reference.component?) (fun l id => ?_) rfl
      fun name id => registry_room made .component
    simp only [← resolve_component_iff made]
    exact mem_picked component_picks
  · refine Filter.masks_hold (p.tables.picked Reference.tag?) (fun l id => ?_) rfl
      fun name id spelled => registry_room made .tag spelled.2
    simp only [← resolve_tag_iff made]
    exact mem_picked tag_picks

/-- The compiled form of a query is determined by what it has to hold. -/
theorem compile?_iff {c : CompiledQuery} : p.compile? q = some c ↔ p.Compiles q c := by
  constructor
  · exact compiled_holds made
  · intro holds
    obtain ⟨d, compiled⟩ :=
      Option.isSome_iff_exists.mp ((compile?_isSome_iff made).mpr holds.known)
    have other := compiled_holds made compiled
    have components := other.components.unique holds.components
    have tags := other.tags.unique holds.tags
    have name := other.name.trans holds.name.symm
    rw [compiled]
    cases c; cases d
    simp_all

theorem misses_unresolved : p.Misses q (q.unresolved p.tables).toList where
  ascending := (q.unresolved p.tables).ascending.imp compareOfLessAndEq_eq_lt.mp
  exact name := by
    rw [← resolve_isSome_iff made, QueryDecl.unresolved, SortedSet.mem_ofList, List.mem_filter,
      Option.not_isSome_iff_eq_none, Option.isNone_iff_eq_none]
    rfl

end Passes

/-- A pass compiles the queries whose names all have an ID, in the order in which they are
    declared and each to the masks of these IDs. For any other query it reports once what
    the query names in vain. -/
theorem queries_compiled_exactly (limits : Limits) (declarations : List TypeDecl)
    (queries : List QueryDecl) :
    let p := Plan.make limits declarations queries
    p.queries.value? = some (queries.filterMap p.compile?) ∧
      (∀ q c, p.compile? q = some c ↔ p.Compiles q c) ∧
      (∀ q, (p.compile? q).isSome = true ↔ ∀ name ∈ q.mentions, p.Knows name) ∧
      p.queries.diagnostics = queries.flatMap (QueryDecl.reports p.tables) ∧
      ∀ q, ∃ names, p.Misses q names ∧
        (q.reports p.tables).filter (·.code = .unknownReference) =
          if (p.compile? q).isSome then [] else [missedReport q names] := by
  intro p
  refine ⟨queries_value rfl, fun q c => compile?_iff rfl, fun q => compile?_isSome_iff rfl,
    queries_diagnostics rfl, fun q => ?_⟩
  exact ⟨_, misses_unresolved rfl, unknown_reports p q⟩

def damp : TypeDecl := { name := "Damp", kind := .tag }

def steeped : QueryDecl where
  name := "Steeped"
  names := ⟨["Soggy", "Damp"], ["Brine"], ["Soggy"]⟩

def moist : QueryDecl := { name := "Moist", names := ⟨["Damp"], [], []⟩ }

theorem damp_tables :
    (Plan.make {} [damp] [steeped, moist]).tables = ⟨[], [("Damp", 0)]⟩ := by
  have components : (Plan.make {} [damp] [steeped, moist]).components.value? =
      some (.ofEntries {} .component []) := registry_iff_assigns.mpr ⟨by decide, by decide⟩
  have tags : (Plan.make {} [damp] [steeped, moist]).tags.value? =
      some (.ofEntries {} .tag [⟨damp, 0, .auto⟩]) :=
    registry_iff_assigns.mpr ⟨by decide, by decide⟩
  simp only [Plan.tables, visibleNames, components, tags]
  rfl

/-- Two names are missed, one of them twice, and the other query is compiled. -/
theorem steeped_query_misses :
    let p := Plan.make {} [damp] [steeped, moist]
    (∃ c, p.queries.value? = some [c] ∧ p.Compiles moist c) ∧
      p.Misses steeped ["Brine", "Soggy"] ∧
      (steeped.reports p.tables).filter (·.code = .unknownReference) =
        [⟨.unknownReference, .error, "query 'Steeped' references " ++
          "Brine, Soggy, which are not a valid component or tag", none⟩] := by
  intro p
  obtain ⟨value, compiled, known, _, reported⟩ :=
    queries_compiled_exactly {} [damp] [steeped, moist]
  have missed : p.Misses steeped ["Brine", "Soggy"] := by
    have unresolved : (steeped.unresolved p.tables).toList = ["Brine", "Soggy"] := by
      rw [damp_tables]
      decide
    exact unresolved ▸ misses_unresolved rfl
  have lost : p.compile? steeped = none := by
    rw [← Option.not_isSome_iff_eq_none, known]
    intro all
    exact ((missed.exact "Soggy").mp (by decide)).2 (all "Soggy" (by decide))
  have kept : (p.compile? moist).isSome = true := by
    rw [compile?_isSome, damp_tables]
    decide
  obtain ⟨c, made⟩ := Option.isSome_iff_exists.mp kept
  obtain ⟨names, misses, report⟩ := reported steeped
  obtain rfl := misses.unique missed
  rw [lost] at report
  refine ⟨⟨c, ?_, (compiled moist c).mp made⟩, missed, report⟩
  rw [value, List.filterMap_cons_none lost, List.filterMap_cons_some made, List.filterMap_nil]

end EcsPlan
