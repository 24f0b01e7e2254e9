import EcsPlan.Proofs.MaskBits
import EcsPlan.Proofs.Registers

/-!
What a compiled query asks of an archetype. A query declares one filter over names;
its masks ask it of the components and of the tags apart. Both readings agree for
what is required and what is excluded. An `any` that names components and tags is
asked of each of them, and so of more archetypes than it was declared to reject.
-/
namespace EcsPlan

def Outcome.Numbers (o : Outcome Registry) (name : String) (id : UInt32) : Prop :=
  ∃ r, o.value? = some r ∧ ∃ e ∈ r.entries, e.name = name ∧ e.id = id

/-- What an archetype is made of. -/
structure Archetype where
  components : List UInt32
  tags : List UInt32
  deriving DecidableEq, Repr

namespace Plan

def tables (p : Plan) : NameTables := ⟨visibleNames p.components, visibleNames p.tags⟩

def compile? (p : Plan) (q : QueryDecl) : Option CompiledQuery :=
  (q.resolve? p.tables).map (·.compile (visibleWidth p.components) (visibleWidth p.tags))

def accepts (p : Plan) (c : CompiledQuery) (a : Archetype) : Bool :=
  c.accepts (.ofBits (visibleWidth p.components) a.components)
    (.ofBits (visibleWidth p.tags) a.tags)

def Admits (p : Plan) (a : Archetype) : Prop :=
  (∀ id ∈ a.components, ∃ name, p.components.Numbers name id) ∧
    ∀ id ∈ a.tags, ∃ name, p.tags.Numbers name id

def IsComponent (p : Plan) (name : String) : Prop := ∃ id, p.components.Numbers name id

/-- A name that is a component stands for the component alone. -/
def Carries (p : Plan) (a : Archetype) (name : String) : Prop :=
  (∃ id, p.components.Numbers name id ∧ id ∈ a.components) ∨
    ¬ p.IsComponent name ∧ ∃ id, p.tags.Numbers name id ∧ id ∈ a.tags

/-- The meaning of a query as it is declared. -/
def Fits (p : Plan) (q : QueryDecl) (a : Archetype) : Prop :=
  (∀ name ∈ q.names.all, p.Carries a name) ∧ (∀ name ∈ q.names.none, ¬ p.Carries a name) ∧
    (q.names.any = [] ∨ ∃ name ∈ q.names.any, p.Carries a name)

/-- Something that `any` names is carried, but nothing that it names in the one of
    the two spaces. -/
def Torn (p : Plan) (q : QueryDecl) (a : Archetype) : Prop :=
  (∃ name ∈ q.names.any, p.Carries a name) ∧
    ∃ other ∈ q.names.any, ∀ name ∈ q.names.any,
      (p.IsComponent name ↔ p.IsComponent other) → ¬ p.Carries a name

end Plan

section Registers
variable {limits : Limits} {declarations : List TypeDecl} {kind : Kind}

theorem visible_iff {name : String} {id : UInt32} :
    (visibleNames (registry limits declarations kind)).find? name = some id ↔
      (registry limits declarations kind).Numbers name id := by
  unfold Outcome.Numbers visibleNames
  cases accepted : (registry limits declarations kind).value? with
  | none => simp [NameTable.find?]
  | some r =>
    simp only [Option.map_some, Option.getD_some, Option.some.injEq, exists_eq_left']
    exact (registry_wellNumbered accepted).find?_iff

theorem numbered_room {name : String} {id : UInt32}
    (numbered : (registry limits declarations kind).Numbers name id) :
    id.toNat < (visibleWidth (registry limits declarations kind)).bits := by
  obtain ⟨r, accepted, e, member, _, rfl⟩ := numbered
  obtain ⟨_, rfl⟩ := registry_value accepted
  simp only [visibleWidth, accepted, Option.map_some, Option.getD_some, Registry.ofEntries]
  exact Mask.Width.ofIds_room (List.mem_map_of_mem member)

end Registers

section Spaces
variable {tables : NameTables} {names : Filter (List String)} {form : UInt32 → Reference}

/-- A filter asked of the names of one space alone. -/
def Asks (names : Filter (List String)) (space carries : String → Prop) : Prop :=
  (∀ name ∈ names.all, space name → carries name) ∧
    (∀ name ∈ names.none, space name → ¬ carries name) ∧
    ((∃ name ∈ names.any, space name) → ∃ name ∈ names.any, space name ∧ carries name)

theorem asks_congr {left right carries : String → Prop}
    (same : ∀ name ∈ names.all ++ names.none ++ names.any, (left name ↔ right name)) :
    Asks names left carries ↔ Asks names right carries := by
  have all : ∀ name ∈ names.all, (left name ↔ right name) := fun name member =>
    same name (by simp [member])
  have none : ∀ name ∈ names.none, (left name ↔ right name) := fun name member =>
    same name (by simp [member])
  have any : ∀ name ∈ names.any, (left name ↔ right name) := fun name member =>
    same name (by simp [member])
  refine and_congr (forall₂_congr fun name member => imp_congr_left (all name member))
    (and_congr (forall₂_congr fun name member => imp_congr_left (none name member)) ?_)
  refine imp_congr (exists_congr fun name => and_congr_right fun member => any name member)
    (exists_congr fun name => and_congr_right fun member => ?_)
  rw [any name member]

theorem asks_both_iff {space carries : String → Prop} :
    Asks names space carries ∧ Asks names (¬ space ·) carries ↔
      (∀ name ∈ names.all, carries name) ∧ (∀ name ∈ names.none, ¬ carries name) ∧
        ∀ other ∈ names.any, ∃ name ∈ names.any, (space name ↔ space other) ∧ carries name := by
  constructor
  · intro apart
    obtain ⟨⟨all, none, any⟩, all', none', any'⟩ := apart
    refine ⟨fun name member => ?_, fun name member => ?_, fun other listed => ?_⟩
    · by_cases inside : space name
      · exact all name member inside
      · exact all' name member inside
    · by_cases inside : space name
      · exact none name member inside
      · exact none' name member inside
    · by_cases inside : space other
      · obtain ⟨name, member, same, met⟩ := any ⟨other, listed, inside⟩
        exact ⟨name, member, iff_of_true same inside, met⟩
      · obtain ⟨name, member, same, met⟩ := any' ⟨other, listed, inside⟩
        exact ⟨name, member, iff_of_false same inside, met⟩
  · intro whole
    obtain ⟨all, none, any⟩ := whole
    refine ⟨⟨fun name member _ => all name member, fun name member _ => none name member, ?_⟩,
      fun name member _ => all name member, fun name member _ => none name member, ?_⟩
    · intro named
      obtain ⟨other, listed, inside⟩ := named
      obtain ⟨name, member, same, met⟩ := any other listed
      exact ⟨name, member, same.mpr inside, met⟩
    · intro named
      obtain ⟨other, listed, outside⟩ := named
      obtain ⟨name, member, same, met⟩ := any other listed
      exact ⟨name, member, fun inside => outside (same.mp inside), met⟩

theorem NameTables.resolve_component_iff {name : String} {id : UInt32} :
    tables.resolve name = some (.component id) ↔ tables.components.find? name = some id := by
  rw [NameTables.resolve]
  cases tables.components.find? name <;> simp

theorem NameTables.resolve_tag_iff {name : String} {id : UInt32} :
    tables.resolve name = some (.tag id) ↔
      (∀ i, tables.components.find? name ≠ some i) ∧ tables.tags.find? name = some id := by
  rw [NameTables.resolve]
  cases tables.components.find? name <;> simp

def NameTables.picked (tables : NameTables) (pick : Reference → Option UInt32)
    (names : List String) : List UInt32 :=
  (SortedSet.ofList ((names.filterMap tables.resolve).filterMap pick)).toList

theorem mem_picked {pick : Reference → Option UInt32}
    (picks : ∀ r id, pick r = some id ↔ r = form id) {names : List String} {id : UInt32} :
    id ∈ tables.picked pick names ↔ ∃ name ∈ names, tables.resolve name = some (form id) := by
  simp only [NameTables.picked, SortedSet.mem_ofList, List.mem_filterMap, picks]
  constructor
  · intro picked
    obtain ⟨r, ⟨name, member, found⟩, rfl⟩ := picked
    exact ⟨name, member, found⟩
  · intro spells
    obtain ⟨name, member, found⟩ := spells
    exact ⟨_, ⟨name, member, found⟩, rfl⟩

theorem component_picks (r : Reference) (id : UInt32) :
    r.component? = some id ↔ r = .component id := by
  cases r <;> simp [Reference.component?]

theorem tag_picks (r : Reference) (id : UInt32) : r.tag? = some id ↔ r = .tag id := by
  cases r <;> simp [Reference.tag?]

theorem forall_spelled_iff {names : List String} {carries : String → Prop}
    {held : UInt32 → Prop}
    (spelled : ∀ name id, tables.resolve name = some (form id) → (carries name ↔ held id)) :
    (∀ id, (∃ name ∈ names, tables.resolve name = some (form id)) → held id) ↔
      ∀ name ∈ names, (∃ id, tables.resolve name = some (form id)) → carries name := by
  constructor
  · intro all name member spells
    obtain ⟨id, found⟩ := spells
    exact (spelled name id found).mpr (all id ⟨name, member, found⟩)
  · intro all id picked
    obtain ⟨name, member, found⟩ := picked
    exact (spelled name id found).mp (all name member ⟨id, found⟩)

theorem exists_spelled_iff {names : List String} {carries : String → Prop}
    {held : UInt32 → Prop}
    (spelled : ∀ name id, tables.resolve name = some (form id) → (carries name ↔ held id)) :
    (∃ id, (∃ name ∈ names, tables.resolve name = some (form id)) ∧ held id) ↔
      ∃ name ∈ names, (∃ id, tables.resolve name = some (form id)) ∧ carries name := by
  constructor
  · intro met
    obtain ⟨id, ⟨name, member, found⟩, inside⟩ := met
    exact ⟨name, member, ⟨id, found⟩, (spelled name id found).mpr inside⟩
  · intro met
    obtain ⟨name, member, ⟨id, found⟩, carried⟩ := met
    exact ⟨id, ⟨name, member, found⟩, (spelled name id found).mp carried⟩

theorem none_spelled_iff {names : List String} :
    (∀ id, ¬ ∃ name ∈ names, tables.resolve name = some (form id)) ↔
      ¬ ∃ name ∈ names, ∃ id, tables.resolve name = some (form id) := by
  constructor
  · intro nothing named
    obtain ⟨name, member, id, found⟩ := named
    exact nothing id ⟨name, member, found⟩
  · intro nothing id picked
    obtain ⟨name, member, found⟩ := picked
    exact nothing ⟨name, member, id, found⟩

/-- The masks of one space ask the filter of the names that stand in this space. -/
theorem space_accepts_iff (tables : NameTables) (names : Filter (List String))
    {pick : Reference → Option UInt32} (picks : ∀ r id, pick r = some id ↔ r = form id)
    {carried : List UInt32} {v w : Mask.Width} (inside : ∀ id ∈ carried, id.toNat < w.bits)
    {carries : String → Prop}
    (spelled : ∀ name id, tables.resolve name = some (form id) → (carries name ↔ id ∈ carried)) :
    ((names.map (tables.picked pick)).masks v).accepts (.ofBits w carried) = true ↔
      Asks names (fun name => ∃ id, tables.resolve name = some (form id)) carries := by
  have excluded : ∀ name id, tables.resolve name = some (form id) →
      (¬ carries name ↔ id ∉ carried) := fun name id found => not_congr (spelled name id found)
  rw [masks_accepts_iff v (Mask.ofBits_hasBits_of_room inside)]
  simp only [Filter.map, List.eq_nil_iff_forall_not_mem, mem_picked picks, Asks,
    forall_spelled_iff spelled, forall_spelled_iff excluded, exists_spelled_iff spelled,
    none_spelled_iff]
  rw [← imp_iff_not_or]

end Spaces

theorem unresolved_isEmpty_iff {tables : NameTables} {q : QueryDecl} :
    (q.unresolved tables).isEmpty = true ↔
      ∀ name ∈ q.names.all ++ q.names.none ++ q.names.any,
        (tables.resolve name).isSome = true := by
  rw [SortedSet.isEmpty_iff]
  simp only [QueryDecl.unresolved, SortedSet.mem_ofList, List.mem_filter, not_and,
    Option.isNone_iff_eq_none, Option.isSome_iff_ne_none, ne_eq]

theorem resolved_known {tables : NameTables} {q : QueryDecl} {r : ResolvedQuery}
    (resolved : q.resolve? tables = some r) :
    (∀ name ∈ q.names.all ++ q.names.none ++ q.names.any,
      (tables.resolve name).isSome = true) ∧ r = ⟨q.name, q.names.map tables.idsOf⟩ := by
  unfold QueryDecl.resolve? at resolved
  split at resolved
  · rename_i known
    cases resolved
    exact ⟨unresolved_isEmpty_iff.mp known, rfl⟩
  · contradiction

theorem reports_of_resolved {tables : NameTables} {q : QueryDecl} {r : ResolvedQuery}
    (resolved : q.resolve? tables = some r) :
    q.reports tables = if q.contradictions.isEmpty then [] else
      [(Finding.contradiction q.name q.contradictions.toList q.place).diagnostic] := by
  have known := unresolved_isEmpty_iff.mpr (resolved_known resolved).1
  rw [QueryDecl.reports, if_pos known, List.append_nil]

theorem compiled_known {p : Plan} {q : QueryDecl} {c : CompiledQuery}
    (compiled : p.compile? q = some c) :
    (∀ name ∈ q.names.all ++ q.names.none ++ q.names.any,
      (p.tables.resolve name).isSome = true) ∧
    c = (ResolvedQuery.mk q.name (q.names.map p.tables.idsOf)).compile
      (visibleWidth p.components) (visibleWidth p.tags) := by
  obtain ⟨r, resolved, rfl⟩ := Option.map_eq_some_iff.mp compiled
  obtain ⟨known, rfl⟩ := resolved_known resolved
  exact ⟨known, rfl⟩

section Passes
variable {limits : Limits} {declarations : List TypeDecl} {queries : List QueryDecl} {p : Plan}
variable (made : p = .make limits declarations queries)
include made

theorem visible_component_iff {name : String} {id : UInt32} :
    (visibleNames p.components).find? name = some id ↔ p.components.Numbers name id := by
  subst made
  exact visible_iff

theorem visible_tag_iff {name : String} {id : UInt32} :
    (visibleNames p.tags).find? name = some id ↔ p.tags.Numbers name id := by
  subst made
  exact visible_iff

theorem resolve_component_iff {name : String} {id : UInt32} :
    p.tables.resolve name = some (.component id) ↔ p.components.Numbers name id := by
  rw [← visible_component_iff made, NameTables.resolve_component_iff]
  rfl

theorem resolve_tag_iff {name : String} {id : UInt32} :
    p.tables.resolve name = some (.tag id) ↔
      ¬ p.IsComponent name ∧ p.tags.Numbers name id := by
  simp only [Plan.IsComponent, ← visible_component_iff made, ← visible_tag_iff made,
    NameTables.resolve_tag_iff, not_exists]
  rfl

theorem component_carried {a : Archetype} {name : String} {id : UInt32}
    (found : p.tables.resolve name = some (.component id)) :
    p.Carries a name ↔ id ∈ a.components := by
  have numbered := (resolve_component_iff made).mp found
  constructor
  · intro carries
    rcases carries with ⟨i, other, inside⟩ | ⟨tag, _⟩
    · rw [← resolve_component_iff made, found] at other
      cases other
      exact inside
    · exact False.elim (tag ⟨id, numbered⟩)
  · intro inside
    exact .inl ⟨id, numbered, inside⟩

theorem tag_carried {a : Archetype} {name : String} {id : UInt32}
    (found : p.tables.resolve name = some (.tag id)) : p.Carries a name ↔ id ∈ a.tags := by
  have numbered := (resolve_tag_iff made).mp found
  constructor
  · intro carries
    rcases carries with ⟨i, component, _⟩ | ⟨tag, i, other, inside⟩
    · exact False.elim (numbered.1 ⟨i, component⟩)
    · have again := (resolve_tag_iff made).mpr ⟨tag, other⟩
      rw [found] at again
      cases again
      exact inside
  · intro inside
    exact .inr ⟨numbered.1, id, numbered.2, inside⟩

theorem queries_value :
    p.queries.value? = some (queries.filterMap p.compile?) := by
  subst made
  change (compileQueries _ _ queries).value? = _
  rw [compileQueries, Outcome.usable_value?, List.map_filterMap]
  rfl

theorem queries_diagnostics :
    p.queries.diagnostics = queries.flatMap (QueryDecl.reports p.tables) := by
  subst made
  exact Outcome.usable_diagnostics _ _

theorem known_tag {name : String} (known : (p.tables.resolve name).isSome = true) :
    (∃ id, p.tables.resolve name = some (.tag id)) ↔ ¬ p.IsComponent name := by
  obtain ⟨r, found⟩ := Option.isSome_iff_exists.mp known
  constructor
  · intro spelled
    obtain ⟨id, tag⟩ := spelled
    exact ((resolve_tag_iff made).mp tag).1
  · intro tag
    cases r with
    | component id => exact False.elim (tag ⟨id, (resolve_component_iff made).mp found⟩)
    | tag id => exact ⟨id, found⟩

theorem admitted_room {a : Archetype} (admitted : p.Admits a) :
    (∀ id ∈ a.components, id.toNat < (visibleWidth p.components).bits) ∧
      ∀ id ∈ a.tags, id.toNat < (visibleWidth p.tags).bits := by
  subst made
  constructor
  · intro id member
    obtain ⟨name, numbered⟩ := admitted.1 id member
    exact numbered_room numbered
  · intro id member
    obtain ⟨name, numbered⟩ := admitted.2 id member
    exact numbered_room numbered

/-- A compiled query asks its filter of the components and of the tags apart. -/
theorem accepts_asks {q : QueryDecl} {c : CompiledQuery} (compiled : p.compile? q = some c)
    {a : Archetype} (admitted : p.Admits a) :
    p.accepts c a = true ↔ Asks q.names p.IsComponent (p.Carries a) ∧
      Asks q.names (¬ p.IsComponent ·) (p.Carries a) := by
  -- a compiled query names nothing unknown, so what is no component is a tag
  obtain ⟨known, rfl⟩ := compiled_known compiled
  obtain ⟨componentRoom, tagRoom⟩ := admitted_room made admitted
  have components := space_accepts_iff p.tables q.names component_picks componentRoom
    (v := visibleWidth p.components) fun name id found => component_carried made (a := a) found
  have tags := space_accepts_iff p.tables q.names tag_picks tagRoom
    (v := visibleWidth p.tags) fun name id found => tag_carried made (a := a) found
  rw [Plan.accepts, CompiledQuery.accepts, Bool.and_eq_true]
  refine and_congr (components.trans (asks_congr fun name _ => ?_))
    (tags.trans (asks_congr fun name member => known_tag made (known name member)))
  exact exists_congr fun id => resolve_component_iff made

theorem accepts_iff_fits {q : QueryDecl} {c : CompiledQuery}
    (compiled : p.compile? q = some c) {a : Archetype} (admitted : p.Admits a) :
    p.accepts c a = true ↔ p.Fits q a ∧ ¬ p.Torn q a := by
  rw [accepts_asks made compiled admitted, asks_both_iff, Plan.Fits, and_assoc, and_assoc]
  refine and_congr_right fun _ => and_congr_right fun _ => ?_
  constructor
  · intro met
    constructor
    · apply or_iff_not_imp_left.mpr
      intro named
      obtain ⟨other, listed⟩ := List.exists_mem_of_ne_nil _ named
      obtain ⟨name, member, _, carried⟩ := met other listed
      exact ⟨name, member, carried⟩
    · intro torn
      obtain ⟨_, other, listed, missed⟩ := torn
      obtain ⟨name, member, same, carried⟩ := met other listed
      exact missed name member same carried
  · intro fits other listed
    rcases fits with ⟨empty | carried, whole⟩
    · simp [empty] at listed
    · by_contra missed
      exact whole ⟨carried, other, listed, fun name member same met =>
        missed ⟨name, member, same, met⟩⟩

end Passes

/-- A compiled query accepts the archetypes that it is declared to accept, save those
    that its alternative is torn between. -/
theorem compiled_query_meaning {limits : Limits} {declarations : List TypeDecl}
    {queries : List QueryDecl} {p : Plan} (made : p = .make limits declarations queries)
    {q : QueryDecl} {c : CompiledQuery} (compiled : p.compile? q = some c)
    {a : Archetype} (admitted : p.Admits a) :
    p.queries.value? = some (queries.filterMap p.compile?) ∧
      (p.accepts c a = true ↔ p.Fits q a ∧ ¬ p.Torn q a) ∧
      ((p.accepts c a = true ↔ p.Fits q a) ↔ ¬ (p.Fits q a ∧ p.Torn q a)) ∧
      ((∀ name ∈ q.names.any, ∀ other ∈ q.names.any,
          (p.IsComponent name ↔ p.IsComponent other)) →
        (p.accepts c a = true ↔ p.Fits q a)) := by
  have accepts := accepts_iff_fits made compiled admitted
  refine ⟨queries_value made, accepts, ?_, fun pure => ?_⟩
  · rw [accepts]
    tauto
  · rw [accepts, and_iff_left_iff_imp]
    intro _ torn
    obtain ⟨⟨name, member, carried⟩, other, listed, missed⟩ := torn
    exact missed name member (pure name member other listed) carried

def speed : TypeDecl := { name := "Speed", kind := .component }

def stunned : TypeDecl := { name := "Stunned", kind := .tag }

def hindered : QueryDecl := { name := "Hindered", names := ⟨[], [], ["Speed", "Stunned"]⟩ }

def hinderedPlan : Plan := .make {} [speed, stunned] [hindered]

def firstOfAny : Filter Mask := ⟨.empty .least, .empty .least, .ofBits .least [0]⟩

theorem hindered_components : hinderedPlan.components.value? =
    some ⟨.component, [⟨speed, 0, .auto⟩], .least, false⟩ := by
  decide +kernel

theorem hindered_tags : hinderedPlan.tags.value? =
    some ⟨.tag, [⟨stunned, 0, .auto⟩], .least, false⟩ := by
  decide +kernel

theorem hindered_compiled : hinderedPlan.compile? hindered =
    some ⟨"Hindered", firstOfAny, firstOfAny⟩ := by
  simp only [Plan.compile?, Plan.tables, visibleNames, visibleWidth, hindered_components,
    hindered_tags]
  decide

theorem speed_numbered : hinderedPlan.components.Numbers "Speed" 0 :=
  ⟨_, hindered_components, _, List.mem_singleton_self _, rfl, rfl⟩

theorem speed_admitted : hinderedPlan.Admits ⟨[0], []⟩ := by
  constructor
  · intro id member
    rw [List.mem_singleton.mp member]
    exact ⟨"Speed", speed_numbered⟩
  · intro id member
    contradiction

theorem hindered_query_meaning :
    hinderedPlan.compile? hindered = some ⟨"Hindered", firstOfAny, firstOfAny⟩ ∧
      hinderedPlan.Admits ⟨[0], []⟩ ∧
      (hinderedPlan.accepts ⟨"Hindered", firstOfAny, firstOfAny⟩ ⟨[0], []⟩ = true ↔
        hinderedPlan.Fits hindered ⟨[0], []⟩ ∧ ¬ hinderedPlan.Torn hindered ⟨[0], []⟩) :=
  ⟨hindered_compiled, speed_admitted,
    (compiled_query_meaning rfl hindered_compiled speed_admitted).2.1⟩

/-- Not every compiled query accepts what it is declared to accept. -/
theorem torn_query_differs :
    ¬ ∀ (limits : Limits) (declarations : List TypeDecl) (queries : List QueryDecl),
      ∀ q ∈ queries, ∀ c, (Plan.make limits declarations queries).compile? q = some c →
        ∀ a, (Plan.make limits declarations queries).Admits a →
          ((Plan.make limits declarations queries).accepts c a = true ↔
            (Plan.make limits declarations queries).Fits q a) := by
  intro always
  have agree := always {} [speed, stunned] [hindered] hindered (List.mem_singleton_self _) _
    hindered_compiled ⟨[0], []⟩ speed_admitted
  have carried : hinderedPlan.Carries ⟨[0], []⟩ "Speed" :=
    .inl ⟨0, speed_numbered, List.mem_singleton_self 0⟩
  have fits : hinderedPlan.Fits hindered ⟨[0], []⟩ := by
    refine ⟨?_, ?_, .inr ⟨"Speed", by decide, carried⟩⟩
    · intro name member
      contradiction
    · intro name member
      contradiction
  have passed : hinderedPlan.accepts ⟨"Hindered", firstOfAny, firstOfAny⟩ ⟨[0], []⟩ = true :=
    agree.mpr fits
  simp only [Plan.accepts, visibleWidth, hindered_components, hindered_tags] at passed
  revert passed
  decide

end EcsPlan
