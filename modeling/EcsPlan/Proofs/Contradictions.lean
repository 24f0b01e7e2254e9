import EcsPlan.Proofs.QueryMeaning

/-!
Queries that both require and exclude a name. The warning about such a query is read off its
names, and its masks hold IDs. Names with IDs of their own make both say the same: there is
a warning exactly if a mask requires a bit that it excludes, and then nothing is accepted.
-/
namespace EcsPlan

def NameTable.Distinct (table : NameTable) : Prop :=
  ∀ name other id, table.find? name = some id → table.find? other = some id → name = other

structure NameTables.Distinct (tables : NameTables) : Prop where
  components : tables.components.Distinct
  tags : tables.tags.Distinct

/-- What the query both requires and excludes, in ascending order. -/
structure QueryDecl.Contradicts (q : QueryDecl) (names : List String) : Prop where
  ascending : names.Pairwise (· < ·)
  exact : ∀ name, name ∈ names ↔ name ∈ q.names.all ∧ name ∈ q.names.none

def contradictionWarning (q : QueryDecl) (names : List String) : Diagnostic where
  code := .duplicateUsage
  severity := .warning
  message :=
    "query '" ++ q.name ++ "' both requires and excludes " ++ ", ".intercalate names ++
      "; it will never match"
  place := q.place

def Filter.clashes (masks : Filter Mask) : Bool := masks.all.intersects masks.none

/-- Some bit is both required and excluded, be it of the components or of the tags. -/
def CompiledQuery.clashes (q : CompiledQuery) : Bool := q.components.clashes || q.tags.clashes

theorem apart_of_accepts {masks : Filter Mask} {archetype : Mask}
    (accepted : masks.accepts archetype = true) : masks.clashes = false := by
  simp only [Filter.accepts, Bool.and_eq_true, Bool.not_eq_true'] at accepted
  obtain ⟨⟨required, excluded⟩, _⟩ := accepted
  rw [Filter.clashes, Mask.not_intersects_iff]
  intro j inAll
  apply Bool.eq_false_iff.mpr
  intro inNone
  have carried := Mask.subset_iff.mp required j inAll
  rw [Mask.not_intersects_iff.mp excluded j inNone] at carried
  contradiction

theorem CompiledQuery.rejects_of_clash {q : CompiledQuery} (clash : q.clashes = true)
    (components tags : Mask) : q.accepts components tags = false := by
  apply Bool.eq_false_iff.mpr
  intro accepted
  obtain ⟨inComponents, inTags⟩ := Bool.and_eq_true_iff.mp accepted
  rw [CompiledQuery.clashes, apart_of_accepts inComponents, apart_of_accepts inTags] at clash
  contradiction

section Resolving
variable {tables : NameTables}

theorem resolve_injective (distinct : tables.Distinct) {name other : String} {r : Reference}
    (found : tables.resolve name = some r) (again : tables.resolve other = some r) :
    name = other := by
  cases r with
  | component id =>
    rw [NameTables.resolve_component_iff] at found again
    exact distinct.components name other id found again
  | tag id =>
    rw [NameTables.resolve_tag_iff] at found again
    exact distinct.tags name other id found.2 again.2

theorem space_clashes_iff (distinct : tables.Distinct) (names : Filter (List String))
    {pick : Reference → Option UInt32} {form : UInt32 → Reference}
    (picks : ∀ r id, pick r = some id ↔ r = form id) (v : Mask.Width) :
    ((names.map (tables.picked pick)).masks v).clashes = true ↔
      ∃ name ∈ names.all, name ∈ names.none ∧ ∃ id, tables.resolve name = some (form id) := by
  obtain ⟨all, none, _⟩ := masks_hasBits (names.map (tables.picked pick)) v
  rw [Filter.clashes, all.intersects_iff none]
  simp only [Filter.map, mem_picked picks]
  constructor
  · rintro ⟨id, ⟨name, required, found⟩, other, excluded, again⟩
    obtain rfl := resolve_injective distinct found again
    exact ⟨name, required, excluded, id, found⟩
  · rintro ⟨name, required, excluded, id, found⟩
    exact ⟨id, ⟨name, required, found⟩, name, excluded, found⟩

variable {q : QueryDecl} {r : ResolvedQuery}

theorem clashes_iff (distinct : tables.Distinct) (resolved : q.resolve? tables = some r)
    (v w : Mask.Width) :
    (r.compile v w).clashes = true ↔ ∃ name ∈ q.names.all, name ∈ q.names.none := by
  obtain ⟨known, rfl⟩ := resolved_known resolved
  rw [CompiledQuery.clashes, Bool.or_eq_true]
  refine (or_congr (space_clashes_iff distinct q.names component_picks v)
    (space_clashes_iff distinct q.names tag_picks w)).trans ?_
  constructor
  · rintro (⟨name, required, excluded, _⟩ | ⟨name, required, excluded, _⟩)
    · exact ⟨name, required, excluded⟩
    · exact ⟨name, required, excluded⟩
  · rintro ⟨name, required, excluded⟩
    obtain ⟨found, spelled⟩ := Option.isSome_iff_exists.mp (known name (by simp [required]))
    cases found with
    | component id => exact .inl ⟨name, required, excluded, id, spelled⟩
    | tag id => exact .inr ⟨name, required, excluded, id, spelled⟩

theorem contradicts_contradictions (q : QueryDecl) : q.Contradicts q.contradictions.toList where
  ascending := q.contradictions.ascending.imp compareOfLessAndEq_eq_lt.mp
  exact name := by
    rw [QueryDecl.contradictions, SortedSet.mem_ofList, List.mem_filter, decide_eq_true_eq]

theorem contradictions_isEmpty_iff {q : QueryDecl} :
    q.contradictions.isEmpty = true ↔ ¬ ∃ name ∈ q.names.all, name ∈ q.names.none := by
  rw [SortedSet.isEmpty_iff]
  simp only [(contradicts_contradictions q).exact, not_exists]

/-- The names tell of the clash that the masks have. -/
theorem contradictions_isEmpty_eq (distinct : tables.Distinct)
    (resolved : q.resolve? tables = some r) (v w : Mask.Width) :
    q.contradictions.isEmpty = !(r.compile v w).clashes := by
  rw [Bool.eq_iff_iff, contradictions_isEmpty_iff, Bool.not_eq_true', ← Bool.not_eq_true,
    clashes_iff distinct resolved v w]

end Resolving

theorem visible_distinct (limits : Limits) (declarations : List TypeDecl) (kind : Kind) :
    (visibleNames (registry limits declarations kind)).Distinct := by
  intro name other id found again
  rw [visible_iff] at found again
  obtain ⟨r, accepted, e, member, rfl, rfl⟩ := found
  obtain ⟨s, same, f, others, rfl, bears⟩ := again
  cases accepted.symm.trans same
  rw [(registry_wellNumbered accepted).eq_of_id others member bears]

theorem tables_distinct (limits : Limits) (declarations : List TypeDecl)
    (queries : List QueryDecl) : (Plan.make limits declarations queries).tables.Distinct where
  components := visible_distinct limits declarations .component
  tags := visible_distinct limits declarations .tag

/-- The one thing that a resolved query can be warned of is that its masks clash, whatever
    their widths, and a query that is warned of it accepts no archetype whatever. -/
theorem clash_warned_exactly {tables : NameTables} (distinct : tables.Distinct) {q : QueryDecl}
    {r : ResolvedQuery} (resolved : q.resolve? tables = some r) (v w : Mask.Width) :
    let c := r.compile v w
    (∃ names, q.Contradicts names ∧
      q.reports tables = if c.clashes then [contradictionWarning q names] else []) ∧
    ((∃ d ∈ q.reports tables, d.code = .duplicateUsage) →
      ∀ components tags, c.accepts components tags = false) := by
  intro c
  have raised := reports_of_resolved resolved
  rw [contradictions_isEmpty_eq distinct resolved v w] at raised
  constructor
  · refine ⟨_, contradicts_contradictions q, raised.trans ?_⟩
    cases c.clashes <;> rfl
  · rintro ⟨d, member, _⟩
    have clash : c.clashes = true := by
      by_contra none
      rw [Bool.not_eq_true] at none
      rw [raised, none] at member
      contradiction
    exact CompiledQuery.rejects_of_clash clash

def torpid : QueryDecl := { name := "Torpid", names := ⟨["Speed", "Stunned"], ["Stunned"], []⟩ }

def torpidResolved : ResolvedQuery := ⟨"Torpid", torpid.names.map hinderedPlan.tables.idsOf⟩

theorem hindered_tables : hinderedPlan.tables = ⟨[("Speed", 0)], [("Stunned", 0)]⟩ := by
  simp only [Plan.tables, visibleNames, hindered_components, hindered_tags]
  rfl

theorem torpid_resolved : torpid.resolve? hinderedPlan.tables = some torpidResolved := by
  rw [torpidResolved, hindered_tables]
  decide

theorem torpid_clashes : (torpidResolved.compile .least (.holding 100)).clashes = true := by
  rw [torpidResolved, hindered_tables]
  decide

theorem torpid_warned_exactly : hinderedPlan.tables.Distinct ∧
    torpid.resolve? hinderedPlan.tables = some torpidResolved ∧
    (∃ d ∈ torpid.reports hinderedPlan.tables, d.code = .duplicateUsage) ∧
    ∀ components tags,
      (torpidResolved.compile .least (.holding 100)).accepts components tags = false := by
  have distinct : hinderedPlan.tables.Distinct := tables_distinct _ _ _
  obtain ⟨⟨names, _, raised⟩, rejects⟩ :=
    clash_warned_exactly distinct torpid_resolved .least (.holding 100)
  rw [if_pos torpid_clashes] at raised
  have warned : ∃ d ∈ torpid.reports hinderedPlan.tables, d.code = .duplicateUsage := by
    rw [raised]
    exact ⟨_, List.mem_singleton_self _, rfl⟩
  exact ⟨distinct, torpid_resolved, warned, rejects warned⟩

end EcsPlan
