import EcsPlan.Proofs.Survivors

/-!
Declarations that ask for the IDs they were given. Whether an ID is asked for or
filled in, it is taken, so that the others fill the slots they had. A second pass
then hands out the same IDs and differs in their sources alone.
-/
namespace EcsPlan

/-- The ID that a chosen entry gives to the declaration, else the one it asks for. -/
def pinnedId (chosen : List Entry) (d : TypeDecl) : Option UInt32 :=
  ((chosen.find? (·.owner = d)).map (·.id)).or d.manualId

def TypeDecl.pin (d : TypeDecl) (chosen : List Entry) : TypeDecl := d.asking (pinnedId chosen d)

def Entry.pin (e : Entry) (chosen : List Entry) : Entry :=
  ⟨e.owner.pin chosen, e.id, if e ∈ chosen then .manual else e.source⟩

def Registry.pin (r : Registry) (chosen : List Entry) : Registry :=
  { r with entries := r.entries.map (Entry.pin · chosen) }

section Unchanged
variable (chosen : List Entry)

@[simp] theorem pin_name (d : TypeDecl) : (d.pin chosen).name = d.name := rfl

@[simp] theorem pin_kind (d : TypeDecl) : (d.pin chosen).kind = d.kind := rfl

theorem pin_order (kind : Kind) (d f : TypeDecl) :
    kind.order (d.pin chosen) (f.pin chosen) = kind.order d f := by
  cases kind <;> rfl

theorem pin_ids (entries : List Entry) :
    (entries.map (Entry.pin · chosen)).map (·.id) = entries.map (·.id) := by
  rw [List.map_map]
  rfl

theorem pin_nameTable (entries : List Entry) :
    nameTable (entries.map (Entry.pin · chosen)) = nameTable entries := by
  rw [nameTable, List.map_map]
  rfl

theorem pinnedId_of_others {d : TypeDecl} (others : ∀ e ∈ chosen, e.owner ≠ d) :
    pinnedId chosen d = d.manualId := by
  have nobody : chosen.find? (·.owner = d) = none := by simpa using others
  rw [pinnedId, nobody]
  rfl

theorem pin_auto {e : Entry} (auto : (e.pin chosen).source = .auto) : e.source = .auto := by
  by_cases inside : e ∈ chosen
  · rw [Entry.pin, if_pos inside] at auto
    contradiction
  · rwa [Entry.pin, if_neg inside] at auto

theorem schedule_pin (entries : List Entry) :
    schedule (entries.map (Entry.pin · chosen)) = schedule entries := by
  apply schedule_map
  · exact fun e => rfl
  · exact fun e => pin_name chosen e.owner
  · exact fun e _ => rfl
  · exact fun e _ => rfl

end Unchanged

namespace Assigns
variable {kind : Kind} {candidates : List TypeDecl} {entries chosen : List Entry}
  (a : Assigns kind candidates entries) (names : (candidates.map (·.name)).Nodup)
  (sub : chosen ⊆ entries)
include a names sub

theorem pinnedId_of_chosen {e : Entry} (member : e ∈ chosen) :
    pinnedId chosen e.owner = some e.id := by
  cases found : chosen.find? (·.owner = e.owner) with
  | none =>
    have nobody := List.find?_eq_none.mp found e member
    simp at nobody
  | some f =>
    have owns : f.owner = e.owner := by simpa using List.find?_some found
    have inside := sub (List.mem_of_find?_eq_some found)
    rw [pinnedId, found, a.eq_of_owner names inside (sub member) owns]
    rfl

theorem pinnedId_iff {d : TypeDecl} {id : UInt32} : pinnedId chosen d = some id ↔
    d.manualId = some id ∨ ∃ e ∈ chosen, e.source = .auto ∧ e.owner = d ∧ e.id = id := by
  by_cases found : ∃ e ∈ chosen, e.owner = d
  · obtain ⟨e, member, rfl⟩ := found
    rw [a.pinnedId_of_chosen names sub member, a.asked e (sub member), asked_eq_some,
      Option.some.injEq]
    constructor
    · intro same
      cases source : e.source with
      | manual => exact .inl ⟨rfl, same⟩
      | auto => exact .inr ⟨e, member, source, rfl, same⟩
    · rintro (⟨_, same⟩ | ⟨f, inside, _, owns, same⟩)
      · exact same
      · rwa [a.eq_of_owner names (sub inside) (sub member) owns] at same
  · have others : ∀ e ∈ chosen, e.owner ≠ d := fun e member owns => found ⟨e, member, owns⟩
    rw [pinnedId_of_others chosen others]
    constructor
    · exact .inl
    · rintro (asks | ⟨e, member, _, owns, _⟩)
      · exact asks
      · exact False.elim (others e member owns)

theorem pin_asked {e : Entry} (member : e ∈ entries) :
    (e.pin chosen).owner.manualId = (e.pin chosen).asked := by
  apply Option.ext
  intro id
  change pinnedId chosen e.owner = some id ↔ _
  rw [a.pinnedId_iff names sub, a.asked e member, asked_eq_some, asked_eq_some]
  constructor
  · rintro (⟨manual, same⟩ | ⟨f, inside, _, owner, same⟩)
    · simp [Entry.pin, manual, same]
    · have one := a.eq_of_owner names (sub inside) member owner
      subst one
      simp [Entry.pin, inside, same]
  · rintro ⟨source, same⟩
    by_cases inside : e ∈ chosen
    · cases own : e.source with
      | manual => exact .inl ⟨rfl, same⟩
      | auto => exact .inr ⟨e, inside, own, rfl, same⟩
    · rw [Entry.pin, if_neg inside] at source
      exact .inl ⟨source, same⟩

section Free
variable (free : ∀ e ∈ chosen, e.source = .auto →
  ∀ d ∈ candidates, d ≠ e.owner → d.manualId ≠ some e.id)
include free

theorem pinned_apart {d x : TypeDecl} (inside : d ∈ candidates) (other : x ∈ candidates)
    {id : UInt32} (asks : pinnedId chosen d = some id) (same : pinnedId chosen x = some id)
    (apart : x ≠ d) : d.manualId = some id ∧ x.manualId = some id := by
  rw [a.pinnedId_iff names sub] at asks same
  rcases asks with asks | ⟨e, chosenE, auto, rfl, held⟩
  · rcases same with same | ⟨f, chosenF, auto, rfl, held⟩
    · exact ⟨asks, same⟩
    · rw [← held] at asks
      exact False.elim (free f chosenF auto d inside apart.symm asks)
  · rcases same with same | ⟨f, chosenF, _, rfl, again⟩
    · rw [← held] at same
      exact False.elim (free e chosenE auto x other apart same)
    · have one : f = e :=
        (a.wellNumbered names).eq_of_id (sub chosenF) (sub chosenE) (again.trans held.symm)
      exact False.elim (apart (congrArg Entry.owner one))

theorem uncontested_pin {d : TypeDecl} (inside : d ∈ candidates) :
    uncontested (candidates.map (TypeDecl.pin · chosen)) (d.pin chosen) =
      uncontested candidates d := by
  have nodup := names.of_map
  have pinned : (candidates.map (TypeDecl.pin · chosen)).Nodup := by
    apply List.Nodup.of_map TypeDecl.name
    rw [List.map_map]
    exact names
  rw [Bool.eq_iff_iff, uncontested_iff_alone pinned (List.mem_map_of_mem inside),
    uncontested_iff_alone nodup inside]
  constructor
  · intro alone id asks x other same
    have first := (a.pinnedId_iff names sub).mpr (.inl asks)
    have second := (a.pinnedId_iff names sub).mpr (.inl same)
    have one := alone id first (x.pin chosen) (List.mem_map_of_mem other) second
    have named : x.name = d.name := by simpa using congrArg TypeDecl.name one
    exact List.inj_on_of_nodup_map names other inside named
  · intro alone id asks y pinnedY same
    obtain ⟨x, other, rfl⟩ := List.mem_map.mp pinnedY
    by_cases one : x = d
    · rw [one]
    · have before := a.pinned_apart names sub free inside other asks same one
      exact False.elim (one (alone id before.1 x other before.2))

theorem pin : Assigns kind (candidates.map (TypeDecl.pin · chosen))
    (entries.map (Entry.pin · chosen)) where
  ascending := List.pairwise_map.mpr a.ascending
  owners := by
    have kept : candidates.filter (uncontested (candidates.map (TypeDecl.pin · chosen)) ∘
        (TypeDecl.pin · chosen)) = candidates.filter (uncontested candidates) :=
      List.filter_congr fun d inside => a.uncontested_pin names sub free inside
    have owned := a.owners.map (TypeDecl.pin · chosen)
    rw [List.map_map] at owned ⊢
    rw [List.filter_map, kept]
    exact owned
  asked e pinned := by
    obtain ⟨f, member, rfl⟩ := List.mem_map.mp pinned
    exact a.pin_asked names sub member
  -- fewer are filled in, in the order and at the slots that they had
  ordered := by
    have part : (ofSource .auto (entries.map (Entry.pin · chosen))).Sublist
        ((ofSource .auto entries).map (Entry.pin · chosen)) := by
      rw [ofSource, List.filter_map]
      apply List.Sublist.map
      apply List.monotone_filter_right
      intro e auto
      exact decide_eq_true (pin_auto chosen (of_decide_eq_true auto))
    refine List.Pairwise.sublist part (List.pairwise_map.mpr (a.ordered.imp ?_))
    intro e f before
    exact (congrArg Ordering.isLE (pin_order chosen kind e.owner f.owner)).trans before
  dense e pinned slot below := by
    obtain ⟨inside, auto⟩ := mem_ofSource.mp pinned
    obtain ⟨f, member, rfl⟩ := List.mem_map.mp inside
    have filled := mem_ofSource.mpr ⟨member, pin_auto chosen auto⟩
    rw [List.map_map]
    exact a.dense f filled slot below

end Free
end Assigns

section Passes
variable {limits : Limits} {declarations : List TypeDecl} {queries : List QueryDecl}
  {kind : Kind} {r : Registry} {chosen : List Entry}
  (accepted : (registry limits declarations kind).value? = some r) (sub : chosen ⊆ r.entries)
include accepted sub

theorem pin_sound (d : TypeDecl) : (d.pin chosen).sound limits = d.sound limits := by
  obtain ⟨_, a, below⟩ := registry_assigns accepted
  have names := candidate_names_nodup limits kind declarations
  have asks : (∀ id, (d.pin chosen).manualId = some id → id ≤ limits.maxId) ↔
      ∀ id, d.manualId = some id → id ≤ limits.maxId := by
    constructor
    · exact fun all id asks => all id ((a.pinnedId_iff names sub).mpr (.inl asks))
    · intro all id pinned
      rcases (a.pinnedId_iff names sub).mp pinned with asks | ⟨e, member, _, _, rfl⟩
      · exact all id asks
      · exact below e (sub member)
  rw [Bool.eq_iff_iff]
  calc (d.pin chosen).sound limits = true
      ↔ (d.asking none).sound {} = true ∧
          ∀ id, (d.pin chosen).manualId = some id → id ≤ limits.maxId := sound_iff
    _ ↔ (d.asking none).sound {} = true ∧
          ∀ id, d.manualId = some id → id ≤ limits.maxId := and_congr_right fun _ => asks
    _ ↔ d.sound limits = true := sound_iff.symm

theorem registry_pin_other {other : Kind} (apart : other ≠ kind) :
    registry limits (declarations.map (TypeDecl.pin · chosen)) other =
      registry limits declarations other := by
  obtain ⟨_, a, _⟩ := registry_assigns accepted
  apply registry_congr
  rw [ofKind_map fun d => pin_kind chosen d]
  refine (List.map_congr_left fun d own => ?_).trans (List.map_id _)
  have others : ∀ e ∈ chosen, e.owner ≠ d := by
    intro e member owns
    have candidate := (a.mem_owners.mp ⟨e, sub member, owns⟩).1
    have kindly := (mem_ofKind.mp (candidate_of_kind candidate)).2
    exact apart ((mem_ofKind.mp own).2.symm.trans kindly)
  rw [TypeDecl.pin, pinnedId_of_others chosen others]
  rfl

section Free
variable (free : ∀ e ∈ chosen, e.source = .auto →
  ∀ d ∈ candidatesOf limits kind declarations, d ≠ e.owner → d.manualId ≠ some e.id)
include free

theorem registry_pin : (registry limits (declarations.map (TypeDecl.pin · chosen)) kind).value? =
    some (r.pin chosen) := by
  obtain ⟨form, a, below⟩ := registry_assigns accepted
  have names := candidate_names_nodup limits kind declarations
  have pinned : r.pin chosen =
      .ofEntries limits kind (r.entries.map (Entry.pin · chosen)) := by
    rw [Registry.ofEntries, pin_ids, Registry.pin, form]
    rfl
  rw [pinned, registry_iff_assigns, candidatesOf_map (fun d => pin_name chosen d)
    (fun d => pin_kind chosen d) fun d _ => pin_sound accepted sub d]
  refine ⟨a.pin names sub free, fun e member => ?_⟩
  obtain ⟨f, inside, rfl⟩ := List.mem_map.mp member
  exact below f inside

theorem visible_pin (other : Kind) :
    visibleNames (registry limits (declarations.map (TypeDecl.pin · chosen)) other) =
        visibleNames (registry limits declarations other) ∧
      visibleWidth (registry limits (declarations.map (TypeDecl.pin · chosen)) other) =
        visibleWidth (registry limits declarations other) := by
  by_cases same : other = kind
  · subst same
    rw [visibleNames, visibleNames, visibleWidth, visibleWidth, accepted,
      registry_pin accepted sub free]
    exact ⟨pin_nameTable chosen r.entries, rfl⟩
  · rw [registry_pin_other accepted sub same]
    exact ⟨rfl, rfl⟩

theorem compileQueries_pin (queries : List QueryDecl) :
    compileQueries (registry limits (declarations.map (TypeDecl.pin · chosen)) .component)
        (registry limits (declarations.map (TypeDecl.pin · chosen)) .tag) queries =
      compileQueries (registry limits declarations .component)
        (registry limits declarations .tag) queries := by
  have components := visible_pin accepted sub free .component
  have tags := visible_pin accepted sub free .tag
  simp only [compileQueries, components, tags]

theorem scheduleSystems_pin :
    scheduleSystems (registry limits (declarations.map (TypeDecl.pin · chosen)) .system) =
      scheduleSystems (registry limits declarations .system) := by
  by_cases same : Kind.system = kind
  · subst same
    rw [scheduleSystems, scheduleSystems, accepted, registry_pin accepted sub free]
    exact schedule_pin chosen r.entries
  · rw [registry_pin_other accepted sub same]

end Free
end Passes

/-- Declarations may be given for good what a pass has handed out to them, as long as
    nobody else asks for an ID that was filled in. -/
theorem pass_of_pinned {limits : Limits} {declarations : List TypeDecl}
    {queries : List QueryDecl} {kind : Kind} {r : Registry} {chosen : List Entry}
    (accepted : ((Plan.make limits declarations queries).registry kind).value? = some r)
    (sub : chosen ⊆ r.entries)
    (free : ∀ e ∈ chosen, e.source = .auto →
      ∀ d ∈ candidatesOf limits kind declarations, d ≠ e.owner → d.manualId ≠ some e.id) :
    let plan := Plan.make limits declarations queries
    let again := Plan.make limits (declarations.map (TypeDecl.pin · chosen)) queries
    (∀ e ∈ chosen, declarations.count e.owner = 1 ∧
        e.owner.pin chosen = e.owner.asking (some e.id)) ∧
      (again.registry kind).value? = some (r.pin chosen) ∧
      (r.pin chosen).table = r.table ∧
      (∀ other ≠ kind, again.registry other = plan.registry other) ∧
      again.queries = plan.queries ∧ again.schedule = plan.schedule := by
  intro plan again
  rw [plan_registry] at accepted
  obtain ⟨_, a, _⟩ := registry_assigns accepted
  have names := candidate_names_nodup limits kind declarations
  refine ⟨fun e member => ⟨?_, ?_⟩, ?_, pin_nameTable chosen r.entries, fun other apart => ?_,
    compileQueries_pin accepted sub free queries, scheduleSystems_pin accepted sub free⟩
  · exact candidate_count (a.mem_owners.mp ⟨e, sub member, rfl⟩).1
  · rw [TypeDecl.pin, a.pinnedId_of_chosen names sub member]
  · rw [plan_registry]
    exact registry_pin accepted sub free
  · rw [plan_registry, plan_registry]
    exact registry_pin_other accepted sub apart

def anchored : QueryDecl := { name := "Anchored", names := ⟨["Mass"], ["Kite"], []⟩ }

theorem gusty_accepted : ((Plan.make {} gusty [anchored]).registry .component).value? =
    some (.ofEntries {} .component gustyEntries) := by
  rw [plan_registry]
  exact gusty_registry

theorem gusty_pass_of_pinned :
    let again := Plan.make {} (gusty.map (TypeDecl.pin · [⟨kite, 1, .auto⟩])) [anchored]
    (again.registry .component).value? =
        some (.ofEntries {} .component [⟨mass, 0, .auto⟩,
          ⟨{ kite with manualId := some 1 }, 1, .manual⟩]) ∧
      again.queries = (Plan.make {} gusty [anchored]).queries := by
  intro again
  obtain ⟨_, here, _, _, queries, _⟩ := pass_of_pinned gusty_accepted
    (by decide : [⟨kite, 1, .auto⟩] ⊆ gustyEntries) (by decide)
  exact ⟨here.trans (by decide), queries⟩

/-- Two others ask for the 0 of `mass`. It is granted to none of them, nor to `mass` if that
    asks as well. -/
example : ¬ Assigns .component (gusty.map (TypeDecl.pin · [⟨mass, 0, .auto⟩]))
    (gustyEntries.map (Entry.pin · [⟨mass, 0, .auto⟩])) := by
  decide

end EcsPlan
