import EcsPlan.Proofs.Relations

/-!
Nodes of systems that come in any order. They hold the declared relation and nothing else, so
it makes no difference which of two systems states a relation, where in its list and how often.
A relation with a name that no system bears is reported each time that it is stated.
-/
namespace EcsPlan

/-- The systems in ascending order of their IDs, joined by the relation that they declare. -/
structure HoldsRelation (systems : List Entry) (nodes : List Node) : Prop where
  ascending : (nodes.map (·.id)).Pairwise (· < ·)
  bearers : (nodes.map fun n => (n.id, n.name)).Perm (systems.map fun e => (e.id, e.name))
  edges : ∀ n ∈ nodes, ∀ s ∈ systems, n.id = s.id → ∀ p, p ∈ n.predecessors ↔
    ∃ t ∈ systems, t.id = p ∧ (t.name ∈ s.owner.after ∨ s.name ∈ t.owner.before)

def unlistedWarning (e : Entry) (direction : Direction) (target : String) : Diagnostic where
  code := .unknownSystem
  severity := .warning
  message :=
    s!"system '{e.name}' declares {direction.text} '{target}', which is not a known system; " ++
      "the relation is ignored"
  place := e.owner.place

/-- What is reported of `e`: each mention of an unlisted name, those behind `after` first. -/
def unlistedWarnings (systems : List Entry) (e : Entry) : List Diagnostic :=
  (e.owner.after.filter (· ∉ systems.map Entry.name)).map (unlistedWarning e .after) ++
    (e.owner.before.filter (· ∉ systems.map Entry.name)).map (unlistedWarning e .before)

def Entry.relating (e : Entry) (after before : List String) : Entry :=
  { e with owner := { e.owner with after, before } }

def Entry.turned (first second : UInt32) (before after : List String) (e : Entry) : Entry :=
  e.relating (if e.id = second then after else e.owner.after)
    (if e.id = first then before else e.owner.before)

/-- Another way to say the same: the systems in another order, lists with the same names, or one
    mention of `b` by `a` made a mention of `a` by `b`. -/
inductive Restates : List Entry → List Entry → Prop where
  | shuffled {systems others : List Entry} (perm : systems.Perm others) : Restates systems others
  | alike {systems : List Entry} {after before : Entry → List String}
      (afters : ∀ e ∈ systems, ∀ name, name ∈ after e ↔ name ∈ e.owner.after)
      (befores : ∀ e ∈ systems, ∀ name, name ∈ before e ↔ name ∈ e.owner.before) :
      Restates systems (systems.map fun e => e.relating (after e) (before e))
  | turned {systems : List Entry} {a b : Entry} (front back early late : List String)
      (first : a ∈ systems) (second : b ∈ systems)
      (said : a.owner.before = front ++ b.name :: back) (other : b.owner.after = early ++ late) :
      Restates systems (systems.map (Entry.turned a.id b.id (front ++ back)
        (early ++ a.name :: late)))

section Sorting
variable (systems : List Entry)

theorem sortById_perm : (sortById systems).Perm systems := List.mergeSort_perm _ _

theorem sortById_ascending (ids : (systems.map (·.id)).Nodup) :
    (sortById systems).Pairwise (·.id < ·.id) := by
  have sorted : (sortById systems).Pairwise fun a b => (compareOn Entry.id a b).isLE :=
    mergeSort_ascending _ systems
  have distinct : ((sortById systems).map (·.id)).Nodup :=
    ((sortById_perm systems).map _).nodup_iff.mpr ids
  refine (sorted.and (List.pairwise_map.mp distinct)).imp fun {e f} both => ?_
  exact UInt32.lt_of_le_of_ne (Std.isLE_compare.mp both.1) both.2

theorem systemNodes_sorted (ids : (systems.map (·.id)).Nodup) : systemNodes systems =
    (sortById systems).map fun e => ⟨e.id, e.name, predecessorsOf (precedences systems) e.id⟩ :=
  nodesOf_eq (((sortById_perm systems).map _).nodup_iff.mpr ids)

end Sorting

section Nodes
variable {systems : List Entry} (d : Distinguished systems)
include d

theorem Distinguished.map {f : Entry → Entry} (ids : ∀ e, (f e).id = e.id)
    (names : ∀ e, (f e).name = e.name) : Distinguished (systems.map f) where
  ids := by simpa only [List.map_map, Function.comp_def, ids] using d.ids
  names := by simpa only [List.map_map, Function.comp_def, names] using d.names

theorem systemNodes_hold : HoldsRelation systems (systemNodes systems) where
  ascending := by
    rw [systemNodes_sorted systems d.ids, List.map_map]
    exact List.pairwise_map.mpr (sortById_ascending systems d.ids)
  bearers := by
    rw [systemNodes_sorted systems d.ids, List.map_map]
    exact (sortById_perm systems).map _
  edges := by
    rw [systemNodes_sorted systems d.ids]
    intro n listed s member same p
    obtain ⟨e, inside, rfl⟩ := List.mem_map.mp listed
    obtain rfl := d.eq_of_id ((sortById_perm systems).mem_iff.mp inside) member same
    refine (d.predecessors_iff member).trans ⟨?_, ?_⟩
    · rintro ⟨t, ⟨listed, _, said⟩, rfl⟩
      exact ⟨t, listed, rfl, said⟩
    · rintro ⟨t, listed, rfl, said⟩
      exact ⟨t, ⟨listed, member, said⟩, rfl⟩

theorem predecessors_congr {others : List Entry} (e : Distinguished others) {a b : Entry}
    (left : a ∈ systems) (right : b ∈ others)
    (related : ∀ p, (∃ c, RunsBefore others c b ∧ c.id = p) ↔
      ∃ c, RunsBefore systems c a ∧ c.id = p) :
    predecessorsOf (precedences others) b.id = predecessorsOf (precedences systems) a.id := by
  apply SortedSet.ext_mem
  intro p
  rw [e.predecessors_iff right, d.predecessors_iff left, related p]

theorem systemNodes_map {f : Entry → Entry} (ids : ∀ e, (f e).id = e.id)
    (names : ∀ e, (f e).name = e.name)
    (said : ∀ a ∈ systems, ∀ b ∈ systems,
      (b.name ∈ (f a).owner.after ∨ a.name ∈ (f b).owner.before) ↔
        (b.name ∈ a.owner.after ∨ a.name ∈ b.owner.before)) :
    systemNodes (systems.map f) = systemNodes systems := by
  have e := d.map ids names
  have related : ∀ a ∈ systems, ∀ p, (∃ b, RunsBefore (systems.map f) b (f a) ∧ b.id = p) ↔
      ∃ b, RunsBefore systems b a ∧ b.id = p := by
    intro a member p
    constructor
    · rintro ⟨_, ⟨listed, _, before⟩, rfl⟩
      obtain ⟨b, inside, rfl⟩ := List.mem_map.mp listed
      rw [names, names, said a member b inside] at before
      exact ⟨b, ⟨inside, member, before⟩, (ids b).symm⟩
    · rintro ⟨b, ⟨inside, _, before⟩, rfl⟩
      rw [← said a member b inside, ← names a, ← names b] at before
      exact ⟨f b, ⟨List.mem_map_of_mem inside, List.mem_map_of_mem member, before⟩, ids b⟩
  rw [systemNodes_sorted _ e.ids, systemNodes_sorted _ d.ids, sortById_map ids, List.map_map]
  refine List.map_congr_left fun a sorted => ?_
  have member : a ∈ systems := (sortById_perm systems).mem_iff.mp sorted
  have same := predecessors_congr d e member (List.mem_map_of_mem member) (related a member)
  simp only [Function.comp_apply, ids, names, ← same]

theorem Distinguished.shuffled {others : List Entry} (perm : systems.Perm others) :
    Distinguished others where
  ids := (perm.map _).nodup_iff.mp d.ids
  names := (perm.map _).nodup_iff.mp d.names

theorem systemNodes_shuffled {others : List Entry} (perm : systems.Perm others) :
    systemNodes others = systemNodes systems := by
  have e := d.shuffled perm
  have sorted : sortById others = sortById systems :=
    mergeSort_eq_of_perm (compareOn Entry.id) perm.symm fun a inside b within tie =>
      e.eq_of_id inside within (Std.LawfulEqCmp.eq_of_compare tie)
  have before : ∀ a b, RunsBefore others b a ↔ RunsBefore systems b a := fun a b =>
    and_congr perm.symm.mem_iff (and_congr perm.symm.mem_iff Iff.rfl)
  rw [systemNodes_sorted _ e.ids, systemNodes_sorted _ d.ids, sorted]
  refine List.map_congr_left fun a listed => ?_
  have member : a ∈ systems := (sortById_perm systems).mem_iff.mp listed
  rw [predecessors_congr d e member (perm.mem_iff.mp member) fun p => by simp only [before]]

theorem turned_related {a b : Entry} {front back early late : List String} (first : a ∈ systems)
    (second : b ∈ systems) (said : a.owner.before = front ++ b.name :: back)
    (other : b.owner.after = early ++ late) {x y : Entry} (left : x ∈ systems)
    (right : y ∈ systems) :
    (y.name ∈ (x.turned a.id b.id (front ++ back) (early ++ a.name :: late)).owner.after ∨
        x.name ∈ (y.turned a.id b.id (front ++ back) (early ++ a.name :: late)).owner.before) ↔
      (y.name ∈ x.owner.after ∨ x.name ∈ y.owner.before) := by
  have names : ∀ {e g : Entry}, e ∈ systems → g ∈ systems → e.name = g.name → e = g :=
    fun inside within => List.inj_on_of_nodup_map d.names inside within
  simp only [Entry.turned, Entry.relating]
  by_cases late_one : x.id = b.id <;> by_cases early_one : y.id = a.id
  · obtain rfl := d.eq_of_id left second late_one
    obtain rfl := d.eq_of_id right first early_one
    simp [said]
  · obtain rfl := d.eq_of_id left second late_one
    have apart : y.name ≠ a.name := fun same => early_one (names right first same ▸ rfl)
    simp [early_one, other, apart]
  · obtain rfl := d.eq_of_id right first early_one
    have apart : x.name ≠ b.name := fun same => late_one (names left second same ▸ rfl)
    simp [late_one, said, apart]
  · simp [late_one, early_one]

theorem systemNodes_restated {others : List Entry} (restates : Restates systems others) :
    Distinguished others ∧ systemNodes others = systemNodes systems := by
  cases restates with
  | shuffled perm => exact ⟨d.shuffled perm, systemNodes_shuffled d perm⟩
  | alike afters befores =>
    refine ⟨d.map (fun _ => rfl) (fun _ => rfl),
      systemNodes_map d (fun _ => rfl) (fun _ => rfl) ?_⟩
    intro a inside b within
    exact or_congr (afters a inside b.name) (befores b within a.name)
  | turned _ _ _ _ first second said other =>
    refine ⟨d.map (fun _ => rfl) (fun _ => rfl),
      systemNodes_map d (fun _ => rfl) (fun _ => rfl) ?_⟩
    intro x left y right
    exact turned_related d first second said other left right

theorem systemNodes_reworded {others : List Entry}
    (reworded : Relation.ReflTransGen Restates systems others) :
    Distinguished others ∧ systemNodes others = systemNodes systems := by
  induction reworded with
  | refl => exact ⟨d, rfl⟩
  | tail _ restates ih =>
    obtain ⟨apart, same⟩ := systemNodes_restated ih.1 restates
    exact ⟨apart, same.trans ih.2⟩

end Nodes

theorem nameTable_find?_isNone (systems : List Entry) (name : String) :
    ((nameTable systems).find? name).isNone = decide (name ∉ systems.map Entry.name) := by
  rw [Bool.eq_iff_iff, decide_eq_true_eq, Option.isNone_iff_eq_none, NameTable.find?,
    List.lookup_eq_none_iff]
  simp only [nameTable, List.mem_reverse]
  rw [List.forall_mem_map]
  simp only [bne_iff_ne, List.mem_map, not_exists, not_and]
  exact forall₂_congr fun e _ => ne_comm

theorem unknownRelations_eq (systems : List Entry) :
    unknownRelations systems = systems.flatMap (unlistedWarnings systems) := by
  refine List.flatMap_congr fun e _ => ?_
  simp only [Entry.unknownRelations, Entry.relations, nameTable_find?_isNone, List.filter_append,
    List.filter_map, List.map_append, List.map_map, Function.comp_def]
  rfl

/-- The nodes of systems in any order hold exactly the relation that the systems declare, each
    mention of an unlisted name is reported where it is made, and the nodes stay the same
    however often the relation is said in another way. -/
theorem nodes_hold_relation {systems : List Entry} (distinguished : Distinguished systems) :
    HoldsRelation systems (systemNodes systems) ∧
      unknownRelations systems = systems.flatMap (unlistedWarnings systems) ∧
      ∀ others, Relation.ReflTransGen Restates systems others →
        systemNodes others = systemNodes systems :=
  ⟨systemNodes_hold distinguished, unknownRelations_eq systems,
    fun _ reworded => (systemNodes_reworded distinguished reworded).2⟩

def rainSystem : TypeDecl := { name := "Rain", kind := .system, before := ["Flood", "Flood"] }

def windSystem : TypeDecl :=
  { name := "Wind", kind := .system, after := ["Calm"], before := ["Rain", "Rain"] }

def floodSystem : TypeDecl := { name := "Flood", kind := .system, after := ["Wind"] }

def stormSystems : List Entry :=
  [⟨rainSystem, 7, .manual⟩, ⟨floodSystem, 2, .auto⟩, ⟨windSystem, 0, .auto⟩]

theorem storm_nodes_hold_relation :
    Distinguished stormSystems ∧ HoldsRelation stormSystems (systemNodes stormSystems) ∧
      unknownRelations stormSystems =
        [unlistedWarning ⟨windSystem, 0, .auto⟩ .after "Calm"] ∧
      systemNodes (stormSystems.map (Entry.turned 7 2 ["Flood"] ["Wind", "Rain"])) =
        systemNodes stormSystems := by
  have distinguished : Distinguished stormSystems := ⟨by decide, by decide⟩
  obtain ⟨holds, reported, same⟩ := nodes_hold_relation distinguished
  refine ⟨distinguished, holds, by rw [reported]; decide, same _ (.single ?_)⟩
  exact .turned (a := ⟨rainSystem, 7, .manual⟩) (b := ⟨floodSystem, 2, .auto⟩)
    ["Flood"] [] ["Wind"] [] (by decide) (by decide) rfl rfl

end EcsPlan
