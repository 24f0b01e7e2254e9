import EcsPlan.Proofs.Registers

namespace EcsPlan

/-- `b` has to run before `a`: `a` says so by `after`, or `b` by `before`. -/
def RunsBefore (entries : List Entry) (b a : Entry) : Prop :=
  b ∈ entries ∧ a ∈ entries ∧ (b.name ∈ a.owner.after ∨ a.name ∈ b.owner.before)

theorem mem_relations {e : Entry} {direction : Direction} {target : String} :
    (direction, target) ∈ e.relations ↔
      (direction = .after ∧ target ∈ e.owner.after) ∨
        (direction = .before ∧ target ∈ e.owner.before) := by
  cases direction <;> simp [Entry.relations]

theorem mem_predecessorsOf {relation : List Precedes} {id p : UInt32} :
    p ∈ (predecessorsOf relation id).toList ↔ ⟨p, id⟩ ∈ relation := by
  simp only [predecessorsOf, SortedSet.mem_ofList, List.mem_map, List.mem_filter,
    decide_eq_true_eq]
  constructor
  · intro found
    obtain ⟨⟨first, second⟩, ⟨member, rfl⟩, rfl⟩ := found
    exact member
  · intro member
    exact ⟨⟨p, id⟩, ⟨member, rfl⟩, rfl⟩

theorem nodesOf_eq {relation : List Precedes} {entries : List Entry}
    (ids : (entries.map (·.id)).Nodup) :
    nodesOf relation entries =
      entries.map fun e => ⟨e.id, e.name, predecessorsOf relation e.id⟩ := by
  induction entries with
  | nil => rfl
  | cons e rest ih =>
    obtain ⟨fresh, tail⟩ := List.nodup_cons.mp ids
    have alone : rest.any (·.id = e.id) = false := by
      rw [List.any_eq_false]
      intro f member same
      exact fresh (List.mem_map.mpr ⟨f, member, by simpa using same⟩)
    simp [nodesOf, alone, ih tail]

theorem sortById_eq {entries : List Entry} (w : WellNumbered entries) :
    sortById entries = entries := by
  apply List.mergeSort_of_pairwise
  apply w.ascending.imp
  intro a b lt
  rw [Std.isLE_compare]
  exact UInt32.le_of_lt lt

theorem systemNodes_eq {entries : List Entry} (w : WellNumbered entries) :
    systemNodes entries =
      entries.map fun e => ⟨e.id, e.name, predecessorsOf (precedences entries) e.id⟩ := by
  rw [systemNodes, sortById_eq w, nodesOf_eq w.ids_nodup]

/-- Entries in any order, each with an ID and a name of its own. -/
structure Distinguished (entries : List Entry) : Prop where
  ids : (entries.map (·.id)).Nodup
  names : (entries.map Entry.name).Nodup

theorem WellNumbered.distinguished {entries : List Entry} (w : WellNumbered entries) :
    Distinguished entries := ⟨w.ids_nodup, w.names⟩

namespace Distinguished
variable {entries : List Entry}

theorem mem_precedences (d : Distinguished entries) {p i : UInt32} :
    ⟨p, i⟩ ∈ precedences entries ↔
      ∃ b a, RunsBefore entries b a ∧ b.id = p ∧ a.id = i := by
  simp only [precedences, List.mem_flatMap, List.mem_filterMap]
  constructor
  · intro given
    obtain ⟨e, member, ⟨direction, target⟩, declared, found⟩ := given
    cases direction with
    | after =>
      obtain ⟨q, known, eq⟩ := Option.map_eq_some_iff.mp found
      obtain ⟨f, other, rfl, rfl⟩ := (nameTable_find?_iff d.names).mp known
      cases eq
      have listed : f.name ∈ e.owner.after := by simpa [mem_relations] using declared
      exact ⟨f, e, ⟨other, member, .inl listed⟩, rfl, rfl⟩
    | before =>
      obtain ⟨q, known, eq⟩ := Option.map_eq_some_iff.mp found
      obtain ⟨f, other, rfl, rfl⟩ := (nameTable_find?_iff d.names).mp known
      cases eq
      have listed : f.name ∈ e.owner.before := by simpa [mem_relations] using declared
      exact ⟨e, f, ⟨member, other, .inr listed⟩, rfl, rfl⟩
  · intro related
    rcases related with ⟨b, a, ⟨inB, inA, listed | listed⟩, rfl, rfl⟩
    · have known := (nameTable_find?_iff d.names).mpr ⟨b, inB, rfl, rfl⟩
      exact ⟨a, inA, (.after, b.name), mem_relations.mpr (.inl ⟨rfl, listed⟩),
        by simp [precedence, known]⟩
    · have known := (nameTable_find?_iff d.names).mpr ⟨a, inA, rfl, rfl⟩
      exact ⟨b, inB, (.before, a.name), mem_relations.mpr (.inr ⟨rfl, listed⟩),
        by simp [precedence, known]⟩

theorem eq_of_id (d : Distinguished entries) {e f : Entry} (left : e ∈ entries)
    (right : f ∈ entries) (same : e.id = f.id) : e = f :=
  List.inj_on_of_nodup_map d.ids left right same

theorem predecessors_iff (d : Distinguished entries) {a : Entry} (member : a ∈ entries)
    {p : UInt32} : p ∈ (predecessorsOf (precedences entries) a.id).toList ↔
      ∃ b, RunsBefore entries b a ∧ b.id = p := by
  rw [mem_predecessorsOf, d.mem_precedences]
  constructor
  · intro found
    obtain ⟨b, c, before, rfl, same⟩ := found
    exact ⟨b, d.eq_of_id before.2.1 member same ▸ before, rfl⟩
  · intro found
    obtain ⟨b, before, rfl⟩ := found
    exact ⟨b, a, before, rfl, rfl⟩

end Distinguished

theorem predecessors_iff {entries : List Entry} (w : WellNumbered entries) {a : Entry}
    (member : a ∈ entries) {p : UInt32} :
    p ∈ (predecessorsOf (precedences entries) a.id).toList ↔
      ∃ b, RunsBefore entries b a ∧ b.id = p :=
  w.distinguished.predecessors_iff member

section Renewed
variable {f : Entry → Entry} (ids : ∀ e, (f e).id = e.id)
include ids

theorem sortById_map (entries : List Entry) :
    sortById (entries.map f) = (sortById entries).map f := by
  refine (List.map_mergeSort fun a _ b _ => ?_).symm
  rw [ids, ids]

variable (names : ∀ e, (f e).name = e.name)
include names

theorem nameTable_map (entries : List Entry) :
    nameTable (entries.map f) = nameTable entries := by
  simp only [nameTable, List.map_map, Function.comp_def, ids, names]

theorem nodesOf_map (relation : List Precedes) (entries : List Entry) :
    nodesOf relation (entries.map f) = nodesOf relation entries := by
  induction entries with
  | nil => rfl
  | cons e rest ih =>
    simp only [List.map_cons, nodesOf, ih, List.any_map, Function.comp_def, ids, names]

theorem schedule_map {entries : List Entry}
    (relations : ∀ e ∈ entries, (f e).relations = e.relations)
    (places : ∀ e ∈ entries, (f e).owner.place = e.owner.place) :
    schedule (entries.map f) = schedule entries := by
  have related : precedences (entries.map f) = precedences entries := by
    rw [precedences, nameTable_map ids names, List.flatMap_map]
    refine List.flatMap_congr fun e member => ?_
    rw [relations e member]
    refine List.filterMap_congr fun r _ => ?_
    rcases r with ⟨_ | _, target⟩ <;> simp only [precedence, ids]
  have nodes : systemNodes (entries.map f) = systemNodes entries := by
    rw [systemNodes, related, sortById_map ids, nodesOf_map ids names]
    rfl
  have unknown : unknownRelations (entries.map f) = unknownRelations entries := by
    rw [unknownRelations, nameTable_map ids names, List.flatMap_map]
    refine List.flatMap_congr fun e member => ?_
    simp only [Entry.unknownRelations, relations e member, names, places e member]
  rw [schedule, nodes, unknown]
  rfl

end Renewed

theorem unknownRelations_report {entries : List Entry} {d : Diagnostic}
    (member : d ∈ unknownRelations entries) :
    ∃ name direction target place,
      d = (Finding.unknownSystem name direction target place).diagnostic := by
  obtain ⟨e, _, reported⟩ := List.mem_flatMap.mp member
  obtain ⟨⟨direction, target⟩, _, rfl⟩ := List.mem_map.mp reported
  exact ⟨_, _, _, _, rfl⟩

end EcsPlan
