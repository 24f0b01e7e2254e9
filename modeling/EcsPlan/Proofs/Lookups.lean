import EcsPlan.Proofs.Scheduling

namespace EcsPlan

section Halving
variable {nodes : Array Node} (ascending : nodes.toList.Pairwise (·.id < ·.id))
include ascending

theorem id_lt_of_position {i j : Nat} {a b : Node} (at_i : nodes[i]? = some a)
    (at_j : nodes[j]? = some b) (lt : i < j) : a.id < b.id := by
  rw [← Array.getElem?_toList, List.getElem?_eq_some_iff] at at_i at_j
  obtain ⟨left, rfl⟩ := at_i
  obtain ⟨right, rfl⟩ := at_j
  exact List.pairwise_iff_getElem.mp ascending i j left right lt

theorem position_lt_iff {i j : Nat} {a b : Node} (at_i : nodes[i]? = some a)
    (at_j : nodes[j]? = some b) : i < j ↔ a.id < b.id := by
  refine ⟨id_lt_of_position ascending at_i at_j, fun less => Nat.lt_of_not_le fun back => ?_⟩
  rcases Nat.lt_or_eq_of_le back with lt | rfl
  · have greater := id_lt_of_position ascending at_j at_i lt
    exact UInt32.lt_irrefl _ (UInt32.lt_trans less greater)
  · rw [Option.some.inj (at_i.symm.trans at_j)] at less
    exact UInt32.lt_irrefl _ less

/-- Halving finds a node exactly if the node lies between the bounds and bears the ID. -/
theorem bisect_iff {id : UInt32} {n : Node} {low high : Nat} (inside : high ≤ nodes.size) :
    Schedule.bisect nodes id low high = some n ↔
      ∃ i, low ≤ i ∧ i < high ∧ nodes[i]? = some n ∧ n.id = id := by
  fun_induction Schedule.bisect nodes id low high with
  | case1 low high wide middle missing =>
    have outside := Array.getElem?_eq_none_iff.mp missing
    omega
  | case2 low high wide middle node at_middle same =>
    have bears : node.id = id := Std.LawfulEqCmp.eq_of_compare same
    constructor
    · intro found
      obtain rfl := Option.some.inj found
      exact ⟨middle, by omega, by omega, at_middle, bears⟩
    · intro found
      obtain ⟨i, _, _, at_i, rfl⟩ := found
      have left := position_lt_iff ascending at_i at_middle
      have right := position_lt_iff ascending at_middle at_i
      rw [bears] at left right
      have here : i = middle := Nat.le_antisymm
        (Nat.le_of_not_lt fun lt => UInt32.lt_irrefl _ (right.mp lt))
        (Nat.le_of_not_lt fun lt => UInt32.lt_irrefl _ (left.mp lt))
      rw [here] at at_i
      exact at_middle.symm.trans at_i
  | case3 low high wide middle node at_middle less ih =>
    refine (ih inside).trans (exists_congr fun i => ?_)
    constructor
    · intro found
      exact ⟨by omega, found.2⟩
    · intro found
      obtain ⟨_, upper, at_i, rfl⟩ := found
      exact ⟨(position_lt_iff ascending at_middle at_i).mpr (Std.compare_eq_lt.mp less),
        upper, at_i, rfl⟩
  | case4 low high wide middle node at_middle greater ih =>
    refine (ih (by omega)).trans (exists_congr fun i => ?_)
    constructor
    · intro found
      exact ⟨found.1, by omega, found.2.2⟩
    · intro found
      obtain ⟨lower, _, at_i, rfl⟩ := found
      exact ⟨lower, (position_lt_iff ascending at_i at_middle).mpr (Std.compare_eq_gt.mp greater),
        at_i, rfl⟩
  | case5 low high narrow =>
    simp only [reduceCtorEq, false_iff]
    intro found
    obtain ⟨i, lower, upper, _⟩ := found
    omega

end Halving

theorem node?_iff {s : Schedule} (ascending : s.nodes.toList.Pairwise (·.id < ·.id))
    {id : UInt32} {n : Node} : s.node? id = some n ↔ n ∈ s.nodes ∧ n.id = id := by
  rw [Schedule.node?, bisect_iff ascending (Nat.le_refl _), Array.mem_iff_getElem?]
  constructor
  · intro found
    obtain ⟨i, _, _, at_i, bears⟩ := found
    exact ⟨⟨i, at_i⟩, bears⟩
  · intro found
    obtain ⟨⟨i, at_i⟩, bears⟩ := found
    exact ⟨i, Nat.zero_le i, (Array.getElem?_eq_some_iff.mp at_i).1, at_i, bears⟩

def Entry.node (systems : List Entry) (e : Entry) : Node :=
  ⟨e.id, e.name, predecessorsOf (precedences systems) e.id⟩

theorem schedule_nodes {entries : List Entry} (w : WellNumbered entries) {s : Schedule}
    (accepted : (schedule entries).value? = some s) :
    s.nodes = (entries.map (Entry.node entries)).toArray := by
  simp only [schedule] at accepted
  split at accepted
  · rw [Outcome.usable_value?] at accepted
    rw [← Option.some.inj accepted, systemNodes_eq w]
    rfl
  · contradiction

namespace WellNumbered
variable {entries : List Entry}

theorem eq_of_name (w : WellNumbered entries) {e f : Entry} (he : e ∈ entries)
    (hf : f ∈ entries) (same : e.name = f.name) : e = f :=
  List.inj_on_of_nodup_map w.names he hf same

theorem entry_iff (w : WellNumbered entries) {name : String} {e : Entry} :
    entries.find? (·.name = name) = some e ↔ e ∈ entries ∧ e.name = name :=
  find?_key_iff w.names

theorem nodes_ascending (w : WellNumbered entries) :
    (entries.map (Entry.node entries)).Pairwise (·.id < ·.id) :=
  List.pairwise_map.mpr w.ascending

end WellNumbered

/-- Names and IDs are each distinct and within the limit, and a name is found by a scan
    exactly if it is found in the table, namely at the only entry that bears it. -/
structure Registry.Consistent (r : Registry) (maxId : UInt32) : Prop where
  names : (r.entries.map Entry.name).Nodup
  ids : (r.entries.map (·.id)).Nodup
  limit : ∀ e ∈ r.entries, e.id ≤ maxId
  table : ∀ name, r.id? name = r.table.find? name
  sole : ∀ name id, r.id? name = some id ↔
    ∃ e ∈ r.entries, e.name = name ∧ e.id = id ∧ ∀ f ∈ r.entries, f.name = name → f = e

section Register
variable {r : Registry} (w : WellNumbered r.entries)
include w

theorem id?_iff {name : String} {id : UInt32} :
    r.id? name = some id ↔ ∃ e ∈ r.entries, e.name = name ∧ e.id = id := by
  simp only [Registry.id?, Option.map_eq_some_iff, w.entry_iff, and_assoc]

theorem registry_consistent {maxId : UInt32} (limit : ∀ e ∈ r.entries, e.id ≤ maxId) :
    r.Consistent maxId where
  names := w.names
  ids := w.ids_nodup
  limit := limit
  table name := by
    apply Option.ext
    intro id
    rw [id?_iff w, Registry.table, w.find?_iff]
  sole name id := by
    rw [id?_iff w]
    refine exists_congr fun e => and_congr_right fun member => and_congr_right fun bears => ?_
    refine ⟨fun numbered => ⟨numbered, fun f other same => ?_⟩, And.left⟩
    exact w.eq_of_name other member (same.trans bears.symm)

end Register

/-- An ID finds a node exactly if the registry hands it out, and then the node whose name
    has that ID. A name finds the predecessors of the node that its ID finds. Every
    predecessor is a node. -/
structure Schedule.Consistent (s : Schedule) (r : Registry) : Prop where
  listed : ∀ id, (s.node? id).isSome = true ↔ ∃ e ∈ r.entries, e.id = id
  node : ∀ id n, s.node? id = some n ↔ n ∈ s.nodes ∧ r.id? n.name = some id
  bears : ∀ id n, s.node? id = some n → n.id = id
  predecessors : ∀ name,
    s.predecessors? name = ((r.id? name).bind s.node?).map (·.predecessors)
  absent : ∀ name, s.predecessors? name = none ↔ r.id? name = none
  closed : ∀ n ∈ s.nodes, ∀ p ∈ n.predecessors, ∃ m ∈ s.nodes, m.id = p

section Nodes
variable {r : Registry} {s : Schedule}
  (nodes : s.nodes = (r.entries.map (Entry.node r.entries)).toArray)
include nodes

theorem mem_nodes {n : Node} : n ∈ s.nodes ↔ ∃ e ∈ r.entries, e.node r.entries = n := by
  rw [nodes, List.mem_toArray, List.mem_map]

theorem predecessors?_eq (name : String) : s.predecessors? name =
    (r.entries.find? (·.name = name)).map fun e => (e.node r.entries).predecessors := by
  rw [Schedule.predecessors?, nodes, List.find?_toArray, List.find?_map, Option.map_map]
  rfl

variable (w : WellNumbered r.entries)
include w

theorem node?_eq {id : UInt32} {n : Node} :
    s.node? id = some n ↔ ∃ e ∈ r.entries, e.id = id ∧ e.node r.entries = n := by
  rw [node?_iff (by rw [nodes]; exact w.nodes_ascending), mem_nodes nodes]
  constructor
  · intro found
    obtain ⟨⟨e, member, rfl⟩, same⟩ := found
    exact ⟨e, member, same, rfl⟩
  · intro found
    obtain ⟨e, member, same, rfl⟩ := found
    exact ⟨⟨e, member, rfl⟩, same⟩

theorem node?_of_entry {e : Entry} (member : e ∈ r.entries) :
    s.node? e.id = some (e.node r.entries) :=
  (node?_eq nodes w).mpr ⟨e, member, rfl, rfl⟩

theorem node_of_name {id : UInt32} {n : Node} :
    s.node? id = some n ↔ n ∈ s.nodes ∧ r.id? n.name = some id := by
  rw [node?_eq nodes w, mem_nodes nodes, id?_iff w]
  constructor
  · intro found
    obtain ⟨e, member, same, rfl⟩ := found
    exact ⟨⟨e, member, rfl⟩, e, member, rfl, same⟩
  · intro found
    obtain ⟨⟨e, member, rfl⟩, f, other, called, same⟩ := found
    exact ⟨f, other, same, by rw [w.eq_of_name other member called]⟩

theorem predecessor_node {n : Node} (listed : n ∈ s.nodes) {p : UInt32}
    (before : p ∈ n.predecessors) : ∃ m ∈ s.nodes, m.id = p := by
  obtain ⟨e, member, rfl⟩ := (mem_nodes nodes).mp listed
  obtain ⟨b, runs, rfl⟩ := (predecessors_iff w member).mp before
  exact ⟨b.node r.entries, (mem_nodes nodes).mpr ⟨b, runs.1, rfl⟩, rfl⟩

theorem schedule_consistent : s.Consistent r where
  listed id := by
    rw [Option.isSome_iff_exists]
    constructor
    · intro found
      obtain ⟨n, found⟩ := found
      obtain ⟨e, member, same, _⟩ := (node?_eq nodes w).mp found
      exact ⟨e, member, same⟩
    · intro numbered
      obtain ⟨e, member, rfl⟩ := numbered
      exact ⟨_, node?_of_entry nodes w member⟩
  node _ _ := node_of_name nodes w
  bears id n found := by
    obtain ⟨e, _, same, rfl⟩ := (node?_eq nodes w).mp found
    exact same
  predecessors name := by
    rw [predecessors?_eq nodes, Registry.id?]
    cases found : r.entries.find? (·.name = name) with
    | none => rfl
    | some e =>
      have member := List.mem_of_find?_eq_some found
      simp only [Option.map_some, Option.bind_some, node?_of_entry nodes w member]
  absent name := by
    rw [predecessors?_eq nodes, Registry.id?, Option.map_eq_none_iff,
      Option.map_eq_none_iff]
  closed _ listed _ before := predecessor_node nodes w listed before

end Nodes

/-- In a pass all ways of looking a name or an ID up agree. Every accepted registry is
    consistent, and where there is a schedule so is the schedule with the systems. -/
theorem lookups_agree (limits : Limits) (declarations : List TypeDecl)
    (queries : List QueryDecl) :
    let p := Plan.make limits declarations queries
    (∀ kind r, (p.registry kind).value? = some r → r.Consistent limits.maxId) ∧
      ∀ s, p.schedule.value? = some s → ∃ r, p.systems.value? = some r ∧ s.Consistent r := by
  intro p
  constructor
  · intro kind r accepted
    rw [plan_registry] at accepted
    have w := registry_wellNumbered accepted
    obtain ⟨within, rfl⟩ := registry_value accepted
    exact registry_consistent w fun e member => assigned_le within member
  · intro s scheduled
    change (scheduleSystems p.systems).value? = some s at scheduled
    cases accepted : p.systems.value? with
    | none =>
      rw [scheduleSystems, accepted] at scheduled
      contradiction
    | some r =>
      have w : WellNumbered r.entries := registry_wellNumbered accepted
      have nodes := schedule_nodes w (by simpa [scheduleSystems, accepted] using scheduled)
      exact ⟨r, rfl, schedule_consistent nodes w⟩

def movingSchedule : Schedule where
  nodes := #[⟨0, "Input", .empty⟩, ⟨1, "Move", .ofList [0]⟩]
  order := [0, 1]

theorem moving_systems_scheduled : (schedule movingSystems.entries).value? =
    some movingSchedule := by
  have sorted : sortById movingSystems.entries = movingSystems.entries :=
    List.mergeSort_of_pairwise (by decide)
  have nodes : systemNodes movingSystems.entries = movingSchedule.nodes.toList := by
    rw [systemNodes, sorted]
    decide
  simp only [schedule, nodes]
  decide

theorem moving_systems_agree :
    let p := Plan.make {} [inputSystem, moveSystem] []
    p.systems.value? = some movingSystems ∧ p.schedule.value? = some movingSchedule ∧
      movingSystems.Consistent 4095 ∧ movingSchedule.Consistent movingSystems := by
  intro p
  have accepted : p.systems.value? = some movingSystems := moving_systems_accepted
  have scheduled : p.schedule.value? = some movingSchedule := by
    rw [schedule_of_registry {} _ [] accepted]
    exact moving_systems_scheduled
  obtain ⟨registries, schedules⟩ := lookups_agree {} [inputSystem, moveSystem] []
  obtain ⟨r, same, agrees⟩ := schedules movingSchedule scheduled
  have one : r = movingSystems := Option.some.inj (same.symm.trans accepted)
  exact ⟨accepted, scheduled, registries .system movingSystems accepted, one ▸ agrees⟩

end EcsPlan
