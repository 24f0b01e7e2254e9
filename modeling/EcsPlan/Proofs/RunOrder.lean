import EcsPlan.Proofs.Arranging
import EcsPlan.Proofs.Relations

namespace EcsPlan
variable {entries : List Entry}

theorem node_at (w : WellNumbered entries) {i : Nat} {n : Node} :
    (systemNodes entries)[i]? = some n ↔ ∃ e, entries[i]? = some e ∧
      n = ⟨e.id, e.name, predecessorsOf (precedences entries) e.id⟩ := by
  rw [systemNodes_eq w, List.getElem?_map, Option.map_eq_some_iff]
  exact exists_congr fun e => and_congr_right fun _ => eq_comm

theorem systemNodes_length (w : WellNumbered entries) :
    (systemNodes entries).length = entries.length := by
  rw [systemNodes_eq w, List.length_map]

theorem position_unique (w : WellNumbered entries) {i j : Nat} {e f : Entry}
    (left : entries[i]? = some e) (right : entries[j]? = some f) (same : e.id = f.id) :
    i = j := by
  have inside : i < (entries.map (·.id)).length := by
    rw [List.length_map]
    exact (List.getElem?_eq_some_iff.mp left).1
  exact (List.getElem?_inj inside w.ids_nodup).mp (by simp [left, right, same])

theorem lastPosition_iff (w : WellNumbered entries) {id : UInt32} {i : Nat} :
    lastPosition id (systemNodes entries) = some i ↔
      ∃ e, entries[i]? = some e ∧ e.id = id := by
  constructor
  · intro found
    obtain ⟨n, here, rfl⟩ := lastPosition_some found
    obtain ⟨e, at_i, rfl⟩ := (node_at w).mp here
    exact ⟨e, at_i, rfl⟩
  · intro found
    obtain ⟨e, at_i, rfl⟩ := found
    have node := (node_at w).mpr ⟨e, at_i, rfl⟩
    cases found : lastPosition e.id (systemNodes entries) with
    | none => exact False.elim (lastPosition_none found _ (List.mem_of_getElem? node) rfl)
    | some j =>
      obtain ⟨n, here, same⟩ := lastPosition_some found
      obtain ⟨f, at_j, rfl⟩ := (node_at w).mp here
      rw [position_unique w at_i at_j same.symm]

theorem leads_entries (w : WellNumbered entries) {i j : Nat} :
    Leads (positionGraph (systemNodes entries)) j i ↔
      ∃ b a, entries[j]? = some b ∧ entries[i]? = some a ∧ RunsBefore entries b a := by
  rw [leads_iff]
  constructor
  · intro given
    obtain ⟨n, here, id, listed, found⟩ := given
    obtain ⟨a, at_i, rfl⟩ := (node_at w).mp here
    obtain ⟨b, at_j, rfl⟩ := (lastPosition_iff w).mp found
    obtain ⟨c, before, same⟩ := (predecessors_iff w (List.mem_of_getElem? at_i)).mp listed
    have one : c = b := w.eq_of_id before.1 (List.mem_of_getElem? at_j) same
    exact ⟨b, a, at_j, at_i, one ▸ before⟩
  · intro found
    obtain ⟨b, a, at_j, at_i, before⟩ := found
    exact ⟨_, (node_at w).mpr ⟨a, at_i, rfl⟩, b.id,
      (predecessors_iff w before.2.1).mpr ⟨b, before, rfl⟩,
      (lastPosition_iff w).mpr ⟨b, at_j, rfl⟩⟩

theorem at_idxOf {e : Entry} (member : e ∈ entries) : entries[entries.idxOf e]? = some e := by
  rw [List.getElem?_eq_getElem (List.idxOf_lt_length_of_mem member), List.getElem_idxOf]

theorem idxOf_at (w : WellNumbered entries) {i : Nat} {e : Entry}
    (at_i : entries[i]? = some e) : entries.idxOf e = i :=
  position_unique w (at_idxOf (List.mem_of_getElem? at_i)) at_i rfl

theorem blocked_entries (w : WellNumbered entries) {i : Nat} {a : Entry}
    (at_i : entries[i]? = some a) :
    Blocked (Leads (positionGraph (systemNodes entries))) i ↔
      Blocked (RunsBefore entries) a := by
  constructor
  · intro blocked
    have edges : ∀ j k, Leads (positionGraph (systemNodes entries)) j k →
        RunsBefore entries (entries.getD j a) (entries.getD k a) := by
      intro j k leads
      obtain ⟨b, c, at_j, at_k, before⟩ := (leads_entries w).mp leads
      simpa [List.getD_eq_getElem?_getD, at_j, at_k] using before
    simpa [List.getD_eq_getElem?_getD, at_i] using blocked_lift (entries.getD · a) edges blocked
  · intro blocked
    have edges : ∀ b c, RunsBefore entries b c →
        Leads (positionGraph (systemNodes entries)) (entries.idxOf b) (entries.idxOf c) := by
      intro b c before
      exact (leads_entries w).mpr ⟨b, c, at_idxOf before.1, at_idxOf before.2.1, before⟩
    simpa [idxOf_at w at_i] using blocked_lift entries.idxOf edges blocked

theorem cycle_member {a : Entry} (cycle : Relation.TransGen (RunsBefore entries) a a) :
    a ∈ entries := by
  cases cycle with
  | single edge => exact edge.1
  | tail _ edge => exact edge.2.1

def blockedEntries (entries : List Entry) : List Entry :=
  (missingPositions (systemNodes entries)).filterMap (entries[·]?)

theorem mem_blockedEntries (w : WellNumbered entries) {e : Entry} :
    e ∈ blockedEntries entries ↔ e ∈ entries ∧ Blocked (RunsBefore entries) e := by
  simp only [blockedEntries, List.mem_filterMap, mem_missingPositions]
  constructor
  · intro found
    obtain ⟨i, ⟨_, blocked⟩, at_i⟩ := found
    exact ⟨List.mem_of_getElem? at_i, (blocked_entries w at_i).mp blocked⟩
  · intro found
    obtain ⟨member, blocked⟩ := found
    refine ⟨entries.idxOf e, ⟨?_, (blocked_entries w (at_idxOf member)).mpr blocked⟩,
      at_idxOf member⟩
    rw [systemNodes_length w]
    exact List.idxOf_lt_length_of_mem member

theorem range_filterMap_getElem? {α : Type} (l : List α) :
    (List.range l.length).filterMap (l[·]?) = l := by
  induction l with
  | nil => rfl
  | cons a rest ih =>
    rw [List.length_cons, List.range_succ_eq_map, List.filterMap_cons]
    simp only [List.getElem?_cons_zero, List.filterMap_map, Function.comp_def,
      List.getElem?_cons_succ, ih]

theorem blockedEntries_sublist (w : WellNumbered entries) :
    (blockedEntries entries).Sublist entries := by
  have sub : (missingPositions (systemNodes entries)).Sublist (List.range entries.length) := by
    rw [← systemNodes_length w]
    exact List.filter_sublist
  have kept := sub.filterMap (entries[·]?)
  rwa [range_filterMap_getElem?] at kept

def Acyclic (entries : List Entry) : Prop :=
  ∀ e, ¬ Relation.TransGen (RunsBefore entries) e e

theorem missing_nil_iff (w : WellNumbered entries) :
    missingPositions (systemNodes entries) = [] ↔ Acyclic entries := by
  constructor
  · intro complete e cycle
    have member := (mem_blockedEntries w).mpr ⟨cycle_member cycle, blocked_of_cycle cycle⟩
    simp [blockedEntries, complete] at member
  · intro acyclic
    apply List.eq_nil_iff_forall_not_mem.mpr
    intro i missing
    obtain ⟨inside, blocked⟩ := mem_missingPositions.mp missing
    rw [systemNodes_length w] at inside
    have at_i := List.getElem?_eq_getElem inside
    obtain ⟨c, cycle, _⟩ := (blocked_entries w at_i).mp blocked
    exact acyclic c cycle

theorem idsAt_eq (w : WellNumbered entries) (positions : List Nat) :
    idsAt (systemNodes entries) positions =
      (positions.filterMap (entries[·]?)).map (·.id) := by
  rw [idsAt, systemNodes_eq w, List.map_filterMap]
  apply List.filterMap_congr
  intro i _
  rw [List.getElem?_map, Option.map_map]
  rfl

theorem idsAt_idxOf (w : WellNumbered entries) {positions : List Nat}
    (inside : ∀ k ∈ positions, k < entries.length) {i : Nat} {e : Entry}
    (at_i : entries[i]? = some e) :
    (idsAt (systemNodes entries) positions).idxOf e.id = positions.idxOf i := by
  rw [idsAt_eq w]
  induction positions with
  | nil => rfl
  | cons k rest ih =>
    have bound : k < entries.length := inside k (by simp)
    have at_k := List.getElem?_eq_getElem bound
    have same : (entries[k].id == e.id) = (k == i) := by
      rw [Bool.eq_iff_iff, beq_iff_eq, beq_iff_eq]
      refine ⟨position_unique w at_k at_i, ?_⟩
      intro same
      subst same
      exact congrArg Entry.id (Option.some.inj (at_k.symm.trans at_i))
    rw [List.filterMap_cons, at_k, List.map_cons, List.idxOf_cons, List.idxOf_cons, same,
      ih fun j later => inside j (List.mem_cons_of_mem k later)]

def runOrder (entries : List Entry) : List UInt32 :=
  idsAt (systemNodes entries) (placedPositions (systemNodes entries))

theorem runOrder_perm (w : WellNumbered entries) (acyclic : Acyclic entries) :
    (runOrder entries).Perm (entries.map (·.id)) := by
  rw [runOrder, idsAt_eq w]
  have placed := placed_perm ((missing_nil_iff w).mpr acyclic)
  rw [systemNodes_length w] at placed
  have perm := placed.filterMap (entries[·]?)
  rw [range_filterMap_getElem?] at perm
  exact perm.map _

theorem runOrder_before (w : WellNumbered entries) (acyclic : Acyclic entries) {b a : Entry}
    (before : RunsBefore entries b a) :
    (runOrder entries).idxOf b.id < (runOrder entries).idxOf a.id := by
  have inside : ∀ k ∈ placedPositions (systemNodes entries), k < entries.length := by
    intro k member
    exact systemNodes_length w ▸ placed_lt member
  rw [runOrder, idsAt_idxOf w inside (at_idxOf before.1),
    idsAt_idxOf w inside (at_idxOf before.2.1)]
  have placed := placed_perm ((missing_nil_iff w).mpr acyclic)
  rw [systemNodes_length w] at placed
  refine placed_before (placed.mem_iff.mpr ?_)
    ((leads_entries w).mpr ⟨b, a, at_idxOf before.1, at_idxOf before.2.1, before⟩)
  exact List.mem_range.mpr (List.idxOf_lt_length_of_mem before.2.1)

theorem schedule_acyclic (w : WellNumbered entries) (acyclic : Acyclic entries) :
    schedule entries = .usable ⟨(systemNodes entries).toArray, runOrder entries⟩
      (unknownRelations entries) := by
  simp only [schedule, arrange_ordered ((missing_nil_iff w).mpr acyclic)]
  rfl

theorem node_name (w : WellNumbered entries) {e : Entry} (member : e ∈ entries) :
    ((systemNodes entries).find? (·.id = e.id)).map (·.name) = some e.name := by
  have found : entries.find? (fun f => f.id = e.id) = some e := by
    cases h : entries.find? (fun f => f.id = e.id) with
    | none => simpa using List.find?_eq_none.mp h e member
    | some f =>
      have same : f.id = e.id := by simpa using List.find?_some h
      rw [w.eq_of_id (List.mem_of_find?_eq_some h) member same]
  rw [systemNodes_eq w, List.find?_map, Option.map_map]
  simp [Function.comp_def, found]

theorem blockedNames_eq (w : WellNumbered entries) {blocked : List Entry}
    (sub : blocked.Sublist entries) :
    blockedNames (systemNodes entries) (blocked.map (·.id)) = blocked.map Entry.name := by
  rw [blockedNames, List.filterMap_map, ← List.filterMap_eq_map]
  apply List.filterMap_congr
  intro e member
  exact node_name w (sub.subset member)

theorem schedule_cyclic (w : WellNumbered entries) (cyclic : ¬ Acyclic entries) :
    schedule entries = .rejected (unknownRelations entries ++
      [(Finding.cycle ((blockedEntries entries).map Entry.name)).diagnostic]) := by
  have incomplete := fun complete => cyclic ((missing_nil_iff w).mp complete)
  have sub := blockedEntries_sublist w
  have sorted : (idsAt (systemNodes entries) (missingPositions (systemNodes entries))).mergeSort
      (fun a b => (compare a b).isLE) = (blockedEntries entries).map (·.id) := by
    rw [idsAt_eq w]
    apply List.mergeSort_of_pairwise
    refine List.pairwise_map.mpr ((w.ascending.sublist sub).imp fun {a b} lt => ?_)
    rw [Std.isLE_compare]
    exact UInt32.le_of_lt lt
  simp only [schedule, arrange_blocked incomplete, sorted, blockedNames_eq w sub]

end EcsPlan
