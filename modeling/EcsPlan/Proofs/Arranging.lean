import EcsPlan.Proofs.Ascending
import EcsPlan.Proofs.Placing
import Mathlib.Data.List.Nodup

namespace EcsPlan

theorem lastPosition_some {id : UInt32} {nodes : List Node} {i : Nat}
    (found : lastPosition id nodes = some i) : ∃ n, nodes[i]? = some n ∧ n.id = id := by
  induction nodes generalizing i with
  | nil => simp [lastPosition] at found
  | cons n rest ih =>
    simp only [lastPosition] at found
    split at found
    · rename_i k later
      obtain ⟨m, here, same⟩ := ih later
      have next : k + 1 = i := Option.some.inj found
      exact ⟨m, by rw [← next]; simpa using here, same⟩
    · split at found
      · rename_i same
        have first : 0 = i := Option.some.inj found
        exact ⟨n, by rw [← first]; rfl, same⟩
      · contradiction

theorem lastPosition_none {id : UInt32} {nodes : List Node}
    (absent : lastPosition id nodes = none) : ∀ n ∈ nodes, n.id ≠ id := by
  induction nodes with
  | nil => simp
  | cons n rest ih =>
    simp only [lastPosition] at absent
    split at absent
    · contradiction
    · rename_i later
      split at absent
      · contradiction
      · rename_i ne
        intro m member
        rcases List.mem_cons.mp member with rfl | member
        · exact ne
        · exact ih later m member

theorem lastPosition_lt {id : UInt32} {nodes : List Node} {i : Nat}
    (found : lastPosition id nodes = some i) : i < nodes.length := by
  obtain ⟨n, here, _⟩ := lastPosition_some found
  exact (List.getElem?_eq_some_iff.mp here).1

theorem positionGraph_valid (nodes : List Node) : GraphValid (positionGraph nodes) where
  nodup r member := by
    obtain ⟨n, _, rfl⟩ := List.mem_map.mp member
    refine List.Pairwise.filterMap _ ?_ n.predecessors.nodup
    intro a b ne i foundA j foundB same
    subst same
    obtain ⟨m, hereA, idA⟩ := lastPosition_some foundA
    obtain ⟨k, hereB, idB⟩ := lastPosition_some foundB
    have one : m = k := Option.some.inj (hereA.symm.trans hereB)
    exact ne (by rw [← idA, ← idB, one])
  bounded r member j inside := by
    obtain ⟨n, _, rfl⟩ := List.mem_map.mp member
    obtain ⟨id, _, found⟩ := List.mem_filterMap.mp inside
    simpa [positionGraph] using lastPosition_lt found

@[simp] theorem positionGraph_length (nodes : List Node) :
    (positionGraph nodes).length = nodes.length := List.length_map _

theorem leads_iff {nodes : List Node} {i j : Nat} :
    Leads (positionGraph nodes) j i ↔
      ∃ n, nodes[i]? = some n ∧ ∃ id ∈ n.predecessors.toList, lastPosition id nodes = some j := by
  simp only [Leads, row, positionGraph, List.getD_eq_getElem?_getD, List.getElem?_map]
  cases h : nodes[i]? <;> simp

def placedPositions (nodes : List Node) : List Nat :=
  (Placement.final (positionGraph nodes)).placed

def missingPositions (nodes : List Node) : List Nat :=
  (List.range nodes.length).filter (!(placedPositions nodes).contains ·)

theorem placed_lt {nodes : List Node} {i : Nat} (member : i ∈ placedPositions nodes) :
    i < nodes.length := by
  simpa using ((final_reached (positionGraph_valid nodes) i).mp member).1

theorem placed_nodup (nodes : List Node) : (placedPositions nodes).Nodup :=
  (List.nodup_append.mp (after_sound (positionGraph_valid nodes) _).nodup).1

theorem placed_before {nodes : List Node} {i j : Nat} (member : i ∈ placedPositions nodes)
    (leads : Leads (positionGraph nodes) j i) :
    (placedPositions nodes).idxOf j < (placedPositions nodes).idxOf i :=
  (layered_before (after_sound (positionGraph_valid nodes) _).layered (placed_nodup nodes)
    member leads).2

theorem mem_missingPositions {nodes : List Node} {i : Nat} :
    i ∈ missingPositions nodes ↔
      i < nodes.length ∧ Blocked (Leads (positionGraph nodes)) i := by
  simp only [missingPositions, List.mem_filter, List.mem_range, Bool.not_eq_true',
    List.contains_eq_mem, decide_eq_false_iff_not]
  apply and_congr_right
  intro inside
  exact final_missing_iff (positionGraph_valid nodes) (by simpa using inside)

theorem placed_perm {nodes : List Node} (complete : missingPositions nodes = []) :
    (placedPositions nodes).Perm (List.range nodes.length) := by
  apply (List.perm_ext_iff_of_nodup (placed_nodup nodes) List.nodup_range).mpr
  intro i
  constructor
  · intro member
    exact List.mem_range.mpr (placed_lt member)
  intro inside
  have kept := List.filter_eq_nil_iff.mp complete i inside
  simpa using kept

theorem placed_length_iff {nodes : List Node} :
    (placedPositions nodes).length = nodes.length ↔ missingPositions nodes = [] := by
  constructor
  · intro full
    have whole : List.range nodes.length ⊆ placedPositions nodes := by
      have inside : (placedPositions nodes).Subperm (List.range nodes.length) :=
        (placed_nodup nodes).subperm fun i member => List.mem_range.mpr (placed_lt member)
      have perm := inside.perm_of_length_le (by simp [full])
      exact perm.symm.subset
    apply List.filter_eq_nil_iff.mpr
    intro i inside
    simpa using whole inside
  · intro complete
    simpa using (placed_perm complete).length_eq

theorem arrange_ordered {nodes : List Node} (complete : missingPositions nodes = []) :
    arrange nodes = .ordered (idsAt nodes (placedPositions nodes)) :=
  if_pos (placed_length_iff.mpr complete)

theorem arrange_blocked {nodes : List Node} (incomplete : missingPositions nodes ≠ []) :
    arrange nodes = .blocked
      ((idsAt nodes (missingPositions nodes)).mergeSort fun a b => (compare a b).isLE) :=
  if_neg fun full => incomplete (placed_length_iff.mp full)

end EcsPlan
