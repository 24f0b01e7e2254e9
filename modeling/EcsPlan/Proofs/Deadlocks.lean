import EcsPlan.Proofs.Arranging
import Mathlib.Data.List.Perm.Basic

/-!
Which nodes have an order, for any list of nodes. An ID means the last node that bears it, so
nodes name their predecessors by position. They have an order exactly if nobody is on a cycle,
and otherwise those without a place are exactly the ones on a cycle or behind one.
-/
namespace EcsPlan

/-- Of the nodes that bear `id` the last stands at position `j`. -/
def StandsAt (nodes : List Node) (id : UInt32) (j : Nat) : Prop :=
  (∃ n, nodes[j]? = some n ∧ n.id = id) ∧ ∀ k n, j < k → nodes[k]? = some n → n.id ≠ id

/-- The node at position `i` names the one at position `j` as a predecessor. -/
def Requires (nodes : List Node) (j i : Nat) : Prop :=
  ∃ n, nodes[i]? = some n ∧ ∃ id ∈ n.predecessors, StandsAt nodes id j

def BearIds (nodes : List Node) (positions : List Nat) (ids : List UInt32) : Prop :=
  positions.Forall₂ (fun i id => ∃ n, nodes[i]? = some n ∧ n.id = id) ids

/-- All positions, each behind those that it requires. -/
structure Linear (nodes : List Node) (positions : List Nat) : Prop where
  all : positions.Perm (List.range nodes.length)
  behind : ∀ i j, Requires nodes j i → positions.idxOf j < positions.idxOf i

theorem lastPosition_last {id : UInt32} {nodes : List Node} {j : Nat}
    (found : lastPosition id nodes = some j) :
    ∀ k n, j < k → nodes[k]? = some n → n.id ≠ id := by
  induction nodes generalizing j with
  | nil => simp [lastPosition] at found
  | cons m rest ih =>
    intro k n after at_k
    obtain ⟨k, rfl⟩ := Nat.exists_eq_succ_of_ne_zero (Nat.ne_zero_of_lt after)
    have at_rest : rest[k]? = some n := by simpa using at_k
    simp only [lastPosition] at found
    split at found
    · rename_i i later
      have next : i + 1 = j := Option.some.inj found
      exact ih later k n (by omega) at_rest
    · rename_i absent
      exact lastPosition_none absent n (List.mem_of_getElem? at_rest)

theorem lastPosition_eq_some_iff {id : UInt32} {nodes : List Node} {j : Nat} :
    lastPosition id nodes = some j ↔ StandsAt nodes id j := by
  constructor
  · intro found
    exact ⟨lastPosition_some found, lastPosition_last found⟩
  · intro stands
    obtain ⟨⟨n, at_j, bears⟩, last⟩ := stands
    cases found : lastPosition id nodes with
    | none => exact False.elim (lastPosition_none found n (List.mem_of_getElem? at_j) bears)
    | some i =>
      obtain ⟨m, at_i, same⟩ := lastPosition_some found
      rcases Nat.lt_trichotomy i j with lt | rfl | gt
      · exact False.elim (lastPosition_last found j n lt at_j bears)
      · rfl
      · exact False.elim (last i m gt at_i same)

section Positions
variable (nodes : List Node)

theorem requires_eq_leads : Requires nodes = Leads (positionGraph nodes) := by
  funext j i
  rw [leads_iff]
  simp only [lastPosition_eq_some_iff]
  rfl

theorem requires_lt {i j : Nat} (requires : Requires nodes j i) : i < nodes.length := by
  obtain ⟨n, at_i, _⟩ := requires
  exact (List.getElem?_eq_some_iff.mp at_i).1

theorem blocked_lt {i : Nat} (blocked : Blocked (Requires nodes) i) : i < nodes.length := by
  obtain ⟨_, edge⟩ := blocked.edge
  exact requires_lt nodes edge

theorem missing_iff_blocked {i : Nat} :
    i ∈ missingPositions nodes ↔ Blocked (Requires nodes) i := by
  rw [mem_missingPositions, ← requires_eq_leads, and_iff_right_iff_imp]
  exact blocked_lt nodes

theorem missing_nil_iff_acyclic :
    missingPositions nodes = [] ↔ ∀ i, ¬ Relation.TransGen (Requires nodes) i i := by
  constructor
  · intro complete i cycle
    have missing := (missing_iff_blocked nodes).mpr (blocked_of_cycle cycle)
    simp [complete] at missing
  · intro acyclic
    apply List.eq_nil_iff_forall_not_mem.mpr
    intro i missing
    obtain ⟨c, cycle, _⟩ := (missing_iff_blocked nodes).mp missing
    exact acyclic c cycle

theorem idsAt_bear {positions : List Nat} (inside : ∀ i ∈ positions, i < nodes.length) :
    BearIds nodes positions (idsAt nodes positions) := by
  unfold BearIds idsAt
  induction positions with
  | nil => exact .nil
  | cons i rest ih =>
    have at_i := List.getElem?_eq_getElem (inside i List.mem_cons_self)
    rw [List.filterMap_cons, at_i]
    exact .cons ⟨_, at_i, rfl⟩ (ih fun k later => inside k (List.mem_cons_of_mem i later))

end Positions

theorem bearIds_of_perm {nodes : List Node} {positions : List Nat} {ids listed : List UInt32}
    (bears : BearIds nodes positions listed) (perm : ids.Perm listed) :
    ∃ others : List Nat, others.Perm positions ∧ BearIds nodes others ids := by
  obtain ⟨others, each, same⟩ := List.perm_comp_forall₂ perm bears.flip
  exact ⟨others, same, each.flip⟩

theorem placed_linear {nodes : List Node} (complete : missingPositions nodes = []) :
    Linear nodes (placedPositions nodes) where
  all := placed_perm complete
  behind i j requires := by
    have inside := List.mem_range.mpr (requires_lt nodes requires)
    rw [requires_eq_leads] at requires
    exact placed_before ((placed_perm complete).mem_iff.mpr inside) requires

/-- Nodes are ordered exactly if no position lies on a cycle, and then each of them behind
    those that it requires. Otherwise the blocked IDs are, in ascending order, those of the
    positions on a cycle or behind one. -/
theorem arrange_decides_cycles (nodes : List Node) :
    ((∃ order, arrange nodes = .ordered order) ↔
      ∀ i, ¬ Relation.TransGen (Requires nodes) i i) ∧
    (∀ order, arrange nodes = .ordered order →
      ∃ positions, Linear nodes positions ∧ BearIds nodes positions order) ∧
    ((∃ i, Relation.TransGen (Requires nodes) i i) →
      ∃ ids, arrange nodes = .blocked ids ∧ ids.Pairwise (· ≤ ·) ∧
        ∃ positions : List Nat, positions.Nodup ∧
          (∀ i, i ∈ positions ↔ Blocked (Requires nodes) i) ∧ BearIds nodes positions ids) := by
  by_cases complete : missingPositions nodes = []
  · have acyclic := (missing_nil_iff_acyclic nodes).mp complete
    have run := arrange_ordered complete
    refine ⟨iff_of_true ⟨_, run⟩ acyclic, ?_, fun cyclic => ?_⟩
    · intro order ordered
      obtain rfl := Arrangement.ordered.inj (run.symm.trans ordered)
      exact ⟨_, placed_linear complete, idsAt_bear nodes fun i => placed_lt⟩
    · obtain ⟨i, cycle⟩ := cyclic
      exact False.elim (acyclic i cycle)
  · have cyclic := mt (missing_nil_iff_acyclic nodes).mpr complete
    have run := arrange_blocked complete
    have inside : ∀ i ∈ missingPositions nodes, i < nodes.length := fun i missing =>
      (mem_missingPositions.mp missing).1
    obtain ⟨positions, perm, bears⟩ :=
      bearIds_of_perm (idsAt_bear nodes inside) (List.mergeSort_perm _ _)
    refine ⟨iff_of_false (fun ordered => ?_) cyclic, fun order ordered => ?_, fun _ => ?_⟩
    · obtain ⟨order, ordered⟩ := ordered
      rw [run] at ordered
      contradiction
    · rw [run] at ordered
      contradiction
    · refine ⟨_, run, ?_, positions, ?_, ?_, bears⟩
      · exact (mergeSort_ascending compare _).imp Std.isLE_compare.mp
      · exact perm.nodup_iff.mpr (List.nodup_range.filter _)
      · intro i
        rw [perm.mem_iff, missing_iff_blocked]

/-- `B` and `C` wait for each other and `D`, which bears the ID of `A`, waits behind them.
    Nobody bears the ID that `A` waits for. -/
def tangled : List Node :=
  [⟨0, "A", .ofList [9]⟩, ⟨1, "B", .ofList [2]⟩, ⟨2, "C", .ofList [0, 1]⟩, ⟨0, "D", .ofList [2]⟩]

theorem tangled_nodes_blocked :
    (∃ i, Relation.TransGen (Requires tangled) i i) ∧
      ∃ ids, arrange tangled = .blocked ids ∧ ids.Pairwise (· ≤ ·) ∧
        ∃ positions : List Nat, positions.Nodup ∧
          (∀ i, i ∈ positions ↔ Blocked (Requires tangled) i) ∧
            BearIds tangled positions ids := by
  have forth : Requires tangled 2 1 := by
    rw [requires_eq_leads]
    change 2 ∈ row (positionGraph tangled) 1
    decide
  have back : Requires tangled 1 2 := by
    rw [requires_eq_leads]
    change 1 ∈ row (positionGraph tangled) 2
    decide
  have cyclic : ∃ i, Relation.TransGen (Requires tangled) i i := ⟨1, .tail (.single back) forth⟩
  exact ⟨cyclic, (arrange_decides_cycles tangled).2.2 cyclic⟩

end EcsPlan
