import EcsPlan.Proofs.Deadlocks
import Mathlib.Data.Finset.Lattice.Fold
import Mathlib.Order.Lattice.Nat

/-!
The order by depth. Who waits for nobody comes first, and whoever is freed by a placement joins
the end of the line, so that the line ascends by the place of the last predecessor and then by
position. From this alone it follows that the depth, which the placement never looks at, does
not fall along the line.
-/
namespace EcsPlan

inductive Chain {α : Type} (r : α → α → Prop) : Nat → α → Prop where
  | start (x : α) : Chain r 0 x
  | next {k : Nat} {x y : α} (chain : Chain r k x) (edge : r x y) : Chain r (k + 1) y

/-- The length of the longest chain that ends here. -/
noncomputable def depth {α : Type} (r : α → α → Prop) (x : α) : Nat := sSup {k | Chain r k x}

/-- Of the predecessors of `i` the one that was placed last is `p`. -/
def Latest (r : Nat → Nat → Prop) (line : List Nat) (i p : Nat) : Prop :=
  r p i ∧ ∀ q, r q i → line.idxOf q ≤ line.idxOf p

/-- All positions by depth. Those without a predecessor follow their position, the others the
    place of their latest predecessor and then their position. -/
structure InLayers (r : Nat → Nat → Prop) (size : Nat) (line : List Nat) : Prop where
  all : line.Perm (List.range size)
  layers : line.Pairwise fun i j => depth r i ≤ depth r j
  first : ∀ i j, i < j → j < size → depth r i = 0 → depth r j = 0 →
    line.idxOf i < line.idxOf j
  ties : ∀ i j p q, i < size → j < size → depth r i = depth r j →
    Latest r line i p → Latest r line j q → line.idxOf p < line.idxOf q ∨ p = q ∧ i < j →
      line.idxOf i < line.idxOf j

theorem rel_of_idxOf_lt {r : Nat → Nat → Prop} {line : List Nat} (sorted : line.Pairwise r)
    {i j : Nat} (left : i ∈ line) (right : j ∈ line) (before : line.idxOf i < line.idxOf j) :
    r i j := by
  have rel := List.pairwise_iff_getElem.mp sorted _ _ (List.idxOf_lt_length_of_mem left)
    (List.idxOf_lt_length_of_mem right) before
  rwa [List.getElem_idxOf, List.getElem_idxOf] at rel

theorem pairwise_idxOf {line : List Nat} (nodup : line.Nodup) :
    line.Pairwise fun i j => line.idxOf i < line.idxOf j := by
  apply List.pairwise_iff_getElem.mpr
  intro a b a_inside b_inside lt
  rwa [nodup.idxOf_getElem, nodup.idxOf_getElem]

theorem idxOf_lt_of_not_rel {r : Nat → Nat → Prop} {line : List Nat} (sorted : line.Pairwise r)
    {i j : Nat} (left : i ∈ line) (right : j ∈ line) (apart : i ≠ j) (never : ¬ r j i) :
    line.idxOf i < line.idxOf j := by
  have places : line.idxOf i ≠ line.idxOf j := fun same => apart ((List.idxOf_inj left).mp same)
  rcases Nat.lt_or_gt_of_ne places with before | after
  · exact before
  · exact False.elim (never (rel_of_idxOf_lt sorted right left after))

section Depths
variable {r : Nat → Nat → Prop} {line : List Nat}
  (behind : ∀ i j, r j i → line.idxOf j < line.idxOf i)
include behind

theorem mem_of_behind {i j : Nat} (edge : r j i) : j ∈ line := by
  have lt := behind i j edge
  have bound : line.idxOf i ≤ line.length := List.idxOf_le_length
  exact List.idxOf_lt_length_iff.mp (by omega)

theorem chain_le {k i : Nat} (chain : Chain r k i) : k ≤ line.idxOf i := by
  induction chain with
  | start => exact Nat.zero_le _
  | @next k j i _ edge ih =>
    have lt := behind i j edge
    omega

theorem depth_isGreatest (i : Nat) : IsGreatest {k | Chain r k i} (depth r i) := by
  have bounded : BddAbove {k | Chain r k i} := ⟨line.idxOf i, fun k => chain_le behind⟩
  exact ⟨Nat.sSup_mem ⟨0, .start i⟩ bounded, fun k chain => le_csSup bounded chain⟩

theorem depth_lt {i j : Nat} (edge : r j i) : depth r j < depth r i := by
  have longest := (depth_isGreatest behind j).1
  exact (depth_isGreatest behind i).2 (longest.next edge)

theorem exists_deepest {i : Nat} (deep : depth r i ≠ 0) :
    ∃ j, r j i ∧ depth r i ≤ depth r j + 1 := by
  have longest : Chain r (depth r i) i := (depth_isGreatest behind i).1
  generalize depth r i = k at longest deep
  cases longest with
  | start => contradiction
  | @next k j _ chain edge =>
    have bound := (depth_isGreatest behind j).2 chain
    exact ⟨j, edge, Nat.succ_le_succ bound⟩

end Depths

def turn (graph : List (List Nat)) (placed : List Nat) (i : Nat) : Nat :=
  (row graph i).toFinset.sup fun j => placed.idxOf j + 1

def Ahead (graph : List (List Nat)) (placed : List Nat) (i j : Nat) : Prop :=
  turn graph placed i < turn graph placed j ∨
    turn graph placed i = turn graph placed j ∧ i < j

section Turns
variable {graph : List (List Nat)} {placed : List Nat} {i j p : Nat}

theorem lt_turn (leads : Leads graph j i) : placed.idxOf j < turn graph placed i :=
  Finset.le_sup (f := fun j => placed.idxOf j + 1) (List.mem_toFinset.mpr leads)

theorem turn_eq_zero_iff : turn graph placed i = 0 ↔ ∀ j, ¬ Leads graph j i := by
  constructor
  · intro zero j leads
    have lt : placed.idxOf j < turn graph placed i := lt_turn leads
    omega
  · intro alone
    have empty : row graph i = [] := List.eq_nil_iff_forall_not_mem.mpr alone
    simp [turn, empty]

theorem exists_latest (leads : Leads graph j i) (line : List Nat) :
    ∃ p, Latest (Leads graph) line i p := by
  have some : (row graph i).toFinset.Nonempty := ⟨j, List.mem_toFinset.mpr leads⟩
  obtain ⟨p, inside, last⟩ := Finset.exists_max_image _ line.idxOf some
  exact ⟨p, List.mem_toFinset.mp inside, fun q leads => last q (List.mem_toFinset.mpr leads)⟩

theorem turn_of_latest (latest : Latest (Leads graph) placed i p) :
    turn graph placed i = placed.idxOf p + 1 := by
  apply Nat.le_antisymm
  · apply Finset.sup_le
    intro q leads
    exact Nat.succ_le_succ (latest.2 q (List.mem_toFinset.mp leads))
  · exact lt_turn latest.1

theorem turn_le (closed : ∀ j, Leads graph j i → j ∈ placed) :
    turn graph placed i ≤ placed.length := by
  apply Finset.sup_le
  intro j leads
  exact List.idxOf_lt_length_of_mem (closed j (List.mem_toFinset.mp leads))

theorem turn_append (closed : ∀ j, Leads graph j i → j ∈ placed) (more : List Nat) :
    turn graph (placed ++ more) i = turn graph placed i := by
  apply Finset.sup_congr rfl
  intro j leads
  rw [List.idxOf_append_of_mem (closed j (List.mem_toFinset.mp leads))]

theorem turn_freed (valid : GraphValid graph) (fresh : p ∉ placed)
    (member : i ∈ freed graph placed p) :
    turn graph (placed ++ [p]) i = placed.length + 1 := by
  obtain ⟨leads, closed⟩ := (mem_freed valid fresh).mp member
  have upper := turn_le closed
  have lower : (placed ++ [p]).idxOf p < turn graph (placed ++ [p]) i := lt_turn leads
  rw [List.idxOf_append_of_notMem fresh] at lower
  simp only [List.length_append, List.length_singleton, List.idxOf_cons_self] at upper lower
  omega

end Turns

theorem positionsWhere_ascending (p : List Nat → Bool) (graph : List (List Nat)) :
    (positionsWhere p graph).Pairwise (· < ·) := by
  have whole : (graph.zipIdx.map Prod.snd).Pairwise (· < ·) := by
    rw [List.zipIdx_map_snd]
    exact List.pairwise_lt_range'
  exact whole.sublist (List.filter_sublist.map _)

/-- What every step keeps: everybody in line joined it in turn. -/
def InTurn (graph : List (List Nat)) (run : Placement) : Prop :=
  (run.placed ++ run.ready).Pairwise (Ahead graph run.placed)

theorem start_inTurn (graph : List (List Nat)) : InTurn graph (Placement.start graph) := by
  change (positionsWhere List.isEmpty graph).Pairwise (Ahead graph [])
  have none : ∀ i ∈ positionsWhere List.isEmpty graph, turn graph [] i = 0 := by
    intro i member
    have empty := List.isEmpty_iff.mp (mem_positionsWhere.mp member).2
    apply turn_eq_zero_iff.mpr
    intro j leads
    rw [Leads, empty] at leads
    contradiction
  apply (positionsWhere_ascending List.isEmpty graph).imp_of_mem
  intro i j left right lt
  exact .inr ⟨(none i left).trans (none j right).symm, lt⟩

theorem step_inTurn {graph : List (List Nat)} (valid : GraphValid graph) {run : Placement}
    (sound : Sound graph run) (inTurn : InTurn graph run) :
    InTurn graph (Placement.step graph run) := by
  obtain ⟨waiting, ready, placed⟩ := run
  cases ready with
  | nil => exact inTurn
  | cons p rest =>
    have fresh := sound.fresh
    have closed : ∀ i ∈ placed ++ p :: rest, ∀ j, Leads graph j i → j ∈ placed :=
      fun i member => ((sound.reached i).mp member).2
    have settled : ∀ i ∈ placed ++ p :: rest,
        turn graph (placed ++ [p]) i = turn graph placed i := fun i member =>
      turn_append (closed i member) [p]
    have last : ∀ i ∈ freed graph placed p,
        turn graph (placed ++ [p]) i = placed.length + 1 := fun i member =>
      turn_freed valid fresh member
    unfold InTurn
    rw [step_listed sound, (step_cons sound).1]
    refine List.pairwise_append.mpr ⟨?_, ?_, ?_⟩
    · apply inTurn.imp_of_mem
      intro i j left right ahead
      unfold Ahead
      rw [settled i left, settled j right]
      exact ahead
    · apply ((positionsWhere_ascending _ graph).filter _).imp_of_mem
      intro i j left right lt
      exact .inr ⟨(last i left).trans (last j right).symm, lt⟩
    · intro i before j now
      have bound := turn_le (closed i before)
      left
      rw [settled i before, last j now]
      omega

theorem after_inTurn {graph : List (List Nat)} (valid : GraphValid graph) (n : Nat) :
    InTurn graph (Placement.after graph n) := by
  induction n with
  | zero => exact start_inTurn graph
  | succ n ih => exact step_inTurn valid (after_sound valid n) ih

theorem final_inTurn {graph : List (List Nat)} (valid : GraphValid graph) :
    (Placement.final graph).placed.Pairwise (Ahead graph (Placement.final graph).placed) := by
  have inTurn := after_inTurn valid graph.length
  rwa [InTurn, ← Placement.final, final_ready valid, List.append_nil] at inTurn

theorem idxOf_lt_of_ahead {graph : List (List Nat)} {line : List Nat}
    (inTurn : line.Pairwise (Ahead graph line)) {i j : Nat} (left : i ∈ line) (right : j ∈ line)
    (ahead : Ahead graph line i j) : line.idxOf i < line.idxOf j := by
  unfold Ahead at ahead
  apply idxOf_lt_of_not_rel inTurn left right
  · rintro rfl
    omega
  · unfold Ahead
    omega

section Depth
variable {graph : List (List Nat)} {line : List Nat}
  (behind : ∀ i j, Leads graph j i → line.idxOf j < line.idxOf i)
  (inTurn : line.Pairwise (Ahead graph line))
include behind inTurn

/-- In a line by turns the depth does not fall. If `i` stands before `j`, whatever `i` waits for
    comes no later than the latest that `j` waits for. -/
theorem depth_le_of_before {i j : Nat} (left : i ∈ line) (right : j ∈ line)
    (before : line.idxOf i < line.idxOf j) :
    depth (Leads graph) i ≤ depth (Leads graph) j := by
  induction place : line.idxOf j using Nat.strong_induction_on generalizing i j with
  | h n ih =>
    by_cases shallow : depth (Leads graph) i = 0
    · omega
    obtain ⟨p, into_i, deepest⟩ := exists_deepest behind shallow
    have ahead : Ahead graph line i j := rel_of_idxOf_lt inTurn left right before
    have turn_i : line.idxOf p < turn graph line i := lt_turn into_i
    have waits : ∃ k, Leads graph k j := by
      by_contra alone
      have zero : turn graph line j = 0 := turn_eq_zero_iff.mpr (not_exists.mp alone)
      unfold Ahead at ahead
      omega
    obtain ⟨k, into_j⟩ := waits
    obtain ⟨q, latest⟩ := exists_latest into_j line
    have turn_j := turn_of_latest latest
    have no_later : line.idxOf p ≤ line.idxOf q := by
      unfold Ahead at ahead
      omega
    have rise : depth (Leads graph) p ≤ depth (Leads graph) q := by
      have p_placed := mem_of_behind behind into_i
      rcases Nat.lt_or_eq_of_le no_later with lt | same
      · have earlier := behind j q latest.1
        exact ih _ (by omega) p_placed (mem_of_behind behind latest.1) lt rfl
      · rw [(List.idxOf_inj p_placed).mp same]
    have fall := depth_lt behind latest.1
    omega

theorem inLayers_of_inTurn (all : line.Perm (List.range graph.length)) :
    InLayers (Leads graph) graph.length line where
  all := all
  layers := by
    have nodup : line.Nodup := all.nodup_iff.mpr List.nodup_range
    apply (pairwise_idxOf nodup).imp_of_mem
    intro i j left right before
    exact depth_le_of_before behind inTurn left right before
  first i j lt inside i_top j_top := by
    have alone : ∀ k, depth (Leads graph) k = 0 → turn graph line k = 0 := by
      intro k top
      apply turn_eq_zero_iff.mpr
      intro p leads
      have fall := depth_lt behind leads
      omega
    have left := all.mem_iff.mpr (List.mem_range.mpr (Nat.lt_trans lt inside))
    have right := all.mem_iff.mpr (List.mem_range.mpr inside)
    exact idxOf_lt_of_ahead inTurn left right
      (.inr ⟨(alone i i_top).trans (alone j j_top).symm, lt⟩)
  ties i j p q i_inside j_inside _ latest_i latest_j earlier := by
    have left := all.mem_iff.mpr (List.mem_range.mpr i_inside)
    have right := all.mem_iff.mpr (List.mem_range.mpr j_inside)
    apply idxOf_lt_of_ahead inTurn left right
    unfold Ahead
    rw [turn_of_latest latest_i, turn_of_latest latest_j]
    rcases earlier with lt | ⟨rfl, lt⟩ <;> omega

end Depth

section InLayers
variable {r : Nat → Nat → Prop} {size : Nat} {line : List Nat} {i j p q : Nat}

theorem InLayers.mem (layered : InLayers r size line) (inside : i < size) : i ∈ line :=
  layered.all.mem_iff.mpr (List.mem_range.mpr inside)

theorem InLayers.before_of_lt (layered : InLayers r size line) (i_inside : i < size)
    (j_inside : j < size) (lt : depth r i < depth r j) : line.idxOf i < line.idxOf j := by
  apply idxOf_lt_of_not_rel layered.layers (layered.mem i_inside) (layered.mem j_inside)
  · rintro rfl
    omega
  · omega

theorem InLayers.lt_of_before (layered : InLayers r size line) (i_inside : i < size)
    (i_top : depth r i = 0) (j_top : depth r j = 0) (before : line.idxOf i < line.idxOf j) :
    i < j := by
  rcases Nat.lt_trichotomy i j with lt | rfl | gt
  · exact lt
  · omega
  · have after := layered.first j i gt i_inside j_top i_top
    omega

theorem InLayers.earlier_of_before (layered : InLayers r size line) (i_inside : i < size)
    (j_inside : j < size) (same : depth r i = depth r j) (p_placed : p ∈ line)
    (latest_i : Latest r line i p) (latest_j : Latest r line j q)
    (before : line.idxOf i < line.idxOf j) :
    line.idxOf p < line.idxOf q ∨ p = q ∧ i < j := by
  by_contra later
  have swapped : line.idxOf q < line.idxOf p ∨ q = p ∧ j < i := by
    rcases Nat.lt_trichotomy (line.idxOf p) (line.idxOf q) with lt | equal | gt
    · omega
    · obtain rfl := (List.idxOf_inj p_placed).mp equal
      have apart : i ≠ j := by
        rintro rfl
        omega
      omega
    · exact .inl gt
  have after := layered.ties j i q p j_inside i_inside same.symm latest_j latest_i swapped
  omega

theorem latest_of_alike {other : List Nat} (closed : ∀ k, r k i → k ∈ line)
    (alike : ∀ k, r k i → line.idxOf k < line.idxOf p → other.idxOf k < other.idxOf p)
    (latest : Latest r line i p) : Latest r other i p := by
  refine ⟨latest.1, fun k edge => ?_⟩
  rcases Nat.lt_or_eq_of_le (latest.2 k edge) with lt | same
  · exact Nat.le_of_lt (alike k edge lt)
  · rw [(List.idxOf_inj (closed k edge)).mp same]

end InLayers

section Uniqueness
variable {graph : List (List Nat)} {line other : List Nat} (valid : GraphValid graph)
  (behind : ∀ i j, Leads graph j i → line.idxOf j < line.idxOf i)
  (layered : InLayers (Leads graph) graph.length line)
  (others : InLayers (Leads graph) graph.length other)
include valid behind layered others

/-- The induction is on the depth: the latest predecessors lie in earlier layers, on which both
    lines agree. -/
theorem before_alike (n : Nat) {i j : Nat} (i_inside : i < graph.length)
    (j_inside : j < graph.length) (i_depth : depth (Leads graph) i < n)
    (j_depth : depth (Leads graph) j < n) (before : line.idxOf i < line.idxOf j) :
    other.idxOf i < other.idxOf j := by
  induction n generalizing i j with
  | zero => omega
  | succ n ih =>
    have no_fall : depth (Leads graph) i ≤ depth (Leads graph) j :=
      rel_of_idxOf_lt layered.layers (layered.mem i_inside) (layered.mem j_inside) before
    rcases Nat.lt_or_eq_of_le no_fall with lt | same
    · exact others.before_of_lt i_inside j_inside lt
    by_cases top : depth (Leads graph) i = 0
    · have lt := layered.lt_of_before i_inside top (same.symm.trans top) before
      exact others.first i j lt j_inside top (same.symm.trans top)
    have closed : ∀ i k, Leads graph k i → k ∈ line := fun _ _ => mem_of_behind behind
    have carried : ∀ k p, depth (Leads graph) k ≤ n → Latest (Leads graph) line k p →
        Latest (Leads graph) other k p := by
      intro k p bound latest
      refine latest_of_alike (closed k) (fun a leads => ?_) latest
      have a_fall := depth_lt behind leads
      have p_fall := depth_lt behind latest.1
      exact ih (valid.leads_from_lt leads) (valid.leads_from_lt latest.1) (by omega) (by omega)
    obtain ⟨a, into_i, _⟩ := exists_deepest behind top
    obtain ⟨b, into_j, _⟩ := exists_deepest behind (same ▸ top)
    obtain ⟨p, latest_i⟩ := exists_latest into_i line
    obtain ⟨q, latest_j⟩ := exists_latest into_j line
    have earlier := layered.earlier_of_before i_inside j_inside same (closed i p latest_i.1)
      latest_i latest_j before
    apply others.ties i j p q i_inside j_inside same
    · exact carried i p (by omega) latest_i
    · exact carried j q (by omega) latest_j
    · apply earlier.imp_left
      have p_fall := depth_lt behind latest_i.1
      have q_fall := depth_lt behind latest_j.1
      exact ih (valid.leads_from_lt latest_i.1) (valid.leads_from_lt latest_j.1) (by omega)
        (by omega)

theorem inLayers_unique : other = line := by
  have perm := others.all.trans layered.all.symm
  have sorted : line.Pairwise fun i j => other.idxOf i < other.idxOf j := by
    have nodup : line.Nodup := layered.all.nodup_iff.mpr List.nodup_range
    apply (pairwise_idxOf nodup).imp_of_mem
    intro i j left right before
    have i_inside := List.mem_range.mp (layered.all.mem_iff.mp left)
    have j_inside := List.mem_range.mp (layered.all.mem_iff.mp right)
    exact before_alike valid behind layered others _ i_inside j_inside
      (Nat.lt_succ_of_le (Nat.le_max_left _ _)) (Nat.lt_succ_of_le (Nat.le_max_right _ _)) before
  have nodup : other.Nodup := others.all.nodup_iff.mpr List.nodup_range
  exact perm.eq_of_pairwise (fun i j _ _ _ _ => by omega) (pairwise_idxOf nodup) sorted

end Uniqueness

/-- The order by depth. If the nodes have an order, it lists the IDs of the one line in which
    the depth, the length of the longest chain that ends at a position, does not fall, whose
    first layer follows the list, and whose other layers follow the place of the latest
    predecessor and then the list. -/
theorem arrange_by_depth (nodes : List Node) (order : List UInt32)
    (ordered : arrange nodes = .ordered order) :
    (∀ i, IsGreatest {k | Chain (Requires nodes) k i} (depth (Requires nodes) i)) ∧
      ∃ line, BearIds nodes line order ∧ InLayers (Requires nodes) nodes.length line ∧
        ∀ other, InLayers (Requires nodes) nodes.length other → other = line := by
  have complete : missingPositions nodes = [] := by
    by_contra incomplete
    rw [arrange_blocked incomplete] at ordered
    contradiction
  obtain rfl := Arrangement.ordered.inj ((arrange_ordered complete).symm.trans ordered)
  have valid := positionGraph_valid nodes
  have behind := (placed_linear complete).behind
  have perm := placed_perm complete
  rw [requires_eq_leads] at behind ⊢
  rw [← positionGraph_length nodes] at perm ⊢
  have layered := inLayers_of_inTurn behind (final_inTurn valid) perm
  refine ⟨depth_isGreatest behind, _, idsAt_bear nodes fun i => placed_lt, layered, ?_⟩
  intro other others
  exact inLayers_unique valid behind layered others

/-- `A` stands first in the list, but waits for the later one of `C` and `D`. -/
def crossed : List Node :=
  [⟨0, "A", .ofList [3]⟩, ⟨1, "B", .ofList [2]⟩, ⟨2, "C", .ofList []⟩, ⟨3, "D", .ofList []⟩,
    ⟨4, "E", .ofList [0, 2]⟩]

theorem crossed_nodes_by_depth :
    arrange crossed = .ordered [2, 3, 1, 0, 4] ∧
      (∀ i, IsGreatest {k | Chain (Requires crossed) k i} (depth (Requires crossed) i)) ∧
        ∃ line, BearIds crossed line [2, 3, 1, 0, 4] ∧
          InLayers (Requires crossed) crossed.length line ∧
            ∀ other, InLayers (Requires crossed) crossed.length other → other = line := by
  have ordered : arrange crossed = .ordered [2, 3, 1, 0, 4] := by decide
  exact ⟨ordered, arrange_by_depth crossed _ ordered⟩

end EcsPlan
