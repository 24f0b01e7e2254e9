import EcsPlan.Arrangement
import Mathlib.Data.Fintype.EquivFin
import Mathlib.Logic.Relation

/-!
The placement of positions, over any graph whose rows name each predecessor once.
One step keeps the counters exact and the order sound; after as many steps as
there are positions, what is missing is what lies on a cycle or behind one.
-/
namespace EcsPlan

/-- On a cycle of the relation, or downstream of one. -/
def Blocked {α : Type} (r : α → α → Prop) (x : α) : Prop :=
  ∃ c, Relation.TransGen r c c ∧ Relation.ReflTransGen r c x

theorem blocked_next {α : Type} {r : α → α → Prop} {x y : α} (blocked : Blocked r x)
    (edge : r x y) : Blocked r y := by
  obtain ⟨c, cycle, path⟩ := blocked
  exact ⟨c, cycle, path.tail edge⟩

theorem blocked_of_cycle {α : Type} {r : α → α → Prop} {x : α}
    (cycle : Relation.TransGen r x x) : Blocked r x :=
  ⟨x, cycle, .refl⟩

theorem Blocked.edge {α : Type} {r : α → α → Prop} {x : α} (blocked : Blocked r x) :
    ∃ y, r y x := by
  obtain ⟨c, cycle, path⟩ := blocked
  rcases path.cases_tail with rfl | ⟨y, _, edge⟩
  · obtain ⟨y, _, edge⟩ := Relation.TransGen.tail'_iff.mp cycle
    exact ⟨y, edge⟩
  · exact ⟨y, edge⟩

theorem blocked_lift {α β : Type} {r : α → α → Prop} {s : β → β → Prop} (f : α → β)
    (edge : ∀ a b, r a b → s (f a) (f b)) {x : α} (blocked : Blocked r x) :
    Blocked s (f x) := by
  obtain ⟨c, cycle, path⟩ := blocked
  exact ⟨f c, cycle.lift f edge, path.lift f edge⟩

structure GraphValid (graph : List (List Nat)) : Prop where
  nodup : ∀ row ∈ graph, row.Nodup
  bounded : ∀ row ∈ graph, ∀ j ∈ row, j < graph.length

def row (graph : List (List Nat)) (i : Nat) : List Nat := graph.getD i []

def Leads (graph : List (List Nat)) (j i : Nat) : Prop := j ∈ row graph i

theorem row_mem_or_empty (graph : List (List Nat)) (i : Nat) :
    row graph i ∈ graph ∨ row graph i = [] := by
  rw [row, List.getD_eq_getElem?_getD]
  cases h : graph[i]? with
  | none => exact .inr rfl
  | some r => exact .inl (List.mem_of_getElem? h)

theorem leads_lt {graph : List (List Nat)} {i j : Nat} (leads : Leads graph j i) :
    i < graph.length := by
  by_contra beyond
  have empty : row graph i = [] := by
    rw [row, List.getD_eq_getElem?_getD, List.getElem?_eq_none (by omega)]
    rfl
  rw [Leads, empty] at leads
  contradiction

namespace GraphValid
variable {graph : List (List Nat)}

theorem row_nodup (valid : GraphValid graph) (i : Nat) : (row graph i).Nodup := by
  rcases row_mem_or_empty graph i with member | empty
  · exact valid.nodup _ member
  · simp [empty]

theorem leads_from_lt (valid : GraphValid graph) {i j : Nat} (leads : Leads graph j i) :
    j < graph.length := by
  rcases row_mem_or_empty graph i with member | empty
  · exact valid.bounded _ member j leads
  · rw [Leads, empty] at leads
    contradiction

end GraphValid

theorem mem_positionsWhere {p : List Nat → Bool} {graph : List (List Nat)} {i : Nat} :
    i ∈ positionsWhere p graph ↔ i < graph.length ∧ p (row graph i) = true := by
  simp only [positionsWhere, List.mem_map, List.mem_filter, List.mem_zipIdx_iff_getElem?, row,
    List.getD_eq_getElem?_getD]
  constructor
  · intro given
    obtain ⟨⟨r, k⟩, ⟨found, accepted⟩, rfl⟩ := given
    have inside := (List.getElem?_eq_some_iff.mp found).1
    exact ⟨inside, by simpa [found] using accepted⟩
  · intro found
    obtain ⟨inside, accepted⟩ := found
    refine ⟨(graph[i], i), ⟨List.getElem?_eq_getElem inside, ?_⟩, rfl⟩
    simpa [List.getElem?_eq_getElem inside] using accepted

theorem positionsWhere_nodup (p : List Nat → Bool) (graph : List (List Nat)) :
    (positionsWhere p graph).Nodup := by
  have whole : (graph.zipIdx.map Prod.snd).Nodup := by
    rw [List.zipIdx_map_snd]
    exact List.nodup_range'
  exact (List.filter_sublist.map _).nodup whole

theorem mem_dependents {graph : List (List Nat)} {i p : Nat} :
    i ∈ dependents graph p ↔ Leads graph p i := by
  rw [dependents, mem_positionsWhere, List.contains_iff_mem]
  exact ⟨fun h => h.2, fun leads => ⟨leads_lt leads, leads⟩⟩

namespace Placement

def left (run : Placement) (i : Nat) : Nat := run.waiting.getD i 0

theorem release_left (run : Placement) (p i : Nat) :
    (run.release p).left i = if i = p then run.left p - 1 else run.left i := by
  simp only [left, release, List.getD_eq_getElem?_getD, List.getElem?_set]
  by_cases same : p = i
  · subst same
    by_cases inside : p < run.waiting.length <;> simp [inside]
  · simp [same, Ne.symm same]

theorem release_ready (run : Placement) (p : Nat) :
    (run.release p).ready = if run.left p - 1 = 0 then run.ready ++ [p] else run.ready := rfl

theorem foldl_release_placed (ds : List Nat) (run : Placement) :
    (ds.foldl release run).placed = run.placed := by
  induction ds generalizing run with
  | nil => rfl
  | cons d rest ih => exact ih (run.release d)

theorem foldl_release_left {ds : List Nat} (nodup : ds.Nodup) (run : Placement) (i : Nat) :
    (ds.foldl release run).left i = if i ∈ ds then run.left i - 1 else run.left i := by
  induction ds generalizing run with
  | nil => simp
  | cons d rest ih =>
    obtain ⟨fresh, tail⟩ := List.nodup_cons.mp nodup
    rw [List.foldl_cons, ih tail, release_left]
    by_cases same : i = d
    · subst same
      simp [fresh]
    · simp [same]

theorem foldl_release_ready {ds : List Nat} (nodup : ds.Nodup) (run : Placement) :
    (ds.foldl release run).ready =
      run.ready ++ ds.filter fun i => run.left i - 1 = 0 := by
  induction ds generalizing run with
  | nil => simp
  | cons d rest ih =>
    obtain ⟨fresh, tail⟩ := List.nodup_cons.mp nodup
    have unchanged : ∀ i ∈ rest, (run.release d).left i = run.left i := by
      intro i member
      rw [release_left, if_neg]
      intro same
      subst same
      exact fresh member
    have same : (rest.filter fun i => (run.release d).left i - 1 = 0) =
        rest.filter fun i => run.left i - 1 = 0 :=
      List.filter_congr fun i member => by rw [unchanged i member]
    rw [List.foldl_cons, ih tail, same, release_ready, List.filter_cons]
    by_cases last : run.left d - 1 = 0 <;> simp [last]

end Placement

def openCount (graph : List (List Nat)) (placed : List Nat) (i : Nat) : Nat :=
  ((row graph i).filter (!placed.contains ·)).length

theorem openCount_eq_zero_iff {graph : List (List Nat)} {placed : List Nat} {i : Nat} :
    openCount graph placed i = 0 ↔ ∀ j, Leads graph j i → j ∈ placed := by
  simp [openCount, Leads, List.filter_eq_nil_iff]

theorem openCount_snoc {graph : List (List Nat)} (valid : GraphValid graph)
    {placed : List Nat} {p : Nat} (fresh : p ∉ placed) (i : Nat) :
    openCount graph (placed ++ [p]) i =
      if i ∈ dependents graph p then openCount graph placed i - 1
      else openCount graph placed i := by
  have fewer : ((row graph i).filter (!(placed ++ [p]).contains ·)) =
      ((row graph i).filter (!placed.contains ·)).erase p := by
    rw [((valid.row_nodup i).filter _).erase_eq_filter, List.filter_filter]
    apply List.filter_congr
    intro j _
    by_cases same : j = p <;> simp [same]
  rw [openCount, fewer, openCount, List.length_erase]
  have counted : p ∈ (row graph i).filter (!placed.contains ·) ↔ i ∈ dependents graph p := by
    rw [mem_dependents, List.mem_filter]
    simp [Leads, fresh]
  simp only [counted]

/-- Positions in an order in which each stands behind all of its predecessors. -/
inductive Layered (graph : List (List Nat)) : List Nat → Prop where
  | nil : Layered graph []
  | snoc {placed : List Nat} {i : Nat} (front : Layered graph placed)
      (closed : ∀ j, Leads graph j i → j ∈ placed) : Layered graph (placed ++ [i])

theorem layered_before {graph : List (List Nat)} {placed : List Nat}
    (layered : Layered graph placed) (nodup : placed.Nodup) {i j : Nat} (member : i ∈ placed)
    (leads : Leads graph j i) : j ∈ placed ∧ placed.idxOf j < placed.idxOf i := by
  induction layered with
  | nil => contradiction
  | @snoc placed last front closed ih =>
    obtain ⟨distinct, _, apart⟩ := List.nodup_append.mp nodup
    by_cases old : i ∈ placed
    · obtain ⟨inside, lt⟩ := ih distinct old
      refine ⟨List.mem_append_left _ inside, ?_⟩
      rwa [List.idxOf_append_of_mem inside, List.idxOf_append_of_mem old]
    · have same : i = last := by simpa [old] using member
      subst same
      have inside := closed j leads
      refine ⟨List.mem_append_left _ inside, ?_⟩
      rw [List.idxOf_append_of_mem inside, List.idxOf_append_of_notMem old]
      exact Nat.lt_of_lt_of_le (List.idxOf_lt_length_of_mem inside) (Nat.le_add_right _ _)

theorem layered_before_path {graph : List (List Nat)} {placed : List Nat}
    (layered : Layered graph placed) (nodup : placed.Nodup) {i c : Nat} (member : i ∈ placed)
    (path : Relation.TransGen (Leads graph) c i) :
    c ∈ placed ∧ placed.idxOf c < placed.idxOf i := by
  induction path with
  | single edge => exact layered_before layered nodup member edge
  | tail _ edge ih =>
    obtain ⟨inside, lt⟩ := layered_before layered nodup member edge
    obtain ⟨first, before⟩ := ih inside
    exact ⟨first, Nat.lt_trans before lt⟩

theorem layered_not_blocked {graph : List (List Nat)} {placed : List Nat}
    (layered : Layered graph placed) (nodup : placed.Nodup) {i : Nat} (member : i ∈ placed) :
    ¬ Blocked (Leads graph) i := by
  intro found
  obtain ⟨c, cycle, path⟩ := found
  have inside : c ∈ placed := by
    rcases Relation.reflTransGen_iff_eq_or_transGen.mp path with rfl | path
    · exact member
    · exact (layered_before_path layered nodup member path).1
  exact Nat.lt_irrefl _ (layered_before_path layered nodup inside cycle).2

/-- What every step of a placement keeps: exact counters, and exactly those
    positions reached whose predecessors are all placed. -/
structure Sound (graph : List (List Nat)) (run : Placement) : Prop where
  counted : ∀ i, run.left i = openCount graph run.placed i
  nodup : (run.placed ++ run.ready).Nodup
  reached : ∀ i, i ∈ run.placed ++ run.ready ↔
    i < graph.length ∧ ∀ j, Leads graph j i → j ∈ run.placed
  layered : Layered graph run.placed

theorem Sound.fresh {graph : List (List Nat)} {waiting rest placed : List Nat} {p : Nat}
    (sound : Sound graph ⟨waiting, p :: rest, placed⟩) : p ∉ placed := by
  intro old
  exact (List.nodup_append.mp sound.nodup).2.2 p old p (by simp) rfl

theorem start_sound (graph : List (List Nat)) : Sound graph (Placement.start graph) where
  counted i := by
    simp only [Placement.left, Placement.start, openCount, row, List.getD_eq_getElem?_getD,
      List.getElem?_map]
    cases graph[i]? <;> simp
  nodup := positionsWhere_nodup _ _
  reached i := by
    simp only [Placement.start, List.nil_append, mem_positionsWhere, List.isEmpty_iff, Leads,
      List.not_mem_nil, imp_false, List.eq_nil_iff_forall_not_mem]
  layered := .nil

def freed (graph : List (List Nat)) (placed : List Nat) (p : Nat) : List Nat :=
  (dependents graph p).filter fun i => openCount graph placed i - 1 = 0

theorem mem_freed {graph : List (List Nat)} (valid : GraphValid graph) {placed : List Nat}
    {p i : Nat} (fresh : p ∉ placed) :
    i ∈ freed graph placed p ↔
      Leads graph p i ∧ ∀ j, Leads graph j i → j ∈ placed ++ [p] := by
  rw [freed, List.mem_filter, ← openCount_eq_zero_iff, openCount_snoc valid fresh]
  simp only [decide_eq_true_eq, mem_dependents]
  constructor
  · intro found
    obtain ⟨leads, last⟩ := found
    exact ⟨leads, by rw [if_pos (mem_dependents.mpr leads)]; exact last⟩
  · intro found
    obtain ⟨leads, last⟩ := found
    rw [if_pos (mem_dependents.mpr leads)] at last
    exact ⟨leads, last⟩

theorem step_cons {graph : List (List Nat)} {waiting rest placed : List Nat} {p : Nat}
    (sound : Sound graph ⟨waiting, p :: rest, placed⟩) :
    (Placement.step graph ⟨waiting, p :: rest, placed⟩).placed = placed ++ [p] ∧
      (Placement.step graph ⟨waiting, p :: rest, placed⟩).ready =
        rest ++ freed graph placed p ∧
      ∀ i, (Placement.step graph ⟨waiting, p :: rest, placed⟩).left i =
        if i ∈ dependents graph p then openCount graph placed i - 1
        else openCount graph placed i := by
  have distinct : (dependents graph p).Nodup := positionsWhere_nodup _ _
  have counted : ∀ i, (Placement.mk waiting rest (placed ++ [p])).left i =
      openCount graph placed i := sound.counted
  refine ⟨Placement.foldl_release_placed _ _, ?_, ?_⟩
  · simp only [Placement.step, Placement.foldl_release_ready distinct, counted]
    rfl
  · intro i
    simp only [Placement.step, Placement.foldl_release_left distinct, counted]

theorem step_listed {graph : List (List Nat)} {waiting rest placed : List Nat} {p : Nat}
    (sound : Sound graph ⟨waiting, p :: rest, placed⟩) :
    (Placement.step graph ⟨waiting, p :: rest, placed⟩).placed ++
        (Placement.step graph ⟨waiting, p :: rest, placed⟩).ready =
      placed ++ p :: rest ++ freed graph placed p := by
  obtain ⟨placedEq, readyEq, _⟩ := step_cons sound
  rw [placedEq, readyEq]
  simp

/-- With `p` placed, the positions whose predecessors are all placed are those that had
    them placed before and those that wait for `p` as their last. -/
theorem closed_snoc_iff {graph : List (List Nat)} {placed : List Nat} {p i : Nat} :
    (i < graph.length ∧ ∀ j, Leads graph j i → j ∈ placed) ∨
        (Leads graph p i ∧ ∀ j, Leads graph j i → j ∈ placed ++ [p]) ↔
      i < graph.length ∧ ∀ j, Leads graph j i → j ∈ placed ++ [p] := by
  constructor
  · intro reached
    rcases reached with ⟨inside, closed⟩ | ⟨leads, closed⟩
    · exact ⟨inside, fun j leads => List.mem_append_left _ (closed j leads)⟩
    · exact ⟨leads_lt leads, closed⟩
  · intro reached
    obtain ⟨inside, closed⟩ := reached
    by_cases leads : Leads graph p i
    · exact .inr ⟨leads, closed⟩
    · left
      constructor
      · exact inside
      intro j from_j
      rcases List.mem_append.mp (closed j from_j) with member | last
      · exact member
      · have same : j = p := by simpa using last
        exact False.elim (leads (same ▸ from_j))

theorem step_sound {graph : List (List Nat)} (valid : GraphValid graph) {run : Placement}
    (sound : Sound graph run) : Sound graph (Placement.step graph run) := by
  obtain ⟨waiting, ready, placed⟩ := run
  cases ready with
  | nil => exact sound
  | cons p rest =>
    obtain ⟨placedEq, _, leftEq⟩ := step_cons sound
    -- `p` was ready, so all its predecessors are placed and `p` itself is not
    have enabled := (sound.reached p).mp (by simp)
    have fresh := sound.fresh
    have old : ∀ i, i ∈ placed ++ p :: rest ↔ i < graph.length ∧
        ∀ j, Leads graph j i → j ∈ placed := sound.reached
    refine ⟨?_, ?_, ?_, ?_⟩
    · intro i
      rw [leftEq, placedEq, openCount_snoc valid fresh]
    · rw [step_listed sound]
      refine List.nodup_append.mpr ⟨sound.nodup, (positionsWhere_nodup _ _).filter _, ?_⟩
      intro i before _ now same
      subst same
      exact fresh (((old i).mp before).2 p ((mem_freed valid fresh).mp now).1)
    · intro i
      rw [step_listed sound, placedEq, List.mem_append, old, mem_freed valid fresh,
        closed_snoc_iff]
    · rw [placedEq]
      exact .snoc sound.layered enabled.2

theorem after_sound {graph : List (List Nat)} (valid : GraphValid graph) (n : Nat) :
    Sound graph (Placement.after graph n) := by
  induction n with
  | zero => exact start_sound graph
  | succ n ih => exact step_sound valid ih

theorem after_progress {graph : List (List Nat)} (valid : GraphValid graph) (n : Nat) :
    (Placement.after graph n).ready = [] ∨ (Placement.after graph n).placed.length = n := by
  induction n with
  | zero => exact .inr rfl
  | succ n ih =>
    have sound := after_sound valid n
    simp only [Placement.after]
    generalize Placement.after graph n = run at ih sound
    obtain ⟨waiting, ready, placed⟩ := run
    cases ready with
    | nil => exact .inl rfl
    | cons p rest =>
      have count : placed.length = n := by simpa using ih
      exact .inr (by simp [(step_cons sound).1, count])

theorem final_ready {graph : List (List Nat)} (valid : GraphValid graph) :
    (Placement.final graph).ready = [] := by
  rcases after_progress valid graph.length with done | full
  · exact done
  · have sound := after_sound valid graph.length
    have within : (Placement.final graph).placed ++ (Placement.final graph).ready ⊆
        List.range graph.length := by
      intro i member
      exact List.mem_range.mpr ((sound.reached i).mp member).1
    have bound := sound.nodup.length_le_of_subset within
    rw [List.length_append, List.length_range, full] at bound
    exact List.length_eq_zero_iff.mp (by rw [Placement.final]; omega)

theorem final_reached {graph : List (List Nat)} (valid : GraphValid graph) (i : Nat) :
    i ∈ (Placement.final graph).placed ↔
      i < graph.length ∧ ∀ j, Leads graph j i → j ∈ (Placement.final graph).placed := by
  have reached := (after_sound valid graph.length).reached i
  rwa [← Placement.final, final_ready valid, List.append_nil] at reached

abbrev FreePosition (graph : List (List Nat)) : Type :=
  {x : Fin graph.length // ¬ Blocked (Leads graph) x.val}

def Above (graph : List (List Nat)) (a b : FreePosition graph) : Prop :=
  Relation.TransGen (Leads graph) a.1.val b.1.val

theorem above_wellFounded (graph : List (List Nat)) : WellFounded (Above graph) := by
  have trans : IsTrans (FreePosition graph) (Above graph) := ⟨fun _ _ _ ab bc => ab.trans bc⟩
  have irrefl : Std.Irrefl (Above graph) := ⟨fun a cycle => a.2 (blocked_of_cycle cycle)⟩
  exact Finite.wellFounded_of_trans_of_irrefl _

theorem free_placed {graph : List (List Nat)} (valid : GraphValid graph)
    (a : FreePosition graph) : a.1.val ∈ (Placement.final graph).placed := by
  induction a using (above_wellFounded graph).induction with
  | _ a ih =>
    refine (final_reached valid _).mpr ⟨a.1.isLt, fun j leads => ?_⟩
    have free : ¬ Blocked (Leads graph) j := fun blocked => a.2 (blocked_next blocked leads)
    exact ih ⟨⟨j, valid.leads_from_lt leads⟩, free⟩ (.single leads)

/-- Exactly the positions that lie on a cycle or behind one are missing. -/
theorem final_missing_iff {graph : List (List Nat)} (valid : GraphValid graph) {i : Nat}
    (inside : i < graph.length) :
    i ∉ (Placement.final graph).placed ↔ Blocked (Leads graph) i := by
  have sound := after_sound valid graph.length
  constructor
  · intro missing
    by_contra free
    exact missing (free_placed valid ⟨⟨i, inside⟩, free⟩)
  · intro blocked placed
    exact layered_not_blocked sound.layered (List.nodup_append.mp sound.nodup).1 placed blocked

end EcsPlan
