import EcsPlan.Proofs.Deadlocks
import EcsPlan.Proofs.Relations
import EcsPlan.Schedule
import Mathlib.Data.Set.Card

/-!
Nodes and their order computed in place. Every element is reached by a position that has to be
inside its list, every ID is looked up in a table that has to know it, and no counter may fall
below zero. None of this ever fails, whatever IDs and names are repeated and whatever is related
to whom, and the results are the nodes and the arrangement.
-/
namespace EcsPlan

/-- The list with its element at position `i` changed, if there is one and it can be changed. -/
def revise? {α : Type} (l : List α) (i : Nat) (change : α → Option α) : Option (List α) := do
  let a ← l[i]?
  let b ← change a
  return l.set i b

section Revise
variable {α : Type} {l : List α} {i : Nat} {a b : α} {change : α → Option α}

theorem revise?_eq (here : l[i]? = some a) (changed : change a = some b) :
    revise? l i change = some (l.set i b) := by
  simp [revise?, here, changed]

theorem revise?_cons (first : α) (l : List α) (i : Nat) (change : α → Option α) :
    revise? (first :: l) (i + 1) change = (revise? l i change).map (first :: ·) := by
  simp only [revise?, List.getElem?_cons_succ]
  cases l[i]? with
  | none => rfl
  | some a => cases found : change a <;> simp [found]

theorem revise?_tabulated {size : Nat} {f g : Nat → α} (inside : i < size)
    (changed : change (f i) = some (g i)) (others : ∀ j, j ≠ i → g j = f j) :
    revise? ((List.range size).map f) i change = some ((List.range size).map g) := by
  have here : ((List.range size).map f)[i]? = some (f i) := by simp [inside]
  rw [revise?_eq here changed]
  refine congrArg some (List.ext_getElem? fun j => ?_)
  rw [List.getElem?_set]
  by_cases same : i = j
  · subst same
    simp [inside]
  · by_cases bound : j < size <;> simp [same, bound, others j (Ne.symm same)]

/-- A fold that cannot fail where `view` tells its state after each part of the list. -/
theorem foldlM_view {σ : Type} {step : σ → α → Option σ} (view : List α → σ)
    (each : ∀ seen a rest, l = seen ++ a :: rest → step (view seen) a = some (view (seen ++ [a]))) :
    l.foldlM step (view []) = some (view l) := by
  suffices on : ∀ rest seen, l = seen ++ rest → rest.foldlM step (view seen) = some (view l) from
    on l [] rfl
  intro rest
  induction rest with
  | nil =>
    rintro seen rfl
    simp
  | cons a rest ih =>
    intro seen split
    rw [List.foldlM_cons, each seen a rest split]
    exact ih (seen ++ [a]) (by simp [split])

end Revise

section Building

def Node.preceded (first : UInt32) (n : Node) : Node :=
  { n with predecessors := n.predecessors.insert first }

def enter? (position : UInt32 → Option Nat) (nodes : List Node) (p : Precedes) :
    Option (List Node) := do
  let i ← position p.second
  revise? nodes i fun n => some (n.preceded p.first)

/-- Enters what one system declares. Its own position is looked up in any case, and relations
    with unknown systems are passed over. -/
def enterAll? (position : UInt32 → Option Nat) (table : NameTable) (nodes : List Node)
    (e : Entry) : Option (List Node) := do
  let _ ← position e.id
  e.relations.foldlM (fun nodes r =>
    match precedence table e r with
    | some p => enter? position nodes p
    | none => some nodes) nodes

/-- The nodes are laid out by ID, and then the relations are entered system by system, in the
    order in which the systems were given. -/
def buildInPlace? (systems : List Entry) : Option (List Node) :=
  let bare : List Node := (sortById systems).map fun e => ⟨e.id, e.name, .empty⟩
  systems.foldlM (enterAll? (lastPosition · bare) (nameTable systems)) bare

theorem lastPosition_congr {nodes others : List Node}
    (same : nodes.map (·.id) = others.map (·.id)) (id : UInt32) :
    lastPosition id nodes = lastPosition id others := by
  induction nodes generalizing others with
  | nil =>
    rw [List.map_nil, eq_comm, List.map_eq_nil_iff] at same
    rw [same]
  | cons n rest ih =>
    obtain ⟨m, more, rfl, first, later⟩ := List.map_eq_cons_iff.mp same.symm
    rw [lastPosition, lastPosition, ih later.symm, first]

theorem nodesOf_ids (relation : List Precedes) (entries : List Entry) :
    (nodesOf relation entries).map (·.id) = entries.map (·.id) := by
  induction entries with
  | nil => rfl
  | cons e rest ih => rw [nodesOf, List.map_cons, ih, List.map_cons]

theorem predecessorsOf_snoc (relation : List Precedes) (p : Precedes) (id : UInt32) :
    predecessorsOf (relation ++ [p]) id =
      if p.second = id then (predecessorsOf relation id).insert p.first
      else predecessorsOf relation id := by
  by_cases same : p.second = id
  · simp [predecessorsOf, same, SortedSet.ofList]
  · simp [predecessorsOf, same]

theorem nodesOf_bare (entries : List Entry) :
    nodesOf [] entries = entries.map fun e => ⟨e.id, e.name, .empty⟩ := by
  induction entries with
  | nil => rfl
  | cons e rest ih =>
    rw [nodesOf, ih, List.map_cons]
    split <;> rfl

theorem nodesOf_snoc_other {relation : List Precedes} {p : Precedes} {entries : List Entry}
    (absent : p.second ∉ entries.map (·.id)) :
    nodesOf (relation ++ [p]) entries = nodesOf relation entries := by
  induction entries with
  | nil => rfl
  | cons e rest ih =>
    obtain ⟨other, later⟩ := List.ne_and_not_mem_of_not_mem_cons absent
    rw [nodesOf, nodesOf, ih later, predecessorsOf_snoc, if_neg other]

theorem revise?_nodesOf (relation : List Precedes) {p : Precedes} {entries : List Entry}
    (known : p.second ∈ entries.map (·.id)) : ∃ i,
      lastPosition p.second (nodesOf relation entries) = some i ∧
      revise? (nodesOf relation entries) i (fun n => some (n.preceded p.first)) =
        some (nodesOf (relation ++ [p]) entries) := by
  induction entries with
  | nil => simp at known
  | cons e rest ih =>
    by_cases later : p.second ∈ rest.map (·.id)
    · obtain ⟨i, stands, revised⟩ := ih later
      refine ⟨i + 1, by rw [nodesOf, lastPosition, stands], ?_⟩
      rw [nodesOf, revise?_cons, revised, nodesOf, predecessorsOf_snoc]
      -- a node that another one with its ID follows has no predecessors
      by_cases same : p.second = e.id
      · have followed : rest.any (·.id = e.id) = true := by
          obtain ⟨f, member, bears⟩ := List.mem_map.mp later
          exact List.any_eq_true.mpr ⟨f, member, by simp [bears, same]⟩
        simp [followed]
      · simp [same]
    · have same : p.second = e.id := by simpa [later] using known
      have last : rest.any (·.id = e.id) = false := by
        rw [List.any_eq_false]
        intro f member bears
        exact later (List.mem_map.mpr ⟨f, member, by simpa [same] using bears⟩)
      have absent : lastPosition p.second (nodesOf relation rest) = none := by
        cases found : lastPosition p.second (nodesOf relation rest) with
        | none => rfl
        | some i =>
          obtain ⟨n, here, bears⟩ := lastPosition_some found
          refine absurd ?_ later
          rw [← nodesOf_ids relation, ← bears]
          exact List.mem_map_of_mem (List.mem_of_getElem? here)
      refine ⟨0, by rw [nodesOf, lastPosition, absent]; simp [same], ?_⟩
      rw [nodesOf, nodesOf, nodesOf_snoc_other later, predecessorsOf_snoc, if_pos same]
      simp [revise?, last, Node.preceded]

section Entered
variable {table : NameTable} {systems entries : List Entry} {e : Entry} {p : Precedes}

def Entry.demands (table : NameTable) (e : Entry) : List Precedes :=
  e.relations.filterMap (precedence table e)

theorem demands_second (member : e ∈ systems)
    (declared : p ∈ e.demands (nameTable systems)) : p.second ∈ systems.map (·.id) := by
  obtain ⟨⟨direction, target⟩, _, found⟩ := List.mem_filterMap.mp declared
  cases direction with
  | after =>
    obtain ⟨_, _, rfl⟩ := Option.map_eq_some_iff.mp found
    exact List.mem_map_of_mem member
  | before =>
    obtain ⟨id, known, rfl⟩ := Option.map_eq_some_iff.mp found
    obtain ⟨_, _, split, _⟩ := List.lookup_eq_some_iff.mp known
    have listed : (target, id) ∈ nameTable systems := List.mem_reverse.mp (by simp [split])
    obtain ⟨f, other, same⟩ := List.mem_map.mp listed
    exact List.mem_map.mpr ⟨f, other, congrArg Prod.snd same⟩

theorem enter?_nodesOf (relation : List Precedes) (known : p.second ∈ entries.map (·.id)) :
    enter? (lastPosition · (nodesOf [] entries)) (nodesOf relation entries) p =
      some (nodesOf (relation ++ [p]) entries) := by
  obtain ⟨i, stands, revised⟩ := revise?_nodesOf relation known
  have same : (nodesOf [] entries).map (·.id) = (nodesOf relation entries).map (·.id) := by
    rw [nodesOf_ids, nodesOf_ids]
  rw [enter?, lastPosition_congr same, stands]
  exact revised

theorem enterAll?_nodesOf (relation : List Precedes) (inside : e.id ∈ entries.map (·.id))
    (known : ∀ p ∈ e.demands table, p.second ∈ entries.map (·.id)) :
    enterAll? (lastPosition · (nodesOf [] entries)) table (nodesOf relation entries) e =
      some (nodesOf (relation ++ e.demands table) entries) := by
  obtain ⟨i, stands, _⟩ := revise?_nodesOf [] (p := ⟨e.id, e.id⟩) inside
  have run : (e.demands table).foldlM (enter? (lastPosition · (nodesOf [] entries)))
      (nodesOf (relation ++ []) entries) =
        some (nodesOf (relation ++ e.demands table) entries) :=
    foldlM_view (fun seen => nodesOf (relation ++ seen) entries) fun seen p rest split => by
      rw [enter?_nodesOf _ (known p (by simp [split])), List.append_assoc]
  rw [List.append_nil] at run
  rw [enterAll?, stands, ← run, Entry.demands, List.foldlM_filterMap]
  refine congrArg (List.foldlM · (nodesOf relation entries) e.relations) ?_
  funext nodes r
  cases precedence table e r <;> rfl

end Entered

theorem buildInPlace?_eq (systems : List Entry) :
    buildInPlace? systems = some (systemNodes systems) := by
  have same : ∀ id, id ∈ (sortById systems).map (·.id) ↔ id ∈ systems.map (·.id) := fun id =>
    ((List.mergeSort_perm _ _).map _).mem_iff
  rw [buildInPlace?, ← nodesOf_bare]
  refine foldlM_view
    (fun seen => nodesOf (seen.flatMap (Entry.demands (nameTable systems)))
      (sortById systems)) fun seen e rest split => ?_
  have member : e ∈ systems := by simp [split]
  rw [enterAll?_nodesOf _ ((same _).mpr (List.mem_map_of_mem member))
    fun p declared => (same _).mpr (demands_second member declared)]
  simp

end Building

section Linking

/-- How many predecessors each position waits for, and the positions that wait for it. -/
structure Links where
  waiting : List Nat
  dependents : List (List Nat)

def Links.add? (i : Nat) (links : Links) (j : Nat) : Option Links := do
  let dependents ← revise? links.dependents j fun l => some (l ++ [i])
  let waiting ← revise? links.waiting i fun n => some (n + 1)
  return ⟨waiting, dependents⟩

def waitsFor (nodes : List Node) (n : Node) : List Nat :=
  n.predecessors.toList.filterMap (lastPosition · nodes)

def link? (nodes : List Node) : Option Links :=
  nodes.zipIdx.foldlM (fun links p => (waitsFor nodes p.1).foldlM (Links.add? p.2) links)
    ⟨List.replicate nodes.length 0, List.replicate nodes.length []⟩

def Links.of (size : Nat) (graph : List (List Nat)) : Links where
  waiting := (List.range size).map fun i => (row graph i).length
  dependents := (List.range size).map fun j => EcsPlan.dependents graph j

theorem row_snoc (graph : List (List Nat)) (last : List Nat) (i : Nat) :
    row (graph ++ [last]) i = if i = graph.length then last else row graph i := by
  simp only [row, List.getD_eq_getElem?_getD]
  rcases Nat.lt_trichotomy i graph.length with lt | rfl | gt
  · rw [List.getElem?_append_left lt, if_neg (Nat.ne_of_lt lt)]
  · simp
  · rw [List.getElem?_eq_none (by simp; omega), if_neg (Nat.ne_of_gt gt),
      List.getElem?_eq_none (by omega)]

theorem dependents_snoc (graph : List (List Nat)) (last : List Nat) (j : Nat) :
    dependents (graph ++ [last]) j =
      dependents graph j ++ if j ∈ last then [graph.length] else [] := by
  by_cases inside : j ∈ last <;> simp [dependents, positionsWhere, List.zipIdx_append, inside]

variable {size : Nat} {graph : List (List Nat)}

theorem links_snoc_empty (size : Nat) (graph : List (List Nat)) :
    Links.of size (graph ++ [[]]) = Links.of size graph := by
  have rows : ∀ i, row (graph ++ [[]]) i = row graph i := by
    intro i
    rw [row_snoc]
    split
    · rename_i same
      simp [row, same]
    · rfl
  simp [Links.of, rows, dependents_snoc]

theorem add?_links {part : List Nat} {j : Nat} (fresh : j ∉ part) (place : graph.length < size)
    (inside : j < size) :
    (Links.of size (graph ++ [part])).add? graph.length j =
      some (Links.of size (graph ++ [part ++ [j]])) := by
  have dependents : revise? (Links.of size (graph ++ [part])).dependents j
      (fun l => some (l ++ [graph.length])) =
        some (Links.of size (graph ++ [part ++ [j]])).dependents :=
    revise?_tabulated inside (by simp [dependents_snoc, fresh]) fun k apart => by
      simp [dependents_snoc, apart]
  have waiting : revise? (Links.of size (graph ++ [part])).waiting graph.length
      (fun n => some (n + 1)) = some (Links.of size (graph ++ [part ++ [j]])).waiting :=
    revise?_tabulated place (by simp [row_snoc]) fun k apart => by simp [row_snoc, apart]
  rw [Links.add?, dependents, waiting]
  rfl

theorem link?_row (graph : List (List Nat)) {r : List Nat} (nodup : r.Nodup)
    (place : graph.length < size) (inside : ∀ j ∈ r, j < size) :
    r.foldlM (Links.add? graph.length) (Links.of size graph) =
      some (Links.of size (graph ++ [r])) := by
  rw [← links_snoc_empty]
  refine foldlM_view (fun part => Links.of size (graph ++ [part])) fun part j rest split => ?_
  refine add?_links ?_ place (inside j (by simp [split]))
  intro twice
  rw [split] at nodup
  exact (List.nodup_append.mp nodup).2.2 j twice j List.mem_cons_self rfl

theorem link?_eq (nodes : List Node) :
    link? nodes = some (Links.of nodes.length (positionGraph nodes)) := by
  have blank : Links.mk (List.replicate nodes.length 0) (List.replicate nodes.length []) =
      Links.of nodes.length [] := by
    simp [Links.of, row, dependents, positionsWhere, List.map_const']
  have whole : nodes.zipIdx.map (fun p => waitsFor nodes p.1) = positionGraph nodes := by
    rw [← Function.comp_def (waitsFor nodes) Prod.fst, ← List.map_map, List.zipIdx_map_fst]
    rfl
  rw [link?, blank, ← whole]
  refine foldlM_view
    (fun seen : List (Node × Nat) =>
      Links.of nodes.length (seen.map fun p => waitsFor nodes p.1)) fun seen p rest split => ?_
  have here : nodes.zipIdx[seen.length]? = some p := by simp [split]
  rw [List.getElem?_zipIdx] at here
  obtain ⟨n, at_n, rfl⟩ := Option.map_eq_some_iff.mp here
  have member : waitsFor nodes n ∈ positionGraph nodes :=
    List.mem_map_of_mem (List.mem_of_getElem? at_n)
  have valid := positionGraph_valid nodes
  have run := link?_row (seen.map fun p => waitsFor nodes p.1) (valid.nodup _ member)
    (by simpa using (List.getElem?_eq_some_iff.mp at_n).1)
    (by simpa using valid.bounded _ member)
  simpa using run

end Linking

section Serving

/-- The state of the loop, and a record of everybody who ever joined the queue and of everybody
    who was served. -/
structure Line where
  waiting : List Nat
  queue : List Nat
  visited : List Bool
  order : List UInt32
  joined : List Nat
  served : List Nat

def lower? : Nat → Option Nat
  | 0 => none
  | n + 1 => some n

namespace Line

def join (line : Line) (i : Nat) : Line :=
  { line with queue := line.queue ++ [i], joined := line.joined ++ [i] }

def enroll? (line : Line) (i : Nat) : Option Line := do
  let left ← line.waiting[i]?
  return if left = 0 then line.join i else line

def open? (size : Nat) (links : Links) : Option Line :=
  (List.range size).foldlM enroll?
    ⟨links.waiting, [], List.replicate size false, [], [], []⟩

def release? (line : Line) (i : Nat) : Option Line := do
  let waiting ← revise? line.waiting i lower?
  enroll? { line with waiting } i

def call? (nodes : List Node) (line : Line) (first : Nat) (rest : List Nat) : Option Line := do
  let visited ← revise? line.visited first fun _ => some true
  let n ← nodes[first]?
  return { line with
    queue := rest
    visited
    order := line.order ++ [n.id]
    served := line.served ++ [first] }

def serve? (nodes : List Node) (links : Links) (line : Line) : Option Line :=
  match line.queue with
  | [] => some line
  | first :: rest => do
    let called ← line.call? nodes first rest
    let dependents ← links.dependents[first]?
    dependents.foldlM release? called

def arrangement (nodes : List Node) (line : Line) : Arrangement :=
  if line.order.length = nodes.length then .ordered line.order
  else
    let unvisited := ((nodes.zip line.visited).filter (!·.2)).map (·.1.id)
    .blocked (unvisited.mergeSort fun a b => (compare a b).isLE)

def of (nodes : List Node) (run : Placement) : Line where
  waiting := (List.range nodes.length).map run.left
  queue := run.ready
  visited := (List.range nodes.length).map (run.placed.contains ·)
  order := idsAt nodes run.placed
  joined := run.placed ++ run.ready
  served := run.placed

end Line

/-- The loop has been entered `count` times. -/
inductive Serves (nodes : List Node) (links : Links) : Nat → Line → Prop where
  | start {line : Line} (opened : Line.open? nodes.length links = some line) :
      Serves nodes links 0 line
  | next {count : Nat} {line later : Line} (run : Serves nodes links count line)
      (busy : line.queue ≠ []) (served : line.serve? nodes links = some later) :
      Serves nodes links (count + 1) later

variable {nodes : List Node} {run : Placement}

theorem positionsWhere_eq (p : List Nat → Bool) (graph : List (List Nat)) :
    positionsWhere p graph = (List.range graph.length).filter fun i => p (row graph i) := by
  have numbered : graph.zipIdx = (List.range graph.length).map fun i => (row graph i, i) := by
    refine List.ext_getElem? fun i => ?_
    by_cases inside : i < graph.length <;> simp [row, inside]
  simp [positionsWhere, numbered, List.filter_map, Function.comp_def]

def Line.enrolled (nodes : List Node) (positions : List Nat) : Line :=
  let first := positions.filter fun i => (row (positionGraph nodes) i).isEmpty
  { waiting := (Links.of nodes.length (positionGraph nodes)).waiting
    queue := first
    visited := List.replicate nodes.length false
    order := []
    joined := first
    served := [] }

theorem enrolled_all (nodes : List Node) :
    Line.enrolled nodes (List.range nodes.length) =
      Line.of nodes (Placement.start (positionGraph nodes)) := by
  have counted : (Links.of nodes.length (positionGraph nodes)).waiting =
      (List.range nodes.length).map (Placement.start (positionGraph nodes)).left := by
    refine List.map_congr_left fun i _ => ?_
    rw [(start_sound _).counted]
    simp [openCount, Placement.start]
  have ready := positionsWhere_eq List.isEmpty (positionGraph nodes)
  rw [Line.enrolled, Line.of, counted]
  simp [Placement.start, ready, idsAt, List.map_const']

theorem open?_eq (nodes : List Node) :
    Line.open? nodes.length (Links.of nodes.length (positionGraph nodes)) =
      some (Line.of nodes (Placement.start (positionGraph nodes))) := by
  rw [← enrolled_all]
  refine foldlM_view (Line.enrolled nodes) fun seen i rest split => ?_
  have inside : i < nodes.length := List.mem_range.mp (by simp [split])
  by_cases empty : row (positionGraph nodes) i = [] <;>
    simp [Line.enrolled, Line.enroll?, Links.of, inside, empty, Line.join]

theorem Placement.release_placed (run : Placement) (p : Nat) :
    (run.release p).placed = run.placed := rfl

theorem release?_eq {i : Nat} (inside : i < nodes.length) (waits : run.left i ≠ 0) :
    (Line.of nodes run).release? i = some (Line.of nodes (run.release i)) := by
  have lowered : revise? (Line.of nodes run).waiting i lower? =
      some (Line.of nodes (run.release i)).waiting := by
    refine revise?_tabulated inside ?_ fun j apart => by rw [Placement.release_left, if_neg apart]
    obtain ⟨left, one_more⟩ := Nat.exists_eq_succ_of_ne_zero waits
    simp [Placement.release_left, one_more, lower?]
  rw [Line.release?, lowered]
  have left : (Line.of nodes (run.release i)).waiting[i]? = some (run.left i - 1) := by
    simp [Line.of, inside, Placement.release_left]
  simp only [Option.bind_eq_bind, Option.bind_some, Line.enroll?, left]
  by_cases last : run.left i - 1 = 0 <;>
    simp [Line.of, Line.join, last, Placement.release_ready, Placement.release_placed]

theorem releases?_eq {positions : List Nat} (nodup : positions.Nodup)
    (inside : ∀ i ∈ positions, i < nodes.length) (waits : ∀ i ∈ positions, run.left i ≠ 0) :
    positions.foldlM Line.release? (Line.of nodes run) =
      some (Line.of nodes (positions.foldl Placement.release run)) := by
  refine foldlM_view (fun seen => Line.of nodes (seen.foldl Placement.release run))
    fun seen i rest split => ?_
  rw [split] at nodup
  have apart := List.nodup_append.mp nodup
  have member : i ∈ positions := by simp [split]
  have fresh : i ∉ seen := fun twice => apart.2.2 i twice i List.mem_cons_self rfl
  rw [release?_eq (inside i member), List.foldl_append]
  · rfl
  · rw [Placement.foldl_release_left apart.1, if_neg fresh]
    exact waits i member

theorem call?_eq {waiting rest placed : List Nat} {p : Nat} (inside : p < nodes.length) :
    (Line.of nodes ⟨waiting, p :: rest, placed⟩).call? nodes p rest =
      some (Line.of nodes ⟨waiting, rest, placed ++ [p]⟩) := by
  have marked : revise? (Line.of nodes ⟨waiting, p :: rest, placed⟩).visited p
      (fun _ => some true) = some (Line.of nodes ⟨waiting, rest, placed ++ [p]⟩).visited :=
    revise?_tabulated inside (by simp) fun j apart => by simp [apart]
  have named : idsAt nodes (placed ++ [p]) = idsAt nodes placed ++ [nodes[p].id] := by
    simp [idsAt, inside]
  rw [Line.call?, marked, List.getElem?_eq_getElem inside]
  simp [Line.of, named, Placement.left]

theorem serve?_eq (sound : Sound (positionGraph nodes) run) :
    (Line.of nodes run).serve? nodes (Links.of nodes.length (positionGraph nodes)) =
      some (Line.of nodes (Placement.step (positionGraph nodes) run)) := by
  obtain ⟨waiting, ready, placed⟩ := run
  cases ready with
  | nil => rfl
  | cons p rest =>
    have inside : p < nodes.length := by
      simpa using ((sound.reached p).mp (by simp)).1
    have fresh := sound.fresh
    have linked : (Links.of nodes.length (positionGraph nodes)).dependents[p]? =
        some (dependents (positionGraph nodes) p) := by
      simp [Links.of, inside]
    have waits : ∀ i ∈ dependents (positionGraph nodes) p,
        (Placement.mk waiting rest (placed ++ [p])).left i ≠ 0 := by
      intro i member none_left
      have closed := openCount_eq_zero_iff.mp ((sound.counted i).symm.trans none_left)
      exact fresh (closed p (mem_dependents.mp member))
    have released := releases?_eq (positionsWhere_nodup _ _)
      (fun i member => by simpa using leads_lt (mem_dependents.mp member)) waits
    change ((Line.of nodes ⟨waiting, p :: rest, placed⟩).call? nodes p rest).bind _ = _
    rw [call?_eq inside, Option.bind_some, linked]
    exact released

theorem serves_eq {count : Nat} {line : Line}
    (serves : Serves nodes (Links.of nodes.length (positionGraph nodes)) count line) :
    line = Line.of nodes (Placement.after (positionGraph nodes) count) ∧
      (Placement.after (positionGraph nodes) count).placed.length = count := by
  induction serves with
  | start opened =>
    rw [open?_eq] at opened
    exact ⟨(Option.some.inj opened).symm, rfl⟩
  | @next count line later _ busy served ih =>
    obtain ⟨rfl, size⟩ := ih
    have sound := after_sound (positionGraph_valid nodes) count
    rw [serve?_eq sound] at served
    refine ⟨(Option.some.inj served).symm, ?_⟩
    rw [Placement.after]
    generalize Placement.after (positionGraph nodes) count = run at sound busy size
    obtain ⟨waiting, ready, placed⟩ := run
    cases ready with
    | nil => exact absurd rfl busy
    | cons p rest => simpa [(step_cons sound).1] using size

/-- How the line stands when `count` positions were served. Each counter is the number of the
    predecessors that were not, so that it is never lowered when it is zero. -/
structure InStep (nodes : List Node) (count : Nat) (line : Line) : Prop where
  bound : count ≤ nodes.length
  once : line.joined.Nodup
  inside : ∀ i ∈ line.joined, i < nodes.length
  in_turn : line.joined = line.served ++ line.queue
  counted : line.served.length = count
  counters : line.waiting.length = nodes.length
  exact : ∀ i < nodes.length,
    line.waiting[i]? = some {j | Requires nodes j i ∧ j ∉ line.served}.ncard

theorem ncard_open (nodes : List Node) (placed : List Nat) (i : Nat) :
    {j | Requires nodes j i ∧ j ∉ placed}.ncard = openCount (positionGraph nodes) placed i := by
  have listed : {j | Requires nodes j i ∧ j ∉ placed} =
      ((row (positionGraph nodes) i).filter (!placed.contains ·)).toFinset := by
    ext j
    simp [requires_eq_leads, Leads]
  have nodup := ((positionGraph_valid nodes).row_nodup i).filter (!placed.contains ·)
  rw [listed, Set.ncard_coe_finset, List.toFinset_card_of_nodup nodup, openCount]

theorem sound_inStep (sound : Sound (positionGraph nodes) run) :
    InStep nodes run.placed.length (Line.of nodes run) where
  bound := by
    have within : run.placed ⊆ List.range nodes.length := fun i member => by
      simpa using ((sound.reached i).mp (List.mem_append_left _ member)).1
    simpa using (List.nodup_append.mp sound.nodup).1.length_le_of_subset within
  once := sound.nodup
  inside i member := by simpa using ((sound.reached i).mp member).1
  in_turn := rfl
  counted := rfl
  counters := by simp [Line.of]
  exact i inside := by
    rw [ncard_open]
    simpa [Line.of, inside] using sound.counted i

theorem serves_inStep {count : Nat} {line : Line}
    (serves : Serves nodes (Links.of nodes.length (positionGraph nodes)) count line) :
    InStep nodes count line := by
  obtain ⟨rfl, size⟩ := serves_eq serves
  have inStep := sound_inStep (after_sound (positionGraph_valid nodes) count)
  rwa [size] at inStep

theorem serves_on {count : Nat} {line : Line}
    (serves : Serves nodes (Links.of nodes.length (positionGraph nodes)) count line) :
    ∃ later, line.serve? nodes (Links.of nodes.length (positionGraph nodes)) = some later := by
  obtain ⟨rfl, _⟩ := serves_eq serves
  exact ⟨_, serve?_eq (after_sound (positionGraph_valid nodes) count)⟩

/-- As long as it has not ended the loop has been entered any number of times, but it cannot be
    entered more often than there are nodes. -/
theorem serves_end (nodes : List Node) : ∃ count line,
    Serves nodes (Links.of nodes.length (positionGraph nodes)) count line ∧ line.queue = [] := by
  by_contra endless
  have every : ∀ count, ∃ line,
      Serves nodes (Links.of nodes.length (positionGraph nodes)) count line := by
    intro count
    induction count with
    | zero => exact ⟨_, .start (open?_eq nodes)⟩
    | succ count ih =>
      obtain ⟨line, serves⟩ := ih
      obtain ⟨later, served⟩ := serves_on serves
      exact ⟨later, .next serves (fun empty => endless ⟨count, line, serves, empty⟩) served⟩
  obtain ⟨line, serves⟩ := every (nodes.length + 1)
  have bound := (serves_inStep serves).bound
  omega

theorem after_done (graph : List (List Nat)) {count : Nat}
    (done : (Placement.after graph count).ready = []) (more : Nat) :
    Placement.after graph (count + more) = Placement.after graph count := by
  induction more with
  | zero => rfl
  | succ more ih => rw [← Nat.add_assoc, Placement.after, ih, Placement.step, done]

theorem unvisited_eq (nodes : List Node) (seen : Nat → Bool) :
    ((nodes.zip ((List.range nodes.length).map seen)).filter (!·.2)).map (·.1.id) =
      idsAt nodes ((List.range nodes.length).filter (!seen ·)) := by
  induction nodes using List.reverseRecOn with
  | nil => rfl
  | append_singleton nodes n ih =>
    have earlier : idsAt (nodes ++ [n]) ((List.range nodes.length).filter (!seen ·)) =
        idsAt nodes ((List.range nodes.length).filter (!seen ·)) := by
      refine List.filterMap_congr fun i member => ?_
      rw [List.getElem?_append_left (List.mem_range.mp (List.mem_filter.mp member).1)]
    have last : idsAt (nodes ++ [n]) [nodes.length] = [n.id] := by simp [idsAt]
    rw [idsAt] at earlier last
    rw [List.length_append, List.length_singleton, List.range_succ, List.map_append,
      List.zip_append (by simp), List.filter_append, List.map_append, ih, List.filter_append,
      idsAt, idsAt, List.filterMap_append, earlier]
    cases unseen : seen nodes.length <;> simp [unseen, last, idsAt]

theorem arrangement_eq (nodes : List Node) :
    (Line.of nodes (Placement.final (positionGraph nodes))).arrangement nodes =
      arrange nodes := by
  have bears := idsAt_bear nodes (fun i member => placed_lt member)
  have size : (idsAt nodes (placedPositions nodes)).length = (placedPositions nodes).length :=
    bears.length_eq.symm
  rw [placedPositions] at size
  simp only [Line.arrangement, Line.of, size, unvisited_eq]
  rfl

theorem serves_arrangement {count : Nat} {line : Line}
    (serves : Serves nodes (Links.of nodes.length (positionGraph nodes)) count line)
    (ended : line.queue = []) : line.arrangement nodes = arrange nodes := by
  have bound := (serves_inStep serves).bound
  obtain ⟨rfl, _⟩ := serves_eq serves
  have last := after_done (positionGraph nodes) ended (nodes.length - count)
  rw [Nat.add_sub_cancel' bound] at last
  rw [← last, ← arrangement_eq, Placement.final, positionGraph_length]

end Serving

/-- Computed in place, nodes and arrangement never fail. The nodes of all systems are built. For
    any nodes the links name positions of nodes; however often the loop has been entered, the
    line is in step and can be served; it ends, and what it has then is the arrangement. -/
theorem graph_stage_in_bounds :
    (∀ systems, buildInPlace? systems = some (systemNodes systems)) ∧
    ∀ nodes, ∃ links, link? nodes = some links ∧
      links.dependents.length = nodes.length ∧
      (∀ positions ∈ links.dependents, ∀ i ∈ positions, i < nodes.length) ∧
      (∃ line, Line.open? nodes.length links = some line) ∧
      (∀ count line, Serves nodes links count line →
        InStep nodes count line ∧ ∃ later, line.serve? nodes links = some later) ∧
      ∃ count line, Serves nodes links count line ∧ line.queue = [] ∧
        line.arrangement nodes = arrange nodes := by
  refine ⟨buildInPlace?_eq, fun nodes => ⟨_, link?_eq nodes, by simp [Links.of], ?_,
    ⟨_, open?_eq nodes⟩, fun count line serves => ⟨serves_inStep serves, serves_on serves⟩, ?_⟩⟩
  · intro positions listed i member
    obtain ⟨j, _, rfl⟩ := List.mem_map.mp listed
    simpa using leads_lt (mem_dependents.mp member)
  · obtain ⟨count, line, serves, ended⟩ := serves_end nodes
    exact ⟨count, line, serves, ended, serves_arrangement serves ended⟩

/-- Of two nodes with one ID the last is meant: the first waits for the second, the second for
    itself, and neither for an ID that nobody bears. -/
example : (link? [⟨0, "A", .ofList [0]⟩, ⟨0, "B", .ofList [0, 7]⟩, ⟨1, "C", .ofList []⟩]).map
    (·.waiting) = some [1, 1, 0] := by decide

end EcsPlan
