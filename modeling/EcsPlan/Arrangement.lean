import EcsPlan.Precedence

/-!
Nodes in an order that respects their predecessors, or the nodes that no such
order can hold. Each position counts the predecessors that it still waits for
and becomes ready, first come first served, when the last of them is placed.
-/
namespace EcsPlan

/-- Of nodes with one ID the last is meant. -/
def lastPosition (id : UInt32) : List Node → Option Nat
  | [] => none
  | n :: rest =>
    match lastPosition id rest with
    | some i => some (i + 1)
    | none => if n.id = id then some 0 else none

/-- The positions of the predecessors of each position. IDs of no node are
    passed over. -/
def positionGraph (nodes : List Node) : List (List Nat) :=
  nodes.map fun n => n.predecessors.toList.filterMap fun id => lastPosition id nodes

def positionsWhere (p : List Nat → Bool) (graph : List (List Nat)) : List Nat :=
  (graph.zipIdx.filter fun (row, _) => p row).map (·.2)

def dependents (graph : List (List Nat)) (position : Nat) : List Nat :=
  positionsWhere (·.contains position) graph

structure Placement where
  waiting : List Nat
  ready : List Nat
  placed : List Nat
  deriving DecidableEq, Repr

namespace Placement

def start (graph : List (List Nat)) : Placement :=
  { waiting := graph.map List.length
    ready := positionsWhere List.isEmpty graph
    placed := [] }

def release (run : Placement) (position : Nat) : Placement :=
  let left := run.waiting.getD position 0 - 1
  { run with
    waiting := run.waiting.set position left
    ready := if left = 0 then run.ready ++ [position] else run.ready }

def step (graph : List (List Nat)) (run : Placement) : Placement :=
  match run.ready with
  | [] => run
  | position :: rest =>
    (dependents graph position).foldl release
      { run with ready := rest, placed := run.placed ++ [position] }

/-- Every step that does anything places one more position, so as many steps as
    there are positions are enough. -/
def after (graph : List (List Nat)) : Nat → Placement
  | 0 => start graph
  | n + 1 => step graph (after graph n)

def final (graph : List (List Nat)) : Placement := after graph graph.length

end Placement

inductive Arrangement where
  | ordered (ids : List UInt32)
  | blocked (ids : List UInt32)
  deriving DecidableEq, Repr

def idsAt (nodes : List Node) (positions : List Nat) : List UInt32 :=
  positions.filterMap fun i => (nodes[i]?).map (·.id)

def arrange (nodes : List Node) : Arrangement :=
  let placed := (Placement.final (positionGraph nodes)).placed
  if placed.length = nodes.length then .ordered (idsAt nodes placed)
  else
    let missing := (List.range nodes.length).filter (!placed.contains ·)
    .blocked ((idsAt nodes missing).mergeSort fun a b => (compare a b).isLE)

end EcsPlan
