import LogicOpt.Network.Basic
import LogicOpt.Marks

/-!
Depth-first traversals along fanins, and the orders they give. A node is marked when it is entered
and listed when its fanins are done, so on an acyclic network every node comes after its fanins.
A postorder from given nodes keeps its own list of nodes that wait for their fanins.
-/

namespace LogicOpt

structure Sweep where
  marks : Marks
  order : Array Nat

namespace Sweep

def start (marks : Marks) : Sweep := ⟨marks.newTraversal, #[]⟩

end Sweep

/-- A traversal with a list of the nodes that wait, the next one first. Only finished nodes are
    marked. -/
structure Agenda where
  waiting : List Nat
  done : Sweep

namespace Network

/-- Visits `n` and what it is computed from, without entering skipped nodes. Every nested visit
    marks a new node, so `depth` may be any number above the size of the network. -/
def sweep (net : Network) (skip : Nat → Bool) : (depth : Nat) → Sweep → Nat → Sweep
  | 0, s, _ => s
  | depth + 1, s, n =>
    if s.marks.isMarked n || skip n then s
    else
      let below := (net.fanins n).foldl (fun s f => net.sweep skip depth s f.node)
        { s with marks := s.marks.mark n }
      { below with order := below.order.push n }

def depthBound (net : Network) : Nat := net.size + 1

def postorder (net : Network) (starts : List Nat) (skip : Nat → Bool) : List Nat :=
  (starts.foldl (net.sweep skip net.depthBound) (.start .empty)).order.toList

/-- Whether every listed node comes after its fanins. Skipped and marked nodes count as met. -/
def inOrder (net : Network) (skip : Nat → Bool) : Marks → List Nat → Bool
  | _, [] => true
  | marks, n :: rest =>
    (net.fanins n).all (fun f => skip f.node || marks.isMarked f.node)
      && net.inOrder skip (marks.mark n) rest

/-- A postorder that waits for all fanins of a node. It does not come to an end if it meets a
    cycle. -/
def orderFrom (net : Network) (starts : List Nat) (skip : Nat → Bool) :
    Except Fault (List Nat) := do
  let order := net.postorder starts skip
  ensure (net.inOrder skip Marks.empty.newTraversal order) .endless
  return order

def awaited? (net : Network) (skip : Nat → Bool) (marks : Marks) (n : Nat) : Option Nat :=
  ((net.fanins n).map (·.node)).find? fun m => !(skip m || marks.isMarked m)

def attend (net : Network) (skip : Nat → Bool) (a : Agenda) : Agenda :=
  match a.waiting with
  | [] => a
  | n :: rest =>
    if skip n || a.done.marks.isMarked n then { a with waiting := rest }
    else
      match net.awaited? skip a.done.marks n with
      | some m => { a with waiting := m :: n :: rest }
      | none => ⟨rest, ⟨a.done.marks.mark n, a.done.order.push n⟩⟩

def attendTimes (net : Network) (skip : Nat → Bool) : Nat → Agenda → Agenda
  | 0, a => a
  | turns + 1, a => net.attendTimes skip turns (net.attend skip a)

/-- A postorder from nodes a caller names, stopping at a boundary. On an acyclic network there is a
    turn for every start and at most two for every listed node; a traversal that needs more has met
    a cycle. -/
def postorderFrom (net : Network) (starts boundary : List Nat) : Except Fault (List Nat) := do
  net.requireAll (starts.filter fun n => !boundary.contains n)
  let turns := starts.length + 2 * net.size
  let last := net.attendTimes boundary.contains turns ⟨starts, .start .empty⟩
  ensure last.waiting.isEmpty .endless
  return last.done.order.toList

def topoOrder (net : Network) : List Nat :=
  0 :: net.inputs ++ net.postorder (net.outputSignals.map (·.node) ++ net.liveGates) net.isSource

end Network

end LogicOpt
