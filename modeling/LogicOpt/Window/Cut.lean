import LogicOpt.Network.Basic
import LogicOpt.Marks

/-!
Reconvergence-driven cuts. From one or more pivots the leaves grow towards the inputs: the leaf
whose expansion adds the fewest new leaves is replaced by its fanins, as long as the bound on the
number of leaves allows. Leaves whose fanins are inside the cut already cost nothing, so
reconvergent paths are absorbed first.
-/

namespace LogicOpt

structure Cut where
  leaves : List Nat
  interior : List Nat
deriving DecidableEq

structure Cutter where
  maxLeaves : Nat
  maxFanout : Nat
  marks : Marks

namespace Cutter

def ofLimits (maxLeaves maxFanout : Nat) : Cutter := ⟨maxLeaves, maxFanout, .empty⟩

/-- A cut under construction; the marked nodes are its leaves and its interior. -/
structure Growth where
  marks : Marks
  leaves : List Nat
  interior : List Nat

def Growth.reach (s : Growth) (n : Nat) : Growth :=
  if s.marks.isFresh n then { s with marks := s.marks.mark n, leaves := s.leaves ++ [n] } else s

/-- The number of new leaves that expanding a node brings; nothing if the node cannot be
    expanded. -/
def expansionCost? (net : Network) (maxFanout : Nat) (marks : Marks) (n : Nat) : Option Nat :=
  if net.isSource n || net.fanoutCount n > maxFanout then none
  else some ((net.fanins n).countP fun f => f.node != 0 && !marks.isMarked f.node)

structure Choice where
  leaf : Nat
  cost : Nat
  level : Nat

/-- The cheaper leaf is better, and at equal cost the one at the higher level. -/
def Choice.better (a b : Choice) : Bool :=
  a.cost < b.cost || (a.cost == b.cost && a.level > b.level)

def best? (net : Network) (maxFanout : Nat) (s : Growth) : Option Choice :=
  s.leaves.foldl
    (fun best n =>
      match expansionCost? net maxFanout s.marks n with
      | none => best
      | some cost =>
        let choice : Choice := ⟨n, cost, net.level n⟩
        match best with
        | none => some choice
        | some other => if choice.better other then some choice else best)
    none

def expand (net : Network) (s : Growth) (n : Nat) : Growth :=
  ((net.fanins n).filter fun f => f.node != 0).foldl (fun s f => s.reach f.node)
    { s with leaves := s.leaves.erase n, interior := s.interior ++ [n] }

/-- Expands leaves while the bound allows. A node is expanded at most once, so as many steps as
    nodes suffice. -/
def grow (net : Network) (maxLeaves maxFanout : Nat) : (steps : Nat) → Growth → Growth
  | 0, s => s
  | steps + 1, s =>
    match best? net maxFanout s with
    | none => s
    | some choice =>
      if s.leaves.length - 1 + choice.cost > maxLeaves then s
      else grow net maxLeaves maxFanout steps (expand net s choice.leaf)

/-- Bounds on leaves from here on are refused, since no room can be reserved for them. -/
def capacityLimit : Nat := 0x1000000000000000

/-- Grows the cut of a list of pivots. A slot takes more room than its mark, so only pivots outside
    the network can lack room. -/
def run (c : Cutter) (net : Network) (pivots : List Nat) :
    Except Fault (Except PassError Cut × Cutter) := do
  ensure (c.maxLeaves < capacityLimit) .outOfRange
  Marks.requireRoom (pivots.filter (net.size ≤ ·))
  let s := pivots.foldl Growth.reach ⟨c.marks.newTraversal, [], []⟩
  if s.leaves.length > c.maxLeaves then
    return (.error (.cutOverflow s.leaves.length c.maxLeaves), { c with marks := s.marks })
  else
    net.requireAll (s.leaves.filter (· != 0))
    let s := grow net c.maxLeaves c.maxFanout (net.size + 1) s
    ensure (s.leaves.length ≤ c.maxLeaves) (.cutSize s.leaves.length c.maxLeaves)
    return (.ok ⟨s.leaves, s.interior⟩, { c with marks := s.marks })

end Cutter

end LogicOpt
