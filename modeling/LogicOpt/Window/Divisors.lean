import LogicOpt.Network.Order
import LogicOpt.Params.Basic

/-!
Divisors: the nodes a root may be re-expressed with. The pool starts with the leaves, takes in the
root's cone above them except for the nodes that would go away with the root, and then grows
sideways through fanouts whose fanins are all in the window already.
-/

namespace LogicOpt

structure DivisorFinder where
  visited : Marks
  inCone : Marks

namespace DivisorFinder

def empty : DivisorFinder := ⟨.empty, .empty⟩

/-- A pool under construction; the visited nodes are the window and the root's cone. -/
structure Pool where
  visited : Marks
  divisors : List Nat

def Pool.addLeaf (p : Pool) (n : Nat) : Pool :=
  if p.visited.isFresh n then ⟨p.visited.mark n, p.divisors ++ [n]⟩ else p

def Pool.addCone (p : Pool) (net : Network) (inCone : Marks) (root : Nat) : Pool :=
  let s := net.sweep (fun _ => false) net.depthBound ⟨p.visited, #[]⟩ root
  ⟨s.marks, p.divisors ++ s.order.toList.filter fun n => !inCone.isMarked n && n != 0⟩

structure SideLimits where
  root : Nat
  maxLevel : Nat
  maxFanout : Nat

/-- Whether a fanout of a divisor may join: it is live, neither too deep nor read too often, all its
    fanins are in the window, and it does not read the root. -/
def Pool.admits (p : Pool) (net : Network) (limits : SideLimits) (n : Nat) : Bool :=
  !p.visited.isMarked n && !net.isDead n && net.level n ≤ limits.maxLevel
    && net.fanoutCount n ≤ limits.maxFanout
    && (net.fanins n).all (fun f => p.visited.isMarked f.node)
    && !(net.fanins n).any fun f => f.node == limits.root

def Pool.addSides (net : Network) (limits : SideLimits) (limit : Nat) :
    Pool → List Nat → Pool × Bool
  | p, [] => (p, false)
  | p, n :: rest =>
    if p.admits net limits n then
      let p : Pool := ⟨p.visited.mark n, p.divisors ++ [n]⟩
      if p.divisors.length ≥ limit then (p, true) else addSides net limits limit p rest
    else addSides net limits limit p rest

def Pool.widen (net : Network) (limits : SideLimits) (limit : Nat) :
    (steps i : Nat) → Pool → Except Fault Pool
  | 0, _, p => .ok p
  | steps + 1, i, p =>
    match p.divisors[i]? with
    | none => .ok p
    | some d => do
      net.require d
      let (p, full) := p.addSides net limits limit (net.fanouts d)
      if full then return p else widen net limits limit steps (i + 1) p

def budget (params : Params) : Nat := params.maxDivisors - params.maxPis

/-- The divisors of a root: leaves, then cone nodes, then side nodes in the order of admission. -/
def run (c : DivisorFinder) (net : Network) (root : Nat) (leaves cone : List Nat)
    (params : Params) : Except Fault (Except PassError (List Nat) × DivisorFinder) := do
  Marks.requireRoom ((leaves ++ cone).filter (net.size ≤ ·))
  let inCone := c.inCone.newTraversal.markAll cone
  let start : Pool := leaves.foldl Pool.addLeaf ⟨c.visited.newTraversal, []⟩
  ensure (leaves.contains root || root < net.size) .outOfRange
  let p := start.addCone net inCone root
  let windowNodes := p.divisors.length + cone.length - leaves.length
  if windowNodes > budget params then
    return (.error (.divisorBudgetExceeded windowNodes (budget params)), ⟨p.visited, inCone⟩)
  else
    let limit := budget params + leaves.length - cone.length
    if params.preserveDepth then net.require root
    let maxLevel := if params.preserveDepth then net.level root else levelLimit
    let limits : SideLimits := ⟨root, maxLevel, params.skipFanoutLimitForDivisors⟩
    let p ← p.widen net limits limit (p.divisors.length + net.size + 1) 0
    return (.ok p.divisors, ⟨p.visited, inCone⟩)

end DivisorFinder

end LogicOpt
