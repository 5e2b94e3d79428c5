import LogicOpt.Network.Order

namespace LogicOpt

structure Cone where
  /-- The members, fanins first, so the root comes last. -/
  nodes : List Nat
  /-- The number of gates that go away together with the root. -/
  gain : Nat
deriving DecidableEq

namespace Network

def releaseReference (state : Network × List Nat) (f : Signal) :
    Except Fault (Network × List Nat) := do
  ensure (state.1.fanoutCount f.node != 0) (.countUnderflow f.node)
  let net := state.1.decrCount f.node
  if net.fanoutCount f.node = 0 && !net.isSource f.node then return (net, f.node :: state.2)
  else return (net, state.2)

def takeReference (state : Network × List Nat) (f : Signal) : Network × List Nat :=
  let net := state.1.incrCount f.node
  if net.fanoutCount f.node = 1 && !net.isSource f.node then (net, f.node :: state.2)
  else (net, state.2)

def releaseAll : (steps : Nat) → Network → List Nat → Nat → Except Fault (Network × Nat)
  | _, net, [], count => .ok (net, count)
  | 0, _, _ :: _, _ => .error .endless
  | steps + 1, net, n :: work, count => do
    let (net, work) ← (net.fanins n).foldlM releaseReference (net, work)
    releaseAll steps net work (count + 1)

def retainAll : (steps : Nat) → Network → List Nat → Nat → Except Fault (Network × Nat)
  | _, net, [], count => .ok (net, count)
  | 0, _, _ :: _, _ => .error .endless
  | steps + 1, net, n :: work, count => do
    let (net, work) := (net.fanins n).foldl takeReference (net, work)
    retainAll steps net work (count + 1)

/-- Releases the references of a node, recursively; counts the released nodes, the node included.
    The counts never rise meanwhile, so a node is released at most once. -/
def release (net : Network) (n : Nat) : Except Fault (Network × Nat) := do
  net.require n
  if net.isSource n then return (net, 0) else releaseAll (net.size + 1) net [n] 0

def retain (net : Network) (n : Nat) : Except Fault (Network × Nat) := do
  net.require n
  if net.isSource n then return (net, 0) else retainAll (net.size + 1) net [n] 0

end Network

namespace Edit

def releaseNode (n : Nat) : Edit Nat := do
  let (net, count) ← check (·.release n)
  set net
  return count

def retainNode (n : Nat) : Edit Nat := do
  let (net, count) ← check (·.retain n)
  set net
  return count

end Edit

structure ConeFinder where
  marks : Marks

namespace ConeFinder

def empty : ConeFinder := ⟨.empty⟩

/-- Nodes other than the root that are no longer released bound the cone. -/
def bounds (net : Network) (root n : Nat) : Bool :=
  n != root && (net.isSource n || net.fanoutCount n > 0)

/-- The released nodes, fanins first; to be called while the root is released. -/
def collect (c : ConeFinder) (net : Network) (root : Nat) : Sweep :=
  net.sweep (bounds net root) net.depthBound (.start c.marks) root

/-- The cone of `root` above `leaves`. The leaves count as outputs meanwhile, so that nothing below
    them is released. -/
def run (c : ConeFinder) (root : Nat) (leaves : List Nat) : Edit (Cone × ConeFinder) := do
  leaves.forM fun n => discard (Edit.incrFanoutCount n)
  let released ← Edit.releaseNode root
  let found := c.collect (← get) root
  let nodes := found.order.toList
  let retained ← Edit.retainNode root
  Edit.ofExcept (ensure (released == retained) (.coneCounts root released retained))
  leaves.forM fun n => discard (Edit.decrFanoutCount n)
  Edit.ofExcept
    (ensure (released == 0 || nodes.length == released) (.coneSize root nodes.length released))
  return (⟨nodes, released⟩, ⟨found.marks⟩)

end ConeFinder

end LogicOpt
