import LogicOpt.Network.Order

namespace LogicOpt

namespace Network

def faninLevel (net : Network) (fanins : List Signal) : Nat :=
  ((fanins.filter fun f => !net.isDead f.node).map fun f => net.level f.node).foldl max 0

def computedLevel (net : Network) (n : Nat) : Nat :=
  match net.gate? n with
  | some g => net.faninLevel g.operands + 1
  | none => 0

def relevelNode (net : Network) (n : Nat) : Network := net.setLevel n (net.computedLevel n)

def recomputeLevels (net : Network) : Network := net.topoOrder.foldl relevelNode net

def depth (net : Network) : Nat :=
  (net.outputSignals.map fun s => net.level s.node).foldl max 0

end Network

end LogicOpt
