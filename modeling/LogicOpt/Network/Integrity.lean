import LogicOpt.Network.Basic

namespace LogicOpt

inductive IntegrityIssue where
  | deadFanin (gate fanin : Nat)
  | missingFanout (gate fanin : Nat)
  | deadOutput (name : String) (node : Nat)
  | deadWithFanouts (node count : Nat)
  | wrongCount (node recorded actual : Nat)
  | staleFanout (consumer node : Nat)
  | wrongGateCount (recorded actual : Nat)
deriving DecidableEq

def IntegrityIssue.text : IntegrityIssue → String
  | deadFanin g f => "live gate " ++ nodeText g ++ " has dead fanin " ++ nodeText f
  | missingFanout g f =>
    nodeText g ++ " is missing from the fanout list of " ++ nodeText f
  | deadOutput name n => "output " ++ name ++ " reads dead node " ++ nodeText n
  | deadWithFanouts n count =>
    "dead node " ++ nodeText n ++ " has fanout count " ++ toString count
  | wrongCount n recorded actual =>
    "fanout count of " ++ nodeText n ++ " is " ++ toString recorded ++ ", structure has "
      ++ toString actual
  | staleFanout consumer n =>
    "stale fanout " ++ nodeText consumer ++ " listed under " ++ nodeText n
  | wrongGateCount recorded actual =>
    "live gate count is " ++ toString recorded ++ ", structure has " ++ toString actual

namespace Network

def references (net : Network) : List Nat :=
  net.liveGates.flatMap (fun g => (net.fanins g).map (·.node)) ++ net.outputSignals.map (·.node)

def tally (size : Nat) (nodes : List Nat) : Array Nat :=
  nodes.foldl (fun counts n => counts.modify n (· + 1)) (Array.replicate size 0)

def faninIssue? (net : Network) (g : Nat) : Option IntegrityIssue :=
  (net.fanins g).findSome? fun f =>
    if net.isDead f.node then some (.deadFanin g f.node)
    else if !(net.fanouts f.node).contains g then some (.missingFanout g f.node)
    else none

def outputIssue? (net : Network) (o : Output) : Option IntegrityIssue :=
  if net.isDead o.signal.node then some (.deadOutput o.name o.signal.node) else none

def fanoutIssue? (net : Network) (counts : Array Nat) (n : Nat) : Option IntegrityIssue :=
  let recorded := net.fanoutCount n
  let actual := counts[n]?.getD 0
  if net.isDead n then
    if recorded = 0 then none else some (.deadWithFanouts n recorded)
  else if recorded ≠ actual then some (.wrongCount n recorded actual)
  else
    (net.fanouts n).findSome? fun consumer =>
      if net.isDead consumer || !(net.fanins consumer).any (·.node == n) then
        some (.staleFanout consumer n)
      else none

def gateCountIssue? (net : Network) : Option IntegrityIssue :=
  if net.numGates = net.liveGates.length then none
  else some (.wrongGateCount net.numGates net.liveGates.length)

/-- The first issue found: fanins of live gates, then outputs, then the counts and lists of every
    node, then the number of gates. -/
def integrityIssue? (net : Network) : Option IntegrityIssue :=
  (net.liveGates.findSome? net.faninIssue?).or <|
    (net.outputs.findSome? net.outputIssue?).or <|
      ((List.range net.size).findSome? (net.fanoutIssue? (tally net.size net.references))).or
        net.gateCountIssue?

end Network

end LogicOpt
