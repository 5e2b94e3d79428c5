import LogicOpt.Network.Basic

namespace LogicOpt

namespace Network

def dropEntry (net : Network) (n : Nat) : Network :=
  match net.gate? n with
  | some g =>
    if net.table[g]? = some n then { net with table := net.table.erase g } else net
  | none => net

def kill (net : Network) (n : Nat) : Network :=
  let net := (net.dropEntry n).modifyNode n fun node => { node with dead := true, fanoutCount := 0 }
  { net with numGates := net.numGates - 1 }

def releaseFanin (consumer : Nat) (state : Network × List Nat) (f : Signal) :
    Network × List Nat :=
  let net := state.1.modifyNode f.node (·.removeFanout consumer)
  if net.fanoutCount f.node = 0 then (net, state.2)
  else
    let net := net.decrCount f.node
    if net.fanoutCount f.node = 0 then (net, f.node :: state.2) else (net, state.2)

def removeGate (net : Network) (n : Nat) (work : List Nat) : Network × List Nat :=
  (net.fanins n).foldl (releaseFanin n) ((net.kill n).notify (.removed n), work)

/-- Removes the listed nodes and whatever dies with them. Sources and dead nodes are left alone.
    A count reaches zero at most once, so as many steps as nodes suffice. -/
def removeAll : (steps : Nat) → Network → List Nat → Network
  | _, net, [] => net
  | 0, net, _ :: _ => net
  | steps + 1, net, n :: work =>
    if net.isSource n || net.isDead n then removeAll steps net work
    else
      let next := net.removeGate n work
      removeAll steps next.1 next.2

def takeOut (net : Network) (n : Nat) : Network := removeAll (net.size + 1) net [n]

def removeDangling (net : Network) (n : Nat) : Network :=
  if !net.isDead n && net.fanoutCount n == 0 then net.takeOut n else net

end Network

def Edit.takeOutNode (n : Nat) : Edit Unit := do
  check fun net => ensure (n == 0 || n < net.size) .outOfRange
  update (·.takeOut n)

end LogicOpt
