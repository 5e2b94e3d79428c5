import LogicOpt.Gate.Normal
import LogicOpt.Network.Level

namespace LogicOpt

namespace Network

def appendInput (net : Network) (name : String) : Network :=
  { net with
    nodes := net.nodes.push (.fresh (.input name))
    levels := net.levels.push 0
    inputs := net.inputs ++ [net.size] }

def appendOutput (net : Network) (name : String) (s : Signal) : Network :=
  { net.incrCount s.node with outputs := net.outputs ++ [⟨name, s⟩] }

def linkFanin (consumer : Nat) (net : Network) (f : Signal) : Network :=
  net.modifyNode f.node fun node =>
    { node.addFanout consumer with fanoutCount := node.fanoutCount + 1 }

def appendGate (net : Network) (g : Gate Signal) (level : Nat) : Network :=
  g.operands.foldl (linkFanin net.size)
    { net with
      nodes := net.nodes.push (.fresh (.gate g))
      levels := net.levels.push level
      table := net.table.insert g net.size
      numGates := net.numGates + 1 }

def checkFanin (net : Network) (f : Signal) : Except Fault Unit := do
  net.require f.node
  ensure (!net.isDead f.node) (.deadFanin f.node)

def checkLevel (level : Nat) : Except Fault Unit := ensure (level < levelLimit) .outOfRange

end Network

namespace Edit

def addInput (name : String) : Edit Signal := do
  let n := (← get).size
  update (·.appendInput name)
  return .ofNode n

def addOutput (name : String) (s : Signal) : Edit Unit := do
  check fun net => ensure (s.node < net.size) (.outputOutOfRange s.node net.size)
  update (·.appendOutput name s)

def shareGate (g : Gate Signal) : Edit Nat := do
  let net ← get
  match net.table[g]? with
  | some n =>
    check fun net => ensure (!net.isDead n) (.staleEntry n)
    return n
  | none =>
    let level := net.faninLevel g.operands + 1
    ofExcept (Network.checkLevel level)
    update (·.appendGate g level)
    update (·.notify (.added net.size))
    return net.size

def addNormal : Normal → Edit Signal
  | .trivial s => return s
  | .gate g negated => do return ⟨← shareGate g, negated⟩

def createGate (kind : GateKind) (fanins : List Signal) : Edit Signal := do
  fanins.forM fun f => check (·.checkFanin f)
  addNormal (← ofExcept (kind.normalize fanins))

def andGate (a b : Signal) : Edit Signal := createGate .and2 [a, b]

def orGate (a b : Signal) : Edit Signal := do
  return (← andGate a.negate b.negate).negate

def xorGate (a b : Signal) : Edit Signal := createGate .xor2 [a, b]

def majGate (a b c : Signal) : Edit Signal := createGate .maj3 [a, b, c]

def build (inputs : List String) (gates : List (GateKind × List Signal))
    (outputs : List (String × Signal)) : Edit (List Signal) := do
  inputs.forM fun name => discard (addInput name)
  let signals ← gates.mapM fun (kind, fanins) => createGate kind fanins
  outputs.forM fun (name, s) => addOutput name s
  return signals

end Edit

end LogicOpt
