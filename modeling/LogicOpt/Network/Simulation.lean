import LogicOpt.Network.Order
import LogicOpt.TruthTable.Words

namespace LogicOpt

namespace Network

variable {α : Type} [GateValue α]

def compute (net : Network) (n : Nat) (values : List α) : Except Fault α := do
  net.require n
  match net.gate? n with
  | none => throw (.notGate n)
  | some g =>
    ensure (g.operands.length == values.length) .outOfRange
    let operands := (g.operands.zip values).map fun (f, v) => GateValue.complementIf v f.negated
    g.kind.apply operands

def simulateNode (net : Network) (zero : α) (values : Array α) (n : Nat) : Array α :=
  match net.gate? n with
  | some g => values.setIfInBounds n (g.evalUnder fun m => values[m]?.getD zero)
  | none => values

def sourceValues (net : Network) (zero : α) (inputValues : List α) : Array α :=
  (net.inputs.zip inputValues).foldl (fun values (n, v) => values.setIfInBounds n v)
    (Array.replicate net.size zero)

/-- One value for every slot; dead slots hold `zero`. -/
def simulate (net : Network) (zero : α) (inputValues : List α) : Except Fault (Array α) := do
  ensure (inputValues.length == net.inputs.length)
    (.inputCount net.inputs.length inputValues.length)
  return net.topoOrder.foldl (net.simulateNode zero) (net.sourceValues zero inputValues)

def signalValue (zero : α) (values : Array α) (s : Signal) : α :=
  GateValue.complementIf (values[s.node]?.getD zero) s.negated

def simulateValues (net : Network) (inputValues : List Bool) : Except Fault (Array Bool) :=
  net.simulate false inputValues

def simulateWords (net : Network) (inputWords : List UInt64) : Except Fault (Array UInt64) :=
  net.simulate 0 inputWords

def maxTableVars : Nat := 16

def simulateTables (net : Network) : Except Fault (Array TruthTable) := do
  let n := net.inputs.length
  ensure (n ≤ maxTableVars) (.tooManyInputs n maxTableVars)
  net.simulate (.const0 n) ((List.range n).map (TruthTable.nthVar n))

def outputTables (net : Network) : Except Fault (List TruthTable) := do
  let tables ← net.simulateTables
  return net.outputSignals.map (signalValue (.const0 net.inputs.length) tables)

end Network

end LogicOpt
