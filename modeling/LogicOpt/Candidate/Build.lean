import LogicOpt.Gate.Value

namespace LogicOpt

namespace Candidate

def wordLimit : Nat := 0x100000000

/-- A signal whose literal has to fit its word. -/
def signalAt (position : Nat) (negated : Bool) : Except Fault Signal := do
  ensure (2 * position < wordLimit) .outOfRange
  return ⟨position, negated⟩

def divisor? (numDivisors i : Nat) (negated : Bool) : Except Fault Candidate := do
  ensure (i < numDivisors) .outOfRange
  return ⟨numDivisors, [], ← signalAt (i + 1) negated⟩

def divisorSignal? (c : Candidate) (i : Nat) (negated : Bool) : Except Fault Signal := do
  ensure (i < c.numDivisors) .outOfRange
  signalAt (i + 1) negated

def checkFanins (c : Candidate) : List Signal → Except Fault Unit
  | [] => .ok ()
  | s :: rest => if s.node < c.nextPosition then checkFanins c rest else .error (.forwardFanin s)

def addGate (c : Candidate) (kind : GateKind) (fanins : List Signal) :
    Except Fault (Candidate × Signal) := do
  match Gate.ofOperands? kind fanins with
  | none => throw .outOfRange
  | some g =>
    ensure (c.nextPosition < wordLimit) .outOfRange
    c.checkFanins fanins
    return ({ c with gates := c.gates ++ [g] }, ← signalAt c.nextPosition false)

def ofGates (numDivisors : Nat) (gates : List (GateKind × List Signal)) (output : Signal) :
    Except Fault Candidate := do
  let c ← gates.foldlM (fun c (kind, fanins) => do return (← c.addGate kind fanins).1)
    (empty numDivisors)
  return { c with output }

section Evaluation

variable {α : Type} [GateValue α]

def readSignal (values : Array α) (s : Signal) : Except Fault α :=
  match values[s.node]? with
  | some v => .ok (GateValue.complementIf v s.negated)
  | none => .error .outOfRange

def evaluateGate (values : Array α) (g : Gate Signal) : Except Fault (Array α) := do
  return values.push (← (← g.mapM (readSignal values)).apply)

def evaluate (c : Candidate) (zero : α) (divisors : List α) : Except Fault α := do
  ensure (divisors.length == c.numDivisors) .outOfRange
  readSignal (← c.gates.foldlM evaluateGate (zero :: divisors).toArray) c.output

end Evaluation

end Candidate

end LogicOpt
