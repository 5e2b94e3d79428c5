import LogicOpt.Candidate.Build
import LogicOpt.Network.Creation

namespace LogicOpt

namespace Edit

def readPosition (signals : Array Signal) (s : Signal) : Except Fault Signal :=
  match signals[s.node]? with
  | some t => .ok (t.negateIf s.negated)
  | none => .error .outOfRange

def insertGate (signals : Array Signal) (g : Gate Signal) : Edit (Array Signal) := do
  let fanins ← ofExcept (g.operands.mapM (readPosition signals))
  return signals.push (← createGate g.kind fanins)

def insert (c : Candidate) (divisors : List Signal) : Edit Signal := do
  ofExcept (ensure (divisors.length == c.numDivisors) .outOfRange)
  let signals ← c.gates.foldlM insertGate (.constant false :: divisors).toArray
  ofExcept (readPosition signals c.output)

end Edit

end LogicOpt
