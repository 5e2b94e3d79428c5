import LogicOpt.Gate

namespace LogicOpt

structure Candidate where
  numDivisors : Nat
  gates : List (Gate Signal)
  output : Signal
deriving DecidableEq

namespace Candidate

def empty (numDivisors : Nat) : Candidate := ⟨numDivisors, [], .constant false⟩

def constant (numDivisors : Nat) (value : Bool) : Candidate :=
  ⟨numDivisors, [], .constant value⟩

/-- The signal of the divisor with index `i`, counted from 0. The searches and the gates they build
    do not check that a literal fits 32 bits, as `signalAt` does: one that does not would take
    `2 ^ 31` divisors, each with a table of its own. -/
def divisorSignal (i : Nat) (negated : Bool) : Signal := ⟨i + 1, negated⟩

def divisor (numDivisors i : Nat) (negated : Bool) : Candidate :=
  ⟨numDivisors, [], divisorSignal i negated⟩

def numGates (c : Candidate) : Nat := c.gates.length

def nextPosition (c : Candidate) : Nat := 1 + c.numDivisors + c.gates.length

def signalText (s : Signal) : String :=
  if s.negated then "!" ++ toString s.node else toString s.node

def gateText (position : Nat) (g : Gate Signal) : String :=
  "; " ++ toString position ++ " = " ++ g.kind.text ++ "("
    ++ String.intercalate ", " (g.operands.map signalText) ++ ")"

def text (c : Candidate) : String :=
  "\x7bdivisors: " ++ toString c.numDivisors
    ++ String.join (c.gates.mapIdx fun i g => gateText (1 + c.numDivisors + i) g)
    ++ "; out = " ++ signalText c.output ++ "\x7d"

def Ordered (c : Candidate) : Prop :=
  ∀ i (h : i < c.gates.length), ∀ s ∈ (c.gates[i]).operands, s.node < 1 + c.numDivisors + i

instance (c : Candidate) : Decidable c.Ordered :=
  inferInstanceAs (Decidable (∀ i (h : i < c.gates.length), ∀ s ∈ (c.gates[i]).operands,
    s.node < 1 + c.numDivisors + i))

end Candidate

end LogicOpt
