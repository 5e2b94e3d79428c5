import LogicOpt.Candidate.Build
import LogicOpt.TruthTable.Basic

namespace LogicOpt

structure Problem (w : Nat) where
  target : BitVec w
  care : BitVec w
  divisors : List (BitVec w)

namespace Problem

variable {w : Nat} (p : Problem w)

def numDivisors : Nat := p.divisors.length

def careOn : BitVec w := p.target &&& p.care

def accepts (f : BitVec w) : Bool := agreeOn f p.target p.care

/-- Hands out a candidate after a last check by evaluation. -/
def verified (c : Candidate) : Except Fault (Option Candidate) := do
  if p.accepts (← c.evaluate 0 p.divisors) then return some c else throw (.wrongCandidate c)

end Problem

/-- A divisor or constant in a polarity, together with its function. -/
structure Literal (w : Nat) where
  signal : Signal
  function : BitVec w

namespace Literal

variable {w : Nat}

def ofDivisor (i : Nat) (f : BitVec w) (negated : Bool) : Literal w :=
  ⟨Candidate.divisorSignal i negated, if negated then ~~~f else f⟩

def both (i : Nat) (f : BitVec w) : List (Literal w) := [ofDivisor i f false, ofDivisor i f true]

def constant (value : Bool) : Literal w :=
  ⟨.constant value, if value then BitVec.allOnes w else 0⟩

def sameDivisor (a b : Literal w) : Bool := a.signal.node == b.signal.node

end Literal

/-- The first answer over all pairs of a list, the first component leading. -/
def findPair? {α β : Type} (f : α → α → Option β) : List α → Option β
  | [] => none
  | a :: rest =>
    match rest.findSome? (f a) with
    | some b => some b
    | none => findPair? f rest

end LogicOpt
