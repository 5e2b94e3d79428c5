import LogicOpt.Resynthesis.Search
import LogicOpt.TruthTable.Words

namespace LogicOpt

structure ResynStats where
  numCalls : Nat
  numConstants : Nat
  numDiv0 : Nat
  numOneGate : Nat
  numTwoGate : Nat
  numFailures : Nat
deriving DecidableEq

def ResynStats.zero : ResynStats := ⟨0, 0, 0, 0, 0, 0⟩

inductive Shape where
  | constant
  | divisor
  | oneGate
  | twoGate
deriving DecidableEq

namespace ResynStats

def call (s : ResynStats) : ResynStats := { s with numCalls := s.numCalls + 1 }

def success (s : ResynStats) : Shape → ResynStats
  | .constant => { s with numConstants := s.numConstants + 1 }
  | .divisor => { s with numDiv0 := s.numDiv0 + 1 }
  | .oneGate => { s with numOneGate := s.numOneGate + 1 }
  | .twoGate => { s with numTwoGate := s.numTwoGate + 1 }

def failure (s : ResynStats) : ResynStats := { s with numFailures := s.numFailures + 1 }

end ResynStats

inductive Basis where
  /-- No gates: constants and divisors only. -/
  | div0
  | aig
  | xag
  | mig
deriving DecidableEq

namespace Basis

def kinds : Basis → List GateKind
  | div0 => []
  | aig => [.and2]
  | xag => [.and2, .xor2]
  | mig => [.maj3]

end Basis

namespace Problem

variable {w : Nat} (p : Problem w)

def shaped (shape : Shape) (found : Option Candidate) : Option (Shape × Candidate) :=
  found.map fun c => (shape, c)

def findGateFree : Option (Shape × Candidate) :=
  (shaped .constant p.findConstant).or (shaped .divisor p.findDivisor)

def findOneGate (basis : Basis) (positive negative : List (Literal w)) :
    Option (Shape × Candidate) :=
  shaped .oneGate <|
    match basis with
    | .div0 => none
    | .aig => (p.findOr positive).or (p.findAnd negative)
    | .xag => ((p.findOr positive).or (p.findAnd negative)).or p.findXor
    | .mig => p.findMaj

def findTwoGates (basis : Basis) (positive negative : List (Literal w)) :
    Option (Shape × Candidate) :=
  shaped .twoGate <|
    match basis with
    | .div0 => none
    | .aig => (p.findOrAnd positive p.products).or (p.findAndOr negative p.sums)
    | .xag => (p.findOrAnd positive p.products).or (p.findAndOr negative p.sums)
    | .mig => none

def find (basis : Basis) (maxInserts : Nat) : Option (Shape × Candidate) :=
  match p.findGateFree with
  | some found => some found
  | none =>
    if maxInserts = 0 then none
    else
      let positive := p.positive
      let negative := p.negative
      match p.findOneGate basis positive negative with
      | some found => some found
      | none => if maxInserts = 1 then none else p.findTwoGates basis positive negative

def resynthesize (basis : Basis) (maxInserts : Nat) (stats : ResynStats) :
    Except Fault (Option Candidate × ResynStats) :=
  match p.find basis maxInserts with
  | none => .ok (none, stats.call.failure)
  | some (shape, c) => do return (← p.verified c, stats.call.success shape)

end Problem

/-- Resynthesis of a target given as tables that may not fit together. The divisors' tables are
    read only if the target is not constant on the care set. -/
def resynthesizeTables (basis : Basis) (target care : TruthTable) (divisors : List TruthTable)
    (maxInserts : Nat) (stats : ResynStats) : Except Fault (Option Candidate × ResynStats) := do
  ensure (target.alike care) .tableMismatch
  let p : Problem (tableWidth target.numVars) :=
    ⟨target.bitsOver _, care.bitsOver _, divisors.map (·.bitsOver _)⟩
  ensure (p.findConstant.isSome || divisors.all target.alike) .outOfRange
  p.resynthesize basis maxInserts stats

end LogicOpt
