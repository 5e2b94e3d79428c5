import LogicOpt.Candidate.Insertion
import LogicOpt.Formula

namespace LogicOpt

inductive Verdict where
  | equivalent
  /-- Input values on which root and candidate differ. -/
  | counterexample (inputs : List Bool)
  /-- The clause budget is exceeded, or the solver did not answer. -/
  | unknown
deriving DecidableEq

def GateKind.clauseCount : GateKind → Nat
  | .and2 => 3
  | .xor2 => 4
  | .maj3 => 6

namespace Network

def jointCone (net : Network) (root : Nat) (divisors : List Nat) : Except Fault (List Nat) :=
  net.orderFrom (root :: divisors) fun _ => false

def nodeClauses (net : Network) (n : Nat) : Nat :=
  match net.gate? n with
  | some g => g.kind.clauseCount
  | none => if n = 0 then 1 else 0

def clauses (net : Network) (cone : List Nat) (c : Candidate) : Nat :=
  cone.foldl (fun count n => count + net.nodeClauses n) 1
    + c.gates.foldl (fun count g => count + g.kind.clauseCount) 0
    + GateKind.clauseCount .xor2

end Network

structure Encoding where
  formula : Formula
  variableOf : Std.TreeMap Nat Nat

namespace Encoding

def empty : Encoding := ⟨#[], ∅⟩

def read (e : Encoding) (s : Signal) : Except Fault Signal :=
  match e.variableOf[s.node]? with
  | some v => .ok ⟨v, s.negated⟩
  | none => .error .outOfRange

def define (e : Encoding) (n : Nat) (d : Definition) : Encoding :=
  ⟨e.formula.push d, e.variableOf.insert n e.formula.size⟩

def shows (e : Encoding) (model : List Signal) (n : Nat) : Bool :=
  e.variableOf[n]?.any fun v => model.contains (.ofNode v)

end Encoding

def encodeGate (state : Formula × Array Signal) (g : Gate Signal) :
    Except Fault (Formula × Array Signal) := do
  let k ← g.mapM (Edit.readPosition state.2)
  return (state.1.push (.gate k), state.2.push (.ofNode state.1.size))

/-- Adds a candidate over `divisors` to the definitions, on a constant of its own. The answer holds
    the literal that tells whether root and candidate differ. -/
def Encoding.miter (e : Encoding) (root : Nat) (divisors : List Nat) (c : Candidate) :
    Except Fault (Formula × Signal) := do
  let inputs ← divisors.mapM fun d => e.read (.ofNode d)
  let positions := (.ofNode e.formula.size :: inputs).toArray
  let (formula, positions) ← c.gates.foldlM encodeGate (e.formula.push .zero, positions)
  let output ← Edit.readPosition positions c.output
  let target ← e.read (.ofNode root)
  return (formula.push (.gate (.xor2 target output)), .ofNode formula.size)

namespace Network

def encodeNode (net : Network) (e : Encoding) (n : Nat) : Except Fault Encoding :=
  match net.gate? n with
  -- The fanins have to have variables.
  | some g => do return e.define n (.gate (← g.mapM e.read))
  | none => return e.define n (if n = 0 then .zero else .free)

def encodeCone (net : Network) (cone : List Nat) : Except Fault Encoding :=
  cone.foldlM net.encodeNode .empty

def validateWith (solve : Solver) (net : Network) (maxClauses root : Nat) (divisors : List Nat)
    (c : Candidate) : Except Fault Verdict := do
  ensure (divisors.length == c.numDivisors) .outOfRange
  net.requireAll (root :: divisors)
  let cone ← net.jointCone root divisors
  if net.clauses cone c > maxClauses then return .unknown
  else
    let e ← net.encodeCone cone
    let (formula, differ) ← e.miter root divisors c
    match solve formula.clauses [differ] with
    | .unsatisfiable => return .equivalent
    | .satisfiable (some model) => return .counterexample (net.inputs.map (e.shows model))
    | .satisfiable none => return .unknown
    | .failed => return .unknown

/-- The verdict of a solver that tries all assignments. -/
def validate (net : Network) (maxClauses root : Nat) (divisors : List Nat) (c : Candidate) :
    Except Fault Verdict :=
  net.validateWith .search maxClauses root divisors c

end Network

end LogicOpt
