import LogicOpt.Gate

namespace LogicOpt

/-- A disjunction of literals: signals whose nodes are variables. -/
abbrev Clause := List Signal

def Gate.clauses (output : Signal) : Gate Signal → List Clause
  | and2 a b => [[a.negate, b.negate, output], [a, output.negate], [b, output.negate]]
  | xor2 a b =>
    [[a.negate, b.negate, output.negate], [a, b, output.negate], [a, b.negate, output],
      [a.negate, b, output]]
  | maj3 a b c =>
    -- Two operands that hold force the output, and so do two that do not.
    [[a.negate, b.negate, output], [a.negate, c.negate, output], [b.negate, c.negate, output],
      [a, b, output.negate], [a, c, output.negate], [b, c, output.negate]]

inductive Definition where
  | free
  | zero
  | gate (g : Gate Signal)
deriving DecidableEq

def Definition.clauses (v : Nat) : Definition → List Clause
  | free => []
  | zero => [[⟨v, true⟩]]
  | gate g => g.clauses (.ofNode v)

abbrev Formula := Array Definition

def Formula.clauses (formula : Formula) : List Clause :=
  formula.toList.zipIdx.flatMap fun (d, v) => d.clauses v

inductive SolverAnswer where
  | unsatisfiable
  /-- With the literals of a satisfying assignment, if there is one to show. -/
  | satisfiable (model : Option (List Signal))
  | failed

abbrev Solver := List Clause → List Signal → SolverAnswer

namespace Solver

def holds (values : Array Bool) (clause : Clause) : Bool :=
  clause.any fun s => values[s.node]?.getD false ^^ s.negated

def lastVariable (clause : Clause) : Nat := (clause.map (·.node)).max?.getD 0

def attempt (due : Array (List Clause)) (next : Array Bool → Option (Array Bool))
    (values : Array Bool) (b : Bool) : Option (Array Bool) :=
  if (due[values.size]?.getD []).all (holds (values.push b)) then next (values.push b) else none

def split (due : Array (List Clause)) : (left : Nat) → Array Bool → Option (Array Bool)
  | 0, values => some values
  | left + 1, values =>
    match attempt due (split due left) values false with
    | some found => some found
    | none => attempt due (split due left) values true

def schedule (clauses : List Clause) : Array (List Clause) :=
  (Array.range ((clauses.map lastVariable).max?.getD 0 + 1)).map fun v =>
    clauses.filter (lastVariable · == v)

def literals (values : Array Bool) : List Signal := values.toList.mapIdx fun v b => ⟨v, !b⟩

/-- Tries all assignments as far as the clauses permit. -/
def search : Solver := fun clauses assumptions =>
  let due := schedule (clauses ++ assumptions.map ([·]))
  match split due due.size #[] with
  | some values => .satisfiable (some (literals values))
  | none => .unsatisfiable

end Solver

end LogicOpt
