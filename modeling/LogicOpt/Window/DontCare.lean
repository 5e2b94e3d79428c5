import LogicOpt.Network.Order
import LogicOpt.Window.Cut
import LogicOpt.Window.Tables

namespace LogicOpt

/-- The assignments that some functions take together somewhere inside `within`. The first function
    decides the highest bit of an assignment, the last one the lowest. -/
def occurring {w : Nat} : (functions : List (BitVec w)) → (within : BitVec w) →
    Table functions.length
  | [], within => if within = 0 then 0 else 1
  | f :: rest, within =>
    (occurring rest (within &&& f) ++ occurring rest (within &&& ~~~f)).cast
      (tableWidth_succ rest.length).symm

namespace Window

def leafAssignments? {numVars : Nat} (w : Window numVars) (leaves : List Nat) :
    Option (Table leaves.length) :=
  match leaves.mapM w.nodeFunction? with
  | none => none
  | some functions =>
    some ((occurring functions.reverse (BitVec.allOnes _)).setWidth _)

end Window

/-- The assignments to the leaves that cannot occur, as far as a window with at most `windowSize`
    leaves shows; none if no such window can be grown. -/
def dontCares (net : Network) (leaves : List Nat) (windowSize maxFanout : Nat) :
    Except Fault (Table leaves.length) := do
  TruthTable.checkVars leaves.length
  match (← (Cutter.ofLimits windowSize maxFanout).run net leaves).1 with
  | .error _ => return 0
  | .ok cut =>
    let nodes ← net.orderFrom leaves cut.leaves.contains
    match ← Window.simulate net cut.leaves nodes false with
    | .error _ => return 0
    | .ok window =>
      match window.leafAssignments? leaves with
      | none => return 0
      | some care => return ~~~care

end LogicOpt
