import LogicOpt.Signal

namespace LogicOpt

inductive PassError where
  | invalidParams (reason : String)
  /-- More pivots than the cut may have leaves. -/
  | cutOverflow (pivots maxLeaves : Nat)
  /-- The cone of a root leaves no room for its divisors. -/
  | divisorBudgetExceeded (windowNodes budget : Nat)
  | windowIncomplete (node : Nat)
  | solver (reason : String)
  | config (reason : String)
deriving DecidableEq

namespace PassError

def text : PassError → String
  | invalidParams reason => "invalid resubstitution parameters: " ++ reason
  | cutOverflow pivots maxLeaves =>
    "cut overflow: " ++ toString pivots ++ " pivots exceed the leaf bound of "
      ++ toString maxLeaves
  | divisorBudgetExceeded windowNodes budget =>
    "divisor budget exceeded: window has " ++ toString windowNodes ++ " nodes, budget is "
      ++ toString budget
  | windowIncomplete node => "window simulation is missing a truth table for " ++ nodeText node
  | solver reason => "SAT solver error: " ++ reason
  | config reason => "could not parse configuration: " ++ reason

end PassError

end LogicOpt
