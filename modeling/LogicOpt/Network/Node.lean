import LogicOpt.Gate

/-!
What a slot of a network holds. A removed gate keeps its slot and its fanins, so it can be brought
back when something needs it again.
-/

namespace LogicOpt

inductive NodeBody where
  | constant
  | input (name : String)
  | gate (g : Gate Signal)
deriving DecidableEq

structure Node where
  body : NodeBody
  /-- References by live gates and by outputs. -/
  fanoutCount : Nat
  /-- The gates among the consumers. -/
  fanouts : List Nat
  dead : Bool
deriving DecidableEq

namespace Node

def fresh (body : NodeBody) : Node := ⟨body, 0, [], false⟩

def gate? (n : Node) : Option (Gate Signal) :=
  match n.body with
  | .gate g => some g
  | _ => none

def fanins (n : Node) : List Signal :=
  match n.body with
  | .gate g => g.operands
  | _ => []

def isInput (n : Node) : Bool :=
  match n.body with
  | .input _ => true
  | _ => false

def inputName? (n : Node) : Option String :=
  match n.body with
  | .input name => some name
  | _ => none

def addFanout (n : Node) (consumer : Nat) : Node :=
  if n.fanouts.contains consumer then n else { n with fanouts := n.fanouts ++ [consumer] }

def removeFanout (n : Node) (consumer : Nat) : Node :=
  { n with fanouts := n.fanouts.filter (· != consumer) }

end Node

structure Output where
  name : String
  signal : Signal
deriving DecidableEq

end LogicOpt
