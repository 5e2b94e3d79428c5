import LogicOpt.Network.Node

namespace LogicOpt

inductive Event where
  | added (node : Nat)
  | modified (node : Nat) (oldFanins : List Signal)
  | removed (node : Nat)
deriving DecidableEq

/-- A reaction computes new levels from an event, the nodes and the recorded levels. -/
structure Reaction where
  relevel : Event → Array Node → Array Nat → Array Nat
  size_relevel : ∀ event nodes levels, (relevel event nodes levels).size = levels.size

def levelLimit : Nat := 0x100000000

namespace Reaction

def watch : Reaction := ⟨fun _ _ levels => levels, by simp⟩

def raise (amount : Nat) : Reaction where
  relevel event _ levels :=
    let node := match event with
      | .added n => n
      | .modified n _ => n
      | .removed n => n
    levels.modify node fun level => (level + amount) % levelLimit
  size_relevel := by simp

end Reaction

structure Subscription where
  id : Nat
  reaction : Reaction
  /-- Whether the journal keeps what this subscriber is shown. -/
  journaled : Bool

structure Delivery where
  subscription : Nat
  event : Event
  nodes : Array Node
  levels : Array Nat

end LogicOpt
