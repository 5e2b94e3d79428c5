import LogicOpt.Network.Event
import LogicOpt.Fault

/-!
Logic networks with structural hashing. Slot 0 is the constant false; inputs and gates follow in
the order of their creation. The table maps a gate in normal form to the live node that computes
it, so that equal gates are shared.

Queries are total: a node outside the network is a live non-gate without fanins, at level 0. The
operations that take nodes from a caller check them first.
-/

namespace LogicOpt

structure Network where
  name : String
  nodes : Array Node
  levels : Array Nat
  table : Std.TreeMap (Gate Signal) Nat
  inputs : List Nat
  outputs : List Output
  numGates : Nat
  nextSubscription : Nat
  subscriptions : List Subscription
  /-- What the journaled subscribers were shown, the earliest delivery first. -/
  journal : Array Delivery

namespace Network

def empty (name : String) : Network where
  name := name
  nodes := #[.fresh .constant]
  levels := #[0]
  table := ∅
  inputs := []
  outputs := []
  numGates := 0
  nextSubscription := 0
  subscriptions := []
  journal := #[]

def size (net : Network) : Nat := net.nodes.size

def body? (net : Network) (n : Nat) : Option NodeBody := net.nodes[n]?.map (·.body)

def gate? (net : Network) (n : Nat) : Option (Gate Signal) := net.nodes[n]?.bind (·.gate?)

def isGate (net : Network) (n : Nat) : Bool := (net.gate? n).isSome

def isInput (net : Network) (n : Nat) : Bool := net.nodes[n]?.any (·.isInput)

def isDead (net : Network) (n : Nat) : Bool := net.nodes[n]?.any (·.dead)

def isLiveGate (net : Network) (n : Nat) : Bool := net.isGate n && !net.isDead n

def fanins (net : Network) (n : Nat) : List Signal := (net.nodes[n]?.map (·.fanins)).getD []

def fanouts (net : Network) (n : Nat) : List Nat := (net.nodes[n]?.map (·.fanouts)).getD []

def fanoutCount (net : Network) (n : Nat) : Nat := (net.nodes[n]?.map (·.fanoutCount)).getD 0

def level (net : Network) (n : Nat) : Nat := net.levels[n]?.getD 0

def inputName? (net : Network) (n : Nat) : Option String := net.nodes[n]?.bind (·.inputName?)

def liveGates (net : Network) : List Nat := (List.range net.size).filter net.isLiveGate

def outputSignals (net : Network) : List Signal := net.outputs.map (·.signal)

def isSource (net : Network) (n : Nat) : Bool := n == 0 || net.isInput n

def require (net : Network) (n : Nat) : Except Fault Unit := ensure (n < net.size) .outOfRange

def requireAll (net : Network) (nodes : List Nat) : Except Fault Unit :=
  ensure (nodes.all (· < net.size)) .outOfRange

def modifyNode (net : Network) (n : Nat) (f : Node → Node) : Network :=
  { net with nodes := net.nodes.modify n f }

def setLevel (net : Network) (n level : Nat) : Network :=
  { net with levels := net.levels.setIfInBounds n level }

def incrCount (net : Network) (n : Nat) : Network :=
  net.modifyNode n fun node => { node with fanoutCount := node.fanoutCount + 1 }

def decrCount (net : Network) (n : Nat) : Network :=
  net.modifyNode n fun node => { node with fanoutCount := node.fanoutCount - 1 }

def deliver (event : Event) (net : Network) (s : Subscription) : Network :=
  let net :=
    if s.journaled then
      { net with journal := net.journal.push ⟨s.id, event, net.nodes, net.levels⟩ }
    else net
  { net with levels := s.reaction.relevel event net.nodes net.levels }

def notify (net : Network) (event : Event) : Network :=
  net.subscriptions.foldl (deliver event) net

end Network

/-- An operation that changes a network. When it raises a fault, the network stays as it was at
    that moment. -/
abbrev Edit := EStateM Fault Network

namespace Edit

variable {α : Type}

def ofExcept (result : Except Fault α) : Edit α :=
  match result with
  | .ok value => pure value
  | .error fault => throw fault

def check (test : Network → Except Fault α) : Edit α := do
  ofExcept (test (← get))

def update (f : Network → Network) : Edit Unit := modify f

def subscribe (reaction : Reaction) (journaled : Bool) : Edit Nat := do
  let net ← get
  let id := net.nextSubscription
  set { net with
    nextSubscription := id + 1
    subscriptions := net.subscriptions ++ [Subscription.mk id reaction journaled] }
  return id

def unsubscribe (id : Nat) : Edit Bool := do
  let net ← get
  set { net with subscriptions := net.subscriptions.filter (·.id != id) }
  return net.subscriptions.any (·.id == id)

/-- Runs an operation with a subscription that is released afterwards and leaves no trace in the
    journal. -/
def withSubscription (reaction : Reaction) (body : Edit α) : Edit α := do
  let id ← subscribe reaction false
  let result ← body
  unless ← unsubscribe id do throw (.releasedTwice id)
  return result

def takeJournal : Edit (List Delivery) := do
  let net ← get
  set { net with journal := #[] }
  return net.journal.toList

def setLevel (n level : Nat) : Edit Unit := do
  check (·.require n)
  update (·.setLevel n level)

def incrFanoutCount (n : Nat) : Edit Nat := do
  check (·.require n)
  update (·.incrCount n)
  return (← get).fanoutCount n

def decrFanoutCount (n : Nat) : Edit Nat := do
  check (·.require n)
  check fun net => ensure (net.fanoutCount n != 0) (.countUnderflow n)
  update (·.decrCount n)
  return (← get).fanoutCount n

end Edit

end LogicOpt
