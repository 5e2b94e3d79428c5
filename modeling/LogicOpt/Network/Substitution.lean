import LogicOpt.Network.Creation
import LogicOpt.Network.Removal
import Std.Data.TreeSet

/-!
Substitution: every use of a node is redirected to a signal, and the node is removed together with
whatever dies with it. A consumer that folds to another signal once redirected is not touched but
queued, to be replaced in turn; until then it keeps its reference, so a node is removed only once
nothing reads it.
-/

namespace LogicOpt

/-- The replacements of one substitution: those to do, the nodes that were ever queued, and those
    done. -/
structure Replacements where
  queue : List (Nat × Signal)
  queued : Std.TreeSet Nat
  replaced : Std.TreeMap Nat Signal

namespace Replacements

def start (old : Nat) (new : Signal) : Replacements :=
  ⟨[(old, new)], (∅ : Std.TreeSet Nat).insert old, ∅⟩

def enqueue (r : Replacements) (n : Nat) (target : Signal) : Replacements :=
  { r with queue := r.queue ++ [(n, target)], queued := r.queued.insert n }

def record (r : Replacements) (n : Nat) (new : Signal) : Replacements :=
  { r with replaced := r.replaced.insert n new }

def handles (r : Replacements) (n : Nat) : Bool := r.queued.contains n || r.replaced.contains n

/-- Follows replacements; more hops than replacements mean a cycle. -/
def follow (replaced : Std.TreeMap Nat Signal) : (hops : Nat) → Signal → Except Fault Signal
  | hops, s =>
    match replaced[s.node]? with
    | none => .ok s
    | some next =>
      let s := next.negateIf s.negated
      match hops with
      | 0 => .error (.cyclicReplacement s.node)
      | hops + 1 => follow replaced hops s

def resolve (r : Replacements) (s : Signal) : Except Fault Signal :=
  follow r.replaced r.replaced.size s

end Replacements

def Gate.redirect (g : Gate Signal) (old : Nat) (new : Signal) : Gate Signal :=
  g.map fun f => if f.node = old then new.negateIf f.negated else f

def Gate.reads (g : Gate Signal) (n : Nat) : Bool := g.operands.any (·.node == n)

namespace Network

def liveTwin? (net : Network) (n : Nat) : Option Nat :=
  (net.gate? n).bind fun g => net.table[g]?.filter fun twin => twin != n && !net.isDead twin

def claimEntry (net : Network) (n : Nat) : Network :=
  match net.gate? n with
  | some g =>
    match net.table[g]? with
    | some holder =>
      if net.isDead holder then { net with table := net.table.insert g n } else net
    | none => { net with table := net.table.insert g n }
  | none => net

def reattach (net : Network) (n : Nat) : Network :=
  let net := net.modifyNode n fun node => { node with dead := false }
  let net := { net with numGates := net.numGates + 1 }.claimEntry n
  (net.fanins n).foldl (linkFanin n) net

def rewireGate (net : Network) (n : Nat) (g : Gate Signal) (old : Nat) (new : Signal) : Network :=
  let net := (net.dropEntry n).modifyNode n fun node => { node with body := .gate g }
  let net := { net with table := net.table.insert g n }
  let net := (net.decrCount old).modifyNode old (·.removeFanout n)
  linkFanin n net new

def redirectOutput (old : Nat) (new : Signal) (o : Output) : Output :=
  if o.signal.node = old then { o with signal := new.negateIf o.signal.negated } else o

def outputReferences (net : Network) (n : Nat) : Nat := net.outputSignals.countP (·.node == n)

def redirectOutputs (net : Network) (old : Nat) (new : Signal) : Network :=
  let moved := net.outputReferences old
  let net := net.modifyNode old fun node => { node with fanoutCount := node.fanoutCount - moved }
  let net := net.modifyNode new.node fun node =>
    { node with fanoutCount := node.fanoutCount + moved }
  { net with outputs := net.outputs.map (redirectOutput old new) }

end Network

namespace Edit

def reviveGate (n : Nat) : Edit Unit := do
  update (·.reattach n)
  let level := (← get).computedLevel n
  ofExcept (Network.checkLevel level)
  update fun net => (net.setLevel n level).notify (.added n)

def revive (n : Nat) : Edit Unit := do
  let net ← get
  (net.postorder [n] fun m => !net.isDead m).forM reviveGate

def liveTarget (s : Signal) : Edit Signal := do
  let net ← get
  ofExcept (net.require s.node)
  if net.isDead s.node then
    match net.liveTwin? s.node with
    | some twin => return ⟨twin, s.negated⟩
    | none =>
      revive s.node
      return s
  else return s

/-- Redirects the reference of a consumer to `old`. The answer is a signal when the consumer is left
    as it is and has to be replaced by that signal instead: because the redirected gate folds,
    because another node computes it already, or because its output polarity would change. -/
def redirectConsumer (r : Replacements) (consumer : Nat) (g : Gate Signal) (old : Nat)
    (new : Signal) : Edit (Option Signal) := do
  match (g.redirect old new).normalize with
  | .trivial s => return some s
  | .gate redirected negated =>
    match (← get).table[redirected]?.filter fun n => n != old && n != consumer with
    | some holder => return some ⟨holder, negated⟩
    | none =>
      if negated then
        let fanins ← ofExcept (redirected.operands.mapM r.resolve)
        return some (← createGate redirected.kind fanins).negate
      else
        check fun net => ensure (net.fanoutCount old != 0) (.countUnderflow old)
        update (·.rewireGate consumer redirected old new)
        update (·.notify (.modified consumer g.operands))
        return none

/-- Redirects one entry of a fanout list. Dead consumers, consumers with a replacement of their own
    and entries that do not read `old` are passed over. -/
def visitConsumer (old : Nat) (new : Signal) (r : Replacements) (consumer : Nat) :
    Edit Replacements := do
  let net ← get
  if net.isDead consumer || r.handles consumer then return r
  else
    match (net.gate? consumer).filter (·.reads old) with
    | none => return r
    | some g =>
      match ← redirectConsumer r consumer g old new with
      | some target => return r.enqueue consumer target
      | none => return r

def moveOutputs (old : Nat) (new : Signal) : Edit Unit := do
  check fun net => ensure (net.outputReferences old ≤ net.fanoutCount old) .outOfRange
  update (·.redirectOutputs old new)

def replace (r : Replacements) (old : Nat) (target : Signal) : Edit Replacements := do
  let new ← liveTarget (← ofExcept (r.resolve target))
  if old = new.node then return r
  else
    check (·.require old)
    if (← get).isDead old then return r.record old new
    else
      let r ← ((← get).fanouts old).foldlM (visitConsumer old new) r
      moveOutputs old new
      if (← get).fanoutCount old = 0 then update (·.takeOut old)
      return r.record old new

def replaceAll : (steps : Nat) → Replacements → Edit Unit
  | steps, r =>
    match r.queue with
    | [] => return ()
    | (old, target) :: rest =>
      match steps with
      | 0 => throw .endless
      | steps + 1 => do replaceAll steps (← replace { r with queue := rest } old target)

/-- A bound on the replacements of one substitution. Say that a node costs one more than its fanins
    together. On an acyclic network all nodes together cost less than this, and a gate that is built
    in place of a queued one is cheaper. -/
def replacementBound (net : Network) : Nat := Nat.pow (net.size + 1) (net.size + 1)

def substituteNode (old : Nat) (new : Signal) : Edit Unit := do
  replaceAll (replacementBound (← get)) (.start old new)

end Edit

end LogicOpt
