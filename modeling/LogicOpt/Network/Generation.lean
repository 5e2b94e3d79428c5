import LogicOpt.Network.Creation
import LogicOpt.Network.Removal
import LogicOpt.Random.Xoshiro

namespace LogicOpt

/-- The signals a random network may read so far; there is always at least one. -/
structure SignalPool where
  first : Signal
  rest : Array Signal

namespace SignalPool

def size (pool : SignalPool) : Nat := pool.rest.size + 1

def pick (pool : SignalPool) : Nat → Except Fault Signal
  | 0 => .ok pool.first
  | i + 1 =>
    match pool.rest[i]? with
    | some s => .ok s
    | none => .error .outOfRange

def covers (pool : SignalPool) (n : Nat) : Bool :=
  pool.first.node == n || pool.rest.any (·.node == n)

def add (pool : SignalPool) (s : Signal) : SignalPool :=
  if s.isConstant || pool.covers s.node then pool else { pool with rest := pool.rest.push s }

end SignalPool

namespace Draws

variable {σ : Type}

def within (source : Draws σ) (low high : Nat) (state : σ) : Except Fault (Nat × σ) := do
  ensure (low < high) .outOfRange
  let (offset, state) := source.below (high - low) state
  return (low + offset, state)

def kind (source : Draws σ) (kinds : List GateKind) (state : σ) : Except Fault (GateKind × σ) := do
  let (k, state) ← source.within 0 kinds.length state
  match kinds[k]? with
  | some kind => return (kind, state)
  | none => throw .outOfRange

def position (source : Draws σ) (pool : SignalPool) (state : σ) : Except Fault (Nat × σ) := do
  let (recent, state) := source.biased state
  if recent then
    let (back, state) ← source.within 0 (min pool.size 12) state
    ensure (back < pool.size) .outOfRange
    return (pool.size - 1 - back, state)
  else source.within 0 pool.size state

def signalAt (source : Draws σ) (pool : SignalPool) (i : Nat) (state : σ) :
    Except Fault (Signal × σ) := do
  let (negated, state) := source.fair state
  return ((← pool.pick i).negateIf negated, state)

def fanin (source : Draws σ) (pool : SignalPool) (state : σ) : Except Fault (Signal × σ) := do
  let (i, state) ← source.position pool state
  source.signalAt pool i state

def fanins (source : Draws σ) (pool : SignalPool) :
    (count : Nat) → σ → Except Fault (List Signal × σ)
  | 0, state => return ([], state)
  | count + 1, state => do
    let (f, state) ← source.fanin pool state
    let (rest, state) ← source.fanins pool count state
    return (f :: rest, state)

/-- The first output reads the last signal; the others read any signal that is not an input, or
    the last one if all are inputs. -/
def output (source : Draws σ) (pool : SignalPool) (numInputs i : Nat) (state : σ) :
    Except Fault (Signal × σ) := do
  let last := pool.size - 1
  if i = 0 then source.signalAt pool last state
  else
    let (choice, state) ← source.within (min numInputs last) pool.size state
    source.signalAt pool choice state

end Draws

namespace Edit

variable {σ : Type}

/-- Reference counts are 32-bit numbers. -/
def countLimit : Nat := 0x100000000

def checkCounts (signals : List Signal) : Edit Unit :=
  check fun net => ensure (signals.all fun s => net.fanoutCount s.node < countLimit) .outOfRange

def drawGates (source : Draws σ) (kinds : List GateKind) :
    (count : Nat) → SignalPool → σ → Edit (SignalPool × σ)
  | 0, pool, state => return (pool, state)
  | count + 1, pool, state => do
    let (kind, state) ← ofExcept (source.kind kinds state)
    let (fanins, state) ← ofExcept (source.fanins pool kind.arity state)
    let s ← createGate kind fanins
    checkCounts fanins
    drawGates source kinds count (pool.add s) state

def drawOutputs (source : Draws σ) (pool : SignalPool) (numInputs : Nat) :
    (count i : Nat) → σ → Edit Unit
  | 0, _, _ => return ()
  | count + 1, i, state => do
    let (s, state) ← ofExcept (source.output pool numInputs i state)
    addOutput ("o" ++ toString i) s
    checkCounts [s]
    drawOutputs source pool numInputs count (i + 1) state

/-- As many inputs or more are refused: a list of them, sixteen bytes each, would fill `2 ^ 63`
    bytes. -/
def inputLimit : Nat := 0x800000000000000

/-- A random network over the given kinds, without dangling gates. Equal gates are shared, so it
    may have fewer gates than asked for. -/
def drawNetwork (source : Draws σ) (numInputs numGates numOutputs : Nat)
    (kinds : List GateKind) (state : σ) : Edit Unit := do
  ofExcept (ensure (numInputs != 0 && !kinds.isEmpty) .outOfRange)
  ofExcept (ensure (numInputs < inputLimit) .outOfRange)
  match ← (List.range numInputs).mapM fun i => addInput ("i" ++ toString i) with
  | [] => throw .outOfRange
  | first :: rest =>
    let (pool, state) ← drawGates source kinds numGates ⟨first, rest.toArray⟩ state
    drawOutputs source pool numInputs numOutputs 0 state
    update fun net => net.liveGates.foldl Network.removeDangling net

end Edit

namespace Network

def built (name : String) (edit : Edit Unit) : Except Fault Network :=
  match edit.run (.empty name) with
  | .ok _ net => .ok net
  | .error fault _ => .error fault

def random (seed : UInt64) (numInputs numGates numOutputs : Nat) (kinds : List GateKind) :
    Except Fault Network :=
  built ("random_" ++ toString seed.toNat)
    (Edit.drawNetwork Xoshiro.draws numInputs numGates numOutputs kinds (.ofSeed seed))

def allKinds : List GateKind := [.and2, .xor2, .maj3]

/-- Two outputs with the same function, `(a & b) | (a & c)` and `a & (b | c)`. -/
def sharedFactor : Except Fault Network :=
  built "shared_factor" do
    let a ← Edit.addInput "a"
    let b ← Edit.addInput "b"
    let c ← Edit.addInput "c"
    let ab ← Edit.andGate a b
    let ac ← Edit.andGate a c
    let o1 ← Edit.orGate ab ac
    let bc ← Edit.orGate b c
    let o2 ← Edit.andGate a bc
    Edit.addOutput "o1" o1
    Edit.addOutput "o2" o2

def andXor (a b : Signal) : Edit Signal := do
  let x ← Edit.andGate a b.negate
  let y ← Edit.andGate a.negate b
  Edit.orGate x y

def fullAdder : Except Fault Network :=
  built "aig_full_adder" do
    let a ← Edit.addInput "a"
    let b ← Edit.addInput "b"
    let cin ← Edit.addInput "cin"
    let half ← andXor a b
    let sum ← andXor half cin
    let ab ← Edit.andGate a b
    let carried ← Edit.andGate half cin
    let carry ← Edit.orGate ab carried
    Edit.addOutput "sum" sum
    Edit.addOutput "carry" carry

end Network

end LogicOpt
