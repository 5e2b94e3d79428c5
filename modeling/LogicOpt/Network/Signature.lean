import LogicOpt.Network.Simulation

namespace LogicOpt

namespace Network

def outputWords (net : Network) (inputWords : List UInt64) : Except Fault (List UInt64) := do
  let values ← net.simulateWords inputWords
  return net.outputSignals.map (signalValue 0 values)

def signatureRounds {σ : Type} (net : Network) (draw : Nat → σ → List UInt64 × σ) :
    (rounds : Nat) → σ → Except Fault (List (List UInt64) × σ)
  | 0, state => .ok ([], state)
  | rounds + 1, state => do
    let (inputWords, state) := draw net.inputs.length state
    let words ← net.outputWords inputWords
    let (rest, state) ← signatureRounds net draw rounds state
    return (words :: rest, state)

/-- As many batches or more are refused: their words, eight bytes each, would fill `2 ^ 63`
    bytes. -/
def roundLimit : Nat := 0x1000000000000000

def outputSignatures {σ : Type} (net : Network) (draw : Nat → σ → List UInt64 × σ)
    (rounds : Nat) (state : σ) : Except Fault (List (List UInt64) × σ) := do
  ensure (rounds < roundLimit) .outOfRange
  let (batches, state) ← net.signatureRounds draw rounds state
  return ((List.range net.outputs.length).map fun i => batches.map fun ws => ws[i]?.getD 0, state)

end Network

end LogicOpt
