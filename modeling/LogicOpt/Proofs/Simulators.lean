import LogicOpt.Network.Signature
import LogicOpt.Proofs.AcceptedCandidates
import LogicOpt.Proofs.WordTables
import LogicOpt.Random.Xoshiro

namespace LogicOpt

/-- A map between values that respects the operations of gates. -/
structure Respects {α β : Type} [GateValue α] [GateValue β] (h : α → β) : Prop where
  complement : ∀ x, h (GateValue.complement x) = GateValue.complement (h x)
  and2 : ∀ x y, h (GateValue.and2 x y) = GateValue.and2 (h x) (h y)
  xor2 : ∀ x y, h (GateValue.xor2 x y) = GateValue.xor2 (h x) (h y)
  maj3 : ∀ x y z, h (GateValue.maj3 x y z) = GateValue.maj3 (h x) (h y) (h z)

theorem Pointwise.respects {α : Type} [GateValue α] {h : α → Bool} (pointwise : Pointwise h) :
    Respects h :=
  ⟨pointwise.complement, pointwise.and2, pointwise.xor2, pointwise.maj3⟩

theorem pointwise_wordBit {k : Nat} (inside : k < 64) : Pointwise (wordBit · k) where
  complement := wordBit_not inside
  and2 := wordBit_and inside
  xor2 := wordBit_xor inside
  maj3 := fun x y z => by
    simp only [GateValue.maj3, wordBit_or inside, wordBit_and inside]

theorem respects_ofTable (n : Nat) : Respects (TruthTable.ofTable (n := n)) where
  complement := TruthTable.ofTable_complement
  and2 := fun _ _ => TruthTable.ofTable_zip bitwise_and fun _ => BitVec.getLsbD_and
  xor2 := fun _ _ => TruthTable.ofTable_zip bitwise_xor fun _ => BitVec.getLsbD_xor
  maj3 := TruthTable.ofTable_maj

namespace Respects

variable {α β : Type} [GateValue α] [GateValue β] {h : α → β} {net : Network} {zero : α}

theorem complementIf (respects : Respects h) (x : α) (flip : Bool) :
    h (GateValue.complementIf x flip) = GateValue.complementIf (h x) flip := by
  cases flip
  · rfl
  · exact respects.complement x

theorem evalUnder (respects : Respects h) (values : Nat → α) (g : Gate Signal) :
    h (g.evalUnder values) = g.evalUnder fun m => h (values m) := by
  cases g with
  | and2 a b => exact (respects.and2 _ _).trans (by simp only [respects.complementIf]; rfl)
  | xor2 a b => exact (respects.xor2 _ _).trans (by simp only [respects.complementIf]; rfl)
  | maj3 a b c => exact (respects.maj3 _ _ _).trans (by simp only [respects.complementIf]; rfl)

omit [GateValue α] [GateValue β] in
theorem getD_map (h : α → β) (values : Array α) (zero : α) (m : Nat) :
    (values.map h)[m]?.getD (h zero) = h (values[m]?.getD zero) := by
  rw [Array.getElem?_map]
  cases values[m]? <;> rfl

theorem signalValue (respects : Respects h) (values : Array α) (s : Signal) :
    Network.signalValue (h zero) (values.map h) s = h (Network.signalValue zero values s) := by
  rw [Network.signalValue, Network.signalValue, getD_map, respects.complementIf]

theorem simulateNode (respects : Respects h) (values : Array α) (n : Nat) :
    net.simulateNode (h zero) (values.map h) n = (net.simulateNode zero values n).map h := by
  unfold Network.simulateNode
  cases net.gate? n with
  | none => rfl
  | some g => simp only [getD_map, ← respects.evalUnder, Array.map_setIfInBounds]

theorem foldl_simulateNode (respects : Respects h) (order : List Nat) (values : Array α) :
    order.foldl (net.simulateNode (h zero)) (values.map h) =
      (order.foldl (net.simulateNode zero) values).map h := by
  induction order generalizing values with
  | nil => rfl
  | cons n rest ih => rw [List.foldl_cons, respects.simulateNode, ih, List.foldl_cons]

omit [GateValue α] [GateValue β] in
theorem sourceValues (h : α → β) (inputs : List α) :
    net.sourceValues (h zero) (inputs.map h) = (net.sourceValues zero inputs).map h := by
  unfold Network.sourceValues
  rw [← Array.map_replicate]
  generalize Array.replicate net.size zero = values
  induction net.inputs generalizing inputs values with
  | nil => rfl
  | cons n rest ih =>
    cases inputs with
    | nil => rfl
    | cons x inputs =>
      simp only [List.map_cons, List.zip_cons_cons, List.foldl_cons, ← Array.map_setIfInBounds, ih]

theorem simulate (respects : Respects h) (inputs : List α) :
    net.simulate (h zero) (inputs.map h) = (net.simulate zero inputs).map (·.map h) := by
  unfold Network.simulate
  rw [sourceValues, respects.foldl_simulateNode, List.length_map]
  by_cases fits : inputs.length = net.inputs.length <;>
    simp [ensure, fits, bind, Except.bind, pure, Except.pure, Except.map]

end Respects

namespace Network

variable {net net' : Network} {α : Type}

/-- What the simulators rely on: the slots are in place, the bookkeeping is in line, and no gate
    reaches itself. -/
structure Simulable (net : Network) : Prop where
  inPlace : net.InPlace
  integrity : net.integrityIssue? = none
  acyclic : net.Acyclic

theorem WellFormed.simulable (valid : net.WellFormed) : net.Simulable :=
  ⟨valid.inPlace, valid.integrity, valid.acyclic⟩

/-- One value for every slot: those of the inputs as given, those of live gates computed from their
    fanins, and false in dead slots. -/
structure Assigns (net : Network) (inputs : List Bool) (values : Array Bool) : Prop where
  size : values.size = net.size
  constant : values[0]? = some false
  inputs : net.inputs.map (values[·]?) = inputs.map some
  gate : ∀ n g, net.gate? n = some g → net.isDead n = false →
    values[n]? = some (g.evalUnder fun m => values[m]?.getD false)
  dead : ∀ n, net.isDead n = true → values[n]? = some false

theorem simulate_of_length [GateValue α] (zero : α) {inputs : List α}
    (length : inputs.length = net.inputs.length) :
    net.simulate zero inputs =
      .ok (net.topoOrder.foldl (net.simulateNode zero) (net.sourceValues zero inputs)) := by
  simp [simulate, ensure, length, bind, Except.bind, pure, Except.pure]

theorem size_sourceValues (zero : α) (inputs : List α) :
    (net.sourceValues zero inputs).size = net.size := by
  refine List.foldlRecOn (net.inputs.zip inputs) _
    (motive := fun (values : Array α) => values.size = net.size) Array.size_replicate
    fun values size e _ => ?_
  exact Array.size_setIfInBounds.trans size

theorem getElem?_sourceValues (zero : α) (inputs : List α) {n : Nat} (inside : n < net.size)
    (other : n ∉ net.inputs) : (net.sourceValues zero inputs)[n]? = some zero := by
  refine List.foldlRecOn (net.inputs.zip inputs) _
    (motive := fun (values : Array α) => values[n]? = some zero) (by simp [inside])
    fun values start e member => ?_
  have apart : e.1 ≠ n := by
    rintro rfl
    exact other (List.of_mem_zip member).1
  rwa [Array.getElem?_setIfInBounds_ne apart]

theorem size_foldl_simulateNode [GateValue α] (zero : α) (order : List Nat) (values : Array α) :
    (order.foldl (net.simulateNode zero) values).size = values.size := by
  refine List.foldlRecOn order _ (motive := fun (later : Array α) => later.size = values.size) rfl
    fun later size n _ => ?_
  unfold simulateNode
  split
  · exact Array.size_setIfInBounds.trans size
  · exact size

theorem getElem?_foldl_simulateNode [GateValue α] (zero : α) {order : List Nat} {n : Nat}
    (other : n ∉ order) (values : Array α) :
    (order.foldl (net.simulateNode zero) values)[n]? = values[n]? := by
  induction order generalizing values with
  | nil => rfl
  | cons m rest ih =>
    rw [List.mem_cons, not_or] at other
    rw [List.foldl_cons, ih other.2, simulateNode]
    split
    · exact Array.getElem?_setIfInBounds_ne (Ne.symm other.1)
    · rfl

theorem not_mem_topoOrder (sound : net.Simulable) {n : Nat} (dead : net.isDead n = true) :
    n ∉ net.topoOrder := by
  have gate := sound.inPlace.gate_of_dead n dead
  obtain ⟨g, slot⟩ := Option.isSome_iff_exists.1 gate
  have other := sound.inPlace.not_source_of_gate slot
  simp only [isSource, Bool.or_eq_false_iff, beq_eq_false_iff_ne] at other
  simp only [topoOrder, List.cons_append, List.mem_cons, List.mem_append, not_or]
  refine ⟨other.1, fun input => ?_, fun listed => ?_⟩
  · rw [sound.inPlace.isInput_iff.2 input] at other
    cases other.2
  · obtain ⟨start, member, reaches⟩ := (listed_postorder net _ _).below listed
    have live : net.isDead start = false := by
      rcases List.mem_append.1 member with output | gate
      · obtain ⟨s, there, rfl⟩ := List.mem_map.1 output
        obtain ⟨o, known, rfl⟩ := List.mem_map.1 there
        exact output_live_of_integrity sound.integrity o known
      · exact (isLiveGate_eq_true.1 (mem_liveGates.1 gate)).2
    rw [reaches.live (balanced_of_integrity sound.inPlace sound.integrity) live] at dead
    cases dead

theorem Simulable.assigns (sound : net.Simulable) {inputs : List Bool}
    (length : inputs.length = net.inputs.length) :
    ∃ values, net.simulateValues inputs = .ok values ∧ net.Assigns inputs values := by
  have inPlace := sound.inPlace
  obtain ⟨value, fits, same⟩ := exists_valuation_of_inputs inPlace sound.acyclic length
  obtain ⟨values, run, right⟩ :=
    simulate_eq_ok inPlace sound.acyclic fits pointwise_id rfl
      (show inputs.map id = net.inputs.map value by rw [List.map_id, same])
  have shape := Except.ok.inj ((simulate_of_length false length).symm.trans run)
  have size : values.size = net.size := by
    rw [← shape, size_foldl_simulateNode, size_sourceValues]
  have slot (n : Nat) (inside : n < net.size) (live : net.isDead n = false) :
      values[n]? = some (value n) := by
    have here : n < values.size := size ▸ inside
    have shown := right n inside live
    rw [Array.getElem?_eq_getElem here] at shown ⊢
    exact congrArg some shown
  have source (n : Nat) (source : net.isSource n = true) : net.isDead n = false := by
    refine Bool.eq_false_iff.2 fun dead => ?_
    obtain ⟨g, gate⟩ := Option.isSome_iff_exists.1 (inPlace.gate_of_dead n dead)
    rw [inPlace.not_source_of_gate gate] at source
    cases source
  -- Live slots show the valuation; a dead slot is never written and keeps its zero.
  refine ⟨values, run, size, ?_, ?_, fun n g gate live => ?_, fun n dead => ?_⟩
  · have first : 0 < net.size := by
      have body := (inPlace.constant_iff 0).2 rfl
      refine Nat.pos_of_ne_zero fun none => ?_
      rw [body?, Array.getElem?_eq_none (Nat.le_of_eq none)] at body
      cases body
    rw [slot 0 first (source 0 rfl), fits.zero]
  · rw [← same, List.map_map]
    refine List.map_congr_left fun n member => ?_
    have input := inPlace.isInput_iff.2 member
    refine slot n ?_ (source n (by rw [isSource, input, Bool.or_true]))
    rw [inPlace.inputs_eq, List.mem_filter, List.mem_range] at member
    exact member.1
  · rw [slot n (lt_size_of_gate? gate) live, fits.gate n g gate]
    refine congrArg some (Gate.evalUnder_congr fun m member => ?_)
    have feeds := feeds_of_gate? gate member
    have alive := (listed_of_integrity sound.integrity
      (isLiveGate_eq_true.2 ⟨⟨g, gate⟩, live⟩) feeds).1
    obtain ⟨f, reads, rfl⟩ := feeds
    rw [slot f.node (inPlace.fanin_lt n f reads) alive, Option.getD_some]
  · obtain ⟨g, gate⟩ := Option.isSome_iff_exists.1 (inPlace.gate_of_dead n dead)
    have other : n ∉ net.inputs := fun input => by
      rw [source n (by rw [isSource, inPlace.isInput_iff.2 input, Bool.or_true])] at dead
      cases dead
    rw [← shape, getElem?_foldl_simulateNode false (not_mem_topoOrder sound dead),
      getElem?_sourceValues false inputs (lt_size_of_gate? gate) other]

def outputBits (net : Network) (inputs : List Bool) : Except Fault (List Bool) := do
  let values ← net.simulateValues inputs
  return net.outputSignals.map (signalValue false values)

/-- The input pattern that a number encodes: input `j` has its bit `j`. -/
def inputPattern (count m : Nat) : List Bool := (List.range count).map m.testBit

theorem inputPattern_assignment (inputs : List Bool) :
    inputPattern inputs.length (assignment inputs) = inputs := by
  refine List.ext_getElem (by simp [inputPattern]) fun i _ inside => ?_
  simp [inputPattern, testBit_assignment (List.getElem?_eq_getElem inside)]

theorem outputBits_of_simulate [GateValue α] {h : α → Bool} (respects : Respects h) {zero : α}
    (off : h zero = false) {inputs : List α} {values : Array α}
    (run : net.simulate zero inputs = .ok values) :
    net.simulateValues (inputs.map h) = .ok (values.map h) ∧
      net.outputBits (inputs.map h) =
        .ok ((net.outputSignals.map (signalValue zero values)).map h) := by
  have single : net.simulateValues (inputs.map h) = .ok (values.map h) := by
    rw [simulateValues, ← off, respects.simulate, run]
    rfl
  refine ⟨single, ?_⟩
  rw [outputBits, single, List.map_map]
  refine congrArg Except.ok (List.map_congr_left fun s _ => ?_)
  rw [← off, respects.signalValue]
  rfl

theorem exists_outputWords {inputs : List UInt64} (length : inputs.length = net.inputs.length) :
    ∃ values outputs, net.simulateWords inputs = .ok values ∧ net.outputWords inputs = .ok outputs ∧
      outputs.length = net.outputs.length ∧ ∀ k < 64,
        net.simulateValues (inputs.map (wordBit · k)) = .ok (values.map (wordBit · k)) ∧
        net.outputBits (inputs.map (wordBit · k)) = .ok (outputs.map (wordBit · k)) := by
  have run : net.simulate 0 inputs = .ok _ := simulate_of_length 0 length
  refine ⟨_, _, run, ?_, ?_, fun k inside =>
    outputBits_of_simulate (pointwise_wordBit inside).respects (wordBit_zero k) run⟩
  · rw [outputWords, simulateWords, run]
    rfl
  · simp [outputSignals]

theorem exists_outputTables (few : net.inputs.length ≤ maxTableVars) :
    ∃ (functions : Array (Table net.inputs.length)) (outputs : List (Table net.inputs.length)),
      net.simulateTables = .ok (functions.map .ofTable) ∧
      net.outputTables = .ok (outputs.map .ofTable) ∧ ∀ m < 2 ^ net.inputs.length,
        net.simulateValues (inputPattern net.inputs.length m) =
          .ok (functions.map (·.getLsbD m)) ∧
        net.outputBits (inputPattern net.inputs.length m) = .ok (outputs.map (·.getLsbD m)) := by
  obtain ⟨values, run⟩ : ∃ values,
      net.simulate 0 ((List.range net.inputs.length).map (projection net.inputs.length)) =
        .ok values := ⟨_, simulate_of_length 0 (by simp)⟩
  have packed : (List.range net.inputs.length).map (TruthTable.nthVar net.inputs.length) =
      ((List.range net.inputs.length).map (projection net.inputs.length)).map .ofTable := by
    rw [List.map_map]
    refine List.map_congr_left fun v known => ?_
    exact (TruthTable.ofTable_projection (List.mem_range.1 known)).symm
  have tables : net.simulateTables = .ok (values.map .ofTable) := by
    rw [simulateTables, ← TruthTable.ofTable_zero, packed, (respects_ofTable _).simulate, run]
    simp [ensure, few, bind, Except.bind, Except.map]
  refine ⟨values, net.outputSignals.map (signalValue 0 values), tables, ?_, fun m inside => ?_⟩
  · rw [outputTables, tables, List.map_map]
    refine congrArg Except.ok (List.map_congr_left fun s _ => ?_)
    rw [← TruthTable.ofTable_zero, (respects_ofTable _).signalValue]
    rfl
  · have bound : m < tableWidth net.inputs.length := tableWidth_eq _ ▸ inside
    have pattern : inputPattern net.inputs.length m =
        ((List.range net.inputs.length).map (projection net.inputs.length)).map
          (·.getLsbD m) := by
      rw [List.map_map]
      refine List.map_congr_left fun v known => ?_
      exact (getLsbD_projection (List.mem_range.1 known) bound).symm
    rw [pattern]
    exact outputBits_of_simulate (pointwise_getLsbD bound).respects (by simp) run

section

variable {σ : Type} {draw : Nat → σ → List UInt64 × σ}

/-- The input words of so many batches, and the state after their draws. -/
def batches (draw : Nat → σ → List UInt64 × σ) (count : Nat) :
    (rounds : Nat) → σ → List (List UInt64) × σ
  | 0, state => ([], state)
  | rounds + 1, state =>
    let (first, state) := draw count state
    let (rest, state) := batches draw count rounds state
    (first :: rest, state)

theorem exists_signatureRounds (full : ∀ state, (draw net.inputs.length state).1.length =
    net.inputs.length) (rounds : Nat) (state : σ) :
    ∃ answers, net.signatureRounds draw rounds state =
        .ok (answers, (batches draw net.inputs.length rounds state).2) ∧
      answers.length = rounds ∧
      List.Forall₂ (fun inputs outputs => inputs.length = net.inputs.length ∧
          net.outputWords inputs = .ok outputs)
        (batches draw net.inputs.length rounds state).1 answers := by
  induction rounds generalizing state with
  | zero => exact ⟨[], rfl, rfl, .nil⟩
  | succ rounds ih =>
    obtain ⟨-, outputs, -, run, -⟩ := exists_outputWords (full state)
    obtain ⟨answers, later, length, rest⟩ := ih (draw net.inputs.length state).2
    refine ⟨outputs :: answers, ?_, congrArg (· + 1) length, .cons ⟨full state, run⟩ rest⟩
    simp only [signatureRounds, run, later, bind, Except.bind, pure, Except.pure]
    rfl

theorem exists_outputSignatures {rounds : Nat} (few : rounds < roundLimit)
    (full : ∀ state, (draw net.inputs.length state).1.length = net.inputs.length) (state : σ) :
    ∃ signatures, net.outputSignatures draw rounds state =
        .ok (signatures, (batches draw net.inputs.length rounds state).2) ∧
      signatures.length = net.outputs.length ∧ (∀ words ∈ signatures, words.length = rounds) ∧
      ∀ (r : Nat) (inputs : List UInt64),
        (batches draw net.inputs.length rounds state).1[r]? = some inputs → ∀ k < 64,
        net.outputBits (inputs.map (wordBit · k)) =
          .ok (signatures.map fun words => wordBit (words[r]?.getD 0) k) := by
  obtain ⟨answers, run, length, answered⟩ := exists_signatureRounds full rounds state
  refine ⟨(List.range net.outputs.length).map fun i => answers.map fun words => words[i]?.getD 0,
    ?_, by simp, ?_, fun r inputs drawn k inside => ?_⟩
  · simp [outputSignatures, ensure, few, run, bind, Except.bind, pure, Except.pure]
  · intro words member
    obtain ⟨i, -, rfl⟩ := List.mem_map.1 member
    rw [List.length_map, length]
  · obtain ⟨within, rfl⟩ := List.getElem?_eq_some_iff.1 drawn
    have there : r < answers.length := answered.length_eq ▸ within
    obtain ⟨size, batch⟩ := (List.forall₂_iff_get.1 answered).2 r within there
    simp only [List.get_eq_getElem] at size batch
    obtain ⟨_, outputs, -, words, number, bits⟩ := exists_outputWords size
    obtain rfl := Except.ok.inj (words.symm.trans batch)
    rw [(bits k inside).2, ← number, List.map_map]
    refine congrArg Except.ok (List.ext_getElem (by simp) fun i inside _ => ?_)
    simp at inside
    simp [inside, there]

end

/-- Two networks whose outputs agree on every input pattern. -/
def SameOutputs (net net' : Network) : Prop :=
  ∀ inputs, inputs.length = net.inputs.length → net.outputBits inputs = net'.outputBits inputs

theorem outputWords_congr (count : net'.inputs.length = net.inputs.length)
    (same : net.SameOutputs net') (inputs : List UInt64) :
    net.outputWords inputs = net'.outputWords inputs := by
  by_cases length : inputs.length = net.inputs.length
  · obtain ⟨_, outputs, -, run, -, bits⟩ := exists_outputWords length
    obtain ⟨_, outputs', -, run', -, bits'⟩ := exists_outputWords (length.trans count.symm)
    have equal (k : Nat) (inside : k < 64) :
        outputs.map (wordBit · k) = outputs'.map (wordBit · k) := by
      have agree := same (inputs.map (wordBit · k)) (by rw [List.length_map, length])
      rwa [(bits k inside).2, (bits' k inside).2, Except.ok.injEq] at agree
    have words : outputs = outputs' := by
      have number : outputs.length = outputs'.length := by
        simpa using congrArg List.length (equal 0 (by decide))
      refine List.ext_getElem number fun i here here' => eq_of_wordBit fun k inside => ?_
      simpa [here, here'] using congrArg (·[i]?) (equal k inside)
    rw [run, run', words]
  · simp [outputWords, simulateWords, simulate, ensure, length, count, bind, Except.bind]

/-- Simulation on single patterns fits every slot; words and tables are simulated bit by bit; outputs
    and signatures are the output nodes' values with the outputs' polarity. -/
structure SimulatorsAgree (net : Network) : Prop where
  values : ∀ inputs : List Bool, inputs.length = net.inputs.length →
    ∃ values, net.simulateValues inputs = .ok values ∧ net.Assigns inputs values
  words : ∀ inputs : List UInt64, inputs.length = net.inputs.length →
    ∃ values, net.simulateWords inputs = .ok values ∧ ∀ k < 64,
      net.simulateValues (inputs.map (wordBit · k)) = .ok (values.map (wordBit · k))
  tables : net.inputs.length ≤ maxTableVars →
    ∃ tables, net.simulateTables = .ok tables ∧
      (∀ t ∈ tables, t.Packed ∧ t.numVars = net.inputs.length) ∧ ∀ m < 2 ^ net.inputs.length,
        net.simulateValues (inputPattern net.inputs.length m) = .ok (tables.map (·.bit m))
  outputTables : net.inputs.length ≤ maxTableVars →
    ∃ tables, net.outputTables = .ok tables ∧
      (∀ t ∈ tables, t.Packed ∧ t.numVars = net.inputs.length) ∧ ∀ m < 2 ^ net.inputs.length,
        net.outputBits (inputPattern net.inputs.length m) = .ok (tables.map (·.bit m))
  signatures : ∀ {σ : Type} (draw : Nat → σ → List UInt64 × σ) (rounds : Nat) (state : σ),
    rounds < roundLimit →
    (∀ state, (draw net.inputs.length state).1.length = net.inputs.length) →
    ∃ signatures, net.outputSignatures draw rounds state =
        .ok (signatures, (batches draw net.inputs.length rounds state).2) ∧
      signatures.length = net.outputs.length ∧ (∀ words ∈ signatures, words.length = rounds) ∧
      ∀ (r : Nat) (inputs : List UInt64),
        (batches draw net.inputs.length rounds state).1[r]? = some inputs → ∀ k < 64,
        net.outputBits (inputs.map (wordBit · k)) =
          .ok (signatures.map fun words => wordBit (words[r]?.getD 0) k)

theorem Simulable.agree (sound : net.Simulable) : net.SimulatorsAgree where
  values := fun _ length => sound.assigns length
  words := fun _ length => by
    obtain ⟨values, _, run, -, -, bits⟩ := exists_outputWords length
    exact ⟨values, run, fun k inside => (bits k inside).1⟩
  tables := fun few => by
    obtain ⟨functions, _, run, -, bits⟩ := exists_outputTables few
    refine ⟨_, run, fun t member => ?_, fun m inside => ?_⟩
    · obtain ⟨f, -, rfl⟩ := Array.mem_map.1 member
      exact ⟨TruthTable.packed_ofTable f, rfl⟩
    · rw [(bits m inside).1, Array.map_map]
      simp only [Function.comp_def, TruthTable.bit_ofTable]
  outputTables := fun few => by
    obtain ⟨_, outputs, -, run, bits⟩ := exists_outputTables few
    refine ⟨_, run, fun t member => ?_, fun m inside => ?_⟩
    · obtain ⟨f, -, rfl⟩ := List.mem_map.1 member
      exact ⟨TruthTable.packed_ofTable f, rfl⟩
    · rw [(bits m inside).2, List.map_map]
      simp only [Function.comp_def, TruthTable.bit_ofTable]
  signatures := fun _ _ state few full => exists_outputSignatures few full state

theorem outputSignatures_congr (inputs : net'.inputs.length = net.inputs.length)
    (outputs : net'.outputs.length = net.outputs.length) (same : net.SameOutputs net')
    {σ : Type} (draw : Nat → σ → List UInt64 × σ) (rounds : Nat) (state : σ) :
    net.outputSignatures draw rounds state = net'.outputSignatures draw rounds state := by
  have batches (rounds : Nat) (state : σ) :
      net.signatureRounds draw rounds state = net'.signatureRounds draw rounds state := by
    induction rounds generalizing state with
    | zero => rfl
    | succ rounds ih =>
      simp only [signatureRounds, inputs, outputWords_congr inputs same, ih]
  rw [outputSignatures, outputSignatures, batches, outputs]

theorem SimulatorsAgree.outputTables_eq_iff (agree : net.SimulatorsAgree)
    (agree' : net'.SimulatorsAgree) (inputs : net'.inputs.length = net.inputs.length)
    (few : net.inputs.length ≤ maxTableVars) :
    net.outputTables = net'.outputTables ↔ net.SameOutputs net' := by
  obtain ⟨tables, run, shape, bits⟩ := agree.outputTables few
  obtain ⟨tables', run', shape', bits'⟩ := agree'.outputTables (inputs ▸ few)
  rw [inputs] at shape' bits'
  rw [run, run', Except.ok.injEq]
  constructor
  · rintro rfl pattern length
    have inside : assignment pattern < 2 ^ net.inputs.length := by
      rw [← length, ← tableWidth_eq]
      exact assignment_lt pattern
    have encoded := inputPattern_assignment pattern
    rw [length] at encoded
    rw [← encoded, bits _ inside, bits' _ inside]
  · intro same
    have equal (m : Nat) (inside : m < 2 ^ net.inputs.length) :
        tables.map (·.bit m) = tables'.map (·.bit m) := by
      have outputs := same (inputPattern net.inputs.length m) (by simp [inputPattern])
      rwa [bits m inside, bits' m inside, Except.ok.injEq] at outputs
    have number : tables.length = tables'.length := by
      simpa using congrArg List.length (equal 0 (Nat.two_pow_pos _))
    refine List.ext_getElem number fun i here here' => ?_
    obtain ⟨packed, vars⟩ := shape _ (List.getElem_mem here)
    obtain ⟨packed', vars'⟩ := shape' _ (List.getElem_mem here')
    refine packed.eq packed' (vars.trans vars'.symm) fun m inside => ?_
    simpa [here, here'] using congrArg (·[i]?) (equal m (vars ▸ inside))

/-- The simulators agree on every network. Networks with the same numbers of inputs and outputs have
    equal output tables exactly if their outputs agree on every pattern, and then their signatures
    are equal. -/
theorem simulators_agree {net : Network} (sound : net.Simulable) :
    net.SimulatorsAgree ∧ ∀ net' : Network, net'.Simulable →
      net'.inputs.length = net.inputs.length → net'.outputs.length = net.outputs.length →
      (net.inputs.length ≤ maxTableVars →
        (net.outputTables = net'.outputTables ↔ net.SameOutputs net')) ∧
      (net.SameOutputs net' → ∀ {σ : Type} (draw : Nat → σ → List UInt64 × σ) (rounds : Nat)
        (state : σ),
        net.outputSignatures draw rounds state = net'.outputSignatures draw rounds state) :=
  ⟨sound.agree, fun _ sound' inputs outputs =>
    ⟨sound.agree.outputTables_eq_iff sound'.agree inputs,
      fun same _ => outputSignatures_congr inputs outputs same⟩⟩

end Network

open Network

/-- A gate that was rewired reads a later slot, and a network built with the new gate at once has
    the same output table. -/
theorem simulators_agree_of_rewired : ∃ stages net stages' net',
    Completed (empty "rewired")
      (Command.load 3 [(.and2, [2, 4]), (.and2, [8, 6])] [10] ++
        [.createGate .xor2 [.ofLiteral 2, .ofLiteral 4], .substitute 4 (.ofLiteral 12)])
      stages net ∧
    Completed (empty "direct") (Command.load 3 [(.xor2, [2, 4]), (.and2, [8, 6])] [10]) stages' net' ∧
    net.Simulable ∧ net'.Simulable ∧ net.Feeds 6 5 ∧ net.SimulatorsAgree ∧ net.SameOutputs net' ∧
    ∀ (rounds : Nat) (g : Xoshiro),
      net.outputSignatures Xoshiro.words rounds g = net'.outputSignatures Xoshiro.words rounds g := by
  obtain ⟨stages, net, history, checks⟩ := Command.exists_completed
    (Command.load 3 [(.and2, [2, 4]), (.and2, [8, 6])] [10] ++
      [.createGate .xor2 [.ofLiteral 2, .ofLiteral 4], .substitute 4 (.ofLiteral 12)])
    (empty "rewired")
    (fun _ net => decide net.Acyclic && decide (net.inputs.length = 3 ∧ net.outputs.length = 1) &&
      net.outputTables.toOption == some [⟨3, [0x60]⟩] && (net.fanins 5).any (·.node == 6))
    (by decide +kernel)
  obtain ⟨stages', net', history', checks'⟩ := Command.exists_completed
    (Command.load 3 [(.xor2, [2, 4]), (.and2, [8, 6])] [10]) (empty "direct")
    (fun _ net => decide net.Acyclic && decide (net.inputs.length = 3 ∧ net.outputs.length = 1) &&
      net.outputTables.toOption == some [⟨3, [0x60]⟩])
    (by decide +kernel)
  have answer {result : Except Fault (List TruthTable)}
      (right : (result.toOption == some [⟨3, [0x60]⟩]) = true) : result = .ok [⟨3, [0x60]⟩] := by
    cases result with
    | error => cases right
    | ok tables => exact congrArg Except.ok (Option.some.inj (beq_iff_eq.1 right))
  simp only [Bool.and_eq_true, decide_eq_true_eq] at checks checks'
  obtain ⟨⟨⟨acyclic, inputs, outputs⟩, tables⟩, reads⟩ := checks
  obtain ⟨⟨acyclic', inputs', outputs'⟩, tables'⟩ := checks'
  have sound := (history.wellFormed acyclic).simulable
  have sound' := (history'.wellFormed acyclic').simulable
  obtain ⟨agree, others⟩ := simulators_agree sound
  obtain ⟨decided, signatures⟩ := others net' sound' (by rw [inputs, inputs'])
    (by rw [outputs, outputs'])
  have same := (decided (by rw [inputs]; decide)).1 (by rw [answer tables, answer tables'])
  refine ⟨stages, net, stages', net', history, history', sound, sound', ?_, agree, same,
    signatures same Xoshiro.words⟩
  obtain ⟨f, member, six⟩ := List.any_eq_true.1 reads
  exact ⟨f, member, beq_iff_eq.1 six⟩

end LogicOpt
