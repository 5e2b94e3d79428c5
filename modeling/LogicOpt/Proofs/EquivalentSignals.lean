import LogicOpt.Proofs.Histories
import LogicOpt.Proofs.LiveValuations

/-!
Substituting an equivalent signal. Every valuation goes over into one of the network that is left, so
a function can only be lost where the inputs no longer determine the values: when a dead target was
exchanged for its live twin, and live gates read one another in a circle since.
-/

namespace LogicOpt

open Network

variable {net net' : Network}

/-- With an equivalent signal in place of a node, every valuation goes over with all its values, those
    of the outputs included. As long as no live gate reaches itself, and none does if no dead target
    was exchanged for a twin, the inputs determine the outputs and all live gates to be as before. -/
theorem substituteNode_invisible {old : Nat} {new : Signal} (valid : net.WellFormed)
    (apart : ¬net.Reaches new.node old)
    (equivalent : ∀ input value, net.Valuation input value → value old = signalUnder value new)
    (run : Edit.Gives (Edit.substituteNode old new) net () net') :
    (∀ input value, net.Valuation input value → ∃ value', net'.Valuation input value' ∧
      net'.outputValues value' = net.outputValues value ∧ ∀ n < net.size, value' n = value n) ∧
    ((∀ e ∈ Edit.substitutionEncounters old new net, e.takesTwin = false) → net'.LiveAcyclic) ∧
    (net'.LiveAcyclic → ∀ input value value', net.Valuation input value →
      net'.LiveValuation input value' →
        net'.outputValues value' = net.outputValues value ∧
        ∀ n, net.isLiveGate n = true → net'.isLiveGate n = true → value' n = value n) := by
  obtain ⟨consistent, acyclic⟩ := wellFormed_iff.1 valid
  have after := (Edit.substituteNode_consistent consistent run).1
  have differ : old ≠ new.node := fun same => apart (same ▸ .refl _)
  obtain ⟨left, right⟩ := Edit.substituteNode_inside consistent differ run
  have carried (input value : Nat → Bool) (valuation : net.Valuation input value) :
      ∃ value', net'.Valuation input value' ∧ net'.outputValues value' = net.outputValues value ∧
        ∀ n < net.size, value' n = value n := by
    obtain ⟨value', refined⟩ := Edit.substituteNode_refined consistent valuation.fits left right
      (equivalent input value valuation) run
    exact ⟨value', refined.valuation consistent.inPlace after.inPlace valuation, refined.outputs,
      refined.kept⟩
  refine ⟨carried, fun twinless => ?_, fun live input value value' valuation valuation' => ?_⟩
  · exact (Edit.substituteNode_acyclic consistent acyclic apart twinless run).live
  · obtain ⟨later, extended, outputs, kept⟩ := carried input value valuation
    refine ⟨?_, fun n before now => ?_⟩
    · rw [valuation'.outputValues_eq live after extended.live, outputs]
    · rw [valuation'.unique live after extended.live n (lt_of_isLiveGate now)
        (isLiveGate_eq_true.1 now).2, kept n (lt_of_isLiveGate before)]

/-- A conjunction gives way to `(a | b) & !(a ^ b)`. -/
theorem invisible_of_conjunction : ∃ stages net net',
    Completed (empty "conjunction") (Command.load 3
      [(.and2, [2, 4]), (.xor2, [8, 6]), (.and2, [3, 5]), (.xor2, [2, 4]), (.and2, [13, 15])]
      [10]) stages net ∧
    net.WellFormed ∧ ¬net.Reaches 8 4 ∧
    (∀ input value, net.Valuation input value → value 4 = value 8) ∧
    Edit.Gives (Edit.substituteNode 4 ⟨8, false⟩) net () net' ∧ net'.isDead 4 = true ∧
    ∀ input value value', net.Valuation input value → net'.LiveValuation input value' →
      net'.outputValues value' = net.outputValues value := by
  obtain ⟨stages, net, history, checks⟩ := Command.exists_completed (Command.load 3
      [(.and2, [2, 4]), (.xor2, [8, 6]), (.and2, [3, 5]), (.xor2, [2, 4]), (.and2, [13, 15])]
      [10]) (empty "conjunction")
    (fun _ net => decide net.Acyclic && decide ¬net.Reaches 8 4 &&
      net.gate? 4 == some (.and2 ⟨1, false⟩ ⟨2, false⟩) &&
      net.gate? 6 == some (.and2 ⟨1, true⟩ ⟨2, true⟩) &&
      net.gate? 7 == some (.xor2 ⟨1, false⟩ ⟨2, false⟩) &&
      net.gate? 8 == some (.and2 ⟨6, true⟩ ⟨7, true⟩) &&
      (Edit.substitutionEncounters 4 ⟨8, false⟩ net).all (!·.takesTwin) &&
      Edit.yields (Edit.substituteNode 4 ⟨8, false⟩) (fun _ net' => net'.isDead 4) net)
    (by decide +kernel)
  simp only [Bool.and_eq_true, decide_eq_true_eq, beq_iff_eq, List.all_eq_true,
    Bool.not_eq_true'] at checks
  obtain ⟨⟨⟨⟨⟨⟨⟨acyclic, apart⟩, old⟩, neither⟩, differ⟩, new⟩, twinless⟩, yielded⟩ := checks
  obtain ⟨_, net', run, dead⟩ := Edit.exists_gives yielded
  have valid := history.wellFormed acyclic
  have equivalent (input value : Nat → Bool) (valuation : net.Valuation input value) :
      value 4 = value 8 := by
    rw [valuation.gate 4 _ old, valuation.gate 8 _ new]
    simp only [Gate.evalUnder, Gate.map, Gate.eval, valuation.gate 6 _ neither,
      valuation.gate 7 _ differ]
    cases value 1 <;> cases value 2 <;> rfl
  obtain ⟨-, live, invisible⟩ := substituteNode_invisible valid apart
    (fun input value valuation =>
      (equivalent input value valuation).trans (Bool.xor_false _).symm) run
  exact ⟨stages, net, net', history, valid, apart, equivalent, run, dead,
    fun input value value' before after =>
      (invisible (live twinless) input value value' before after).1⟩

/-- Five inputs, twenty-three gates and two substitutions. Gate 7 conjoins an input with a conjunction
    of its complement, so it is constant. -/
def latch : List Command :=
  Command.load 5
    [(.and2, [3, 6]), (.and2, [2, 12]), (.maj3, [10, 1, 2]), (.maj3, [15, 0, 2]),
     (.maj3, [8, 3, 4]), (.maj3, [8, 3, 6]), (.and2, [22, 6]), (.and2, [24, 6]), (.and2, [26, 4]),
     (.maj3, [28, 16, 3]), (.maj3, [14, 0, 30]), (.maj3, [28, 16, 19]), (.and2, [34, 20]),
     (.and2, [34, 4]), (.maj3, [6, 37, 38]), (.and2, [40, 4]), (.maj3, [42, 16, 3]),
     (.and2, [44, 2]), (.maj3, [16, 3, 46]), (.maj3, [10, 0, 48]), (.maj3, [10, 1, 4]),
     (.and2, [40, 52]), (.maj3, [16, 2, 54])]
    [38, 32, 50, 56] ++
  [.substitute 4 (.ofLiteral 16), .substitute 5 (.ofLiteral 14)]

/-- The constant takes the place of gate 7, and gates 19, 20 and 27 come to hold either value in a
    circle, so the first output is no longer determined. -/
theorem latched_of_constant : ∃ stages net net' value value',
    Completed (empty "latch") latch stages net ∧ net.WellFormed ∧ net.isLiveGate 7 = true ∧
    ¬net.Reaches 0 7 ∧
    (∀ input value, net.Valuation input value → value 7 = false) ∧
    Edit.Gives (Edit.substituteNode 7 (.constant false)) net () net' ∧
    net.Valuation (· == 2) value ∧ net'.Valuation (· == 2) value' ∧
    net'.outputValues value' ≠ net.outputValues value := by
  obtain ⟨stages, net, history, checks⟩ := Command.exists_completed latch (empty "latch")
    (fun _ net => decide net.Acyclic && net.isLiveGate 7 && decide ¬net.Reaches 0 7 &&
      net.gate? 6 == some (.and2 ⟨1, true⟩ ⟨3, false⟩) &&
      net.gate? 7 == some (.and2 ⟨1, false⟩ ⟨6, false⟩) &&
      decide (net.Valuation (· == 2) ([2, 10, 26].contains ·)) &&
      Edit.yields (Edit.substituteNode 7 (.constant false)) (fun _ net' =>
        decide (net'.Valuation (· == 2) ([2, 10, 19, 20, 26, 27].contains ·)) &&
        net'.outputValues ([2, 10, 19, 20, 26, 27].contains ·) !=
          net.outputValues ([2, 10, 26].contains ·)) net)
    (by decide +kernel)
  simp only [Bool.and_eq_true, decide_eq_true_eq, beq_iff_eq] at checks
  obtain ⟨⟨⟨⟨⟨⟨acyclic, live⟩, apart⟩, part⟩, old⟩, before⟩, yielded⟩ := checks
  obtain ⟨_, net', run, outcome⟩ := Edit.exists_gives yielded
  simp only [Bool.and_eq_true, decide_eq_true_eq, bne_iff_ne] at outcome
  refine ⟨stages, net, net', _, _, history, history.wellFormed acyclic, live, apart,
    fun input value valuation => ?_, run, before, outcome.1, outcome.2⟩
  rw [valuation.gate 7 _ old]
  simp only [Gate.evalUnder, Gate.map, Gate.eval, valuation.gate 6 _ part]
  cases value 1 <;> cases value 3 <;> rfl

end LogicOpt
