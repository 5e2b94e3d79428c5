import LogicOpt.Proofs.Valuations

namespace LogicOpt

namespace Network

/-- No live gate reaches itself along fanins. -/
def LiveAcyclic (net : Network) : Prop :=
  WellFounded fun m n => net.isLiveGate n = true ∧ net.Feeds m n

/-- `value` fits the live gates, and its inputs are as `input` says. -/
structure LiveValuation (net : Network) (input value : Nat → Bool) : Prop where
  constant : value 0 = false
  input : ∀ n, net.isInput n = true → value n = input n
  gate : ∀ n g, net.gate? n = some g → net.isDead n = false → value n = g.evalUnder value

variable {net : Network} {input value value' : Nat → Bool}

theorem Acyclic.live (acyclic : net.Acyclic) : net.LiveAcyclic :=
  acyclic.mono fun _ _ => And.right

theorem Valuation.live (valuation : net.Valuation input value) : net.LiveValuation input value :=
  ⟨valuation.constant, valuation.input, fun n g slot _ => valuation.gate n g slot⟩

theorem LiveValuation.unique (acyclic : net.LiveAcyclic) (consistent : net.Consistent)
    (left : net.LiveValuation input value) (right : net.LiveValuation input value') (n : Nat) :
    n < net.size → net.isDead n = false → value n = value' n := by
  -- Along the fanins of live gates, which are live as well.
  induction n using acyclic.induction with
  | _ n ih =>
    intro inside awake
    cases source : net.isSource n with
    | true =>
      rcases (by simpa [isSource] using source : n = 0 ∨ net.isInput n = true) with rfl | here
      · rw [left.constant, right.constant]
      · rw [left.input n here, right.input n here]
    | false =>
      obtain ⟨g, slot⟩ := consistent.inPlace.gate_of_not_source inside source
      have live : net.isLiveGate n = true := isLiveGate_eq_true.2 ⟨⟨g, slot⟩, awake⟩
      rw [left.gate n g slot awake, right.gate n g slot awake]
      refine Gate.evalUnder_congr fun m member => ?_
      have feeds := feeds_of_gate? slot member
      exact ih m ⟨live, feeds⟩ (consistent.toTallied.lt_of_feeds feeds)
        (consistent.fanins_live n m live feeds)

theorem LiveValuation.outputValues_eq (acyclic : net.LiveAcyclic) (consistent : net.Consistent)
    (left : net.LiveValuation input value) (right : net.LiveValuation input value') :
    net.outputValues value = net.outputValues value' :=
  List.map_congr_left fun o member => by
    rw [signalUnder_congr (left.unique acyclic consistent right o.signal.node
      (consistent.inPlace.output_lt o member) (consistent.outputs_live o member))]

theorem valuation_iff :
    net.Valuation input value ↔ value 0 = false ∧ ∀ n < net.size,
      (net.isInput n = true → value n = input n) ∧
        ∀ g ∈ net.gate? n, value n = g.evalUnder value := by
  constructor
  · intro valuation
    exact ⟨valuation.constant, fun n _ => ⟨valuation.input n, valuation.gate n⟩⟩
  · rintro ⟨constant, slots⟩
    refine ⟨constant, fun n here => ?_, fun n g slot => ?_⟩
    · exact (slots n (lt_size_of_isInput here)).1 here
    · exact (slots n (lt_size_of_gate? slot)).2 g slot

instance : Decidable (net.Valuation input value) := decidable_of_iff _ valuation_iff.symm

end Network

end LogicOpt
