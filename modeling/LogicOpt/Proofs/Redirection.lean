import LogicOpt.Proofs.EquivalentSignals
import LogicOpt.Proofs.Uniqueness

/-!
Substituting an arbitrary signal. What the outputs should compute is read off the network before, with
every reference to the node turned into one to the signal. The values of that network fit all gates
but the node's own, and go over into values of the network that is left as long as no replacement
aims at the node again.
-/

namespace LogicOpt

open Network

namespace Network

def redirectBody (old : Nat) (new : Signal) : NodeBody → NodeBody
  | .gate g => .gate (g.redirect old new)
  | body => body

/-- The network whose gates and outputs read `new` wherever they read `old`. -/
def redirected (net : Network) (old : Nat) (new : Signal) : Network :=
  { net with
    nodes := net.nodes.map fun node => { node with body := redirectBody old new node.body }
    outputs := net.outputs.map (redirectOutput old new) }

variable {net net' : Network} {input value : Nat → Bool} {old : Nat} {new : Signal}

theorem body?_redirected (n : Nat) :
    (net.redirected old new).body? n = (net.body? n).map (redirectBody old new) := by
  simp only [body?, redirected, Array.getElem?_map, Option.map_map]
  rfl

theorem gate?_redirected (n : Nat) :
    (net.redirected old new).gate? n = (net.gate? n).map (·.redirect old new) := by
  rw [gate?_eq_body?, gate?_eq_body?, body?_redirected]
  rcases net.body? n with _ | _ | _ | _ <;> rfl

theorem isInput_redirected (n : Nat) : (net.redirected old new).isInput n = net.isInput n := by
  rw [isInput_eq_body?, isInput_eq_body?, body?_redirected]
  rcases net.body? n with _ | _ | _ | _ <;> rfl

theorem Acyclic.redirected (acyclic : net.Acyclic) (apart : ¬net.Reaches new.node old) :
    (net.redirected old new).Acyclic := by
  obtain ⟨rank, ranks⟩ := exists_ranks acyclic
  rw [reaches_iff] at apart
  obtain ⟨raised, above⟩ := ranks.insert apart
  refine acyclic_of_ranks raised fun n m feeds => ?_
  obtain ⟨h, slot, member⟩ := feeds_iff.1 feeds
  rw [gate?_redirected] at slot
  obtain ⟨g, there, rfl⟩ := Option.map_eq_some_iff.1 slot
  rw [Gate.nodes_redirect] at member
  obtain ⟨k, source, rfl⟩ := List.mem_map.1 member
  have below := above n k (.inl (feeds_of_gate? there source))
  split
  · rename_i here
    have lower := above old new.node (.inr ⟨rfl, rfl⟩)
    rw [← here] at lower
    omega
  · exact below

/-- The values with that of `old` exchanged for that of `new`. -/
def exchanged (value : Nat → Bool) (old : Nat) (new : Signal) (n : Nat) : Bool :=
  if n = old then signalUnder value new else value n

theorem exchanged_of_ne {n : Nat} (other : n ≠ old) : exchanged value old new n = value n :=
  if_neg other

theorem exchanged_old (differ : old ≠ new.node) :
    exchanged value old new old = signalUnder (exchanged value old new) new := by
  rw [signalUnder_congr (exchanged_of_ne differ.symm)]
  exact if_pos rfl

theorem exchanged_of_agree {n : Nat} (bound : ¬(n = old ∧ value old ≠ signalUnder value new)) :
    exchanged value old new n = value n := by
  by_cases here : n = old
  · subst here
    exact (if_pos rfl).trans (not_not.1 fun other => bound ⟨rfl, other⟩).symm
  · exact exchanged_of_ne here

theorem Valuation.exchanged (valuation : (net.redirected old new).Valuation input value)
    (differ : old ≠ new.node) (first : old ≠ 0) :
    net.FitsOff (fun n => n = old ∧ value old ≠ signalUnder value new)
      (exchanged value old new) where
  zero := by rw [exchanged_of_ne first.symm, valuation.constant]
  gate := fun n g slot bound => by
    have others : ∀ m ∈ (g.redirect old new).nodes,
        value m = Network.exchanged value old new m := by
      intro m member
      rw [Gate.nodes_redirect] at member
      obtain ⟨k, -, rfl⟩ := List.mem_map.1 member
      split
      · exact (exchanged_of_ne differ.symm).symm
      · rename_i other
        exact (exchanged_of_ne other).symm
    calc Network.exchanged value old new n
        = value n := exchanged_of_agree bound
      _ = (g.redirect old new).evalUnder value :=
        valuation.gate n _ (by rw [gate?_redirected, slot]; rfl)
      _ = (g.redirect old new).evalUnder (Network.exchanged value old new) :=
        Gate.evalUnder_congr others
      _ = g.evalUnder (Network.exchanged value old new) :=
        Gate.evalUnder_redirect (exchanged_old differ) g

theorem outputValues_exchanged :
    net.outputValues (exchanged value old new) =
      (net.redirected old new).outputValues value := by
  simp only [outputValues, redirected, List.map_map]
  refine List.map_congr_left fun o _ => ?_
  simp only [Function.comp, redirectOutput]
  split
  · rename_i here
    rw [signalUnder_negateIf, signalUnder, here, exchanged, if_pos rfl]
  · rename_i other
    rw [signalUnder_congr (exchanged_of_ne other)]

end Network

variable {net net' : Network} {old : Nat} {new : Signal}

/-- As long as no target has died, the node that was replaced is dead in the end. -/
theorem Edit.substituteNode_settled (consistent : net.Consistent) (acyclic : net.Acyclic)
    (apart : ¬net.Reaches new.node old)
    (calm : ∀ e ∈ substitutionEncounters old new net, e.dead = false)
    (live : net.isLiveGate old = true) (run : Gives (substituteNode old new) net () net') :
    net'.isDead old = true := by
  have differ : old ≠ new.node := fun same => apart (same ▸ .refl _)
  have inside := substituteNode_inside consistent differ run
  have gate : net'.isGate old = true := by
    have after := substituteNode_consistent consistent run
    have inputs := (substituteNode_frame consistent run).inputs
    obtain ⟨⟨g, slot⟩, -⟩ := isLiveGate_eq_true.1 live
    have source := consistent.inPlace.not_source_of_gate slot
    have plain : net'.isSource old = false := by
      rw [← source, isSource, isSource, consistent.inPlace.isInput_eq after.1.inPlace inputs]
    obtain ⟨h, there⟩ := after.1.inPlace.gate_of_not_source (by omega) plain
    exact Option.isSome_iff_exists.2 ⟨h, there⟩
  simp only [substituteNode, gives_bind, gives_get] at run
  obtain ⟨_, _, ⟨rfl, rfl⟩, run⟩ := run
  obtain ⟨r, empty, settling, handled⟩ := replaceAll_invariant (fun e => e.dead = false)
    (fun r current => Settling old current r ∧ r.handles old = true)
    (by
      rintro r q target rest net net' r' queue ⟨settling, handled⟩ plain replaced
      exact ⟨settling.replace queue plain replaced,
        replaced.handles settling.consistent handled⟩)
    ⟨⟨consistent, ⟨_, schedule_start acyclic apart inside⟩, .start old new⟩,
      by simp [Replacements.handles, Replacements.start]⟩ calm run
  -- With the queue empty, nothing that was ever handled is live.
  have gone := settling.not_live empty old
  simpa [isLiveGate, gate, handled] using gone

theorem Edit.substituteNode_carries {input value : Nat → Bool} (consistent : net.Consistent)
    (live : net.isLiveGate old = true) (differ : old ≠ new.node)
    (run : Gives (substituteNode old new) net () net')
    (valuation : (net.redirected old new).Valuation input value)
    (settled : value old = signalUnder value new ∨
      net'.isDead old = true ∧ old ∉ substitutionAims old new net) :
    ∃ value', net'.LiveValuation input value' ∧
      net'.outputValues value' = (net.redirected old new).outputValues value := by
  obtain ⟨⟨g, slot⟩, -⟩ := isLiveGate_eq_true.1 live
  have source := consistent.inPlace.not_source_of_gate slot
  obtain ⟨first, plain⟩ : old ≠ 0 ∧ net.isInput old = false := by simpa [isSource] using source
  obtain ⟨left, right⟩ := substituteNode_inside consistent differ run
  obtain ⟨value', fits, extended⟩ := substituteNode_extended consistent
    (valuation.exchanged differ first) (fun n loose => loose.1) left right (exchanged_old differ)
    (fun n member bound => (settled.resolve_left bound.2).2 (bound.1 ▸ member)) run
  have after := (substituteNode_consistent consistent run).1
  refine ⟨value', ⟨fits.zero, ?_, fun n h there awake => fits.gate n h there ?_⟩,
    extended.outputs.trans outputValues_exchanged⟩
  · refine extended.input consistent.inPlace after.inPlace fun n here => ?_
    have other : n ≠ old := fun same => by
      rw [same, plain] at here
      cases here
    rw [exchanged_of_ne other, valuation.input n (by rwa [isInput_redirected])]
  · rintro ⟨rfl, apart⟩
    rw [(settled.resolve_left apart).1] at awake
    cases awake

/-- The redirected network has a valuation for all values of the inputs. A node that is dead after its
    substitution is read by nothing that is live, and it is dead if no target had died. The outputs
    then compute what they do in the redirected network, as far as the inputs determine them, unless
    some replacement aimed at the node; at the least they do so wherever the node itself has the
    value of its substitute. -/
theorem substituteNode_redirects (valid : net.WellFormed) (live : net.isLiveGate old = true)
    (apart : ¬net.Reaches new.node old)
    (run : Edit.Gives (Edit.substituteNode old new) net () net') :
    (∀ input, ∃ value, (net.redirected old new).Valuation input value) ∧
    (net'.isDead old = true →
      (∀ n, net'.isLiveGate n = true → ¬net'.Feeds old n) ∧
        ∀ o ∈ net'.outputs, o.signal.node ≠ old) ∧
    ((∀ e ∈ Edit.substitutionEncounters old new net, e.dead = false) →
      net'.isDead old = true ∧ net'.LiveAcyclic) ∧
    ∀ input value, (net.redirected old new).Valuation input value →
      (value old = signalUnder value new ∨
        net'.isDead old = true ∧ old ∉ Edit.substitutionAims old new net) →
      (∃ value', net'.LiveValuation input value' ∧
        net'.outputValues value' = (net.redirected old new).outputValues value) ∧
      (net'.LiveAcyclic → ∀ value', net'.LiveValuation input value' →
        net'.outputValues value' = (net.redirected old new).outputValues value) := by
  obtain ⟨consistent, acyclic⟩ := wellFormed_iff.1 valid
  have after := (Edit.substituteNode_consistent consistent run).1
  have differ : old ≠ new.node := fun same => apart (same ▸ .refl _)
  refine ⟨fun input => ?_, after.toOrderly.unread_of_dead, fun calm => ⟨?_, ?_⟩,
    fun input value valuation settled => ?_⟩
  · refine exists_valuation_of_constant (acyclic.redirected apart) ?_ input
    rw [body?_redirected, (consistent.inPlace.constant_iff 0).2 rfl]
    rfl
  · exact Edit.substituteNode_settled consistent acyclic apart calm live run
  · refine (Edit.substituteNode_acyclic consistent acyclic apart (fun e member => ?_) run).live
    rw [Encounter.takesTwin, calm e member, Bool.false_and]
  · obtain ⟨later, extended, outputs⟩ :=
      Edit.substituteNode_carries consistent live differ run valuation settled
    refine ⟨⟨later, extended, outputs⟩, fun closed value' valuation' => ?_⟩
    rw [valuation'.outputValues_eq closed after extended, outputs]

/-- One consumer of a conjunction folds, and keeps it alive until its own turn; the other is rewired. -/
theorem redirects_of_pending : ∃ stages net net',
    Completed (empty "pending")
      (Command.load 3 [(.and2, [2, 4]), (.and2, [8, 2]), (.and2, [8, 6])] [10, 12]) stages net ∧
    net.WellFormed ∧ net.isLiveGate 4 = true ∧ ¬net.Reaches 1 4 ∧
    Edit.Gives (Edit.substituteNode 4 ⟨1, false⟩) net () net' ∧ net'.isDead 4 = true ∧
    4 ∉ Edit.substitutionAims 4 ⟨1, false⟩ net ∧
    ∀ input value value', (net.redirected 4 ⟨1, false⟩).Valuation input value →
      net'.LiveValuation input value' →
      net'.outputValues value' = (net.redirected 4 ⟨1, false⟩).outputValues value := by
  obtain ⟨stages, net, history, checks⟩ := Command.exists_completed
    (Command.load 3 [(.and2, [2, 4]), (.and2, [8, 2]), (.and2, [8, 6])] [10, 12]) (empty "pending")
    (fun _ net => decide net.Acyclic && net.isLiveGate 4 && decide ¬net.Reaches 1 4 &&
      (Edit.substitutionEncounters 4 ⟨1, false⟩ net).all (!·.dead) &&
      decide (4 ∉ Edit.substitutionAims 4 ⟨1, false⟩ net) &&
      Edit.yields (Edit.substituteNode 4 ⟨1, false⟩) (fun _ _ => true) net)
    (by decide +kernel)
  simp only [Bool.and_eq_true, decide_eq_true_eq, List.all_eq_true, Bool.not_eq_true'] at checks
  obtain ⟨⟨⟨⟨⟨acyclic, live⟩, apart⟩, calm⟩, unaimed⟩, yielded⟩ := checks
  obtain ⟨_, net', run, -⟩ := Edit.exists_gives yielded
  have valid := history.wellFormed acyclic
  obtain ⟨-, -, settled, redirects⟩ := substituteNode_redirects valid live apart run
  obtain ⟨dead, closed⟩ := settled calm
  exact ⟨stages, net, net', history, valid, live, apart, run, dead, unaimed,
    fun input value value' before after =>
      (redirects input value before (.inr ⟨dead, unaimed⟩)).2 closed value' after⟩

/-- `a & b` gives way to `a`, and `b & (a & (a & b))` comes to read it anew. -/
def recalled : List Command :=
  Command.load 2 [(.and2, [2, 4]), (.and2, [2, 6]), (.and2, [4, 8])] [10]

/-- The consumer in between keeps `a & b` alive, so the last gate, which has become `b & a`, is
    replaced by it, and hence by `a`. -/
theorem misdirected_of_recalled : ∃ stages net net' value value',
    Completed (empty "recalled") recalled stages net ∧ net.WellFormed ∧
    net.isLiveGate 3 = true ∧ net.isDead 1 = false ∧ ¬net.Reaches 1 3 ∧
    Edit.Gives (Edit.substituteNode 3 ⟨1, false⟩) net () net' ∧ net'.isDead 3 = true ∧
    (net.redirected 3 ⟨1, false⟩).Valuation (· == 1) value ∧ net'.Valuation (· == 1) value' ∧
    net'.outputValues value' ≠ (net.redirected 3 ⟨1, false⟩).outputValues value := by
  obtain ⟨stages, net, history, checks⟩ := Command.exists_completed recalled (empty "recalled")
    (fun _ net => decide net.Acyclic && net.isLiveGate 3 && !net.isDead 1 &&
      decide ¬net.Reaches 1 3 &&
      decide ((net.redirected 3 ⟨1, false⟩).Valuation (· == 1) ([1, 4].contains ·)) &&
      Edit.yields (Edit.substituteNode 3 ⟨1, false⟩) (fun _ net' =>
        net'.isDead 3 && decide (net'.Valuation (· == 1) (· == 1)) &&
        net'.outputValues (· == 1) !=
          (net.redirected 3 ⟨1, false⟩).outputValues ([1, 4].contains ·)) net)
    (by decide +kernel)
  simp only [Bool.and_eq_true, decide_eq_true_eq, Bool.not_eq_true'] at checks
  obtain ⟨⟨⟨⟨⟨acyclic, live⟩, awake⟩, apart⟩, before⟩, yielded⟩ := checks
  obtain ⟨_, net', run, outcome⟩ := Edit.exists_gives yielded
  simp only [Bool.and_eq_true, decide_eq_true_eq, bne_iff_ne] at outcome
  obtain ⟨⟨dead, after⟩, wrong⟩ := outcome
  exact ⟨stages, net, net', _, _, history, history.wellFormed acyclic, live, awake, apart, run, dead,
    before, after, wrong⟩

end LogicOpt
