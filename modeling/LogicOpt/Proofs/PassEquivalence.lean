import LogicOpt.Proofs.PassFunction
import LogicOpt.Proofs.Placement

namespace LogicOpt

open Network

variable {net net' : Network} {solve : Solver}

theorem Chosen.few {params : Params} {f : Resynthesizer} {w : RootWindow} {cone : List Nat}
    {a : Accepted} (chosen : Chosen params f w a) (window : Windowed params net w cone) :
    a.candidate.gates.length < cone.length := by
  have first := List.length_pos_of_mem window.free.first
  cases chosen with
  | found same small grown search =>
    rw [Candidate.numGates, RootWindow.maxInserts, ← window.gain] at small
    rw [same]
    exact Nat.lt_of_le_of_lt small (by omega)

theorem mentions_of_position {signals : Array Signal} {f s : Signal}
    (read : Edit.readPosition signals f = .ok s) : mentions signals s.node = true :=
  mentions_of_resolved (show [f].mapM (Edit.readPosition signals) = .ok [s] by simp [read]) s
    (by simp)

theorem Windowed.divisors_inside {params : Params} {w : RootWindow} {cone : List Nat}
    (window : Windowed params net w cone) (counted : net.Counted) (acyclic : net.Acyclic) :
    ∀ d ∈ w.divisors, d < net.size := by
  obtain ⟨value, valuation⟩ := exists_valuation acyclic counted.inPlace fun _ => false
  exact (window.tables counted valuation.fits).1

theorem Chosen.apart {params : Params} {f : Resynthesizer} {w : RootWindow} {cone : List Nat}
    {a : Accepted} {signals : Array Signal} {s : Signal} {mid : Network}
    (chosen : Chosen params f w a) (window : Windowed params net w cone)
    (consistent : net.Consistent) (acyclic : net.Acyclic)
    (inserted : Inserted net (.constant false :: a.divisors.map .ofNode).toArray
      a.candidate.gates signals mid)
    (output : Edit.readPosition signals a.candidate.output = .ok s) :
    mid.numGates + cone.countP (mentions signals) ≤ net.numGates + a.candidate.gates.length ∧
      mentions signals a.root = false ∧ ¬mid.Reaches s.node a.root := by
  obtain ⟨root, divisors⟩ := chosen.root
  have inside : ∀ d ∈ a.divisors, d < net.size := by
    rw [divisors]
    exact window.divisors_inside consistent.toCounted acyclic
  have clear : ∀ d ∈ a.divisors, ¬net.Reaches d w.root ∧ d ∉ cone := fun d member =>
    have known := window.divisors_clear consistent.toOrderly acyclic d (divisors ▸ member)
    ⟨known.1, known.2.1⟩
  obtain ⟨counted, clear⟩ :=
    inserted.apart consistent acyclic window.free clear inside (chosen.few window)
  rw [root]
  refine ⟨counted, Bool.eq_false_iff.2 fun mentioned => clear _ mentioned (.refl _), ?_⟩
  exact clear s.node (mentions_of_position output)

theorem Worked.acyclic {params : Params} {f : Resynthesizer} {callback : Callback} {root : Nat}
    {met : List Encounter} (worked : Worked params f callback root net met net')
    (consistent : net.Consistent) (acyclic : net.Acyclic)
    (twinless : ∀ e ∈ met, e.takesTwin = false) : net'.Acyclic := by
  cases worked with
  | passed => exact acyclic
  | installed substituting live same window chosen change =>
    cases change with
    | kept length inserted output held =>
      have after := inserted.consistent consistent
      exact (removeUnusedFrom_spec after _).1.acyclic (inserted.acyclic consistent acyclic)
    | replaced length inserted output differ substituted =>
      have middle := inserted.consistent consistent
      obtain ⟨-, -, apart⟩ := chosen.apart window consistent acyclic inserted output
      have after := (Edit.substituteNode_consistent middle substituted).1
      exact (removeUnusedFrom_spec after _).1.acyclic (Edit.substituteNode_acyclic middle
        (inserted.acyclic consistent acyclic) apart twinless substituted)

/-- After a pass the outputs have the values they had under all values of the inputs. The network is
    well formed again exactly if it is acyclic, and it is so if it was acyclic after all substitutions
    that took a twin for a dead target. -/
theorem equivalent_resubstitute {params : Params} {basis : Basis} {callback : Callback}
    {resyn : ResynStats} {stats : PassStats} (valid : net.WellFormed)
    (run : Edit.Gives (Edit.resubstituteWith solve params basis.resynthesizer callback resyn) net
        (.ok stats) net') :
    SameInputs net net' ∧ net'.outputs.map (·.name) = net.outputs.map (·.name) ∧
    (∀ input, ∃ value value', net.Valuation input value ∧ net'.Valuation input value' ∧
      net'.outputValues value' = net.outputValues value) ∧
    (net'.WellFormed ↔ net'.Acyclic) ∧
    ((∀ v ∈ Edit.passVisits solve params basis.resynthesizer callback resyn net,
        (∃ e ∈ v.met, e.takesTwin = true) → v.after.Acyclic) →
      net'.WellFormed ∧ ∀ input value value', net.Valuation input value →
        net'.Valuation input value' → net'.outputValues value' = net.outputValues value) := by
  obtain ⟨consistent, acyclic⟩ := wellFormed_iff.1 valid
  have carried (input : Nat → Bool) (value : Nat → Bool) (valuation : net.Valuation input value) :
      net'.Consistent ∧ ∃ value', Refined net value net' value' ∧ net'.Valuation input value' := by
    obtain ⟨after, value', refined⟩ := Edit.resubstitute_refined consistent valuation.fits run
    exact ⟨after, value', refined, refined.valuation consistent.inPlace after.inPlace valuation⟩
  obtain ⟨value, valuation⟩ := exists_valuation acyclic consistent.inPlace fun _ => false
  obtain ⟨after, value', refined, -⟩ := carried _ value valuation
  have wellFormed : net'.WellFormed ↔ net'.Acyclic :=
    wellFormed_iff.trans ⟨And.right, fun acyclic => ⟨after, acyclic⟩⟩
  refine ⟨refined.sources, ?_, fun input => ?_, wellFormed, fun closed => ?_⟩
  · simpa [outputValues, Function.comp_def] using congrArg (·.map Prod.fst) refined.outputs
  · obtain ⟨value, valuation⟩ := exists_valuation acyclic consistent.inPlace input
    obtain ⟨-, value', refined, valuation'⟩ := carried input value valuation
    exact ⟨value, value', valuation, valuation', refined.outputs⟩
  · have acyclic' := (Edit.resubstitute_invariant (fun current => current.Acyclic)
      (fun v => (∃ e ∈ v.met, e.takesTwin = true) → v.after.Acyclic)
      (fun _ _ _ acyclic => acyclic)
      (fun {root net met net'} consistent acyclic worked closed => by
        by_cases taken : ∃ e ∈ met, e.takesTwin = true
        · exact closed taken
        · refine worked.acyclic consistent acyclic fun e member => Bool.eq_false_iff.2 fun twin => ?_
          exact taken ⟨e, member, twin⟩)
      consistent acyclic closed run).2
    refine ⟨wellFormed.2 acyclic', fun input value value' valuation valuation' => ?_⟩
    obtain ⟨-, other, refined, extended⟩ := carried input value valuation
    rw [← refined.outputs]
    refine List.map_congr_left fun o member => ?_
    rw [signalUnder_congr (valuation'.unique acyclic' after.inPlace extended o.signal.node
      (after.inPlace.output_lt o member))]

/-- Three conjunctions give way to one exclusive disjunction. -/
theorem equivalent_of_conjunctions : ∃ stages net stats net',
    Completed (empty "conjunctions")
        (Command.load 2 [(.and2, [2, 5]), (.and2, [3, 4]), (.and2, [7, 9])] [11]) stages net ∧
      net.WellFormed ∧
      Edit.Gives (Edit.resubstituteWith .search .default Basis.xag.resynthesizer .substitute .zero) net
        (.ok stats) net' ∧
      stats.finalSize = 1 ∧ net'.WellFormed ∧
      ∀ input value value', net.Valuation input value → net'.Valuation input value' →
        net'.outputValues value' = net.outputValues value := by
  obtain ⟨stages, net, history, checks⟩ := Command.exists_completed
    (Command.load 2 [(.and2, [2, 5]), (.and2, [3, 4]), (.and2, [7, 9])] [11])
    (empty "conjunctions")
    (fun _ net => decide net.Acyclic &&
      (Edit.passVisits .search .default Basis.xag.resynthesizer .substitute .zero net).all
        (·.met.all (!·.takesTwin)) &&
      Edit.passes .search .default Basis.xag.resynthesizer .substitute
        (fun stats _ => stats.finalSize == 1) net) (by decide +kernel)
  simp only [Bool.and_eq_true, decide_eq_true_eq, List.all_eq_true, Bool.not_eq_true'] at checks
  obtain ⟨⟨acyclic, twinless⟩, passed⟩ := checks
  obtain ⟨stats, net', run, small⟩ := Edit.exists_run passed
  have valid : net.WellFormed :=
    wellFormed_iff.2 ⟨(history.consistent (consistent_empty _)).1, acyclic⟩
  obtain ⟨-, -, -, -, equivalent⟩ := equivalent_resubstitute valid run
  refine ⟨stages, net, stats, net', history, valid, run, by simpa using small, ?_⟩
  refine equivalent fun v visited ⟨e, met, taken⟩ => ?_
  rw [twinless v visited e met] at taken
  cases taken

/-- Nine inputs, twenty gates and four substitutions, which leave dead gates with readers to come. -/
def entangled : List Command :=
  Command.load 9
    [(.maj3, [10, 3, 4]), (.maj3, [19, 2, 4]), (.maj3, [12, 5, 8]), (.and2, [14, 8]),
     (.and2, [26, 6]), (.maj3, [28, 20, 5]), (.maj3, [18, 2, 30]), (.maj3, [28, 20, 23]),
     (.and2, [34, 2]), (.maj3, [8, 24, 36]), (.and2, [38, 6]), (.maj3, [40, 20, 5]),
     (.and2, [42, 2]), (.maj3, [20, 5, 44]), (.maj3, [10, 2, 46]), (.maj3, [10, 3, 6]),
     (.and2, [38, 50]), (.maj3, [20, 4, 52]), (.and2, [3, 17]), (.and2, [2, 57])]
    [36, 32, 48, 54] ++
  [.substitute 7 (.ofLiteral 24), .substitute 6 (.ofLiteral 20), .substitute 9 (.ofLiteral 58),
    .substitute 5 (.ofLiteral 58)]

/-- The pass replaces one root, and gates 18, 19 and 26 come to read one another in a circle. -/
theorem cycle_of_entangled : ∃ stages net stats net',
    Completed (empty "entangled") entangled stages net ∧ net.WellFormed ∧
      Edit.Gives
        (Edit.resubstituteWith .search { Params.default with maxPis := 2 } Basis.div0.resynthesizer
          .substitute .zero) net (.ok stats) net' ∧ ¬net'.WellFormed := by
  obtain ⟨stages, net, history, checks⟩ := Command.exists_completed entangled (empty "entangled")
    (fun _ net => decide net.Acyclic &&
      Edit.passes .search { Params.default with maxPis := 2 } Basis.div0.resynthesizer .substitute
        (fun _ net' => !decide net'.Acyclic) net) (by decide +kernel)
  simp only [Bool.and_eq_true, decide_eq_true_eq] at checks
  obtain ⟨acyclic, passed⟩ := checks
  obtain ⟨stats, net', run, cyclic⟩ := Edit.exists_run passed
  have valid : net.WellFormed :=
    wellFormed_iff.2 ⟨(history.consistent (consistent_empty _)).1, acyclic⟩
  refine ⟨stages, net, stats, net', history, valid, run, fun after => ?_⟩
  simp [after.acyclic] at cyclic

end LogicOpt
