import LogicOpt.Proofs.PassEquivalence
import LogicOpt.Proofs.Simulations

namespace LogicOpt

open Network

variable {net net' : Network} {solve : Solver}

theorem exists_map_eq {keys : List Nat} {values : List Bool} (nodup : keys.Nodup)
    (length : values.length = keys.length) : ∃ f : Nat → Bool, keys.map f = values := by
  refine ⟨fun n => values[keys.idxOf n]?.getD false, List.ext_getElem? fun i => ?_⟩
  rw [List.getElem?_map]
  by_cases inside : i < keys.length
  · have position : keys.idxOf keys[i] = i := nodup.idxOf_getElem i inside
    simp [inside, position, length]
  · simp [inside, length]

theorem Network.exists_valuation_of_inputs (inPlace : net.InPlace) (acyclic : net.Acyclic)
    {inputs : List Bool} (length : inputs.length = net.inputs.length) :
    ∃ value, net.Fits value ∧ net.inputs.map value = inputs := by
  obtain ⟨input, same⟩ := exists_map_eq inPlace.nodup_inputs length
  obtain ⟨value, valuation⟩ := exists_valuation acyclic inPlace input
  refine ⟨value, valuation.fits, ?_⟩
  rw [← same]
  exact List.map_congr_left fun n member => valuation.input n (inPlace.isInput_iff.2 member)

theorem Chosen.bounded {params : Params} {f : Resynthesizer} {w : RootWindow} {cone : List Nat}
    {a : Accepted} (chosen : Chosen params f w a) (window : Windowed params net w cone) :
    a.candidate.numGates ≤ min params.maxInserts (a.gain - 1) ∧ 0 < a.gain := by
  have first := List.length_pos_of_mem window.free.first
  rw [window.gain] at first
  cases chosen with
  | found same small =>
    rw [same]
    exact ⟨small, first⟩

/-- An accepted candidate has few gates over divisors that are not computed from the root, and for
    every list of input values it gives the root's value from those of the divisors. -/
theorem accepted_evaluateRoot {params : Params} {basis : Basis} {s s' : PassState} {root : Nat}
    {a : Accepted} (valid : net.WellFormed) (live : net.isLiveGate root = true)
    (run : Edit.Gives (Edit.evaluateRoot solve params basis.resynthesizer s root) net
        (some a, s') net') :
    net' = net ∧ a.root = root ∧
      (∀ inputs, inputs.length = net.inputs.length →
        ∃ values, net.simulateValues inputs = .ok values ∧
          a.candidate.evaluate false (a.divisors.map fun d => values[d]?.getD false) =
            .ok (values[root]?.getD false)) ∧
      a.candidate.numGates ≤ min params.maxInserts (a.gain - 1) ∧ 0 < a.gain ∧
      ∀ d ∈ a.divisors, ¬net.Reaches d root := by
  obtain ⟨consistent, acyclic⟩ := wellFormed_iff.1 valid
  obtain ⟨same, known⟩ := Edit.evaluateRoot_gives consistent.toOrderly live run
  obtain ⟨w, cone, rfl, window, chosen⟩ := known a rfl
  obtain ⟨root, divisors⟩ := chosen.root
  obtain ⟨small, gain⟩ := chosen.bounded window
  have clear := window.divisors_clear consistent.toOrderly acyclic
  have inside := window.divisors_inside consistent.toCounted acyclic
  refine ⟨same, root, fun inputs length => ?_, small, gain, fun d member => ?_⟩
  · obtain ⟨value, fits, bits⟩ := exists_valuation_of_inputs consistent.inPlace acyclic length
    have off : id false = false := rfl
    have same : inputs.map id = net.inputs.map value := by rw [List.map_id, bits]
    obtain ⟨values, simulated, right⟩ :=
      simulate_eq_ok consistent.inPlace acyclic fits pointwise_id off same
    refine ⟨values, simulated, ?_⟩
    have sound := chosen.sound window consistent.toCounted fits
    have read : (a.divisors.map fun d => values[d]?.getD false) = a.divisors.map value := by
      refine List.map_congr_left fun d member => ?_
      rw [divisors] at member
      exact right d (inside d member) (clear d member).2.2
    have target := right w.root (lt_of_isLiveGate live) (isLiveGate_eq_true.1 live).2
    rw [read, sound, root]
    exact congrArg Except.ok target.symm
  · rw [divisors] at member
    exact (clear d member).1

/-- The last of three conjunctions is the exclusive disjunction of the inputs. -/
theorem accepted_of_conjunctions : ∃ stages net a s net',
    Completed (empty "conjunctions")
        (Command.load 2 [(.and2, [2, 5]), (.and2, [3, 4]), (.and2, [7, 9])] [11]) stages net ∧
      net.WellFormed ∧ net.isLiveGate 5 = true ∧
      Edit.Gives (Edit.evaluateRoot .search .default Basis.xag.resynthesizer
        (.start .default .zero) 5) net (some a, s) net' ∧
      a.candidate.gates = [.xor2 (.ofNode 1) (.ofNode 2)] ∧
      ∀ inputs, inputs.length = net.inputs.length →
        ∃ values, net.simulateValues inputs = .ok values ∧
          a.candidate.evaluate false (a.divisors.map fun d => values[d]?.getD false) =
            .ok (values[5]?.getD false) := by
  obtain ⟨stages, net, history, checks⟩ := Command.exists_completed
    (Command.load 2 [(.and2, [2, 5]), (.and2, [3, 4]), (.and2, [7, 9])] [11])
    (empty "conjunctions")
    (fun _ net => decide net.Acyclic && net.isLiveGate 5 &&
      Edit.yields (Edit.evaluateRoot .search .default Basis.xag.resynthesizer (.start .default .zero) 5)
        (fun answer _ => answer.1.any fun a =>
          a.candidate.gates == [.xor2 (.ofNode 1) (.ofNode 2)]) net) (by decide +kernel)
  simp only [Bool.and_eq_true, decide_eq_true_eq] at checks
  obtain ⟨⟨acyclic, live⟩, yielded⟩ := checks
  obtain ⟨⟨answer, s⟩, net', run, shape⟩ := Edit.exists_gives yielded
  obtain ⟨a, rfl, gates⟩ := (Option.any_eq_true _ _).1 shape
  have valid := history.wellFormed acyclic
  obtain ⟨-, -, correct, -⟩ := accepted_evaluateRoot valid live run
  exact ⟨stages, net, a, s, net', history, valid, live, run, beq_iff_eq.1 gates, correct⟩

end LogicOpt
