import LogicOpt.Proofs.AcceptedCandidates
import LogicOpt.Proofs.GreatestCones
import LogicOpt.Proofs.WindowRuns

namespace LogicOpt

open Network

variable {net : Network}

/-- Some input values give the nodes together the values of the assignment. -/
def Network.Produces (net : Network) (nodes : List Nat) (m : Nat) : Prop :=
  ∃ inputs values, inputs.length = net.inputs.length ∧ net.simulateValues inputs = .ok values ∧
    assignment (nodes.map fun n => values[n]?.getD false) = m

namespace Network

variable {nodes : List Nat}

theorem produces_iff (inPlace : net.InPlace) (acyclic : net.Acyclic)
    (known : ∀ n ∈ nodes, n < net.size ∧ net.isDead n = false) {m : Nat} :
    net.Produces nodes m ↔ ∃ value, net.Fits value ∧ assignment (nodes.map value) = m := by
  constructor
  · rintro ⟨inputs, values, length, simulated, rfl⟩
    obtain ⟨value, fits, rfl⟩ := exists_valuation_of_inputs inPlace acyclic length
    obtain ⟨_, again, right⟩ := simulateValues_of_fits inPlace acyclic fits
    rw [simulated] at again
    cases again
    refine ⟨value, fits, congrArg assignment (List.map_congr_left fun n member => ?_)⟩
    exact (right n (known n member).1 (known n member).2).symm
  · rintro ⟨value, fits, rfl⟩
    obtain ⟨values, simulated, right⟩ := simulateValues_of_fits inPlace acyclic fits
    refine ⟨_, values, List.length_map _, simulated, congrArg assignment ?_⟩
    exact List.map_congr_left fun n member => right n (known n member).1 (known n member).2

end Network

theorem exists_assignment {n m : Nat} (inside : m < tableWidth n) :
    ∃ bits, bits.length = n ∧ assignment bits = m := by
  rw [tableWidth_eq] at inside
  induction n generalizing m with
  | zero => exact ⟨[], rfl, by simpa [assignment] using (Nat.lt_one_iff.1 inside).symm⟩
  | succ n ih =>
    obtain ⟨bits, length, same⟩ := ih (m := m / 2) (by rw [Nat.pow_succ] at inside; omega)
    refine ⟨m.testBit 0 :: bits, by simp [length], ?_⟩
    rw [assignment, same, Nat.testBit_zero]
    rcases Nat.mod_two_eq_zero_or_one m with even | odd
    · simp [even]
      omega
    · simp [odd]
      omega

theorem Network.exists_fits_of_assignment (inPlace : net.InPlace) (acyclic : net.Acyclic)
    {nodes : List Nat} (nodup : nodes.Nodup) (inputs : ∀ n ∈ nodes, net.isInput n = true) {m : Nat}
    (inside : m < tableWidth nodes.length) :
    ∃ value, net.Fits value ∧ assignment (nodes.map value) = m := by
  obtain ⟨bits, length, rfl⟩ := exists_assignment inside
  obtain ⟨input, same⟩ := exists_map_eq nodup length
  obtain ⟨value, valuation⟩ := exists_valuation acyclic inPlace input
  refine ⟨value, valuation.fits, ?_⟩
  rw [← same]
  exact congrArg assignment (List.map_congr_left fun n member => valuation.input n (inputs n member))

/-- The assignments that the tables of a window over inputs take together are those of valuations. -/
theorem Window.occurring_iff {starts leaves nodes : List Nat} {window : Window starts.length}
    {functions : List (Table starts.length)} (inPlace : net.InPlace) (acyclic : net.Acyclic)
    (nodup : starts.Nodup) (inputs : ∀ n ∈ starts, net.isInput n = true)
    (inside : ∀ n ∈ starts, n < net.size)
    (simulated : simulate net starts nodes false = .ok (.ok window))
    (read : leaves.mapM window.nodeFunction? = some functions) {m : Nat} :
    (occurring functions.reverse (BitVec.allOnes _)).getLsbD m = true ↔
      ∃ value, net.Fits value ∧ assignment (leaves.map value) = m := by
  have together {value : Nat → Bool} (fits : net.Fits value) :
      functions.map (·.getLsbD (assignment (starts.map value))) = leaves.map value :=
    (soundAt_simulate fits inPlace.size_pos inside simulated).map_functions read
  simp only [getLsbD_occurring, List.map_reverse, List.reverse_reverse, BitVec.getLsbD_allOnes,
    decide_eq_true_eq]
  constructor
  · rintro ⟨k, within, rfl⟩
    obtain ⟨value, fits, rfl⟩ := exists_fits_of_assignment inPlace acyclic nodup inputs within
    exact ⟨value, fits, by rw [together fits]⟩
  · rintro ⟨value, fits, rfl⟩
    have within := assignment_lt (starts.map value)
    rw [List.length_map] at within
    exact ⟨_, within, by rw [together fits]⟩

/-- On slots that were built by the operations, without cycles, the don't-cares of live leaves are
    found, as long as complete tables over the leaves and over those of the window can be kept. What
    the leaves are under any input values is not among them. There are none if there are more
    distinct leaves than the window may have. If all leaves of the window are inputs, then whatever
    no input values produce is a don't-care. -/
theorem exact_dontCares {leaves : List Nat} {windowSize maxFanout : Nat} (inPlace : net.InPlace)
    (acyclic : net.Acyclic) (known : ∀ n ∈ leaves, n < net.size ∧ net.isDead n = false)
    (few : leaves.length < 64) (room : windowSize < Cutter.capacityLimit)
    (small : ∀ cut c, (Cutter.ofLimits windowSize maxFanout).run net leaves = .ok (.ok cut, c) →
      cut.leaves.length < 64) :
    ∃ mask, dontCares net leaves windowSize maxFanout = .ok mask ∧
      (∀ inputs, inputs.length = net.inputs.length → ∃ values,
        net.simulateValues inputs = .ok values ∧
          mask.getLsbD (assignment (leaves.map fun n => values[n]?.getD false)) = false) ∧
      (windowSize < leaves.eraseDups.length → mask = 0) ∧
      ∀ cut c, (Cutter.ofLimits windowSize maxFanout).run net leaves = .ok (.ok cut, c) →
        (∀ n ∈ cut.leaves, net.isInput n = true) →
        ∀ m < tableWidth leaves.length, mask.getLsbD m = true ↔ ¬net.Produces leaves m := by
  have inside : ∀ n ∈ leaves, n < net.size := fun n member => (known n member).1
  have sound {mask} (run : dontCares net leaves windowSize maxFanout = .ok mask) (inputs : List Bool)
      (length : inputs.length = net.inputs.length) : ∃ values,
        net.simulateValues inputs = .ok values ∧
          mask.getLsbD (assignment (leaves.map fun n => values[n]?.getD false)) = false := by
    obtain ⟨value, fits, rfl⟩ := exists_valuation_of_inputs inPlace acyclic length
    obtain ⟨values, simulated, right⟩ := simulateValues_of_fits inPlace acyclic fits
    have same : (leaves.map fun n => values[n]?.getD false) = leaves.map value :=
      List.map_congr_left fun n member => right n (known n member).1 (known n member).2
    exact ⟨values, simulated, by rw [same]; exact dontCares_sound inPlace fits run⟩
  obtain ⟨found, marks, grown⟩ := Cutter.exists_run (.ofLimits windowSize maxFanout) leaves inPlace
    room inside
  have outcome := dontCares_outcome inPlace acyclic inside few grown fun cut same =>
    small cut _ (same ▸ grown)
  cases found with
  | error cause =>
    refine ⟨0, outcome, sound outcome, fun _ => rfl, fun cut c again => ?_⟩
    rw [grown] at again
    cases again
  | ok cut =>
    obtain ⟨nodes, window, functions, simulated, read, run⟩ := outcome
    refine ⟨_, run, sound run, fun many => ?_, fun cut' c again inputs m bound => ?_⟩
    · obtain ⟨_, -, -, -, again⟩ :=
        (Cutter.ofLimits windowSize maxFanout).exists_growth inPlace room inside
      rw [if_pos (show (Cutter.ofLimits windowSize maxFanout).maxLeaves < _ from many), grown] at again
      cases again
    · rw [grown] at again
      cases again
      obtain ⟨below, separates, -⟩ := Cutter.run_sound inPlace grown
      rw [produces_iff inPlace acyclic known, ← Window.occurring_iff inPlace acyclic separates.nodup
        inputs (fun n member => (below n member).1) simulated read]
      simp [bound]

/-- Gate 7 reads gate 5, so it is never true alone. -/
theorem exact_of_reconvergence : ∃ stages net mask cut c,
    Completed (empty "cares") (reconvergent [20]) stages net ∧ net.WellFormed ∧
    (Cutter.ofLimits 4 1000).run net [5, 7] = .ok (.ok cut, c) ∧
    (∀ n ∈ cut.leaves, net.isInput n = true) ∧
    dontCares net [5, 7] 4 1000 = .ok mask ∧ mask = 4 ∧
    ¬net.Produces [5, 7] 2 ∧ net.Produces [5, 7] 3 := by
  obtain ⟨stages, net, history, checks⟩ := Command.exists_completed (reconvergent [20])
    (empty "cares")
    (fun _ net => decide net.Acyclic &&
      decide (∀ n ∈ ([5, 7] : List Nat), n < net.size ∧ net.isDead n = false) &&
      ((Cutter.ofLimits 4 1000).run net [5, 7]).toOption.any
        (fun grown => grown.1.toOption.any fun cut =>
          decide (∀ n ∈ cut.leaves, net.isInput n = true)) &&
      (dontCares net [5, 7] 4 1000).toOption.any fun mask => mask == 4)
    (by decide +kernel)
  simp only [Bool.and_eq_true, decide_eq_true_eq] at checks
  obtain ⟨⟨⟨acyclic, known⟩, grown⟩, found⟩ := checks
  have valid := history.wellFormed acyclic
  obtain ⟨⟨_, c⟩, run, grown⟩ := exists_of_any grown
  obtain ⟨cut, rfl, inputs⟩ := exists_of_any grown
  obtain ⟨mask, ran, found⟩ := exists_of_any found
  obtain rfl := beq_iff_eq.1 found
  have inputs := of_decide_eq_true inputs
  obtain ⟨_, again, -, -, exact⟩ := exact_dontCares valid.inPlace acyclic known (by decide)
    (by decide) fun cut c run =>
      Nat.lt_of_le_of_lt (Cutter.run_sound valid.inPlace run).2.2 (show 4 < 64 by decide)
  rw [ran] at again
  cases again
  have only := exact cut c run inputs
  exact ⟨stages, net, _, cut, c, history, valid, run, inputs, ran, rfl,
    (only 2 (by decide)).1 (by decide),
    Classical.not_not.1 fun none => absurd ((only 3 (by decide)).2 none) (by decide)⟩

end LogicOpt
