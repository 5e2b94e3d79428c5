import LogicOpt.Proofs.GateCreation
import LogicOpt.Proofs.Verdicts

namespace LogicOpt

open Network

section Clauses

variable {net : Network} {c : Candidate}

def Network.kinds (net : Network) (cone : List Nat) (c : Candidate) : List GateKind :=
  cone.filterMap (fun n => (net.gate? n).map Gate.kind) ++ c.gates.map Gate.kind

theorem GateKind.sum_clauseCount (kinds : List GateKind) :
    (kinds.map clauseCount).sum =
      3 * kinds.count .and2 + 4 * kinds.count .xor2 + 6 * kinds.count .maj3 := by
  induction kinds with
  | nil => rfl
  | cons kind rest ih =>
    rw [List.map_cons, List.sum_cons, ih]
    cases kind <;> simp [clauseCount] <;> omega

theorem Network.sum_nodeClauses (zero : net.gate? 0 = none) (cone : List Nat) :
    (cone.map net.nodeClauses).sum =
      ((cone.filterMap fun n => (net.gate? n).map Gate.kind).map GateKind.clauseCount).sum +
        cone.count 0 := by
  induction cone with
  | nil => rfl
  | cons n rest ih =>
    rw [List.map_cons, List.sum_cons, ih, List.count_cons, nodeClauses]
    cases slot : net.gate? n with
    | none => simp [slot]; omega
    | some g =>
      have other : n ≠ 0 := by
        rintro rfl
        rw [zero] at slot
        cases slot
      simp [slot, other]; omega

theorem Network.clauses_eq (zero : net.gate? 0 = none) {cone : List Nat} (nodup : cone.Nodup) :
    net.clauses cone c =
      1 + 3 * (net.kinds cone c).count .and2 + 4 * (net.kinds cone c).count .xor2 +
        6 * (net.kinds cone c).count .maj3 + (if 0 ∈ cone then 1 else 0) + 4 := by
  have nodes := net.sum_nodeClauses zero cone
  rw [nodup.count] at nodes
  have count := GateKind.sum_clauseCount (net.kinds cone c)
  rw [kinds, List.map_append, List.sum_append, List.map_map] at count
  rw [clauses_eq_sum, nodes, kinds]
  simp only [Function.comp_def] at count
  omega

end Clauses

/-- What it means to decide whether a candidate computes `root`: only the budget leaves it open. -/
structure Decided (net : Network) (maxClauses root : Nat) (divisors : List Nat) (c : Candidate)
    (verdict : Verdict) : Prop where
  budget : ∃ cone : List Nat, cone.Nodup ∧
    (∀ n, n ∈ cone ↔ ∃ start ∈ root :: divisors, net.Reaches start n) ∧
    (verdict = .unknown ↔ maxClauses <
      1 + 3 * (net.kinds cone c).count .and2 + 4 * (net.kinds cone c).count .xor2 +
        6 * (net.kinds cone c).count .maj3 + (if 0 ∈ cone then 1 else 0) + 4)
  equivalent : verdict ≠ .unknown → (verdict = .equivalent ↔
    ∀ inputs : List Bool, inputs.length = net.inputs.length → ∃ values,
      net.simulateValues inputs = .ok values ∧
        c.evaluate false (divisors.map fun d => values[d]?.getD false) =
          .ok (values[root]?.getD false))
  counterexample : ∀ inputs, verdict = .counterexample inputs →
    inputs.length = net.inputs.length ∧ ∃ values, net.simulateValues inputs = .ok values ∧
      c.evaluate false (divisors.map fun d => values[d]?.getD false) =
        .ok !values[root]?.getD false

namespace Network

variable {net : Network} {root maxClauses : Nat} {divisors : List Nat} {c : Candidate}
  {verdict : Verdict}

theorem Simulable.decided_of_right (sound : net.Simulable)
    (alive : ∀ n ∈ root :: divisors, n < net.size ∧ net.isDead n = false)
    {cone : List Nat} (joined : net.Joined (root :: divisors) cone)
    (budget : verdict = .unknown ↔ maxClauses < net.clauses cone c)
    (right : verdict.Right net root divisors c) :
    Decided net maxClauses root divisors c verdict := by
  rw [List.forall_mem_cons] at alive
  -- Simulation shows the values of a valuation at live slots, and every input list has a valuation.
  have shown {value : Nat → Bool} (fits : net.Fits value) : ∃ values,
      net.simulateValues (net.inputs.map value) = .ok values ∧
        (divisors.map fun d => values[d]?.getD false) = divisors.map value ∧
        values[root]?.getD false = value root := by
    obtain ⟨values, run, same⟩ := simulateValues_of_fits sound.inPlace sound.acyclic fits
    exact ⟨values, run, List.map_congr_left fun d member =>
      same d (alive.2 d member).1 (alive.2 d member).2, same root alive.1.1 alive.1.2⟩
  refine ⟨?_, fun known => ⟨?_, fun all => ?_⟩, ?_⟩
  · have count := clauses_eq (c := c) sound.inPlace.gate?_zero joined.nodup
    exact ⟨cone, joined.nodup, joined.mem_iff, by rw [budget, count]⟩
  · rintro rfl inputs length
    obtain ⟨value, fits, rfl⟩ := exists_valuation_of_inputs sound.inPlace sound.acyclic length
    obtain ⟨values, run, operands, target⟩ := shown fits
    exact ⟨values, run, by rw [operands, target, right value fits]⟩
  · cases verdict with
    | equivalent => rfl
    | unknown => exact absurd rfl known
    | counterexample inputs =>
      obtain ⟨value, fits, rfl, wrong⟩ := right
      obtain ⟨values, run, operands, target⟩ := shown fits
      obtain ⟨_, again, correct⟩ := all _ (List.length_map value)
      rw [run] at again
      cases again
      rw [operands, target, wrong] at correct
      simp at correct
  · rintro inputs rfl
    obtain ⟨value, fits, rfl, wrong⟩ := right
    obtain ⟨values, run, operands, target⟩ := shown fits
    exact ⟨List.length_map value, values, run, by rw [operands, target, wrong]⟩

end Network

/-- With a sound and complete solver, validation ends on every candidate over live divisors and
    decides whether it computes the root. -/
theorem decided_validateWith {net : Network} {solve : Solver} {maxClauses root : Nat}
    {divisors : List Nat} {c : Candidate} (sound : net.Simulable) (decides : solve.Decides)
    (alive : ∀ n ∈ root :: divisors, n < net.size ∧ net.isDead n = false)
    (length : divisors.length = c.numDivisors) (closed : c.Closed) :
    ∃ verdict, net.validateWith solve maxClauses root divisors c = .ok verdict ∧
      Decided net maxClauses root divisors c verdict := by
  obtain ⟨verdict, run⟩ := exists_validateWith solve maxClauses sound.acyclic
    (fun n member => (alive n member).1) length closed
  obtain ⟨cone, joined, budget, right⟩ := right_of_validateWith sound.inPlace
    (exists_valuation sound.acyclic sound.inPlace) decides run
  exact ⟨verdict, run, sound.decided_of_right alive joined budget right⟩

/-- An exclusive disjunction is no conjunction; the third input plays no part. With one clause less
    in the budget, the question is not put. -/
theorem decided_of_conjunction :
    let c : Candidate := ⟨2, [.xor2 ⟨1, false⟩ ⟨2, false⟩], ⟨3, false⟩⟩
    c.Closed ∧ Solver.search.Decides ∧ ∃ stages net,
      Completed (empty "conjunction") (Command.load 3 [(.and2, [2, 4]), (.xor2, [8, 6])] [10])
        stages net ∧
      net.Simulable ∧ (∀ n ∈ [4, 1, 2], n < net.size ∧ net.isDead n = false) ∧
      Decided net 12 4 [1, 2] c (.counterexample [false, true, false]) ∧
      Decided net 11 4 [1, 2] c .unknown := by
  intro c
  have closed : c.Closed := ⟨by decide, by decide⟩
  obtain ⟨stages, net, history, checks⟩ := Command.exists_completed
    (Command.load 3 [(.and2, [2, 4]), (.xor2, [8, 6])] [10]) (empty "conjunction")
    (fun _ net => decide net.Acyclic &&
      decide (∀ n ∈ [(4 : Nat), 1, 2], n < net.size ∧ net.isDead n = false) &&
      (net.validateWith .search 12 4 [1, 2] ⟨2, [.xor2 ⟨1, false⟩ ⟨2, false⟩], ⟨3, false⟩⟩).toOption
        == some (.counterexample [false, true, false]) &&
      (net.validateWith .search 11 4 [1, 2] ⟨2, [.xor2 ⟨1, false⟩ ⟨2, false⟩], ⟨3, false⟩⟩).toOption
        == some .unknown)
    (by decide +kernel)
  simp only [Bool.and_eq_true, decide_eq_true_eq, beq_iff_eq] at checks
  obtain ⟨⟨⟨acyclic, alive⟩, refuted⟩, skipped⟩ := checks
  have sound := (history.wellFormed acyclic).simulable
  have decided (budget : Nat) (expected : Verdict)
      (answer : (net.validateWith .search budget 4 [1, 2] c).toOption = some expected) :
      Decided net budget 4 [1, 2] c expected := by
    obtain ⟨verdict, run, decided⟩ :=
      decided_validateWith sound Solver.search_decides alive rfl closed
    rw [run] at answer
    cases answer
    exact decided
  exact ⟨closed, Solver.search_decides, stages, net, history, sound, alive, decided 12 _ refuted,
    decided 11 _ skipped⟩

end LogicOpt
