import LogicOpt.Proofs.Encodings
import LogicOpt.Proofs.Simulations

namespace LogicOpt

open Network

/-- What a verdict says about the valuations of a network. -/
def Verdict.Right (net : Network) (root : Nat) (divisors : List Nat) (c : Candidate) :
    Verdict → Prop
  | equivalent => ∀ value, net.Fits value →
      c.evaluate false (divisors.map value) = .ok (value root)
  | counterexample inputs => ∃ value, net.Fits value ∧ net.inputs.map value = inputs ∧
      c.evaluate false (divisors.map value) = .ok !value root
  | unknown => True

namespace Network

variable {net : Network} {value f : Nat → Bool} {cone divisors : List Nat} {root maxClauses : Nat}
  {c : Candidate} {verdict : Verdict} {e : Encoding} {formula : Formula} {differ : Signal}
  {solve : Solver}

def Evaluable (net : Network) : Prop := ∀ input, ∃ value, net.Valuation input value

theorem InPlace.lt_of_reaches (inPlace : net.InPlace) {n m : Nat} (path : net.Reaches n m)
    (inside : n < net.size) : m < net.size := by
  induction path with
  | refl => exact inside
  | step _ feeds _ =>
    obtain ⟨f, reads, rfl⟩ := feeds
    exact inPlace.fanin_lt _ f reads

structure Joined (net : Network) (starts cone : List Nat) : Prop where
  nodup : cone.Nodup
  mem_iff : ∀ n, n ∈ cone ↔ ∃ start ∈ starts, net.Reaches start n
  ordered : net.InOrder (fun _ => False) cone

theorem Joined.listed {starts : List Nat} (joined : net.Joined starts cone) :
    ∀ n ∈ starts, n ∈ cone :=
  fun n given => (joined.mem_iff n).2 ⟨n, given, .refl n⟩

theorem joined_of_jointCone (sorted : net.jointCone root divisors = .ok cone) :
    net.Joined (root :: divisors) cone := by
  rw [jointCone, orderFrom_eq_ok] at sorted
  obtain ⟨rfl, ordered⟩ := sorted
  have met := listed_postorder net (fun _ => false) (root :: divisors)
  exact ⟨met.nodup, fun n => met.mem_iff, ordered.mono fun _ _ _ _ => Bool.false_ne_true⟩

structure Asked (net : Network) (root : Nat) (divisors : List Nat) (c : Candidate)
    (cone : List Nat) (e : Encoding) (formula : Formula) (differ : Signal) : Prop where
  joined : net.Joined (root :: divisors) cone
  encoded : net.Encoded cone e
  compared : Compared cone root divisors c e.formula formula differ

namespace Asked

theorem differs (asked : net.Asked root divisors c cone e formula differ) (fits : net.Fits value)
    (holds : formula.Holds f)
    (agree : ∀ n ∈ cone, net.gate? n = none → n ≠ 0 → f (cone.idxOf n) = value n) :
    ∃ answer, c.evaluate false (divisors.map value) = .ok answer ∧
      signalUnder f differ = (value root ^^ answer) := by
  have same := asked.encoded.values (asked.encoded.ordered asked.joined.ordered)
    (holds.of_extends asked.compared.grown) fits agree
  have listed := asked.joined.listed
  rw [List.forall_mem_cons] at listed
  obtain ⟨answer, evaluated, differs⟩ := asked.compared.differs f holds
  rw [List.map_congr_left fun d member => same d (listed.2 d member)] at evaluated
  exact ⟨answer, evaluated, by rw [differs, same root listed.1]⟩

theorem exists_holds (asked : net.Asked root divisors c cone e formula differ)
    (value : Nat → Bool) : ∃ f, formula.Holds f ∧
      ∀ n ∈ cone, net.gate? n = none → n ≠ 0 → f (cone.idxOf n) = value n := by
  have ordered := asked.compared.ordered (asked.encoded.ordered asked.joined.ordered)
  obtain ⟨f, holds, free⟩ := ordered.exists_holds fun v => value (cone[v]?.getD 0)
  refine ⟨f, holds, fun n member slot other => ?_⟩
  have place : cone[cone.idxOf n]? = some n := List.getElem?_idxOf member
  have entry : e.formula[cone.idxOf n]? = some .free := by
    rw [asked.encoded.entry, place]
    simp [definition, slot, other]
  rw [free _ (asked.compared.grown _ _ entry), place, Option.getD_some]

theorem right_of_unsatisfiable (asked : net.Asked root divisors c cone e formula differ)
    (none : ¬∃ f, Satisfies f formula.clauses ∧ ∀ s ∈ [differ], signalUnder f s = true) :
    Verdict.Right net root divisors c .equivalent := by
  intro value fits
  obtain ⟨f, holds, agree⟩ := asked.exists_holds value
  obtain ⟨answer, evaluated, differs⟩ := asked.differs fits holds agree
  have off : signalUnder f differ = false := Bool.eq_false_iff.2 fun shown =>
    none ⟨f, Formula.satisfies_clauses.2 holds, by simpa using shown⟩
  have equal : value root = answer := by simpa [differs] using off
  rw [evaluated, equal]

/-- Inputs outside the cone are false in the counterexample, and play no part. -/
theorem right_of_models (asked : net.Asked root divisors c cone e formula differ)
    (inPlace : net.InPlace) (evaluable : net.Evaluable)
    (inside : ∀ n ∈ root :: divisors, n < net.size) {model : List Signal}
    (models : Solver.Models model formula.clauses [differ]) :
    Verdict.Right net root divisors c (.counterexample (net.inputs.map (e.shows model))) := by
  obtain ⟨satisfied, shown⟩ := models.satisfies
  obtain ⟨value, valuation⟩ := evaluable (e.shows model)
  have shows (n : Nat) (member : n ∈ cone) :
      e.shows model n = model.contains (.ofNode (cone.idxOf n)) := by
    rw [Encoding.shows, asked.encoded.variableOf, if_pos member, Option.any_some]
  have agree : ∀ n ∈ cone, net.gate? n = none → n ≠ 0 →
      model.contains (.ofNode (cone.idxOf n)) = value n := by
    intro n member slot other
    obtain ⟨start, given, path⟩ := (asked.joined.mem_iff n).1 member
    have source := inPlace.isSource_of_gate?_eq_none
      (inPlace.lt_of_reaches path (inside start given)) slot
    rw [valuation.input n (by simpa [isSource, other] using source), shows n member]
  obtain ⟨answer, evaluated, differs⟩ :=
    asked.differs valuation.fits (Formula.satisfies_clauses.1 satisfied) agree
  rw [shown differ (List.mem_singleton.2 rfl)] at differs
  have errs : answer = !value root := by
    revert differs
    cases value root <;> cases answer <;> simp
  refine ⟨value, valuation.fits, ?_, by rw [evaluated, errs]⟩
  exact List.map_congr_left fun n member => valuation.input n (inPlace.isInput_iff.2 member)

end Asked

/-- A sound and complete solver makes every verdict right, and only the budget leaves one open. -/
theorem right_of_validateWith (inPlace : net.InPlace) (evaluable : net.Evaluable)
    (decides : solve.Decides)
    (run : net.validateWith solve maxClauses root divisors c = .ok verdict) :
    ∃ cone, net.Joined (root :: divisors) cone ∧
      (verdict = .unknown ↔ maxClauses < net.clauses cone c) ∧
      verdict.Right net root divisors c := by
  simp only [validateWith, bind_eq_ok, requireAll_eq_ok, ensure_eq_ok, beq_iff_eq] at run
  obtain ⟨_, length, _, inside, cone, sorted, run⟩ := run
  have joined := joined_of_jointCone sorted
  refine ⟨cone, joined, ?_⟩
  split at run
  · rename_i excess
    cases run
    exact ⟨iff_of_true rfl excess, trivial⟩
  · rename_i within
    obtain ⟨e, encode, encoded⟩ := exists_encodeCone joined.nodup joined.ordered
    rw [encode] at run
    simp only [bind_eq_ok, Except.ok.injEq, exists_eq_left', Prod.exists] at run
    obtain ⟨formula, differ, question, run⟩ := run
    have asked : net.Asked root divisors c cone e formula differ :=
      ⟨joined, encoded, encoded.miter_eq_ok joined.listed length question⟩
    rcases decides formula.clauses [differ] with ⟨answer, none⟩ | ⟨model, answer, models⟩
    · simp only [answer] at run
      cases run
      exact ⟨iff_of_false (by simp) within, asked.right_of_unsatisfiable none⟩
    · simp only [answer] at run
      cases run
      exact ⟨iff_of_false (by simp) within, asked.right_of_models inPlace evaluable inside models⟩

theorem validateWith_eq_ok (inPlace : net.InPlace) (evaluable : net.Evaluable)
    (decides : solve.Decides) (sound : ∀ value, net.Fits value →
      c.evaluate false (divisors.map value) = .ok (value root))
    (run : net.validateWith solve maxClauses root divisors c = .ok verdict) :
    verdict = .equivalent ∨ verdict = .unknown := by
  obtain ⟨-, -, -, right⟩ := right_of_validateWith inPlace evaluable decides run
  cases verdict with
  | equivalent => exact .inl rfl
  | unknown => exact .inr rfl
  | counterexample inputs =>
    obtain ⟨value, fits, -, wrong⟩ := right
    rw [sound value fits] at wrong
    simp at wrong

theorem length_of_counterexample {inputs : List Bool}
    (run : net.validateWith solve maxClauses root divisors c = .ok (.counterexample inputs)) :
    inputs.length = net.inputs.length := by
  simp only [validateWith, bind_eq_ok] at run
  obtain ⟨_, -, _, -, cone, -, run⟩ := run
  split at run
  · cases run
  · simp only [bind_eq_ok, Prod.exists] at run
    obtain ⟨e, -, formula, differ, -, run⟩ := run
    split at run
    · cases run
    · cases run
      exact List.length_map _
    · cases run
    · cases run

theorem exists_validateWith (solve : Solver) (maxClauses : Nat) (acyclic : net.Acyclic)
    (inside : ∀ n ∈ root :: divisors, n < net.size) (length : divisors.length = c.numDivisors)
    (closed : c.Closed) :
    ∃ verdict, net.validateWith solve maxClauses root divisors c = .ok verdict := by
  have counted : ensure (divisors.length == c.numDivisors) .outOfRange = .ok () := by
    rw [ensure_eq_ok, beq_iff_eq]
    exact length
  have slots : net.requireAll (root :: divisors) = .ok () := requireAll_eq_ok.2 inside
  have sorted : net.jointCone root divisors =
      .ok (net.postorder (root :: divisors) fun _ => false) := orderFrom_of_acyclic acyclic _ _
  have joined := joined_of_jointCone sorted
  obtain ⟨e, encode, encoded⟩ := exists_encodeCone joined.nodup joined.ordered
  obtain ⟨formula, differ, question⟩ := encoded.exists_miter joined.listed length closed
  simp only [validateWith, counted, slots, sorted, encode, question, bind, Except.bind]
  split
  · exact ⟨_, rfl⟩
  · split <;> exact ⟨_, rfl⟩

end Network

end LogicOpt
