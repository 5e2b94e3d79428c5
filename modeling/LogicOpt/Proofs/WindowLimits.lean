import LogicOpt.Proofs.AcceptedCandidates
import LogicOpt.Proofs.DivisorBudget
import LogicOpt.Proofs.WindowRuns

namespace LogicOpt

open Network

variable {net : Network} {params : Params} {root : Nat} {cut : Cut}

theorem Cut.Valid.leaf_of_interior {pivots : List Nat} {maxLeaves maxFanout : Nat}
    (valid : cut.Valid net pivots maxLeaves maxFanout) (acyclic : net.Acyclic)
    (canonical : net.CanonicalGates) {n : Nat} (inner : n ∈ cut.interior) :
    ∃ m, m ∈ cut.leaves := by
  induction n using acyclic.induction with
  | _ n ih =>
    obtain ⟨m, feeds, other⟩ := canonical.exists_feeds (valid.inner n inner).1
    rcases valid.closed n inner m feeds with zero | leaf | further
    · exact absurd zero other
    · exact ⟨m, leaf⟩
    · exact ih m feeds further

theorem Cutter.exists_cut (c : Cutter) (pivots : List Nat) (inPlace : net.InPlace)
    (room : c.maxLeaves < capacityLimit) (inside : ∀ p ∈ pivots, p < net.size)
    (few : pivots.length ≤ c.maxLeaves) :
    ∃ cut marks, c.run net pivots = .ok (.ok cut, { c with marks }) ∧
      cut.Valid net pivots c.maxLeaves c.maxFanout := by
  obtain ⟨first, -, -, -, outcome⟩ := c.exists_growth inPlace room inside
  rw [if_neg (Nat.not_lt.2 ((length_eraseDups_le pivots).trans few))] at outcome
  obtain ⟨last, -, run⟩ := outcome
  exact ⟨_, last.marks, run, valid_of_run inPlace inside run⟩

namespace DivisorFinder

/-- The pool may outgrow the budget by one, but then the cone of the root takes up a place. -/
theorem length_of_run {c c' : DivisorFinder} {leaves interior cone divisors : List Nat}
    (orderly : net.Orderly) (acyclic : net.Acyclic) (free : FanoutFree net root leaves cone)
    (separates : Separates net [root] leaves interior) (apart : root ∉ leaves)
    (below : ∀ n ∈ leaves, n < net.size ∧ net.Reaches root n)
    (run : c.run net root leaves cone params = .ok (.ok divisors, c')) :
    divisors.length ≤ budget params + leaves.length := by
  have first := List.length_pos_of_mem free.first
  obtain ⟨found, start, inCone, begun, -, -, outcome⟩ :=
    c.exists_pool params orderly acyclic free separates apart below
  split at outcome
  · rw [run] at outcome
    cases outcome
  · obtain ⟨last, -, widened, ran⟩ := outcome
    rw [run] at ran
    cases ran
    have most := widened.length_le
    rw [poolLimit] at most
    omega

end DivisorFinder

/-- The limits on all that is built for a root above a cut that it is not a leaf of. The tables of the
    window, of the target and of the care set are over the leaves of the cut. -/
structure RootLimits (params : Params) (net : Network) (s : PassState) (root : Nat) (cut : Cut) :
    Prop where
  leaves : 1 ≤ cut.leaves.length ∧ cut.leaves.length ≤ Params.maxWindowVars
  wider : params.useDontCares = true → ∃ wide c unreachable,
    (Cutter.ofLimits params.windowSize params.maxFanoutToExpand).run net cut.leaves =
        .ok (.ok wide, c) ∧
      wide.leaves.length ≤ Params.maxWindowVars ∧
      dontCares net cut.leaves params.windowSize params.maxFanoutToExpand = .ok unreachable
  pool : ∃ found s', Edit.Gives (Edit.findDivisors params s root) net (found, s') net ∧
    ∀ leaves cone divisors, found = some (leaves, cone, divisors) →
      leaves = cut.leaves ∧ divisors.length ≤ params.maxDivisors ∧ 1 ≤ cone.gain
  window : ∃ built s', Edit.Gives (Edit.buildWindow params s root) net (built, s') net ∧
    ∀ w, built = some w →
      w.leaves = cut.leaves ∧ w.divisors.length ≤ params.maxDivisors ∧
        w.functions.length = w.divisors.length ∧ 1 ≤ w.gain
  candidate : ∀ (solve : Solver) (f : Resynthesizer) a s' net',
    Edit.Gives (Edit.evaluateRoot solve params f s root) net (some a, s') net' →
      a.candidate.numGates ≤ a.gain - 1 ∧ 1 ≤ a.gain

namespace Edit

variable {net' : Network} {s s' : PassState}

theorem findDivisors_leaves {leaves divisors : List Nat} {cone : Cone} {marks : Marks}
    (grown : s.cutter.run net [root] = .ok (.ok cut, { s.cutter with marks }))
    (run : Gives (findDivisors params s root) net (some (leaves, cone, divisors), s') net') :
    leaves = cut.leaves := by
  simp only [findDivisors, gives_bind, gives_check] at run
  obtain ⟨_, _, ⟨again, rfl⟩, run⟩ := run
  rw [grown] at again
  cases again
  simp only [gives_ite, gives_bind, gives_pure, gives_check] at run
  obtain ⟨-, same, -⟩ | ⟨-, ⟨cone, cones⟩, _, -, ⟨-, same, -⟩ | ⟨-, ⟨found, finder⟩, _, -, run⟩⟩ := run
  · cases same
  · cases same
  · cases found with
    | error cause =>
      simp only [gives_pure] at run
      cases run.1
    | ok found =>
      simp only [gives_pure] at run
      cases run.1
      rfl

section

variable (orderly : net.Orderly) (acyclic : net.Acyclic) (fitting : params.Fitting)
  (live : net.isLiveGate root = true) (limit : s.cutter.maxLeaves = params.maxPis) {marks : Marks}
  (grown : s.cutter.run net [root] = .ok (.ok cut, { s.cutter with marks }))
include orderly acyclic fitting live limit grown

theorem findDivisors_limits {leaves divisors : List Nat} {cone : Cone}
    (run : Gives (findDivisors params s root) net (some (leaves, cone, divisors), s') net') :
    leaves = cut.leaves ∧ divisors.length ≤ params.maxDivisors ∧ 1 ≤ cone.gain := by
  obtain rfl := findDivisors_leaves grown run
  obtain ⟨-, parts⟩ := findDivisors_gives orderly live run
  obtain ⟨⟨c, c', interior, again⟩, apart, free, gain, finder, finder', collected⟩ := parts _ _ _ rfl
  obtain ⟨-, separates, few⟩ := Cutter.run_sound orderly.inPlace grown
  have below := Cutter.reaches_of_run orderly.inPlace grown
  have bound := DivisorFinder.length_of_run orderly acyclic free separates apart below collected
  have first := List.length_pos_of_mem free.first
  have room := fitting.divisors
  rw [DivisorFinder.budget] at bound
  rw [limit] at few
  exact ⟨rfl, by omega, by omega⟩

theorem buildWindow_limits {w : RootWindow}
    (run : Gives (buildWindow params s root) net (some w, s') net') :
    w.leaves = cut.leaves ∧ w.divisors.length ≤ params.maxDivisors ∧
      w.functions.length = w.divisors.length ∧ 1 ≤ w.gain := by
  simp only [buildWindow, gives_bind] at run
  obtain ⟨⟨parts, middle⟩, mid, searched, run⟩ := run
  cases parts with
  | none => simp at run
  | some parts =>
    obtain ⟨leaves, cone, divisors⟩ := parts
    simp only [gives_bind, gives_pure] at run
    obtain ⟨window, _, simulated, same, -⟩ := run
    cases same
    obtain ⟨same, count, gain⟩ := findDivisors_limits orderly acyclic fitting live limit grown searched
    obtain ⟨-, built⟩ := simulateRoot_gives simulated
    obtain ⟨-, saved, pool, leaves, _, _, -, -, -, length, -⟩ := built w rfl
    exact ⟨leaves.trans same, by rwa [pool], by rw [length, pool], by rwa [saved]⟩

end

end Edit

/-- The cut of a live gate has room for it. Unless the gate is a leaf of its own cut, all that is built
    for it keeps to the limits. -/
theorem limits_of_valid (s : PassState) (valid : params.validate = .ok ())
    (limit : s.cutter.maxLeaves = params.maxPis) (inPlace : net.InPlace)
    (integrity : net.integrityIssue? = none) (acyclic : net.Acyclic)
    (canonical : net.CanonicalGates) (live : net.isLiveGate root = true) :
    ∃ cut marks, s.cutter.run net [root] = .ok (.ok cut, { s.cutter with marks }) ∧
      (root ∉ cut.leaves → RootLimits params net s root cut) := by
  have orderly := orderly_of_integrity inPlace canonical integrity
  have fitting := Params.fitting_of_valid valid
  have small : params.maxPis < Cutter.capacityLimit :=
    Nat.lt_of_le_of_lt fitting.few_leaves (by decide)
  obtain ⟨cut, marks, grown, shape⟩ := s.cutter.exists_cut [root] inPlace (by rwa [limit])
    (by simpa using lt_of_isLiveGate live) (by simpa [limit] using fitting.some_leaves)
  refine ⟨cut, marks, grown, fun apart => ?_⟩
  have few : cut.leaves.length ≤ params.maxPis := limit ▸ shape.length_le
  have slots : ∀ n ∈ cut.leaves, n < net.size := fun n member =>
    (Cutter.reaches_of_run inPlace grown n member).1
  constructor
  case leaves =>
    obtain ⟨m, leaf⟩ := shape.leaf_of_interior acyclic canonical
      ((shape.covers root (by simp)).resolve_left apart)
    exact ⟨List.length_pos_of_mem leaf, few.trans fitting.few_leaves⟩
  case wider =>
    intro used
    obtain ⟨enough, bound⟩ := fitting.window used
    obtain ⟨wide, marks', again, shape'⟩ :=
      (Cutter.ofLimits params.windowSize params.maxFanoutToExpand).exists_cut cut.leaves inPlace
        (Nat.lt_of_le_of_lt bound (by decide)) slots (few.trans enough)
    have vars : cut.leaves.length < 64 :=
      Nat.lt_of_le_of_lt (few.trans fitting.few_leaves) (by decide)
    obtain ⟨unreachable, masked⟩ := exists_dontCares params.maxFanoutToExpand inPlace acyclic slots
      vars (Nat.lt_of_le_of_lt bound (by decide))
    exact ⟨wide, _, unreachable, again, shape'.length_le.trans bound, masked⟩
  case pool =>
    obtain ⟨found, s', run, -⟩ := Edit.exists_findDivisors orderly acyclic live limit small
    refine ⟨found, s', run, fun leaves cone divisors same => ?_⟩
    subst same
    exact Edit.findDivisors_limits orderly acyclic fitting live limit grown run
  case window =>
    obtain ⟨built, s', run, -⟩ := Edit.exists_buildWindow orderly acyclic live valid limit
    refine ⟨built, s', run, fun w same => ?_⟩
    subst same
    exact Edit.buildWindow_limits orderly acyclic fitting live limit grown run
  case candidate =>
    intro solve f a s' net' run
    obtain ⟨-, parts⟩ := Edit.evaluateRoot_gives orderly live run
    obtain ⟨w, cone, -, window, chosen⟩ := parts a rfl
    obtain ⟨fewer, positive⟩ := chosen.bounded window
    exact ⟨fewer.trans (Nat.min_le_right _ _), positive⟩

/-- Gates 4 and 5 use up the budget of two gates, and the pool of the leaves and gate 6 still has room
    under the limit of five divisors. -/
theorem limits_of_crowded : ∃ stages net cut,
    let params : Params := { Params.default with maxPis := 3, maxDivisors := 5, useDontCares := true }
    Completed (empty "crowded") crowded stages net ∧ net.WellFormed ∧
      net.isLiveGate 5 = true ∧ params.validate = .ok () ∧ cut.leaves = [3, 1, 2] ∧
      RootLimits params net (.start params .zero) 5 cut := by
  let params : Params := { Params.default with maxPis := 3, maxDivisors := 5, useDontCares := true }
  obtain ⟨stages, net, history, checks⟩ := Command.exists_completed crowded (empty "crowded")
    (fun _ net => decide net.Acyclic && net.isLiveGate 5 &&
      ((PassState.start params .zero).cutter.run net [5]).toOption.any fun grown =>
        grown.1.toOption.any fun cut => cut.leaves == [3, 1, 2])
    (by decide +kernel)
  simp only [Bool.and_eq_true, decide_eq_true_eq] at checks
  obtain ⟨⟨acyclic, live⟩, checks⟩ := checks
  have wellFormed := history.wellFormed acyclic
  have valid : params.validate = .ok () := rfl
  obtain ⟨cut, _, grown, limits⟩ := limits_of_valid (.start params .zero) valid rfl
    wellFormed.inPlace wellFormed.integrity acyclic wellFormed.canonical live
  have leaves : cut.leaves = [3, 1, 2] := by simpa [grown, Except.toOption] using checks
  exact ⟨stages, net, cut, history, wellFormed, live, valid, leaves, limits (by simp [leaves])⟩

end LogicOpt
