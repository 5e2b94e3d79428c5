import LogicOpt.Proofs.SafeDivisors
import LogicOpt.Proofs.ValidCuts

/-!
How many divisors are taken. A window whose interior alone is beyond the budget is given up. Else the
limit is looked at after a gate beside the cone has joined, but not before the first one does, so a
pool that starts full still takes one gate.
-/

namespace LogicOpt

open Network

variable {net : Network} {root : Nat} {leaves cone : List Nat} {cut : Cut} {params : Params}

theorem Cutter.valid_of_run {c c' : Cutter} {pivots : List Nat} (inPlace : net.InPlace)
    (inside : ∀ p ∈ pivots, p < net.size) (run : c.run net pivots = .ok (.ok cut, c')) :
    cut.Valid net pivots c.maxLeaves c.maxFanout := by
  obtain ⟨_, room, -⟩ := bind_eq_ok.1 run
  obtain ⟨first, sound, leaves, -, outcome⟩ :=
    c.exists_growth inPlace (by simpa [ensure_eq_ok] using room) inside
  rw [run] at outcome
  split at outcome
  · cases outcome
  · rename_i few
    obtain ⟨last, ends, same⟩ := outcome
    cases same
    rw [← leaves] at few
    obtain ⟨grown, le⟩ := sound.of_ends inPlace (Nat.le_of_not_lt few) ends
    exact grown.valid inPlace le

/-- A gate beside a window that may join its divisors: it reads the leaves, the interior and a
    constant that the interior reads too, but not the root, and is neither too deep nor read too
    often. -/
structure Cut.SideGate (net : Network) (params : Params) (root : Nat) (cut : Cut) (n : Nat) :
    Prop where
  live : net.isLiveGate n = true
  outside : n ∉ cut.leaves ∧ n ∉ cut.interior
  shallow : net.level n ≤ if params.preserveDepth then net.level root else levelLimit
  few : net.fanoutCount n ≤ params.skipFanoutLimitForDivisors
  window : ∀ m, net.Feeds m n →
    m ∈ cut.leaves ∨ m ∈ cut.interior ∨ m = 0 ∧ ∃ k ∈ cut.interior, net.Feeds 0 k
  apart : ¬net.Feeds root n

theorem Network.CanonicalGates.exists_feeds (canonical : net.CanonicalGates) {n : Nat}
    (gate : net.isGate n = true) : ∃ m, net.Feeds m n ∧ m ≠ 0 := by
  obtain ⟨g, slot⟩ := Option.isSome_iff_exists.1 gate
  have nodup := (canonical n g slot).nodup_nodes
  obtain ⟨m, member, other⟩ : ∃ m ∈ g.nodes, m ≠ 0 := by
    cases g <;> simp only [Gate.nodes, Gate.operands, List.map_cons, List.nodup_cons,
      List.mem_cons, not_or] at nodup ⊢ <;> grind
  exact ⟨m, feeds_of_gate? slot member, other⟩

namespace DivisorFinder

theorem Pool.addSides_of_full {limits : SideLimits} {limit : Nat} {p : Pool}
    (full : limit ≤ p.divisors.length) (nodes : List Nat) :
    addSides net limits limit p nodes = match nodes.find? (p.admits net limits) with
      | none => (p, false)
      | some n => (p.joined n, true) := by
  induction nodes with
  | nil => rfl
  | cons n rest ih =>
    unfold addSides
    cases admitted : p.admits net limits n with
    | true =>
      have stays : limit ≤ (p.joined n).divisors.length := by
        rw [length_joined]
        omega
      rw [List.find?_cons_of_pos admitted]
      exact if_pos stays
    | false => rw [List.find?_cons_of_neg (by simp [admitted]), ← ih, if_neg Bool.false_ne_true]

theorem Pool.widen_of_full {limits : SideLimits} {limit : Nat} {p : Pool}
    (full : limit ≤ p.divisors.length) (slots : ∀ d ∈ p.divisors, d < net.size) (steps i : Nat)
    (enough : p.divisors.length ≤ i + steps) :
    widen net limits limit steps i p =
      .ok (match ((p.divisors.drop i).flatMap net.fanouts).find? (p.admits net limits) with
        | none => p
        | some n => p.joined n) := by
  induction steps generalizing i with
  | zero =>
    rw [List.drop_of_length_le (i := i) enough]
    rfl
  | succ steps ih =>
    unfold widen
    cases entry : p.divisors[i]? with
    | none => simp [List.drop_of_length_le (List.getElem?_eq_none_iff.1 entry)]
    | some d =>
      obtain ⟨inside, rfl⟩ := List.getElem?_eq_some_iff.1 entry
      have passed : net.require p.divisors[i] = .ok () :=
        require_eq_ok.2 (slots _ (List.getElem_mem inside))
      rw [List.drop_eq_getElem_cons inside, List.flatMap_cons, List.find?_append]
      simp only [passed, bind, Except.bind, addSides_of_full full]
      cases List.find? (p.admits net limits) (net.fanouts p.divisors[i]) with
      | some n => rfl
      | none => exact ih (i + 1) (by omega)

section FirstPool

variable {found : List Nat} {p : Pool} {maxLeaves maxFanout : Nat}

theorem Between.mem_interior (between : Between net root cut.leaves found)
    (valid : cut.Valid net [root] maxLeaves maxFanout)
    (separates : Separates net [root] cut.leaves cut.interior) (inPlace : net.InPlace)
    (acyclic : net.Acyclic) (inside : root < net.size) (apart : root ∉ cut.leaves) {m : Nat} :
    m ∈ cut.interior ↔ m ∈ found ∧ m ≠ 0 := by
  constructor
  · intro member
    refine ⟨?_, inPlace.ne_zero_of_isGate (valid.inner m member).1⟩
    -- From the root down: an interior node other than the root is read by an interior node.
    refine induct_of_source acyclic [root] (fun n inner => valid.origin n (.inr inner))
      (fun n _ start => ?_) (fun k _ listed n inner feeds => ?_) m member
    · rw [List.mem_singleton.1 start]
      exact between.first.resolve_left apart
    · exact (between.closed k listed n feeds).resolve_left fun leaf => valid.apart n leaf inner
  · rintro ⟨listed, other⟩
    exact ((separates.interior_of_found inPlace acyclic (by simpa using inside)
      (by simpa using between.source) between.apart m listed).resolve_left other).1

theorem Between.mem_zero (between : Between net root cut.leaves found) (inPlace : net.InPlace)
    (interior : ∀ m, m ∈ cut.interior ↔ m ∈ found ∧ m ≠ 0) (gate : net.isGate root = true) :
    0 ∈ cut.leaves ∨ 0 ∈ found ↔ 0 ∈ cut.leaves ∨ ∃ k ∈ cut.interior, net.Feeds 0 k := by
  refine ⟨Or.imp_right fun listed => ?_, fun known => known.elim .inl fun ⟨k, inner, feeds⟩ => ?_⟩
  · rcases between.source 0 listed with zero | ⟨k, above, feeds⟩
    · exact absurd zero.symm (inPlace.ne_zero_of_isGate gate)
    · exact ⟨k, (interior k).2 ⟨above, inPlace.ne_zero_of_feeds feeds⟩, feeds⟩
  · exact between.closed k ((interior k).1 inner).1 0 feeds

theorem Pool.Begun.isMarked_iff (begun : p.Begun net root cut.leaves cone found)
    (inPlace : net.InPlace) (interior : ∀ m, m ∈ cut.interior ↔ m ∈ found ∧ m ≠ 0)
    (gate : net.isGate root = true) (m : Nat) : p.visited.isMarked m = true ↔
      m ∈ cut.leaves ∨ m ∈ cut.interior ∨ m = 0 ∧ ∃ k ∈ cut.interior, net.Feeds 0 k := by
  have zero := begun.mem_zero inPlace interior gate
  rw [begun.marked, interior]
  by_cases first : m = 0
  · subst first
    simpa using zero
  · simp [first]

theorem Pool.Begun.admits_iff (begun : p.Begun net root cut.leaves cone found)
    (inPlace : net.InPlace) (interior : ∀ m, m ∈ cut.interior ↔ m ∈ found ∧ m ≠ 0)
    (gate : net.isGate root = true) {n : Nat} (live : net.isLiveGate n = true) :
    p.admits net (sideLimits net params root) n = true ↔ cut.SideGate net params root n := by
  have visited := begun.isMarked_iff inPlace interior gate
  have awake : net.isDead n = false := (isLiveGate_eq_true.1 live).2
  have nonzero := inPlace.ne_zero_of_isGate (Bool.and_eq_true_iff.1 live).1
  have fresh : p.visited.isMarked n = false ↔ n ∉ cut.leaves ∧ n ∉ cut.interior := by
    rw [Bool.eq_false_iff, Ne, visited]
    tauto
  simp only [admits, Bool.and_eq_true, Bool.not_eq_true', decide_eq_true_eq, List.all_eq_true,
    List.any_eq_false, beq_iff_eq, fresh, visited, awake]
  constructor
  · rintro ⟨⟨⟨⟨⟨outside, -⟩, shallow⟩, few⟩, window⟩, apart⟩
    refine ⟨live, outside, shallow, few, ?_, ?_⟩
    · rintro _ ⟨f, reads, rfl⟩
      exact window f reads
    · rintro ⟨f, reads, same⟩
      exact apart f reads same
  · rintro ⟨-, outside, shallow, few, window, apart⟩
    exact ⟨⟨⟨⟨⟨outside, trivial⟩, shallow⟩, few⟩, fun f reads => window f.node ⟨f, reads, rfl⟩⟩,
      fun f reads same => apart ⟨f, reads, same⟩⟩

theorem Pool.Begun.exists_fanout (begun : p.Begun net root cut.leaves cone found)
    (orderly : net.Orderly) (canonical : net.CanonicalGates)
    (interior : ∀ m, m ∈ cut.interior ↔ m ∈ found ∧ m ≠ 0)
    (clear : p.Clear net root cone) (free : FanoutFree net root cut.leaves cone) {n : Nat}
    (side : cut.SideGate net params root n) : ∃ d ∈ p.divisors, n ∈ net.fanouts d := by
  have gate := (Bool.and_eq_true_iff.1 side.live).1
  -- Any fanin but the constant will do: it is a leaf, or inside and not taken out with the root.
  obtain ⟨m, feeds, other⟩ := canonical.exists_feeds gate
  refine ⟨m, begun.mem_divisors.2 ?_, orderly.mem_fanouts.2 ⟨side.live, feeds⟩⟩
  have apart : n ∉ cone := fun member => by
    rcases (begun.marked n).1 (clear.held n member) with leaf | listed
    · exact side.outside.1 leaf
    · exact side.outside.2 ((interior n).2 ⟨listed, orderly.inPlace.ne_zero_of_isGate gate⟩)
  rcases side.window m feeds with leaf | inner | ⟨zero, -⟩
  · exact .inl leaf
  · refine .inr ⟨((interior m).1 inner).1, ?_, other⟩
    exact not_feeds_of_free free side.live apart (fun same => side.apart (same ▸ feeds)) feeds
  · exact absurd zero other

theorem Pool.Begun.length_divisors (begun : p.Begun net root cut.leaves cone found)
    (valid : cut.Valid net [root] maxLeaves maxFanout)
    (interior : ∀ m, m ∈ cut.interior ↔ m ∈ found ∧ m ≠ 0) :
    p.divisors.length =
      cut.leaves.length + (cut.interior.filter fun m => decide (m ∉ cone)).length := by
  rw [begun.divisors, List.length_append]
  congr 1
  refine List.Perm.length_eq ((List.perm_ext_iff_of_nodup (begun.nodup.filter _)
    (valid.nodup_interior.filter _)).2 fun m => ?_)
  simp only [List.mem_filter, Bool.and_eq_true, decide_eq_true_eq, bne_iff_ne, interior]
  tauto

/-- A pool within its limit outgrows it exactly if it is full and some gate may join it. -/
theorem Pool.Begun.exceeds_iff (begun : p.Begun net root cut.leaves cone found)
    (orderly : net.Orderly) (canonical : net.CanonicalGates)
    (interior : ∀ m, m ∈ cut.interior ↔ m ∈ found ∧ m ≠ 0)
    (clear : p.Clear net root cone) (free : FanoutFree net root cut.leaves cone)
    (slots : ∀ d ∈ p.divisors, d < net.size) {limit steps : Nat} {last : Pool}
    (fits : p.divisors.length ≤ limit) (enough : p.divisors.length ≤ steps)
    (widened : p.Widened net (sideLimits net params root) limit last)
    (ran : widen net (sideLimits net params root) limit steps 0 p = .ok last) :
    limit < last.divisors.length ↔
      p.divisors.length = limit ∧ ∃ n, cut.SideGate net params root n := by
  have gate := (Bool.and_eq_true_iff.1 (free.inner root free.first)).1
  rcases Nat.lt_or_eq_of_le fits with below | full
  · have le := widened.length_le
    constructor
    · omega
    · rintro ⟨full, -⟩
      omega
  · rw [widen_of_full (Nat.le_of_eq full.symm) slots steps 0 (by omega), List.drop_zero] at ran
    obtain rfl := Except.ok.inj ran
    cases first : (p.divisors.flatMap net.fanouts).find?
      (p.admits net (sideLimits net params root)) with
    | none =>
      refine ⟨fun more => absurd more (Nat.not_lt_of_le fits), fun ⟨_, n, side⟩ => ?_⟩
      obtain ⟨d, member, reader⟩ :=
        begun.exists_fanout orderly canonical interior clear free side
      have refused := List.find?_eq_none.1 first n (List.mem_flatMap.2 ⟨d, member, reader⟩)
      exact absurd ((begun.admits_iff orderly.inPlace interior gate side.live).2 side) refused
    | some n =>
      obtain ⟨d, -, reader⟩ := List.mem_flatMap.1 (List.mem_of_find?_eq_some first)
      have live := (orderly.mem_fanouts.1 reader).1
      have side := (begun.admits_iff orderly.inPlace interior gate live).1 (List.find?_some first)
      dsimp only
      rw [length_joined]
      exact ⟨fun _ => ⟨full, n, side⟩, fun _ => by omega⟩

end FirstPool

end DivisorFinder

/-- On slots that were built by the operations and pass the check, without cycles and with gates in
    normal form, the divisors of a live gate above a cut that it is not a leaf of are given up exactly
    if the interior of the cut, the cone included, is beyond the budget. Else divisors are returned,
    and with the cone they are beyond the budget by one gate at most. They are so exactly if the
    interior has used up the budget and some gate beside it may join. -/
theorem budget_run {c c' : Cutter} (cones : ConeFinder) (finder : DivisorFinder) (params : Params)
    (inPlace : net.InPlace) (integrity : net.integrityIssue? = none) (acyclic : net.Acyclic)
    (canonical : net.CanonicalGates) (live : net.isLiveGate root = true)
    (grown : c.run net [root] = .ok (.ok cut, c')) (apart : root ∉ cut.leaves) :
    ∃ cone cones' result finder', Edit.Gives (cones.run root cut.leaves) net (cone, cones') net ∧
      finder.run net root cut.leaves cone.nodes params = .ok (result, finder') ∧
      let budget := params.maxDivisors - params.maxPis
      let window := (cut.interior.filter fun m => decide (m ∉ cone.nodes)).length +
        cone.nodes.length
      if budget < window then result = .error (.divisorBudgetExceeded window budget)
      else ∃ divisors, result = .ok divisors ∧ cut.leaves.length ≤ divisors.length ∧
        divisors.length - cut.leaves.length + cone.nodes.length ≤ budget + 1 ∧
        (budget < divisors.length - cut.leaves.length + cone.nodes.length ↔
          window = budget ∧ ∃ n, cut.SideGate net params root n) := by
  have orderly := orderly_of_integrity inPlace canonical integrity
  have inside : root < net.size := lt_of_isLiveGate live
  obtain ⟨-, separates, -⟩ := Cutter.run_sound inPlace grown
  have valid := Cutter.valid_of_run inPlace (by simpa using inside) grown
  have slots : ∀ n ∈ cut.leaves, n < net.size := fun n member =>
    (Cutter.reaches_of_run inPlace grown n member).1
  obtain ⟨cone, cones', _, start, _, found, free, -, begun, clear, ready, outcome⟩ :=
    DivisorFinder.exists_pool_of_cut cones finder params orderly acyclic live grown apart
  have interior {m : Nat} :=
    begun.mem_interior valid separates inPlace acyclic inside apart (m := m)
  have length := begun.length_divisors valid fun _ => interior
  refine ⟨cone, cones', ?_⟩
  dsimp only
  rw [DivisorFinder.budget] at outcome
  split at outcome
  · refine ⟨_, _, found, outcome, ?_⟩
    rw [if_pos (by omega), length]
    congr 2
    omega
  · obtain ⟨last, ran, widened, run⟩ := outcome
    refine ⟨_, _, found, run, ?_⟩
    rw [if_neg (by omega)]
    have exceeds := begun.exceeds_iff orderly canonical (fun _ => interior) clear free
      (ready.inside slots) (by rw [DivisorFinder.poolLimit, DivisorFinder.budget]; omega)
      (by omega) widened ran
    have least := widened.length_ge
    have most := widened.length_le
    rw [DivisorFinder.poolLimit, DivisorFinder.budget] at exceeds most
    refine ⟨_, rfl, by omega, by omega, ?_⟩
    have beyond : params.maxDivisors - params.maxPis <
          last.divisors.length - cut.leaves.length + cone.nodes.length ↔
        params.maxDivisors - params.maxPis + cut.leaves.length - cone.nodes.length <
          last.divisors.length := by omega
    rw [beyond, exceeds]
    exact and_congr_left' (by omega)

/-- Gate 6 is beside gate 5, and gate 4 goes away with gate 5. -/
def crowded : List Command :=
  Command.load 3 [(.and2, [2, 4]), (.and2, [8, 6]), (.and2, [2, 6])] [10, 12]

/-- Gates 4 and 5 leave room for one gate more, and gate 6 takes it. -/
theorem budgeted_of_crowded : ∃ stages net cut c cone cones divisors finder,
    Completed (empty "crowded") crowded stages net ∧ net.WellFormed ∧
    (Cutter.ofLimits 3 1000).run net [5] = .ok (.ok cut, c) ∧ 5 ∉ cut.leaves ∧
    Edit.Gives (ConeFinder.empty.run 5 cut.leaves) net (cone, cones) net ∧
    DivisorFinder.empty.run net 5 cut.leaves cone.nodes
      { Params.default with maxPis := 3, maxDivisors := 6 } = .ok (.ok divisors, finder) ∧
    cone.nodes = [4, 5] ∧ divisors = [3, 1, 2, 6] ∧
    divisors.length - cut.leaves.length + cone.nodes.length ≤ 6 - 3 + 1 := by
  obtain ⟨stages, net, history, checks⟩ := Command.exists_completed crowded (empty "crowded")
    (fun _ net => decide net.Acyclic && net.isLiveGate 5 &&
      DivisorFinder.collects (.ofLimits 3 1000)
        { Params.default with maxPis := 3, maxDivisors := 6 } 5
        (fun cut cone divisors => decide (5 ∉ cut.leaves) && cone.nodes == [4, 5] &&
          divisors == [3, 1, 2, 6]) net)
    (by decide +kernel)
  simp only [Bool.and_eq_true, decide_eq_true_eq] at checks
  obtain ⟨⟨acyclic, live⟩, collected⟩ := checks
  have valid := history.wellFormed acyclic
  obtain ⟨cut, c, cone, cones, divisors, finder, grown, found, run, listed⟩ :=
    DivisorFinder.exists_collected valid live collected
  simp only [Bool.and_eq_true, decide_eq_true_eq, beq_iff_eq] at listed
  obtain ⟨⟨apart, nodes⟩, listed⟩ := listed
  obtain ⟨_, _, _, _, again, ran, outcome⟩ := budget_run .empty .empty
    { Params.default with maxPis := 3, maxDivisors := 6 } valid.inPlace valid.integrity acyclic
    valid.canonical live grown apart
  obtain ⟨same, -⟩ := found.unique again
  cases same
  rw [run] at ran
  cases ran
  dsimp only at outcome
  split at outcome
  · cases outcome
  · obtain ⟨_, same, -, bound, -⟩ := outcome
    cases same
    exact ⟨stages, net, cut, c, cone, cones, divisors, finder, history, valid, grown, apart, found,
      run, nodes, listed, bound⟩

/-- Gates 4 and 5 use up the budget of two gates, and gate 6 joins nevertheless. -/
theorem overfull_of_crowded : ∃ stages net cut c cone cones divisors finder,
    Completed (empty "crowded") crowded stages net ∧ net.WellFormed ∧
    net.isLiveGate 5 = true ∧ (Cutter.ofLimits 3 1000).run net [5] = .ok (.ok cut, c) ∧
    5 ∉ cut.leaves ∧ Edit.Gives (ConeFinder.empty.run 5 cut.leaves) net (cone, cones) net ∧
    DivisorFinder.empty.run net 5 cut.leaves cone.nodes
      { Params.default with maxPis := 3, maxDivisors := 5 } = .ok (.ok divisors, finder) ∧
    ¬divisors.length - cut.leaves.length + cone.nodes.length ≤ 5 - 3 := by
  obtain ⟨stages, net, history, checks⟩ := Command.exists_completed crowded (empty "crowded")
    (fun _ net => decide net.Acyclic && net.isLiveGate 5 &&
      DivisorFinder.collects (.ofLimits 3 1000)
        { Params.default with maxPis := 3, maxDivisors := 5 } 5
        (fun cut cone divisors => decide (5 ∉ cut.leaves) &&
          decide (¬divisors.length - cut.leaves.length + cone.nodes.length ≤ 5 - 3)) net)
    (by decide +kernel)
  simp only [Bool.and_eq_true, decide_eq_true_eq] at checks
  obtain ⟨⟨acyclic, live⟩, collected⟩ := checks
  have valid := history.wellFormed acyclic
  obtain ⟨cut, c, cone, cones, divisors, finder, grown, found, run, listed⟩ :=
    DivisorFinder.exists_collected valid live collected
  simp only [Bool.and_eq_true, decide_eq_true_eq] at listed
  exact ⟨stages, net, cut, c, cone, cones, divisors, finder, history, valid, live, grown, listed.1,
    found, run, listed.2⟩

end LogicOpt
