import LogicOpt.Network.Level
import LogicOpt.Proofs.GreatestCones
import LogicOpt.Proofs.WindowRuns

namespace LogicOpt

open Network

variable {net : Network} {root : Nat} {leaves cone : List Nat}

/-- The level recorded at a live node is the one that its fanins give it. -/
def Network.ExactLevels (net : Network) : Prop :=
  ∀ n < net.size, net.isDead n = false → net.level n = net.computedLevel n

instance : Decidable net.ExactLevels :=
  inferInstanceAs (Decidable (∀ n < net.size, net.isDead n = false → _))

theorem le_foldl_max (levels : List Nat) (start : Nat) :
    start ≤ levels.foldl max start ∧ ∀ a ∈ levels, a ≤ levels.foldl max start := by
  induction levels generalizing start with
  | nil => simp
  | cons a rest ih =>
    obtain ⟨first, later⟩ := ih (max start a)
    rw [List.foldl_cons, List.forall_mem_cons]
    exact ⟨by omega, by omega, later⟩

theorem Network.ExactLevels.level_lt (exact : net.ExactLevels) (balanced : net.Balanced) {m n : Nat}
    (live : net.isDead n = false) (feeds : net.Feeds m n) : net.level m < net.level n := by
  have awake : net.isDead m = false := (Reaches.refl n).step feeds |>.live balanced live
  obtain ⟨g, slot, reads⟩ := feeds_iff.1 feeds
  obtain ⟨f, member, rfl⟩ := Gate.mem_nodes.1 reads
  have listed : net.level f.node ∈
      (g.operands.filter fun f => !net.isDead f.node).map fun f => net.level f.node :=
    List.mem_map_of_mem (List.mem_filter.2 ⟨member, by simp [awake]⟩)
  have le := (le_foldl_max _ 0).2 _ listed
  rw [exact n (lt_size_of_gate? slot) live, computedLevel, slot]
  exact Nat.lt_succ_of_le le

theorem Network.ExactLevels.level_le (exact : net.ExactLevels) (balanced : net.Balanced) {m n : Nat}
    (live : net.isDead n = false) (path : net.Reaches n m) : net.level m ≤ net.level n := by
  induction path with
  | refl => exact Nat.le_refl _
  | step path feeds ih =>
    exact Nat.le_trans (Nat.le_of_lt (exact.level_lt balanced (path.live balanced live) feeds)) ih

namespace DivisorFinder

variable {p p' : Pool} {found : List Nat} {limits : SideLimits} {limit : Nat}

theorem Pool.Begun.nodup_divisors (begun : p.Begun net root leaves cone found)
    (nodup : leaves.Nodup) : p.divisors.Nodup := by
  rw [begun.divisors]
  refine List.nodup_append.2 ⟨nodup, begun.nodup.filter _, ?_⟩
  rintro n leaf _ member rfl
  exact begun.apart n (List.mem_filter.1 member).1 leaf

theorem Pool.Widened.nodup (widened : p.Widened net limits limit p') (same : limits.root = root)
    (clear : p.Clear net root cone) (nodup : p.divisors.Nodup) : p'.divisors.Nodup := by
  refine (widened.keeps (fun q => q.Clear net root cone ∧ q.divisors.Nodup)
    ⟨clear, nodup⟩ fun q n held live admitted => ⟨held.1.join same admitted, ?_⟩).2
  have fresh : n ∉ q.divisors := fun member => by
    simp [admits, (held.1.divisors n member).1] at admitted
  refine List.nodup_append.2 ⟨held.2, List.nodup_singleton n, fun m member k single same => ?_⟩
  rw [same, List.mem_singleton.1 single] at member
  exact fresh member

theorem Pool.Begun.below_divisors (begun : p.Begun net root leaves cone found)
    (below : ∀ n ∈ leaves, net.Reaches root n) : ∀ d ∈ p.divisors, net.Reaches root d := by
  intro d member
  rcases begun.mem_divisors.1 member with leaf | ⟨listed, -⟩
  · exact below d leaf
  · exact begun.below d listed

theorem Pool.Widened.level_le (widened : p.Widened net limits limit p')
    (start : ∀ d ∈ p.divisors, net.level d ≤ limits.maxLevel) :
    ∀ d ∈ p'.divisors, net.level d ≤ limits.maxLevel := by
  refine widened.keeps (fun q => ∀ d ∈ q.divisors, net.level d ≤ limits.maxLevel) start ?_
  intro q n shallow _ admitted d member
  simp only [admits, Bool.and_eq_true, decide_eq_true_eq] at admitted
  rcases mem_joined.1 member with earlier | rfl
  · exact shallow d earlier
  · exact admitted.1.1.1.2

/-- Divisors of a root with a cone above some leaves: the leaves, and then nodes that read the
    constant and earlier divisors only. None of them is computed from the root, so none is the
    root. -/
structure Safe (net : Network) (root : Nat) (leaves cone divisors : List Nat) : Prop where
  nodup : divisors.Nodup
  begins : leaves <+: divisors
  live : ∀ d ∈ divisors, d < net.size ∧ net.isDead d = false
  apart : ∀ d ∈ divisors, d ∉ cone
  not_reaches : ∀ d ∈ divisors, ¬net.Reaches d root
  earlier : ∀ before d after, divisors = before ++ d :: after → leaves.length ≤ before.length →
    ∀ m, net.Feeds m d → m = 0 ∨ m ∈ before

theorem Pool.Clear.safe (clear : p.Clear net root cone) (ready : p.Ready net leaves cone)
    (nodup : p.divisors.Nodup) (slots : ∀ n ∈ leaves, n < net.size) (first : root ∈ cone) :
    Safe net root leaves cone p.divisors where
  nodup := nodup
  begins := by
    obtain ⟨rest, divisors, -⟩ := ready.rest
    exact ⟨rest, divisors.symm⟩
  live := fun d member => ⟨ready.inside slots d member, clear.live d member⟩
  apart := fun d member => (clear.divisors d member).2
  not_reaches := by
    intro d member
    obtain ⟨visited, outside⟩ := clear.divisors d member
    exact clear.behind d visited fun here => outside (here ▸ first)
  earlier := by
    obtain ⟨rest, divisors, ordered, -⟩ := ready.rest
    intro before d after split long m feeds
    rw [divisors] at split
    -- The divisor comes after the leaves, so it is one of those that were added.
    obtain ⟨middle, rfl, rfl⟩ : ∃ middle, before = leaves ++ middle ∧
        rest = middle ++ d :: after := by
      rcases List.append_eq_append_iff.1 split with ⟨as, rfl, rest⟩ | ⟨bs, rfl, rest⟩
      · exact ⟨as, rfl, rest⟩
      · obtain rfl : bs = [] := by simpa using long
        exact ⟨[], by simp, by simpa using rest.symm⟩
    have known := ordered.known feeds
    rw [List.mem_append]
    tauto

theorem Pool.Ready.simulates (ready : p.Ready net leaves cone)
    (free : FanoutFree net root leaves cone) (ordered : net.InOrder (fun m => m ∉ cone) cone)
    (normalize : Bool) :
    let window := Window.simulate net leaves (p.divisors.drop leaves.length ++ cone) normalize
    (∀ cause, window ≠ .ok (.error cause)) ∧
      (leaves.length < 64 →
        ∃ w, window = .ok (.ok w) ∧ w.Holds root ∧ ∀ d ∈ p.divisors, w.Holds d) := by
  obtain ⟨rest, divisors, sorted, gates⟩ := ready.inOrder free ordered
  have dropped : p.divisors.drop leaves.length = rest := by rw [divisors, List.drop_left]
  rw [dropped]
  have found (few : leaves.length < 64) := Window.exists_simulate normalize few sorted
    fun n member => .inr (gates n member)
  refine ⟨fun cause failed => ?_, fun few => ?_⟩
  · obtain ⟨_, few, -⟩ := bind_eq_ok.1 failed
    obtain ⟨w, ran, -⟩ := found (TruthTable.checkVars_eq_ok.1 few)
    rw [failed] at ran
    cases ran
  · obtain ⟨w, ran, held⟩ := found few
    refine ⟨w, ran, held root (.inr (List.mem_append_right _ free.first)), fun d member => ?_⟩
    rw [divisors, List.mem_append] at member
    exact held d (member.elim (fun leaf => .inl (.inr leaf))
      fun later => .inr (List.mem_append_left _ later))

theorem exists_pool_of_cut {c c' : Cutter} {cut : Cut} (cones : ConeFinder)
    (finder : DivisorFinder) (params : Params) (orderly : net.Orderly) (acyclic : net.Acyclic)
    (live : net.isLiveGate root = true) (grown : c.run net [root] = .ok (.ok cut, c'))
    (apart : root ∉ cut.leaves) :
    ∃ cone cones' found start inCone,
      Edit.Gives (cones.run root cut.leaves) net (cone, cones') net ∧
      FanoutFree net root cut.leaves cone.nodes ∧
      net.InOrder (fun m => m ∉ cone.nodes) cone.nodes ∧
      finder.Collecting net root cut.leaves cone.nodes params found start inCone := by
  obtain ⟨-, separates, -⟩ := Cutter.run_sound orderly.inPlace grown
  have reached := Cutter.reaches_of_run orderly.inPlace grown
  obtain ⟨cone, cones', _, gives, released⟩ := Edit.exists_runCone cones orderly.balanced acyclic
    live fun n member => (reached n member).1
  have free := fanoutFree_of_releasing orderly.balanced live released.state
  obtain ⟨found, start, inCone, collecting⟩ :=
    finder.exists_pool params orderly acyclic free separates apart reached
  exact ⟨cone, cones', found, start, inCone, gives, free, released.ordered, collecting⟩

def collects (c : Cutter) (params : Params) (root : Nat)
    (holds : Cut → Cone → List Nat → Bool) (net : Network) : Bool :=
  (c.run net [root]).toOption.any fun grown => grown.1.toOption.any fun cut =>
    Edit.yields (ConeFinder.empty.run root cut.leaves) (fun found net' =>
      (empty.run net' root cut.leaves found.1.nodes params).toOption.any fun pool =>
        pool.1.toOption.any (holds cut found.1)) net

theorem exists_collected {c : Cutter} {params : Params} {holds : Cut → Cone → List Nat → Bool}
    (valid : net.WellFormed) (live : net.isLiveGate root = true)
    (collected : collects c params root holds net = true) :
    ∃ cut c' cone cones divisors finder, c.run net [root] = .ok (.ok cut, c') ∧
      Edit.Gives (ConeFinder.empty.run root cut.leaves) net (cone, cones) net ∧
      empty.run net root cut.leaves cone.nodes params = .ok (.ok divisors, finder) ∧
      holds cut cone divisors = true := by
  obtain ⟨⟨_, c'⟩, grown, collected⟩ := exists_of_any collected
  obtain ⟨cut, rfl, collected⟩ := exists_of_any collected
  obtain ⟨⟨cone, cones⟩, _, found, collected⟩ := Edit.exists_gives collected
  obtain ⟨⟨_, finder⟩, run, collected⟩ := exists_of_any collected
  obtain ⟨divisors, rfl, listed⟩ := exists_of_any collected
  obtain ⟨_, _, _, again, -⟩ := Edit.exists_runCone .empty
    (balanced_of_integrity valid.inPlace valid.integrity) valid.acyclic live
    fun n member => (Cutter.reaches_of_run valid.inPlace grown n member).1
  obtain ⟨-, rfl⟩ := found.unique again
  exact ⟨cut, c', cone, cones, divisors, finder, grown, found, run, listed⟩

end DivisorFinder

/-- On slots that were built by the operations and pass the check, without cycles and with gates in
    normal form, the divisors of a live gate above a cut that it is not a leaf of are found or there
    are too many, whatever the finders were used for before. They are safe; with exact levels, if
    depth is to be preserved, none is deeper than the root; and the window of the leaves, the other
    divisors and the cone is never incomplete and has tables for the root and every divisor. -/
theorem safe_run {c c' : Cutter} {cut : Cut} (cones : ConeFinder) (finder : DivisorFinder)
    (params : Params) (inPlace : net.InPlace) (integrity : net.integrityIssue? = none)
    (acyclic : net.Acyclic) (canonical : net.CanonicalGates) (live : net.isLiveGate root = true)
    (grown : c.run net [root] = .ok (.ok cut, c')) (apart : root ∉ cut.leaves) :
    ∃ cone cones' result finder', Edit.Gives (cones.run root cut.leaves) net (cone, cones') net ∧
      finder.run net root cut.leaves cone.nodes params = .ok (result, finder') ∧
      ∀ divisors, result = .ok divisors →
        DivisorFinder.Safe net root cut.leaves cone.nodes divisors ∧
        (params.preserveDepth = true → net.ExactLevels →
          ∀ d ∈ divisors, net.level d ≤ net.level root) ∧
        ∀ normalize,
          let window := Window.simulate net cut.leaves
            (divisors.drop cut.leaves.length ++ cone.nodes) normalize
          (∀ cause, window ≠ .ok (.error cause)) ∧
            (cut.leaves.length < 64 →
              ∃ w, window = .ok (.ok w) ∧ w.Holds root ∧ ∀ d ∈ divisors, w.Holds d) := by
  have orderly := orderly_of_integrity inPlace canonical integrity
  obtain ⟨-, separates, -⟩ := Cutter.run_sound inPlace grown
  have reached := Cutter.reaches_of_run inPlace grown
  have slots : ∀ n ∈ cut.leaves, n < net.size := fun n member => (reached n member).1
  obtain ⟨cone, cones', _, start, _, found, free, ordered, begun, clear, ready, outcome⟩ :=
    DivisorFinder.exists_pool_of_cut cones finder params orderly acyclic live grown apart
  refine ⟨cone, cones', ?_⟩
  split at outcome
  · exact ⟨_, _, found, outcome, by simp⟩
  · obtain ⟨last, -, widened, run⟩ := outcome
    refine ⟨_, _, found, run, fun divisors same => ?_⟩
    cases same
    -- What holds of the first pool is kept by every gate that joins.
    have nodup := widened.nodup rfl clear (begun.nodup_divisors separates.nodup)
    obtain ⟨clear, ready⟩ := widened.clear_ready rfl free clear ready
    refine ⟨clear.safe ready nodup slots free.first, fun preserve exact => ?_,
      ready.simulates free ordered⟩
    have deepest : (DivisorFinder.sideLimits net params root).maxLevel = net.level root := by
      simp [DivisorFinder.sideLimits, preserve]
    rw [← deepest]
    refine widened.level_le fun d member => ?_
    rw [deepest]
    exact exact.level_le orderly.balanced (isLiveGate_eq_true.1 live).2
      (begun.below_divisors (fun n leaf => (reached n leaf).2) d member)

/-- Gate 8 reads gate 5 along two ways; gates 9 to 12 are beside it, and only gate 12 is deeper. -/
def flanked : List Command :=
  Command.load 4 [(.and2, [2, 4]), (.xor2, [10, 6]), (.and2, [10, 9]), (.and2, [12, 14]),
    (.and2, [6, 8]), (.xor2, [18, 2]), (.and2, [20, 10]), (.and2, [22, 19])] [16, 24]

/-- Gates 9, 10 and 11 join one after another; gate 12 reads two of them but is too deep. -/
theorem safe_of_flanked : ∃ stages net cut c cone cones divisors finder,
    Completed (empty "flanked") flanked stages net ∧ net.WellFormed ∧ net.ExactLevels ∧
    (Cutter.ofLimits 4 100).run net [8] = .ok (.ok cut, c) ∧ cut.leaves = [3, 4, 1, 2] ∧
    Edit.Gives (ConeFinder.empty.run 8 cut.leaves) net (cone, cones) net ∧
    DivisorFinder.empty.run net 8 cut.leaves cone.nodes
      { Params.default with preserveDepth := true } = .ok (.ok divisors, finder) ∧
    divisors = [3, 4, 1, 2, 5, 9, 10, 11] ∧
    DivisorFinder.Safe net 8 cut.leaves cone.nodes divisors ∧
    (∀ d ∈ divisors, net.level d ≤ net.level 8) ∧
    ∃ w, Window.simulate net cut.leaves (divisors.drop cut.leaves.length ++ cone.nodes) true =
      .ok (.ok w) ∧ w.Holds 8 ∧ ∀ d ∈ divisors, w.Holds d := by
  obtain ⟨stages, net, history, checks⟩ := Command.exists_completed flanked (empty "flanked")
    (fun _ net => decide net.Acyclic && net.isLiveGate 8 && decide net.ExactLevels &&
      DivisorFinder.collects (.ofLimits 4 100) { Params.default with preserveDepth := true } 8
        (fun cut _ divisors => cut.leaves == [3, 4, 1, 2] &&
          divisors == [3, 4, 1, 2, 5, 9, 10, 11]) net)
    (by decide +kernel)
  simp only [Bool.and_eq_true, decide_eq_true_eq] at checks
  obtain ⟨⟨⟨acyclic, live⟩, exact⟩, collected⟩ := checks
  have valid := history.wellFormed acyclic
  obtain ⟨cut, c, cone, cones, divisors, finder, grown, found, run, listed⟩ :=
    DivisorFinder.exists_collected valid live collected
  simp only [Bool.and_eq_true, beq_iff_eq] at listed
  obtain ⟨leaves, listed⟩ := listed
  obtain ⟨_, _, _, _, again, ran, safe⟩ := safe_run .empty .empty
    { Params.default with preserveDepth := true } valid.inPlace valid.integrity acyclic
    valid.canonical live grown (by simp [leaves])
  obtain ⟨same, -⟩ := found.unique again
  cases same
  rw [run] at ran
  cases ran
  obtain ⟨safe, shallow, window⟩ := safe divisors rfl
  exact ⟨stages, net, cut, c, cone, cones, divisors, finder, history, valid, exact, grown, leaves,
    found, run, listed, safe, shallow rfl exact, (window true).2 (by simp [leaves])⟩

end LogicOpt
