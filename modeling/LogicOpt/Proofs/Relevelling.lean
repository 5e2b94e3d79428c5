import LogicOpt.Proofs.GateCreation
import LogicOpt.Proofs.Postorders
import LogicOpt.Proofs.SafeDivisors

namespace LogicOpt

namespace Network

variable {net : Network} {known : Nat → Prop}

theorem inOrder_setLevel {n level : Nat} {order : List Nat} :
    (net.setLevel n level).InOrder known order ↔ net.InOrder known order := by
  induction order generalizing known with
  | nil => exact Iff.rfl
  | cons m rest ih => exact and_congr_right fun _ => ih

theorem level_setLevel {n level m : Nat} :
    (net.setLevel n level).level m =
      if m = n ∧ n < net.levels.size then level else net.level m := by
  simp only [Network.level, setLevel, Array.getElem?_setIfInBounds]
  by_cases same : n = m
  · subst same
    by_cases inside : n < net.levels.size <;> simp [inside]
  · simp [same, Ne.symm same]

theorem computedLevel_setLevel {n level m : Nat} (unread : ¬net.Feeds n m) :
    (net.setLevel n level).computedLevel m = net.computedLevel m := by
  have slots : (net.setLevel n level).gate? m = net.gate? m := rfl
  have dead (k : Nat) : (net.setLevel n level).isDead k = net.isDead k := rfl
  rw [computedLevel, computedLevel, slots]
  cases slot : net.gate? m with
  | none => rfl
  | some g =>
    simp only [faninLevel, dead]
    refine congrArg (fun levels => List.foldl max 0 levels + 1) (List.map_congr_left ?_)
    intro f member
    have apart : f.node ≠ n := by
      rintro rfl
      exact unread (feeds_iff.2 ⟨g, slot, Gate.mem_nodes.2 ⟨f, (List.mem_filter.1 member).1, rfl⟩⟩)
    simp [level_setLevel, apart]

/-- The known nodes have the level that their fanins give them, and what they read is known. -/
structure Settled (net : Network) (known : Nat → Prop) : Prop where
  exact : ∀ n, known n → net.level n = net.computedLevel n
  closed : ∀ n, known n → ∀ m, net.Feeds m n → known m

theorem Settled.relevelNode {n : Nat} (settled : net.Settled known) (fresh : ¬known n)
    (inside : n < net.levels.size) (ready : ∀ m, net.Feeds m n → known m) :
    (net.relevelNode n).Settled fun m => known m ∨ m = n where
  exact := by
    rintro m (before | rfl)
    · have unread : ¬net.Feeds n m := fun feeds => fresh (settled.closed m before n feeds)
      have apart : m ≠ n := fun same => fresh (same ▸ before)
      rw [Network.relevelNode, computedLevel_setLevel unread, level_setLevel]
      simp [apart, settled.exact m before]
    · have unread : ¬net.Feeds m m := fun feeds => fresh (ready m feeds)
      rw [Network.relevelNode, computedLevel_setLevel unread, level_setLevel]
      simp [inside]
  closed := by
    rintro m (before | rfl) k feeds
    · exact .inl (settled.closed m before k feeds)
    · exact .inl (ready k feeds)

theorem Settled.foldl {order : List Nat} (settled : net.Settled known)
    (ordered : net.InOrder known order) (nodup : order.Nodup) (fresh : ∀ n ∈ order, ¬known n)
    (inside : ∀ n ∈ order, n < net.levels.size) :
    (order.foldl Network.relevelNode net).Settled fun n => known n ∨ n ∈ order := by
  induction order generalizing net known with
  | nil => simpa using settled
  | cons n rest ih =>
    obtain ⟨first, others⟩ := List.nodup_cons.1 nodup
    rw [List.forall_mem_cons] at fresh inside
    have step := settled.relevelNode fresh.1 inside.1 ordered.1
    have later := ih step (inOrder_setLevel.2 ordered.2) others
      (fun m member => by
        rintro (before | rfl)
        · exact fresh.2 m member before
        · exact first member)
      (fun m member => by simpa [Network.relevelNode, setLevel] using inside.2 m member)
    simpa [or_assoc] using later

theorem getElem?_levels_foldl {order : List Nat} {n : Nat} (other : n ∉ order) :
    (order.foldl Network.relevelNode net).levels[n]? = net.levels[n]? := by
  induction order generalizing net with
  | nil => rfl
  | cons m rest ih =>
    rw [List.mem_cons, not_or] at other
    rw [List.foldl_cons, ih other.2, Network.relevelNode, setLevel]
    exact Array.getElem?_setIfInBounds_ne (Ne.symm other.1)

theorem recomputeLevels_eq (net : Network) :
    net.recomputeLevels = { net with levels := net.recomputeLevels.levels } := by
  obtain ⟨levels, journal, same, -⟩ := relevelled_recomputeLevels net
  have delivered := journal_recomputeLevels net
  rw [same] at delivered ⊢
  rw [show journal = net.journal from delivered]

theorem recomputeLevels_of_settled (settled : net.Settled fun n => n ∈ net.topoOrder)
    (inside : ∀ n ∈ net.topoOrder, n < net.levels.size) : net.recomputeLevels = net := by
  have still (n : Nat) (member : n ∈ net.topoOrder) : net.relevelNode n = net := by
    have same : net.levels[n]? = some (net.computedLevel n) := by
      rw [← settled.exact n member, Network.level, Array.getElem?_eq_getElem (inside n member)]
      rfl
    have levels : net.levels.setIfInBounds n (net.computedLevel n) = net.levels := by
      refine Array.ext_getElem? fun m => ?_
      rw [Array.getElem?_setIfInBounds]
      split
      · rename_i here
        subst here
        rw [same]
        simp [inside n member]
      · rfl
    rw [Network.relevelNode, setLevel, levels]
  unfold recomputeLevels
  refine List.foldlRecOn net.topoOrder _ (motive := fun later => later = net) rfl ?_
  rintro later rfl n member
  exact still n member

theorem sweep_setLevels (levels : Array Nat) (skip : Nat → Bool) (depth : Nat) (s : Sweep)
    (n : Nat) : { net with levels }.sweep skip depth s n = net.sweep skip depth s n := by
  induction depth generalizing s n with
  | zero => rfl
  | succ depth ih =>
    simp only [sweep, ih]
    rfl

theorem topoOrder_setLevels (levels : Array Nat) : { net with levels }.topoOrder = net.topoOrder := by
  have traversals (starts : List Nat) (skip : Nat → Bool) :
      { net with levels }.postorder starts skip = net.postorder starts skip := by
    have visit : { net with levels }.sweep skip net.depthBound = net.sweep skip net.depthBound :=
      funext fun s => funext fun n => sweep_setLevels levels skip net.depthBound s n
    show ((starts.foldl ({ net with levels }.sweep skip net.depthBound) _).order.toList) = _
    rw [visit]
    rfl
  exact congrArg (0 :: net.inputs ++ ·) (traversals _ _)

inductive PathTo (net : Network) : List Nat → Nat → Prop where
  | single (n : Nat) : PathTo net [n] n
  | step {path : List Nat} {m n : Nat} : PathTo net path m → net.Feeds m n →
      PathTo net (path ++ [n]) n

/-- The level is the number of gates on the longest path. -/
def Longest (net : Network) (n level : Nat) : Prop :=
  IsGreatest {gates | ∃ path, net.PathTo path n ∧ path.countP net.isGate = gates} level

theorem PathTo.reaches {path : List Nat} {n : Nat} (along : net.PathTo path n) :
    ∀ k ∈ path, net.Reaches n k := by
  induction along with
  | single n => simpa using Reaches.refl n
  | step _ feeds ih =>
    intro k member
    rcases List.mem_append.1 member with earlier | last
    · exact .head feeds (ih k earlier)
    · rw [List.mem_singleton.1 last]
      exact .refl _

theorem PathTo.nodup (acyclic : net.Acyclic) {path : List Nat} {n : Nat}
    (along : net.PathTo path n) : path.Nodup := by
  induction along with
  | single n => exact List.nodup_singleton n
  | step before feeds ih =>
    exact nodup_append_singleton ih fun member => (before.reaches _ member).not_feeds acyclic feeds

theorem PathTo.length_le (inPlace : net.InPlace) (acyclic : net.Acyclic) {path : List Nat} {n : Nat}
    (along : net.PathTo path n) (inside : n < net.size) : path.length ≤ net.size := by
  have slots (k : Nat) (member : k ∈ path) : k ∈ List.range net.size := by
    rw [List.mem_range]
    have below := along.reaches k member
    induction below with
    | refl => exact inside
    | step _ feeds _ =>
      obtain ⟨f, reads, rfl⟩ := feeds
      exact inPlace.fanin_lt _ f reads
  simpa using ((along.nodup acyclic).subperm slots).length_le

theorem PathTo.of_feeds {net' : Network} {path : List Nat} {n : Nat} (along : net.PathTo path n)
    (feeds : ∀ m k, net.Feeds m k → net'.Feeds m k) : net'.PathTo path n := by
  induction along with
  | single n => exact .single n
  | step _ last ih => exact .step ih (feeds _ _ last)

theorem longest_setLevels (levels : Array Nat) {n level : Nat} :
    { net with levels }.Longest n level ↔ net.Longest n level := by
  have same : {gates | ∃ path, { net with levels }.PathTo path n ∧
      path.countP { net with levels }.isGate = gates} =
      {gates | ∃ path, net.PathTo path n ∧ path.countP net.isGate = gates} := by
    ext gates
    refine exists_congr fun path => and_congr_left fun _ => ?_
    exact ⟨fun along => along.of_feeds fun _ _ => id, fun along => along.of_feeds fun _ _ => id⟩
  rw [Longest, Longest, same]

theorem countP_singleton_le (exact : net.ExactLevels) {n : Nat} (inside : n < net.size)
    (live : net.isDead n = false) : [n].countP net.isGate ≤ net.level n := by
  rw [exact n inside live, computedLevel, List.countP_singleton, isGate]
  cases net.gate? n <;> simp

theorem ExactLevels.countP_le (exact : net.ExactLevels) (balanced : net.Balanced)
    {path : List Nat} {n : Nat} (along : net.PathTo path n) (inside : n < net.size)
    (live : net.isDead n = false) : path.countP net.isGate ≤ net.level n := by
  induction along with
  | single n => exact countP_singleton_le exact inside live
  | @step path m n before feeds ih =>
    have awake := (Reaches.refl n).step feeds |>.live balanced live
    obtain ⟨f, member, rfl⟩ := feeds
    have earlier := ih (balanced.inPlace.fanin_lt n f member) awake
    have less := exact.level_lt balanced live ⟨f, member, rfl⟩
    have one : [n].countP net.isGate ≤ 1 := List.countP_le_length
    rw [List.countP_append]
    omega

theorem ExactLevels.exists_path (exact : net.ExactLevels) (balanced : net.Balanced)
    (acyclic : net.Acyclic) {n : Nat} (inside : n < net.size) (live : net.isDead n = false) :
    ∃ path, net.PathTo path n ∧ path.countP net.isGate = net.level n := by
  induction n using acyclic.induction with
  | _ n ih =>
    have level := exact n inside live
    rw [computedLevel] at level
    cases slot : net.gate? n with
    | none =>
      rw [slot] at level
      exact ⟨[n], .single n, by simp [isGate, slot, level]⟩
    | some g =>
      simp only [slot] at level
      rcases net.faninLevel_eq g.operands with zero | ⟨f, member, deepest⟩
      · exact ⟨[n], .single n, by simp [isGate, slot, level, zero]⟩
      · have feeds : net.Feeds f.node n := feeds_iff.2 ⟨g, slot, Gate.mem_nodes.2 ⟨f, member, rfl⟩⟩
        have awake := (Reaches.refl n).step feeds |>.live balanced live
        have below : f.node < net.size := by
          obtain ⟨f', reads, same⟩ := feeds
          exact same ▸ balanced.inPlace.fanin_lt n f' reads
        obtain ⟨path, before, gates⟩ := ih f.node feeds below awake
        refine ⟨path ++ [n], .step before feeds, ?_⟩
        simp [List.countP_append, isGate, slot, gates, level, deepest]

theorem ExactLevels.longest (exact : net.ExactLevels) (balanced : net.Balanced)
    (acyclic : net.Acyclic) {n : Nat} (inside : n < net.size) (live : net.isDead n = false) :
    net.Longest n (net.level n) := by
  refine ⟨exact.exists_path balanced acyclic inside live, ?_⟩
  rintro gates ⟨path, along, rfl⟩
  exact exact.countP_le balanced along inside live

theorem Balanced.computedLevel_eq (balanced : net.Balanced) {n : Nat} {g : Gate Signal}
    (slot : net.gate? n = some g) (live : net.isDead n = false) :
    net.computedLevel n = 1 + (g.operands.map fun f => net.level f.node).foldl max 0 := by
  have awake : g.operands.filter (fun f => !net.isDead f.node) = g.operands := by
    rw [List.filter_eq_self]
    intro f member
    have feeds : net.Feeds f.node n := feeds_iff.2 ⟨g, slot, Gate.mem_nodes.2 ⟨f, member, rfl⟩⟩
    simp [(Reaches.refl n).step feeds |>.live balanced live]
  rw [computedLevel, slot]
  simp only [faninLevel, awake]
  exact Nat.add_comm _ _

/-- From `net` to `net'` nothing but levels has changed, and those of the live slots are exact. -/
structure Leveled (net net' : Network) : Prop where
  unchanged : net' = { net with levels := net'.levels }
  size : net'.levels.size = net.levels.size
  source : ∀ n, net.isSource n = true → net'.levels[n]? = some 0
  gate : ∀ n g, net.gate? n = some g → net.isDead n = false →
    net'.levels[n]? = some (1 + (g.operands.map fun f => net'.level f.node).foldl max 0) ∧
    net.Longest n (net'.level n)
  bounded : ∀ n, n < net.size → net.isDead n = false → net'.level n ≤ net.size
  dead : ∀ n, net.isDead n = true → net'.levels[n]? = net.levels[n]?
  depth_of_none : net.outputs = [] → net'.depth = 0
  depth : net.outputs ≠ [] →
    IsGreatest {level | ∃ o ∈ net.outputs, net'.level o.signal.node = level} net'.depth

theorem isGreatest_depth (net : Network) (outputs : net.outputs ≠ []) :
    IsGreatest {level | ∃ o ∈ net.outputs, net.level o.signal.node = level} net.depth := by
  have levels : (net.outputSignals.map fun s => net.level s.node) =
      net.outputs.map fun o => net.level o.signal.node := by simp [outputSignals]
  have le := (le_foldl_max (net.outputs.map fun o => net.level o.signal.node) 0).2
  rw [depth, levels]
  constructor
  · rcases foldl_max_eq (net.outputs.map fun o => net.level o.signal.node) 0 with zero | member
    · obtain ⟨o, member⟩ := List.exists_mem_of_ne_nil _ outputs
      have low := le _ (List.mem_map_of_mem member)
      exact ⟨o, member, by omega⟩
    · exact List.mem_map.1 member
  · rintro level ⟨o, member, rfl⟩
    exact le _ (List.mem_map_of_mem member)

theorem TopoSorted.lt_size {gates : List Nat} (sorted : net.TopoSorted gates)
    (inPlace : net.InPlace) {n : Nat} (member : n ∈ net.topoOrder) : n < net.size := by
  rw [sorted.order, List.cons_append, List.mem_cons, List.mem_append] at member
  rcases member with rfl | input | gate
  · exact inPlace.size_pos
  · exact lt_size_of_isInput (inPlace.isInput_iff.2 input)
  · obtain ⟨⟨g, slot⟩, -⟩ := isLiveGate_eq_true.1 ((sorted.mem_iff n).1 gate)
    exact lt_size_of_gate? slot

theorem TopoSorted.mem_of_live {gates : List Nat} (sorted : net.TopoSorted gates)
    (inPlace : net.InPlace) {n : Nat} (inside : n < net.size) (live : net.isDead n = false) :
    n ∈ net.topoOrder := by
  rw [sorted.order, List.mem_append]
  cases slot : net.gate? n with
  | some g => exact .inr ((sorted.mem_iff n).2 (isLiveGate_eq_true.2 ⟨⟨g, slot⟩, live⟩))
  | none =>
    have source := inPlace.isSource_of_gate?_eq_none inside slot
    rw [← inPlace.contains_sources, List.contains_iff_mem] at source
    exact .inl source

theorem Simulable.recomputeLevels (sound : net.Simulable) : net.recomputeLevels.Simulable := by
  obtain ⟨levels, journal, same, size⟩ := relevelled_recomputeLevels net
  rw [same]
  exact ⟨{ sound.inPlace with size_levels := size.trans sound.inPlace.size_levels },
    sound.integrity, sound.acyclic⟩

theorem Simulable.settled (sound : net.Simulable) :
    net.recomputeLevels.Settled fun n => n ∈ net.topoOrder := by
  have sorted := sound.topoSorted
  have start : net.Settled fun _ => False := ⟨fun _ none => none.elim, fun _ none => none.elim⟩
  have done := start.foldl sound.inOrder_topoOrder sorted.nodup (fun _ _ => id) fun n member => by
    rw [sound.inPlace.size_levels]
    exact sorted.lt_size sound.inPlace member
  simp only [false_or] at done
  exact done

theorem Simulable.leveled (sound : net.Simulable) : net.Leveled net.recomputeLevels := by
  have sorted := sound.topoSorted
  have later := sound.recomputeLevels
  have inPlace := sound.inPlace
  have balanced := balanced_of_integrity later.inPlace later.integrity
  have same := recomputeLevels_eq net
  have exact : net.recomputeLevels.ExactLevels := by
    intro n inside live
    rw [same] at inside live
    exact sound.settled.exact n (sorted.mem_of_live inPlace inside live)
  have recorded (n : Nat) (inside : n < net.size) :
      net.recomputeLevels.levels[n]? = some (net.recomputeLevels.level n) := by
    have slot : n < net.recomputeLevels.levels.size := by
      rw [later.inPlace.size_levels, same]
      exact inside
    rw [Network.level, Array.getElem?_eq_getElem slot]
    rfl
  constructor
  case unchanged => exact same
  case size =>
    obtain ⟨levels, journal, change, size⟩ := relevelled_recomputeLevels net
    rw [change]
    exact size
  case source =>
    intro n source
    have none : net.recomputeLevels.gate? n = none := by
      rw [same]
      cases slot : net.gate? n with
      | none => exact slot
      | some g =>
        rw [inPlace.not_source_of_gate slot] at source
        cases source
    have inside : n < net.size := sorted.lt_size inPlace <| by
      rw [← inPlace.contains_sources, List.contains_iff_mem] at source
      exact List.mem_append_left _ source
    have live : net.isDead n = false := by
      refine Bool.eq_false_iff.2 fun dead => ?_
      obtain ⟨g, slot⟩ := Option.isSome_iff_exists.1 (inPlace.gate_of_dead n dead)
      rw [inPlace.not_source_of_gate slot] at source
      cases source
    rw [recorded n inside, sound.settled.exact n (sorted.mem_of_live inPlace inside live),
      computedLevel, none]
  case gate =>
    intro n g slot live
    have inside := lt_size_of_gate? slot
    have exact_here := sound.settled.exact n (sorted.mem_of_live inPlace inside live)
    have slot' : net.recomputeLevels.gate? n = some g := by
      rw [same]
      exact slot
    have live' : net.recomputeLevels.isDead n = false := by
      rw [same]
      exact live
    have inside' := lt_size_of_gate? slot'
    constructor
    · rw [recorded n inside, exact_here, balanced.computedLevel_eq slot' live']
    · have longest := exact.longest balanced later.acyclic inside' live'
      rwa [same, longest_setLevels] at longest
  case bounded =>
    intro n inside live
    have inside' : n < net.recomputeLevels.size := by rwa [same]
    have live' : net.recomputeLevels.isDead n = false := by rwa [same]
    obtain ⟨path, along, gates⟩ := exact.exists_path balanced later.acyclic inside' live'
    have short := along.length_le later.inPlace later.acyclic inside'
    rw [show net.recomputeLevels.size = net.size by rw [same]; rfl] at short
    rw [← gates]
    exact Nat.le_trans List.countP_le_length short
  case dead =>
    intro n dead
    exact getElem?_levels_foldl (not_mem_topoOrder sound dead)
  case depth_of_none =>
    intro none
    rw [same]
    simp [Network.depth, outputSignals, none]
  case depth =>
    intro outputs
    have greatest := isGreatest_depth net.recomputeLevels (by rwa [same])
    rwa [show net.recomputeLevels.outputs = net.outputs by rw [same]] at greatest

/-- Recomputing the levels of a well-formed network makes them exact, whatever they were, and
    changes nothing else; doing it again changes nothing at all. -/
theorem leveled_recomputeLevels (sound : net.Simulable) :
    net.Leveled net.recomputeLevels ∧
      net.recomputeLevels.recomputeLevels = net.recomputeLevels := by
  have again : net.recomputeLevels.topoOrder = net.topoOrder := by
    rw [recomputeLevels_eq, topoOrder_setLevels]
  refine ⟨sound.leveled, recomputeLevels_of_settled ?_ fun n member => ?_⟩
  · rw [again]
    exact sound.settled
  · have later := sound.recomputeLevels
    rw [later.inPlace.size_levels]
    exact later.topoSorted.lt_size later.inPlace member

end Network

open Network

/-- Gate 5 reads the later slot 6, its recorded level is off, and the dead slot 4 has the largest
    level there is. -/
theorem leveled_of_stale : ∃ stages net,
    Completed (empty "stale")
      (Command.load 3 [(.and2, [2, 4]), (.and2, [8, 6])] [10] ++
        [.createGate .xor2 [.ofLiteral 2, .ofLiteral 4], .substitute 4 (.ofLiteral 12),
          .setLevel 4 4294967295, .setLevel 5 7, .setLevel 1 9])
      stages net ∧
    net.Simulable ∧ net.levels = #[0, 9, 0, 0, 4294967295, 7, 1] ∧
    net.recomputeLevels.levels = #[0, 0, 0, 0, 4294967295, 2, 1] ∧
    net.Leveled net.recomputeLevels ∧
    net.recomputeLevels.recomputeLevels = net.recomputeLevels := by
  obtain ⟨stages, net, history, checks⟩ := Command.exists_completed
    (Command.load 3 [(.and2, [2, 4]), (.and2, [8, 6])] [10] ++
      [.createGate .xor2 [.ofLiteral 2, .ofLiteral 4], .substitute 4 (.ofLiteral 12),
        .setLevel 4 4294967295, .setLevel 5 7, .setLevel 1 9])
    (empty "stale")
    (fun _ net => decide net.Acyclic && net.levels == #[0, 9, 0, 0, 4294967295, 7, 1] &&
      net.recomputeLevels.levels == #[0, 0, 0, 0, 4294967295, 2, 1])
    (by decide +kernel)
  simp only [Bool.and_eq_true, decide_eq_true_eq, beq_iff_eq] at checks
  obtain ⟨⟨acyclic, stale⟩, exact⟩ := checks
  have sound := (history.wellFormed acyclic).simulable
  obtain ⟨leveled, again⟩ := leveled_recomputeLevels sound
  exact ⟨stages, net, history, sound, stale, exact, leveled, again⟩

end LogicOpt
