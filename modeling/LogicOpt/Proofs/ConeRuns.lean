import LogicOpt.Proofs.Cones
import LogicOpt.Proofs.Ranking

/-!
Finding a cone comes to an end. On an acyclic network with correct counts no reference is released
twice, so no count falls below zero, as many nodes are retained as were released, and the released
nodes are collected with their fanins first.
-/

namespace LogicOpt

open Network

namespace Network

variable {net net' : Network} {count : Nat → Nat} {root : Nat}

theorem exists_releaseReferences {fanins : List Signal} (count : Nat → Nat) (work : List Nat)
    (inside : ∀ f ∈ fanins, f.node < net.size)
    (covered : ∀ m, (fanins.map (·.node)).count m ≤ count m) :
    ∃ result, fanins.foldlM releaseReference (net.recount count, work) = .ok result := by
  induction fanins generalizing count work with
  | nil => exact ⟨_, rfl⟩
  | cons f rest ih =>
    simp only [List.forall_mem_cons] at inside
    simp only [count_nodes_cons] at covered
    have counted : ensure ((net.recount count).fanoutCount f.node != 0)
        (.countUnderflow f.node) = .ok () := by
      have := covered f.node
      rw [if_pos rfl] at this
      rw [ensure_eq_ok, fanoutCount_recount inside.1, bne_iff_ne]
      omega
    have later : ∀ m, (rest.map (·.node)).count m ≤ count m - if m = f.node then 1 else 0 := by
      intro m
      have := covered m
      omega
    have step : ∃ next, releaseReference (net.recount count, work) f =
        .ok (net.recount fun m => count m - if m = f.node then 1 else 0, next) := by
      simp only [releaseReference, counted, decrCount_recount, bind, Except.bind]
      split <;> exact ⟨_, rfl⟩
    obtain ⟨next, step⟩ := step
    rw [List.foldlM_cons, step]
    exact ih _ next inside.2 later

/-- The work list holds slots only, so it is finished within as many steps as slots are left. -/
theorem eq_nil_of_full {done work : List Nat} (nodup : (done ++ work).Nodup)
    (inside : ∀ m ∈ done ++ work, m < net.size) (full : net.size ≤ done.length) : work = [] := by
  have le := (nodup.subperm fun m member => List.mem_range.2 (inside m member)).length_le
  rw [List.length_append, List.length_range] at le
  exact List.length_eq_zero_iff.1 (by omega)

variable {start : Nat → Nat} {done work : List Nat}

theorem Releasing.covered {n : Nat} (state : Releasing net root start count done (n :: work))
    (balanced : net.Balanced) (live : net.isLiveGate root = true)
    (enough : ∀ m, net.fanoutCount m ≤ start m) (m : Nat) :
    ((net.fanins n).map (·.node)).count m ≤ count m := by
  have members : done ++ [n] ⊆ done ++ n :: work := by
    intro k
    simp only [List.mem_append, List.mem_cons]
    tauto
  have nodup : (done ++ [n]).Nodup := by
    refine state.nodup.sublist ?_
    simp
  have total := balanced.fanoutCount_eq nodup
    (fun k member => (state.idle k (members member)).live balanced live) m
  rw [readsAmong_concat] at total
  have sum := state.counts m
  have bound := enough m
  omega

theorem exists_releaseAll (balanced : net.Balanced) (acyclic : net.Acyclic)
    (live : net.isLiveGate root = true) (enough : ∀ m, net.fanoutCount m ≤ start m) (steps : Nat)
    (state : Releasing net root start count done work) (room : net.size ≤ steps + done.length) :
    ∃ result, releaseAll steps (net.recount count) work done.length = .ok result := by
  have inner : net.isSource root = false := by
    obtain ⟨⟨g, slot⟩, -⟩ := isLiveGate_eq_true.1 live
    exact balanced.inPlace.not_source_of_gate slot
  have inside {done work : List Nat} {count : Nat → Nat}
      (state : Releasing net root start count done work) : ∀ m ∈ done ++ work, m < net.size :=
    fun m member => lt_of_isLiveGate ((state.idle m member).live balanced live)
  induction steps generalizing count done work with
  | zero =>
    obtain rfl := eq_nil_of_full state.nodup (inside state) (by omega)
    exact ⟨_, rfl⟩
  | succ steps ih =>
    cases work with
    | nil => exact ⟨_, rfl⟩
    | cons n rest =>
      have slots := balanced.inPlace.fanin_lt n
      have covered := state.covered balanced live enough
      obtain ⟨⟨mid, next⟩, released⟩ := exists_releaseReferences count rest slots covered
      obtain ⟨rfl, -, added, rfl, apart, news⟩ := foldlM_releaseReference slots released
      -- The root is not released once more, since no node below it reads it.
      have once : root ∉ added := fun member =>
        (state.idle n (by simp)).reaches.not_feeds acyclic
          (mem_map_fanins.1 ((news root).1 member).1)
      have length : done.length + 1 = (done ++ [n]).length := by simp
      simp only [releaseAll, fanins_recount, released, bind, Except.bind, length]
      exact ih (state.step covered apart news once inner) (by omega)

theorem exists_retainAll (balanced : net.Balanced) (live : net.isLiveGate root = true)
    {idle : Nat → Nat} (unread : ∀ m, Idle net idle root m → net.Feeds root m → idle root ≠ 0)
    (steps : Nat) (state : Retaining net root idle count done work)
    (room : net.size ≤ steps + done.length) :
    ∃ result, retainAll steps (net.recount count) work done.length = .ok result := by
  induction steps generalizing count done work with
  | zero =>
    obtain rfl := eq_nil_of_full state.nodup
      (fun m member => lt_of_isLiveGate ((state.idle m member).live balanced live)) (by omega)
    exact ⟨_, rfl⟩
  | succ steps ih =>
    cases work with
    | nil => exact ⟨_, rfl⟩
    | cons n rest =>
      obtain ⟨added, taken, apart, news⟩ :=
        foldl_takeReference count rest (balanced.inPlace.fanin_lt n)
      have length : done.length + 1 = (done ++ [n]).length := by simp
      simp only [retainAll, fanins_recount, taken, length]
      exact ih (state.step apart news unread) (by rw [← length]; omega)

theorem acyclic_recount : (net.recount count).Acyclic ↔ net.Acyclic := by
  have same : (net.recount count).Feeds = net.Feeds := by
    funext m n
    exact propext feeds_recount
  rw [Acyclic, Acyclic, same]

theorem inOrder_recount {known : Nat → Prop} {order : List Nat} :
    (net.recount count).InOrder known order ↔ net.InOrder known order := by
  induction order generalizing known with
  | nil => simp [InOrder]
  | cons n rest ih => simp only [InOrder, feeds_recount, ih]

theorem getLast?_collect (c : ConeFinder) (net : Network) (root : Nat) :
    (c.collect net root).order.toList.getLast? = some root := by
  have fresh : (Sweep.start c.marks).marks.isMarked root = false := isMarked_start c.marks root
  simp [ConeFinder.collect, depthBound, sweep, fresh, ConeFinder.bounds]

theorem collect_of_released (c : ConeFinder) (inPlace : net.InPlace) (acyclic : net.Acyclic)
    {nodes : List Nat} (state : Releasing net root start count nodes []) :
    (c.collect (net.recount count) root).order.toList.Perm nodes ∧
      net.InOrder (fun m => m ∉ (c.collect (net.recount count) root).order.toList)
        (c.collect (net.recount count) root).order.toList := by
  obtain ⟨found, swept⟩ := sweep_spec (net.recount count)
    (ConeFinder.bounds (net.recount count) root) _ (.start c.marks) root
    (Marks.current_newTraversal_ne_zero _) (length_unmarked_lt_depthBound _ _)
  obtain ⟨order, listed⟩ := swept.listed
  rw [ConeFinder.collect, order]
  have source : ∀ m ∈ found, m ∈ [root] ∨ ∃ k ∈ found, net.Feeds m k := by
    simpa only [feeds_recount] using listed.source
  have idle : ∀ m ∈ found, Idle net count root m := by
    refine induct_of_source acyclic [root] source (fun m _ start => ?_) ?_
    · rw [List.mem_singleton.1 start]
      exact .root
    · intro k _ above m member feeds
      by_cases same : m = root
      · rw [same]
        exact .root
      · have unblocked := listed.kept m member
        simp only [ConeFinder.bounds, isSource_recount,
          fanoutCount_recount (inPlace.lt_of_feeds feeds), Bool.and_eq_false_iff,
          bne_eq_false_iff_eq, same, Bool.or_eq_false_iff, decide_eq_false_iff_not,
          false_or] at unblocked
        exact .under above feeds (by omega) unblocked.1
  have reached : ∀ m, Idle net count root m → m ∈ found := by
    intro m path
    induction path with
    | root => exact (listed.reached root (by simp)).resolve_left (by simp [ConeFinder.bounds])
    | under above feeds zero inner ih =>
      refine (listed.closed _ ih _ (feeds_recount.2 feeds)).resolve_left ?_
      simp [ConeFinder.bounds, inner, fanoutCount_recount (inPlace.lt_of_feeds feeds), zero]
  refine ⟨?_, ?_⟩
  · refine (List.perm_ext_iff_of_nodup listed.nodup (by simpa using state.nodup)).2 fun m => ?_
    rw [state.mem_iff]
    exact ⟨idle m, reached m⟩
  · have ordered := listed.ordered (acyclic_recount.2 acyclic)
    refine (inOrder_recount.1 ordered).mono fun _ _ m _ bound member => ?_
    rw [listed.kept m member] at bound
    cases bound

end Network

namespace Edit

variable {net : Network} {count : Nat → Nat}

theorem exists_incrFanoutCount {n : Nat} (inside : n < net.size) :
    ∃ k, Gives (incrFanoutCount n) net k (net.incrCount n) := by
  simp only [incrFanoutCount, gives_bind, gives_check, gives_update, gives_get, gives_pure,
    require_eq_ok]
  exact ⟨_, (), _, ⟨inside, rfl⟩, (), _, rfl, _, _, ⟨rfl, rfl⟩, rfl, rfl⟩

theorem exists_decrFanoutCount {n : Nat} (inside : n < net.size) (counted : net.fanoutCount n ≠ 0) :
    ∃ k, Gives (decrFanoutCount n) net k (net.decrCount n) := by
  simp only [decrFanoutCount, gives_bind, gives_check, gives_update, gives_get, gives_pure,
    require_eq_ok, ensure_eq_ok, bne_iff_ne]
  exact ⟨_, (), _, ⟨inside, rfl⟩, (), _, ⟨counted, rfl⟩, (), _, rfl, _, _, ⟨rfl, rfl⟩, rfl, rfl⟩

theorem countLeaves_total {leaves : List Nat} (count : Nat → Nat)
    (inside : ∀ n ∈ leaves, n < net.size) :
    ∃ net', Gives (leaves.forM fun n => discard (incrFanoutCount n)) (net.recount count) ⟨⟩
      net' := by
  induction leaves generalizing count with
  | nil => exact ⟨_, gives_pure.2 ⟨rfl, rfl⟩⟩
  | cons n rest ih =>
    rw [List.forall_mem_cons] at inside
    have slot : n < (net.recount count).size := by
      rw [size_recount]
      exact inside.1
    obtain ⟨k, head⟩ := exists_incrFanoutCount slot
    rw [incrCount_recount] at head
    obtain ⟨net', tail⟩ := ih _ inside.2
    refine ⟨net', ?_⟩
    simp only [List.forM_eq_forM, List.forM_cons, gives_bind, gives_discard]
    exact ⟨⟨⟩, _, ⟨k, head⟩, tail⟩

theorem uncountLeaves_total {leaves : List Nat} (count : Nat → Nat)
    (inside : ∀ n ∈ leaves, n < net.size) (counted : ∀ m, leaves.count m ≤ count m) :
    ∃ net', Gives (leaves.forM fun n => discard (decrFanoutCount n)) (net.recount count) ⟨⟩
      net' := by
  induction leaves generalizing count with
  | nil => exact ⟨_, gives_pure.2 ⟨rfl, rfl⟩⟩
  | cons n rest ih =>
    rw [List.forall_mem_cons] at inside
    have slot : n < (net.recount count).size := by
      rw [size_recount]
      exact inside.1
    obtain ⟨k, head⟩ := exists_decrFanoutCount slot (by
      have := counted n
      rw [List.count_cons_self] at this
      rw [fanoutCount_recount inside.1]
      omega)
    rw [decrCount_recount] at head
    have remaining : ∀ m, rest.count m ≤ count m - if m = n then 1 else 0 := by
      intro m
      have := counted m
      rw [List.count_cons] at this
      by_cases same : m = n
      · subst same
        simp at this ⊢
        omega
      · simpa [same, Ne.symm same] using this
    obtain ⟨net', tail⟩ := ih _ inside.2 remaining
    refine ⟨net', ?_⟩
    simp only [List.forM_eq_forM, List.forM_cons, gives_bind, gives_discard]
    exact ⟨⟨⟩, _, ⟨k, head⟩, tail⟩

theorem releaseNode_of_ok {net' : Network} {n k : Nat} (inside : n < net.size)
    (inner : net.isSource n = false)
    (ran : releaseAll (net.size + 1) (net.recount count) [n] 0 = .ok (net', k)) :
    Gives (releaseNode n) (net.recount count) k net' := by
  have released : (net.recount count).release n = .ok (net', k) := by
    simp [release, require, ensure, inside, inner, ran, bind, Except.bind]
  simp only [releaseNode, gives_bind, gives_check, gives_set, gives_pure]
  exact ⟨_, _, ⟨released, rfl⟩, ⟨⟩, _, rfl, rfl, rfl⟩

theorem retainNode_of_ok {net' : Network} {n k : Nat} (inside : n < net.size)
    (inner : net.isSource n = false)
    (ran : retainAll (net.size + 1) (net.recount count) [n] 0 = .ok (net', k)) :
    Gives (retainNode n) (net.recount count) k net' := by
  have retained : (net.recount count).retain n = .ok (net', k) := by
    simp [retain, require, ensure, inside, inner, ran, bind, Except.bind]
  simp only [retainNode, gives_bind, gives_check, gives_set, gives_pure]
  exact ⟨_, _, ⟨retained, rfl⟩, ⟨⟩, _, rfl, rfl, rfl⟩

theorem exists_release {root : Nat} {start : Nat → Nat} (balanced : net.Balanced)
    (acyclic : net.Acyclic) (live : net.isLiveGate root = true)
    (enough : ∀ m, net.fanoutCount m ≤ start m) :
    ∃ idle nodes, Releasing net root start idle nodes [] ∧
      Gives (releaseNode root) (net.recount start) nodes.length (net.recount idle) ∧
      Gives (retainNode root) (net.recount idle) nodes.length (net.recount start) := by
  have inside := lt_of_isLiveGate live
  obtain ⟨⟨g, slot⟩, -⟩ := isLiveGate_eq_true.1 live
  have inner := balanced.inPlace.not_source_of_gate slot
  obtain ⟨result, releasing⟩ := exists_releaseAll balanced acyclic live enough (net.size + 1)
    (.begin net root start) (by simp)
  obtain ⟨idle, nodes, rfl, state⟩ :=
    releaseAll_spec balanced.inPlace inner _ (.begin net root _) releasing
  have unread : ∀ m, Idle net idle root m → net.Feeds root m → idle root ≠ 0 :=
    fun m path feeds => state.unread m (state.mem_iff.2 path) feeds
  obtain ⟨result, retaining⟩ := exists_retainAll balanced live unread (net.size + 1)
    (.begin net root idle) (by simp)
  obtain ⟨final, again, rfl, state'⟩ :=
    retainAll_spec balanced.inPlace _ unread (.begin net root idle) retaining
  have retained := retainNode_of_ok inside inner retaining
  rw [recount_congr fun m _ => counts_restored state state' m,
    (perm_retained state state').length_eq] at retained
  exact ⟨idle, nodes, state, releaseNode_of_ok inside inner releasing, retained⟩

/-- With the leaves counted once more, a release from the root left the counts `idle`, and the cone
    lists what it released. -/
structure Released (net : Network) (root : Nat) (leaves : List Nat) (idle : Nat → Nat) (cone : Cone) :
    Prop where
  state : Releasing net root (fun m => net.fanoutCount m + leaves.count m) idle cone.nodes []
  gain : cone.gain = cone.nodes.length
  last : cone.nodes.getLast? = some root
  ordered : net.InOrder (fun m => m ∉ cone.nodes) cone.nodes
  release : Gives (releaseNode root) (net.recount fun m => net.fanoutCount m + leaves.count m)
    cone.gain (net.recount idle)
  retain : Gives (retainNode root) (net.recount idle) cone.gain
    (net.recount fun m => net.fanoutCount m + leaves.count m)

theorem exists_runCone (c : ConeFinder) {root : Nat} {leaves : List Nat} (balanced : net.Balanced)
    (acyclic : net.Acyclic) (live : net.isLiveGate root = true)
    (inside : ∀ n ∈ leaves, n < net.size) :
    ∃ cone c' idle, Gives (c.run root leaves) net (cone, c') net ∧
      Released net root leaves idle cone := by
  obtain ⟨_, raised⟩ := countLeaves_total net.fanoutCount inside
  obtain rfl := countLeaves_gives raised
  rw [recount_self] at raised
  have enough (m : Nat) : net.fanoutCount m ≤ net.fanoutCount m + leaves.count m :=
    Nat.le_add_right ..
  obtain ⟨idle, nodes, state, released, retained⟩ := exists_release balanced acyclic live enough
  obtain ⟨_, lowered⟩ := uncountLeaves_total (fun m => net.fanoutCount m + leaves.count m) inside
    fun m => Nat.le_add_left _ _
  have same : (net.recount fun m => net.fanoutCount m + leaves.count m - leaves.count m) = net :=
    (recount_congr fun m _ => Nat.add_sub_cancel ..).trans (recount_self net)
  rw [uncountLeaves_gives lowered, same] at lowered
  obtain ⟨perm, ordered⟩ := collect_of_released c balanced.inPlace acyclic state
  refine ⟨⟨_, nodes.length⟩, ⟨(c.collect (net.recount idle) root).marks⟩, idle, ?_,
    state.perm perm.symm, perm.length_eq.symm, getLast?_collect c _ root, ordered, released, retained⟩
  simp only [ConeFinder.run, gives_bind, gives_get, gives_ofExcept, gives_pure, ensure_eq_ok]
  exact ⟨⟨⟩, _, raised, _, _, released, _, _, ⟨rfl, rfl⟩, _, _, retained, ⟨⟩, _, ⟨by simp, rfl⟩,
    ⟨⟩, _, lowered, ⟨⟩, _, ⟨by simp [perm.length_eq], rfl⟩, rfl, rfl⟩

end Edit

end LogicOpt
