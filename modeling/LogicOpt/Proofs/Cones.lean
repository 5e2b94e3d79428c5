import LogicOpt.Proofs.Runs
import LogicOpt.Proofs.Traversal
import LogicOpt.Window.Cone

/-!
What finding a cone does. References are released from the root on and taken again afterwards. What
was released is exactly what is taken again, so the network is left as it was, cyclic or not.
-/

namespace LogicOpt

open Network

namespace Network

instance (net : Network) (m n : Nat) : Decidable (net.Feeds m n) :=
  inferInstanceAs (Decidable (∃ f ∈ net.fanins n, f.node = m))

def recount (net : Network) (count : Nat → Nat) : Network :=
  { net with nodes := net.nodes.mapIdx fun m node => { node with fanoutCount := count m } }

variable {net : Network} {count count' : Nat → Nat}

theorem getElem?_recount (net : Network) (count : Nat → Nat) (m : Nat) :
    (net.recount count).nodes[m]? =
      net.nodes[m]?.map fun node => { node with fanoutCount := count m } := by
  rw [recount, Array.getElem?_mapIdx]

@[simp]
theorem size_recount : (net.recount count).size = net.size := by
  simp [recount, size]

@[simp]
theorem fanins_recount (m : Nat) : (net.recount count).fanins m = net.fanins m := by
  unfold fanins
  rw [getElem?_recount]
  cases net.nodes[m]? <;> rfl

theorem feeds_recount {m n : Nat} : (net.recount count).Feeds m n ↔ net.Feeds m n := by
  rw [Feeds, Feeds, fanins_recount]

@[simp]
theorem isSource_recount (m : Nat) : (net.recount count).isSource m = net.isSource m := by
  unfold isSource isInput
  rw [getElem?_recount]
  cases net.nodes[m]? <;> rfl

theorem fanoutCount_recount {m : Nat} (inside : m < net.size) :
    (net.recount count).fanoutCount m = count m := by
  obtain ⟨node, slot⟩ := getElem?_eq_some_of_lt inside
  simp [fanoutCount, getElem?_recount, slot]

theorem recount_congr (same : ∀ m, m < net.size → count m = count' m) :
    net.recount count = net.recount count' := by
  have nodes : (net.recount count).nodes = (net.recount count').nodes := by
    refine Array.ext_getElem? fun m => ?_
    rw [getElem?_recount, getElem?_recount]
    cases slot : net.nodes[m]? with
    | none => rfl
    | some node => rw [same m (Array.getElem?_eq_some_iff.1 slot).1]
  simp only [recount] at nodes ⊢
  rw [nodes]

theorem recount_self (net : Network) : net.recount net.fanoutCount = net := by
  have nodes : (net.recount net.fanoutCount).nodes = net.nodes := by
    refine Array.ext_getElem? fun m => ?_
    rw [getElem?_recount]
    cases slot : net.nodes[m]? with
    | none => rfl
    | some node => simp [fanoutCount, slot]
  simp only [recount] at nodes ⊢
  rw [nodes]

theorem modifyNode_recount (n : Nat) (f : Nat → Nat) :
    (net.recount count).modifyNode n (fun node => { node with fanoutCount := f node.fanoutCount }) =
      net.recount fun m => if m = n then f (count m) else count m := by
  have nodes : ((net.recount count).nodes.modify n fun node =>
      { node with fanoutCount := f node.fanoutCount }) =
      (net.recount fun m => if m = n then f (count m) else count m).nodes := by
    refine Array.ext_getElem? fun m => ?_
    rw [Array.getElem?_modify, getElem?_recount, getElem?_recount]
    by_cases same : n = m
    · subst same
      cases net.nodes[n]? <;> simp
    · simp [same, Ne.symm same]
  simp only [modifyNode]
  rw [nodes]
  rfl

theorem decrCount_recount (n : Nat) :
    (net.recount count).decrCount n = net.recount fun m => count m - if m = n then 1 else 0 := by
  rw [decrCount, modifyNode_recount n fun k => k - 1]
  refine recount_congr fun m _ => ?_
  split <;> rfl

theorem incrCount_recount (n : Nat) :
    (net.recount count).incrCount n = net.recount fun m => count m + if m = n then 1 else 0 := by
  rw [incrCount, modifyNode_recount n fun k => k + 1]
  refine recount_congr fun m _ => ?_
  split <;> rfl

theorem count_nodes_cons (f : Signal) (rest : List Signal) (m : Nat) :
    ((f :: rest).map (·.node)).count m =
      (rest.map (·.node)).count m + if m = f.node then 1 else 0 := by
  simp only [List.map_cons, List.count_cons, beq_iff_eq, eq_comm (a := f.node)]

theorem foldlM_releaseReference {fanins : List Signal} {work work' : List Nat} {net' : Network}
    (inside : ∀ f ∈ fanins, f.node < net.size)
    (run : fanins.foldlM releaseReference (net.recount count, work) = .ok (net', work')) :
    net' = net.recount (fun m => count m - (fanins.map (·.node)).count m) ∧
      (∀ m, (fanins.map (·.node)).count m ≤ count m) ∧
      ∃ added, work' = added ++ work ∧ added.Nodup ∧
        ∀ m, m ∈ added ↔ m ∈ fanins.map (·.node) ∧ count m = (fanins.map (·.node)).count m ∧
          net.isSource m = false := by
  induction fanins generalizing count work with
  | nil =>
    cases run
    exact ⟨by simp, by simp, [], rfl, List.nodup_nil, by simp⟩
  | cons f rest ih =>
    have here := inside f (by simp)
    simp only [List.foldlM_cons, bind_eq_ok, releaseReference, ensure_eq_ok, bne_iff_ne, ne_eq,
      fanoutCount_recount here, decrCount_recount, isSource_recount, ↓reduceIte, Bool.and_eq_true,
      decide_eq_true_eq, Bool.not_eq_true'] at run
    obtain ⟨⟨mid, middle⟩, ⟨⟨⟩, positive, head⟩, tail⟩ := run
    have tail : rest.foldlM releaseReference
        (net.recount fun m => count m - if m = f.node then 1 else 0,
          if count f.node = 1 ∧ net.isSource f.node = false then f.node :: work else work) =
        .ok (net', work') := by
      split at head
      · rename_i idle
        cases head
        rw [if_pos ⟨by omega, idle.2⟩]
        exact tail
      · rename_i busy
        cases head
        rw [if_neg fun idle => busy ⟨by have one := idle.1; omega, idle.2⟩]
        exact tail
    obtain ⟨rfl, counts, added, rfl, apart, news⟩ :=
      ih (fun g member => inside g (List.mem_cons_of_mem _ member)) tail
    refine ⟨recount_congr fun m _ => ?_, fun m => ?_, ?_⟩
    · rw [count_nodes_cons]
      omega
    · have := counts m
      rw [count_nodes_cons]
      by_cases same : m = f.node
      · subst same
        simp only [↓reduceIte] at this ⊢
        omega
      · simpa [same] using this
    · have last := counts f.node
      rw [if_pos rfl] at last
      refine ⟨added ++ if count f.node = 1 ∧ net.isSource f.node = false then [f.node] else [],
        by split <;> simp, ?_, fun m => ?_⟩
      · split
        · rename_i idle
          refine nodup_append_singleton apart fun member => ?_
          have again := List.count_pos_iff.2 ((news _).1 member).1
          omega
        · simpa using apart
      · rw [List.mem_append, news, count_nodes_cons, List.map_cons, List.mem_cons]
        by_cases same : m = f.node
        · subst same
          rw [← List.count_pos_iff (a := f.node) (l := rest.map (·.node))]
          simp only [↓reduceIte, true_or, true_and]
          by_cases idle : count f.node = 1 ∧ net.isSource f.node = false
          · rw [if_pos idle]
            simp only [List.mem_singleton, or_true, true_iff]
            exact ⟨by omega, idle.2⟩
          · rw [if_neg idle]
            simp only [List.not_mem_nil, or_false]
            constructor
            · rintro ⟨more, all, inner⟩
              exact ⟨by omega, inner⟩
            · rintro ⟨all, inner⟩
              have other : count f.node ≠ 1 := fun one => idle ⟨one, inner⟩
              exact ⟨by omega, by omega, inner⟩
        · simp only [same, ↓reduceIte, Nat.sub_zero, Nat.add_zero, false_or]
          split <;> simp [same]

theorem foldl_takeReference {fanins : List Signal} (count : Nat → Nat) (work : List Nat)
    (inside : ∀ f ∈ fanins, f.node < net.size) :
    ∃ added, fanins.foldl takeReference (net.recount count, work) =
        (net.recount fun m => count m + (fanins.map (·.node)).count m, added ++ work) ∧
      added.Nodup ∧
      ∀ m, m ∈ added ↔ m ∈ fanins.map (·.node) ∧ count m = 0 ∧ net.isSource m = false := by
  induction fanins generalizing count work with
  | nil => exact ⟨[], by simp, List.nodup_nil, by simp⟩
  | cons f rest ih =>
    have here := inside f (by simp)
    have step : takeReference (net.recount count, work) f =
        (net.recount fun m => count m + if m = f.node then 1 else 0,
          if count f.node = 0 ∧ net.isSource f.node = false then f.node :: work else work) := by
      simp only [takeReference, incrCount_recount, fanoutCount_recount here, isSource_recount,
        ↓reduceIte, Nat.add_eq_right, Bool.and_eq_true, decide_eq_true_eq, Bool.not_eq_true']
      split <;> rfl
    obtain ⟨added, steps, apart, news⟩ := ih
      (fun m => count m + if m = f.node then 1 else 0)
      (if count f.node = 0 ∧ net.isSource f.node = false then f.node :: work else work)
      fun g member => inside g (List.mem_cons_of_mem _ member)
    have once : f.node ∉ added := fun member => by
      have zero := ((news _).1 member).2.1
      rw [if_pos rfl] at zero
      omega
    refine ⟨added ++ if count f.node = 0 ∧ net.isSource f.node = false then [f.node] else [],
      ?_, ?_, fun m => ?_⟩
    · rw [List.foldl_cons, step, steps]
      refine Prod.ext (recount_congr fun m _ => ?_) (by split <;> simp)
      rw [count_nodes_cons]
      omega
    · split
      · exact nodup_append_singleton apart once
      · simpa using apart
    · rw [List.mem_append, List.map_cons, List.mem_cons]
      by_cases same : m = f.node
      · subst same
        by_cases idle : count f.node = 0 ∧ net.isSource f.node = false <;> simp [once, idle]
      · simp only [news, same, ↓reduceIte, Nat.add_zero, false_or]
        split <;> simp [same]

theorem mem_map_fanins {m n : Nat} : m ∈ (net.fanins n).map (·.node) ↔ net.Feeds m n := by
  simp [Feeds]

def readsAmong (net : Network) (nodes : List Nat) (m : Nat) : Nat :=
  (nodes.flatMap fun n => (net.fanins n).map (·.node)).count m

theorem readsAmong_append (xs ys : List Nat) (m : Nat) :
    net.readsAmong (xs ++ ys) m = net.readsAmong xs m + net.readsAmong ys m := by
  simp only [readsAmong, List.flatMap_append, List.count_append]

theorem readsAmong_concat (nodes : List Nat) (n m : Nat) :
    net.readsAmong (nodes ++ [n]) m =
      net.readsAmong nodes m + ((net.fanins n).map (·.node)).count m := by
  rw [readsAmong_append]
  simp only [readsAmong, List.flatMap_singleton]

theorem readsAmong_perm {xs ys : List Nat} (perm : xs.Perm ys) (m : Nat) :
    net.readsAmong xs m = net.readsAmong ys m :=
  (perm.flatMap_right _).count_eq m

theorem readsAmong_eq_zero {nodes : List Nat} {m : Nat} :
    net.readsAmong nodes m = 0 ↔ ∀ n ∈ nodes, ¬net.Feeds m n := by
  simp only [readsAmong, List.count_eq_zero, List.mem_flatMap, mem_map_fanins, not_exists, not_and]

theorem count_references_eq (m : Nat) :
    net.references.count m = net.readsAmong net.liveGates m + net.outputReferences m := by
  rw [references, List.count_append, readsAmong, outputReferences, List.count_eq_countP,
    List.count_eq_countP, List.countP_map]
  rfl

theorem perm_popped (done rest added : List Nat) (n : Nat) :
    (done ++ [n] ++ (added ++ rest)).Perm (added ++ (done ++ n :: rest)) := by
  rw [List.append_cons done n rest]
  exact List.perm_append_comm_assoc ..

/-- A node that nothing refers to any more once the root's references are released. -/
inductive Idle (net : Network) (count : Nat → Nat) (root : Nat) : Nat → Prop where
  | root : Idle net count root root
  | under {m n : Nat} (above : Idle net count root n) (feeds : net.Feeds m n) (zero : count m = 0)
      (inner : net.isSource m = false) : Idle net count root m

theorem Idle.mono {root m : Nat} (idle : Idle net count root m) (fewer : ∀ m, count' m ≤ count m) :
    Idle net count' root m := by
  induction idle with
  | root => exact .root
  | under _ feeds zero inner ih =>
    exact .under ih feeds (Nat.le_zero.1 (zero ▸ fewer _)) inner

theorem Idle.reaches {root m : Nat} (idle : Idle net count root m) : net.Reaches root m := by
  induction idle with
  | root => exact .refl root
  | under _ feeds _ _ ih => exact ih.step feeds

theorem Idle.live {root m : Nat} (idle : Idle net count root m) (balanced : net.Balanced)
    (live : net.isLiveGate root = true) : net.isLiveGate m = true := by
  cases idle with
  | root => exact live
  | under above feeds zero inner =>
    obtain ⟨g, slot⟩ := balanced.inPlace.gate_of_not_source (balanced.inPlace.lt_of_feeds feeds) inner
    have awake := (above.reaches.step feeds).live balanced (isLiveGate_eq_true.1 live).2
    exact isLiveGate_eq_true.2 ⟨⟨g, slot⟩, awake⟩

/-- A release from `root` so far: what is done and what is to be done. -/
structure Releasing (net : Network) (root : Nat) (start count : Nat → Nat) (done work : List Nat) :
    Prop where
  nodup : (done ++ work).Nodup
  counts : ∀ m, count m + net.readsAmong done m = start m
  idle : ∀ m ∈ done ++ work, Idle net count root m
  closed : ∀ n ∈ done, ∀ m, net.Feeds m n → count m = 0 → net.isSource m = false → m ∈ done ++ work
  first : root ∈ done ++ work
  unread : ∀ n ∈ done, net.Feeds root n → count root ≠ 0
  blocked : ∀ n ∈ done ++ work, n ≠ root → ∃ m, net.Feeds m root ∧ count m = 0

theorem releaseAll_ne_ok {n m : Nat} (inPlace : net.InPlace) (feeds : net.Feeds m n) (steps : Nat)
    {work : List Nat} {k : Nat} {result : Network × Nat} (member : n ∈ work)
    (zero : count m = 0) : releaseAll steps (net.recount count) work k ≠ .ok result := by
  induction steps generalizing count work k with
  | zero =>
    cases work with
    | nil => cases member
    | cons head rest => simp [releaseAll]
  | succ steps ih =>
    cases work with
    | nil => cases member
    | cons head rest =>
      intro run
      simp only [releaseAll, bind_eq_ok, fanins_recount] at run
      obtain ⟨⟨mid, next⟩, released, later⟩ := run
      obtain ⟨rfl, covered, added, rfl, -, -⟩ :=
        foldlM_releaseReference (inPlace.fanin_lt head) released
      rcases List.mem_cons.1 member with rfl | member
      · have := List.count_pos_iff.2 (mem_map_fanins.2 feeds)
        have := covered m
        omega
      · exact ih (List.mem_append_right _ member) (by rw [zero, Nat.zero_sub]) later

namespace Releasing

variable {root n : Nat} {start : Nat → Nat} {done rest added : List Nat}

theorem begin (net : Network) (root : Nat) (count : Nat → Nat) :
    Releasing net root count count [] [root] where
  nodup := by simp
  counts := by simp [readsAmong]
  idle := by
    intro m member
    rw [List.nil_append, List.mem_singleton] at member
    exact member ▸ .root
  closed := by simp
  first := by simp
  unread := by simp
  blocked := by simp

theorem step (state : Releasing net root start count done (n :: rest))
    (covered : ∀ m, ((net.fanins n).map (·.node)).count m ≤ count m) (apart : added.Nodup)
    (news : ∀ m, m ∈ added ↔ m ∈ (net.fanins n).map (·.node) ∧
      count m = ((net.fanins n).map (·.node)).count m ∧ net.isSource m = false)
    (once : root ∉ added) (inner : net.isSource root = false) :
    Releasing net root start (fun m => count m - ((net.fanins n).map (·.node)).count m)
      (done ++ [n]) (added ++ rest) := by
  have fewer (m : Nat) : count m - ((net.fanins n).map (·.node)).count m ≤ count m :=
    Nat.sub_le ..
  have read {m : Nat} (feeds : net.Feeds m n) : ((net.fanins n).map (·.node)).count m ≠ 0 :=
    fun none => List.count_eq_zero.1 none (mem_map_fanins.2 feeds)
  have fresh : ∀ m ∈ added, m ∉ done ++ n :: rest := by
    intro m member there
    obtain ⟨reads, all, -⟩ := (news m).1 member
    have := read (mem_map_fanins.1 reads)
    cases state.idle m there with
    | root => exact once member
    | under _ _ zero => omega
  have members (m : Nat) : m ∈ done ++ [n] ++ (added ++ rest) ↔
      m ∈ done ++ n :: rest ∨ m ∈ added := by
    rw [(perm_popped done rest added n).mem_iff, List.mem_append, or_comm]
  have idle : ∀ m ∈ done ++ n :: rest,
      Idle net (fun m => count m - ((net.fanins n).map (·.node)).count m) root m :=
    fun m member => (state.idle m member).mono fewer
  constructor
  case nodup =>
    refine (perm_popped done rest added n).nodup_iff.2 ?_
    exact List.nodup_append.2 ⟨apart, state.nodup, fun a member b there same =>
      fresh a member (same ▸ there)⟩
  case counts =>
    intro m
    have := covered m
    rw [readsAmong_concat, ← state.counts m]
    omega
  case idle =>
    intro m member
    rcases (members m).1 member with member | member
    · exact idle m member
    · obtain ⟨reads, all, other⟩ := (news m).1 member
      exact .under (idle n (by simp)) (mem_map_fanins.1 reads) (by omega) other
  case closed =>
    intro k member m feeds zero other
    rw [members]
    have := covered m
    by_cases reads : net.Feeds m n
    · exact .inr ((news m).2 ⟨mem_map_fanins.2 reads, by omega, other⟩)
    · rw [List.count_eq_zero.2 (mt mem_map_fanins.1 reads)] at zero
      rcases List.mem_append.1 member with member | member
      · exact .inl (state.closed k member m feeds zero other)
      · exact absurd (List.mem_singleton.1 member ▸ feeds) reads
  case first => exact (members root).2 (.inl state.first)
  case unread =>
    intro k member feeds
    by_cases reads : net.Feeds root n
    · have := covered root
      have : count root ≠ ((net.fanins n).map (·.node)).count root :=
        fun all => once ((news root).2 ⟨mem_map_fanins.2 reads, all, inner⟩)
      omega
    · rw [List.count_eq_zero.2 (mt mem_map_fanins.1 reads)]
      rcases List.mem_append.1 member with member | member
      · exact state.unread k member feeds
      · exact absurd (List.mem_singleton.1 member ▸ feeds) reads
  case blocked =>
    intro m member other
    have kept : (∃ f, net.Feeds f root ∧ count f = 0) →
        ∃ f, net.Feeds f root ∧ count f - ((net.fanins n).map (·.node)).count f = 0 := by
      rintro ⟨f, feeds, zero⟩
      exact ⟨f, feeds, by rw [zero, Nat.zero_sub]⟩
    rcases (members m).1 member with member | member
    · exact kept (state.blocked m member other)
    · by_cases self : n = root
      · obtain ⟨reads, all, -⟩ := (news m).1 member
        exact ⟨m, self ▸ mem_map_fanins.1 reads, by omega⟩
      · exact kept (state.blocked n (by simp) self)

end Releasing

theorem releaseAll_spec (inPlace : net.InPlace) {root : Nat} {start : Nat → Nat}
    (inner : net.isSource root = false) (steps : Nat) {done work : List Nat}
    {result : Network × Nat} (state : Releasing net root start count done work)
    (run : releaseAll steps (net.recount count) work done.length = .ok result) :
    ∃ final nodes, result = (net.recount final, nodes.length) ∧
      Releasing net root start final nodes [] := by
  induction steps generalizing count done work with
  | zero =>
    cases work with
    | nil =>
      cases run
      exact ⟨count, done, rfl, state⟩
    | cons n rest => simp [releaseAll] at run
  | succ steps ih =>
    cases work with
    | nil =>
      cases run
      exact ⟨count, done, rfl, state⟩
    | cons n rest =>
      simp only [releaseAll, bind_eq_ok, fanins_recount] at run
      obtain ⟨⟨mid, next⟩, released, later⟩ := run
      obtain ⟨rfl, covered, added, rfl, apart, news⟩ :=
        foldlM_releaseReference (inPlace.fanin_lt n) released
      have once : root ∉ added := by
        intro member
        obtain ⟨reads, all, -⟩ := (news root).1 member
        have again : root ∈ added ++ rest := List.mem_append_left _ member
        by_cases self : n = root
        · subst self
          exact releaseAll_ne_ok inPlace (mem_map_fanins.1 reads) steps again
            (by rw [all, Nat.sub_self]) later
        · obtain ⟨f, feeds, zero⟩ := state.blocked n (by simp) self
          exact releaseAll_ne_ok inPlace feeds steps again (by rw [zero, Nat.zero_sub]) later
      have length : done.length + 1 = (done ++ [n]).length := by simp
      rw [length] at later
      exact ih (state.step covered apart news once inner) later

structure Retaining (net : Network) (root : Nat) (idle count : Nat → Nat) (done work : List Nat) :
    Prop where
  nodup : (done ++ work).Nodup
  counts : ∀ m, count m = idle m + net.readsAmong done m
  closed : ∀ n ∈ done, ∀ m, net.Feeds m n → idle m = 0 → net.isSource m = false → m ∈ done ++ work
  first : root ∈ done ++ work
  idle : ∀ m ∈ done ++ work, Idle net idle root m
  read : ∀ m ∈ done ++ work, m ≠ root → ∃ n ∈ done, net.Feeds m n

theorem Retaining.begin (net : Network) (root : Nat) (idle : Nat → Nat) :
    Retaining net root idle idle [] [root] where
  nodup := by simp
  counts := by simp [readsAmong]
  idle := by
    intro m member
    rw [List.nil_append, List.mem_singleton] at member
    exact member ▸ .root
  read := by simp
  first := by simp
  closed := by simp

theorem Retaining.step {root n : Nat} {idle : Nat → Nat} {done rest added : List Nat}
    (state : Retaining net root idle count done (n :: rest)) (apart : added.Nodup)
    (news : ∀ m, m ∈ added ↔
      m ∈ (net.fanins n).map (·.node) ∧ count m = 0 ∧ net.isSource m = false)
    (unread : ∀ m, Idle net idle root m → net.Feeds root m → idle root ≠ 0) :
    Retaining net root idle (fun m => count m + ((net.fanins n).map (·.node)).count m)
      (done ++ [n]) (added ++ rest) := by
  simp only [mem_map_fanins] at news
  have zero {m : Nat} (member : m ∈ added) : idle m = 0 := by
    have := state.counts m
    rw [((news m).1 member).2.1] at this
    omega
  have fresh : ∀ m ∈ added, m ∉ done ++ n :: rest := by
    intro m member there
    obtain ⟨feeds, none, -⟩ := (news m).1 member
    by_cases self : m = root
    · subst self
      exact unread n (state.idle n (by simp)) feeds (zero member)
    · obtain ⟨k, earlier, reads⟩ := state.read m there self
      have := state.counts m
      have := mt readsAmong_eq_zero.1 fun unread => unread k earlier reads
      omega
  have members (m : Nat) : m ∈ done ++ [n] ++ (added ++ rest) ↔
      m ∈ done ++ n :: rest ∨ m ∈ added := by
    rw [(perm_popped done rest added n).mem_iff, List.mem_append, or_comm]
  constructor
  case nodup =>
    refine (perm_popped done rest added n).nodup_iff.2 ?_
    exact List.nodup_append.2 ⟨apart, state.nodup, fun a member b there same =>
      fresh a member (same ▸ there)⟩
  case counts =>
    intro m
    rw [readsAmong_concat, state.counts m, Nat.add_assoc]
  case idle =>
    intro m member
    rcases (members m).1 member with member | member
    · exact state.idle m member
    · obtain ⟨feeds, -, inner⟩ := (news m).1 member
      exact .under (state.idle n (by simp)) feeds (zero member) inner
  case read =>
    intro m member other
    rcases (members m).1 member with member | member
    · obtain ⟨k, earlier, feeds⟩ := state.read m member other
      exact ⟨k, List.mem_append_left _ earlier, feeds⟩
    · exact ⟨n, by simp, ((news m).1 member).1⟩
  case first => exact (members root).2 (.inl state.first)
  case closed =>
    intro k member m feeds zero inner
    rw [members]
    rcases List.mem_append.1 member with member | member
    · exact .inl (state.closed k member m feeds zero inner)
    · rw [List.mem_singleton.1 member] at feeds
      by_cases busy : count m = 0
      · exact .inr ((news m).2 ⟨feeds, busy, inner⟩)
      · -- A count that has risen already shows that an earlier node reads `m`.
        have := state.counts m
        have positive : net.readsAmong done m ≠ 0 := by omega
        obtain ⟨k, earlier, reads⟩ : ∃ k ∈ done, net.Feeds m k := by
          simpa [readsAmong_eq_zero] using positive
        exact .inl (state.closed k earlier m reads zero inner)

theorem Retaining.mem_iff {root m : Nat} {idle : Nat → Nat} {nodes : List Nat}
    (state : Retaining net root idle count nodes []) : m ∈ nodes ↔ Idle net idle root m := by
  constructor
  · intro member
    exact state.idle m (by simpa using member)
  · intro path
    induction path with
    | root => simpa using state.first
    | under _ feeds zero inner ih => simpa using state.closed _ ih _ feeds zero inner

theorem retainAll_spec (inPlace : net.InPlace) {root : Nat} {idle : Nat → Nat} (steps : Nat)
    (unread : ∀ m, Idle net idle root m → net.Feeds root m → idle root ≠ 0) {done work : List Nat}
    {result : Network × Nat} (state : Retaining net root idle count done work)
    (run : retainAll steps (net.recount count) work done.length = .ok result) :
    ∃ final nodes, result = (net.recount final, nodes.length) ∧
      Retaining net root idle final nodes [] := by
  induction steps generalizing count done work with
  | zero =>
    cases work with
    | nil =>
      cases run
      exact ⟨count, done, rfl, state⟩
    | cons n rest => simp [retainAll] at run
  | succ steps ih =>
    cases work with
    | nil =>
      cases run
      exact ⟨count, done, rfl, state⟩
    | cons n rest =>
      obtain ⟨added, taken, apart, news⟩ := foldl_takeReference count rest (inPlace.fanin_lt n)
      simp only [retainAll, fanins_recount, taken] at run
      have length : done.length + 1 = (done ++ [n]).length := by simp
      rw [length] at run
      exact ih (state.step apart news unread) run

theorem Releasing.mem_iff {root m : Nat} {start : Nat → Nat} {nodes : List Nat}
    (state : Releasing net root start count nodes []) : m ∈ nodes ↔ Idle net count root m := by
  constructor
  · intro member
    exact state.idle m (by simpa using member)
  · intro idle
    induction idle with
    | root => simpa using state.first
    | under _ feeds zero inner ih => simpa using state.closed _ ih _ feeds zero inner

/-- The order of release does not matter. -/
theorem Releasing.perm {root : Nat} {start : Nat → Nat} {nodes found : List Nat}
    (state : Releasing net root start count nodes []) (perm : nodes.Perm found) :
    Releasing net root start count found [] := by
  have all (m : Nat) : m ∈ found ++ [] ↔ m ∈ nodes ++ [] := by
    rw [List.append_nil, List.append_nil, perm.mem_iff]
  exact {
    nodup := (perm.append_right []).nodup_iff.1 state.nodup
    counts := fun m => by rw [← readsAmong_perm perm, state.counts]
    idle := fun m member => state.idle m ((all m).1 member)
    closed := fun n member m feeds zero inner =>
      (all m).2 (state.closed n (perm.mem_iff.2 member) m feeds zero inner)
    first := (all root).2 state.first
    unread := fun n member => state.unread n (perm.mem_iff.2 member)
    blocked := fun n member => state.blocked n ((all n).1 member) }

theorem perm_retained {root : Nat} {start idle final : Nat → Nat} {released retained : List Nat}
    (before : Releasing net root start idle released [])
    (after : Retaining net root idle final retained []) : retained.Perm released :=
  (List.perm_ext_iff_of_nodup (by simpa using after.nodup) (by simpa using before.nodup)).2
    fun _ => after.mem_iff.trans before.mem_iff.symm

theorem counts_restored {root : Nat} {start idle final : Nat → Nat} {released retained : List Nat}
    (before : Releasing net root start idle released [])
    (after : Retaining net root idle final retained []) (m : Nat) : final m = start m := by
  rw [after.counts, ← before.counts, readsAmong_perm (perm_retained before after)]

end Network

/-- A set of nodes that goes away together with its root: only its own gates read a member other
    than the root. -/
structure FanoutFree (net : Network) (root : Nat) (leaves nodes : List Nat) : Prop where
  nodup : nodes.Nodup
  first : root ∈ nodes
  inner : ∀ m ∈ nodes, net.isLiveGate m = true
  apart : ∀ m ∈ nodes, m ≠ root → m ∉ leaves
  unread : ∀ m ∈ nodes, m ≠ root → net.outputReferences m = 0
  readers : ∀ m ∈ nodes, m ≠ root → ∀ n, net.isLiveGate n = true → net.Feeds m n → n ∈ nodes
  reached : ∀ holds : Nat → Prop, holds root →
    (∀ n ∈ nodes, holds n → ∀ m ∈ nodes, net.Feeds m n → holds m) → ∀ m ∈ nodes, holds m

namespace Network

variable {net : Network}

def liveGatesApart (net : Network) (nodes : List Nat) : List Nat :=
  net.liveGates.filter fun g => decide (g ∉ nodes)

theorem mem_liveGatesApart {nodes : List Nat} {g : Nat} :
    g ∈ net.liveGatesApart nodes ↔ net.isLiveGate g = true ∧ g ∉ nodes := by
  simp [liveGatesApart, mem_liveGates]

theorem Balanced.fanoutCount_eq (balanced : net.Balanced) {nodes : List Nat} (nodup : nodes.Nodup)
    (running : ∀ n ∈ nodes, net.isLiveGate n = true) (m : Nat) :
    net.fanoutCount m = net.readsAmong nodes m + net.readsAmong (net.liveGatesApart nodes) m +
      net.outputReferences m := by
  have split : (nodes ++ net.liveGatesApart nodes).Perm net.liveGates := by
    refine (List.perm_ext_iff_of_nodup ?_ (nodup_liveGates net)).2 fun g => ?_
    · refine List.nodup_append.2 ⟨nodup, (nodup_liveGates net).filter _, ?_⟩
      rintro g member _ there rfl
      exact (mem_liveGatesApart.1 there).2 member
    · rw [List.mem_append, mem_liveGatesApart, mem_liveGates]
      constructor
      · rintro (member | ⟨live, -⟩)
        · exact running g member
        · exact live
      · intro live
        by_cases member : g ∈ nodes
        · exact .inl member
        · exact .inr ⟨live, member⟩
  rw [balanced.count, count_references_eq, ← readsAmong_perm split, readsAmong_append]

theorem fanoutFree_of_releasing (balanced : net.Balanced) {root : Nat} {leaves nodes : List Nat}
    {count : Nat → Nat} (live : net.isLiveGate root = true)
    (state : Releasing net root (fun m => net.fanoutCount m + leaves.count m) count nodes []) :
    FanoutFree net root leaves nodes := by
  have nodup : nodes.Nodup := by simpa using state.nodup
  have reached : ∀ holds : Nat → Prop, holds root →
      (∀ n ∈ nodes, holds n → ∀ m ∈ nodes, net.Feeds m n → holds m) → ∀ m ∈ nodes, holds m := by
    intro holds first later m member
    have idle := state.mem_iff.1 member
    induction idle with
    | root => exact first
    | under above feeds zero inner ih =>
      have there := state.mem_iff.2 above
      exact later _ there (ih there) _ member feeds
  have running : ∀ m ∈ nodes, net.isLiveGate m = true :=
    fun m member => (state.mem_iff.1 member).live balanced live
  -- The references from members are all that refers to a member.
  have all (m : Nat) (member : m ∈ nodes) (other : m ≠ root) :
      leaves.count m = 0 ∧ net.outputReferences m = 0 ∧
        net.readsAmong (net.liveGatesApart nodes) m = 0 := by
    have zero : count m = 0 := by
      cases state.mem_iff.1 member with
      | root => exact absurd rfl other
      | under _ _ zero => exact zero
    have sum := state.counts m
    rw [zero, balanced.fanoutCount_eq nodup running] at sum
    omega
  exact {
    nodup
    first := by simpa using state.first
    inner := running
    apart := fun m member other => List.count_eq_zero.1 (all m member other).1
    unread := fun m member other => (all m member other).2.1
    readers := by
      intro m member other n awake feeds
      by_contra outside
      exact readsAmong_eq_zero.1 (all m member other).2.2 n
        (mem_liveGatesApart.2 ⟨awake, outside⟩) feeds
    reached }

end Network

theorem FanoutFree.perm {net : Network} {root : Nat} {leaves nodes found : List Nat}
    (free : FanoutFree net root leaves nodes) (perm : nodes.Perm found) :
    FanoutFree net root leaves found where
  nodup := perm.nodup_iff.1 free.nodup
  first := perm.mem_iff.1 free.first
  inner := fun m member => free.inner m (perm.mem_iff.2 member)
  apart := fun m member => free.apart m (perm.mem_iff.2 member)
  unread := fun m member => free.unread m (perm.mem_iff.2 member)
  readers := fun m member other n live feeds =>
    perm.mem_iff.1 (free.readers m (perm.mem_iff.2 member) other n live feeds)
  reached := fun holds first later m member =>
    free.reached holds first (fun n there running k inside =>
      later n (perm.mem_iff.1 there) running k (perm.mem_iff.1 inside)) m (perm.mem_iff.2 member)

namespace Edit

variable {net net' : Network} {count : Nat → Nat}

theorem gives_discard {α : Type} {op : Edit α} {u : PUnit} :
    Gives (discard op) net u net' ↔ ∃ a, Gives op net a net' := by
  simp only [Gives, discard, Functor.mapConst, Function.comp, EStateM.map]
  cases op net <;> simp

theorem incrFanoutCount_gives {n k : Nat} (run : Gives (incrFanoutCount n) net k net') :
    net' = net.incrCount n := by
  simp only [incrFanoutCount, gives_bind, gives_check, gives_update, gives_get, gives_pure] at run
  obtain ⟨_, _, ⟨-, rfl⟩, _, _, rfl, _, _, ⟨rfl, rfl⟩, -, rfl⟩ := run
  rfl

theorem decrFanoutCount_gives {n k : Nat} (run : Gives (decrFanoutCount n) net k net') :
    net' = net.decrCount n := by
  simp only [decrFanoutCount, gives_bind, gives_check, gives_update, gives_get, gives_pure] at run
  obtain ⟨_, _, ⟨-, rfl⟩, _, _, ⟨-, rfl⟩, _, _, rfl, _, _, ⟨rfl, rfl⟩, -, rfl⟩ := run
  rfl

theorem countLeaves_gives {leaves : List Nat} {u : PUnit}
    (run : Gives (leaves.forM fun n => discard (incrFanoutCount n)) (net.recount count) u net') :
    net' = net.recount fun m => count m + leaves.count m := by
  induction leaves generalizing count with
  | nil =>
    simp only [List.forM_eq_forM, List.forM_nil, gives_pure] at run
    rw [← run.2]
    exact recount_congr fun m _ => by simp
  | cons n rest ih =>
    simp only [List.forM_eq_forM, List.forM_cons, gives_bind, gives_discard] at run
    obtain ⟨_, mid, ⟨k, head⟩, tail⟩ := run
    rw [incrFanoutCount_gives head, incrCount_recount] at tail
    rw [ih tail]
    refine recount_congr fun m _ => ?_
    rw [List.count_cons]
    by_cases same : n = m
    · subst same
      simp
      omega
    · simp [same, Ne.symm same]

theorem uncountLeaves_gives {leaves : List Nat} {u : PUnit}
    (run : Gives (leaves.forM fun n => discard (decrFanoutCount n)) (net.recount count) u net') :
    net' = net.recount fun m => count m - leaves.count m := by
  induction leaves generalizing count with
  | nil =>
    simp only [List.forM_eq_forM, List.forM_nil, gives_pure] at run
    rw [← run.2]
    exact recount_congr fun m _ => by simp
  | cons n rest ih =>
    simp only [List.forM_eq_forM, List.forM_cons, gives_bind, gives_discard] at run
    obtain ⟨_, mid, ⟨k, head⟩, tail⟩ := run
    rw [decrFanoutCount_gives head, decrCount_recount] at tail
    rw [ih tail]
    refine recount_congr fun m _ => ?_
    rw [List.count_cons]
    by_cases same : n = m
    · subst same
      simp
      omega
    · simp [same, Ne.symm same]

theorem releaseNode_gives {n k : Nat} (inner : net.isSource n = false)
    (run : Gives (releaseNode n) net k net') :
    releaseAll (net.size + 1) net [n] 0 = .ok (net', k) := by
  simp only [releaseNode, gives_bind, gives_check, gives_set, gives_pure, release, inner,
    Bool.false_eq_true, ↓reduceIte, bind_eq_ok] at run
  obtain ⟨⟨mid, count⟩, _, ⟨⟨_, -, released⟩, rfl⟩, _, _, rfl, rfl, rfl⟩ := run
  exact released

theorem retainNode_gives {n k : Nat} (inner : net.isSource n = false)
    (run : Gives (retainNode n) net k net') :
    retainAll (net.size + 1) net [n] 0 = .ok (net', k) := by
  simp only [retainNode, gives_bind, gives_check, gives_set, gives_pure, retain, inner,
    Bool.false_eq_true, ↓reduceIte, bind_eq_ok] at run
  obtain ⟨⟨mid, count⟩, _, ⟨⟨_, -, retained⟩, rfl⟩, _, _, rfl, rfl, rfl⟩ := run
  exact retained

theorem perm_collect {c : ConeFinder} {root : Nat} {start : Nat → Nat} {nodes : List Nat}
    (below : ∀ m n, net.Feeds m n → m < net.size)
    (state : Releasing net root start count nodes [])
    (same : (c.collect (net.recount count) root).order.toList.length = nodes.length) :
    nodes.Perm (c.collect (net.recount count) root).order.toList := by
  obtain ⟨found, swept⟩ := sweep_spec (net.recount count)
    (ConeFinder.bounds (net.recount count) root) _ (.start c.marks) root
    (Marks.current_newTraversal_ne_zero _) (length_unmarked_lt_depthBound _ _)
  obtain ⟨order, listed⟩ := swept.listed
  rw [ConeFinder.collect, order] at same ⊢
  have subset : nodes ⊆ found := by
    intro m member
    have idle := state.mem_iff.1 member
    induction idle with
    | root => exact (listed.reached root (by simp)).resolve_left (by simp [ConeFinder.bounds])
    | under above feeds zero inner ih =>
      have there := ih (state.mem_iff.2 above)
      refine (listed.closed _ there _ (feeds_recount.2 feeds)).resolve_left ?_
      simp [ConeFinder.bounds, inner, fanoutCount_recount (below _ _ feeds), zero]
  have nodup : nodes.Nodup := by simpa using state.nodup
  exact (nodup.subperm subset).perm_of_length_le (Nat.le_of_eq same)

theorem runCone_gives {c c' : ConeFinder} {root : Nat} {leaves : List Nat} {cone : Cone}
    (balanced : net.Balanced) (live : net.isLiveGate root = true)
    (run : Gives (c.run root leaves) net (cone, c') net') :
    net' = net ∧ FanoutFree net root leaves cone.nodes ∧ cone.nodes.length = cone.gain := by
  obtain ⟨⟨g, slot⟩, -⟩ := isLiveGate_eq_true.1 live
  have inner := balanced.inPlace.not_source_of_gate slot
  simp only [ConeFinder.run, gives_bind, gives_get, gives_ofExcept, gives_pure, ensure_eq_ok] at run
  obtain ⟨_, raised, counted, released, idle, released_run, _, _, ⟨rfl, rfl⟩, retained, restored,
    retained_run, _, _, ⟨-, rfl⟩, _, _, uncounted, _, _, ⟨collected, rfl⟩, answer, rfl⟩ := run
  cases answer
  have counted : Gives (leaves.forM fun n => discard (incrFanoutCount n))
      (net.recount net.fanoutCount) () raised := by
    rw [recount_self]
    exact counted
  obtain rfl := countLeaves_gives counted
  have before := releaseNode_gives (by rw [isSource_recount, inner]) released_run
  obtain ⟨count, nodes, found, state⟩ :=
    releaseAll_spec balanced.inPlace inner _ (.begin net root _) before
  cases found
  have after := retainNode_gives (by rw [isSource_recount, inner]) retained_run
  obtain ⟨final, again, found, state'⟩ := retainAll_spec balanced.inPlace _
    (fun m idle feeds => state.unread m (state.mem_iff.2 idle) feeds) (.begin net root count) after
  cases found
  have back := counts_restored state state'
  obtain rfl := uncountLeaves_gives uncounted
  have live' := state.mem_iff.2 (.root)
  have some : nodes.length ≠ 0 := fun none => by
    rw [List.length_eq_zero_iff.1 none] at live'
    cases live'
  have length : (c.collect (net.recount count) root).order.toList.length = nodes.length := by
    simpa [some] using collected
  have perm := perm_collect (fun _ _ feeds => balanced.inPlace.lt_of_feeds feeds) state length
  refine ⟨?_, (fanoutFree_of_releasing balanced live state).perm perm, length⟩
  refine (recount_congr fun m _ => ?_).trans (recount_self net)
  rw [back, Nat.add_sub_cancel]

end Edit

end LogicOpt
