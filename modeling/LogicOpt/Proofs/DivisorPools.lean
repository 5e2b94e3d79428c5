import LogicOpt.Proofs.Divisors

namespace LogicOpt

open Network

variable {net : Network} {root : Nat} {leaves cone : List Nat}

namespace DivisorFinder

/-- Whatever the window holds is the constant, a divisor or in the cone; what the cone reads is in
    the window; and the divisors after the leaves are gates in order. -/
structure Pool.Ready (p : Pool) (net : Network) (leaves cone : List Nat) : Prop where
  visited : ∀ m, p.visited.isMarked m = true → m = 0 ∨ m ∈ p.divisors ∨ m ∈ cone
  below : ∀ n ∈ cone, ∀ m, net.Feeds m n → p.visited.isMarked m = true
  rest : ∃ rest, p.divisors = leaves ++ rest ∧ net.InOrder (fun m => m = 0 ∨ m ∈ leaves) rest ∧
    ∀ d ∈ rest, net.isGate d = true

theorem not_feeds_of_free (free : FanoutFree net root leaves cone) {m n : Nat}
    (live : net.isLiveGate n = true) (outside : n ∉ cone) (other : m ≠ root)
    (feeds : net.Feeds m n) : m ∉ cone :=
  fun member => outside (free.readers m member other n live feeds)

theorem Pool.Begun.mem_divisors {found : List Nat} {p : Pool}
    (begun : p.Begun net root leaves cone found) {m : Nat} :
    m ∈ p.divisors ↔ m ∈ leaves ∨ m ∈ found ∧ m ∉ cone ∧ m ≠ 0 := by
  rw [begun.divisors, List.mem_append, List.mem_filter, Bool.and_eq_true, decide_eq_true_eq,
    bne_iff_ne]

theorem Pool.Begun.ready {interior found : List Nat} {p : Pool}
    (begun : p.Begun net root leaves cone found) (orderly : net.Orderly) (acyclic : net.Acyclic)
    (free : FanoutFree net root leaves cone) (separates : Separates net [root] leaves interior)
    (apart : root ∉ leaves) : p.Ready net leaves cone := by
  have live := free.inner root free.first
  have gate (m : Nat) (member : m ∈ found) (other : m ≠ 0) : net.isLiveGate m = true := by
    have body := (separates.gate_of_found orderly.inPlace acyclic
      (by simpa using lt_of_isLiveGate live) (by simpa using begun.source) begun.apart m
      member).resolve_left other
    have awake := (begun.below m member).live orderly.balanced (isLiveGate_eq_true.1 live).2
    simp [isLiveGate, body, awake]
  have kept (m : Nat) : (decide (m ∉ cone) && m != 0) = true ↔ m ∉ cone ∧ m ≠ 0 := by
    rw [Bool.and_eq_true, decide_eq_true_eq, bne_iff_ne]
  have outside (n : Nat) (member : n ∈ cone) : n ∉ leaves := by
    by_cases same : n = root
    · rwa [same]
    · exact free.apart n member same
  constructor
  case visited =>
    intro m visited
    rw [begun.mem_divisors]
    rcases (begun.marked m).1 visited with leaf | listed
    · exact .inr (.inl (.inl leaf))
    · by_cases zero : m = 0
      · exact .inl zero
      · by_cases member : m ∈ cone
        · exact .inr (.inr member)
        · exact .inr (.inl (.inr ⟨listed, member, zero⟩))
  case below =>
    intro n member m feeds
    have listed : ∀ n ∈ cone, n ∈ found := by
      have held := free.reached (fun n => n ∈ leaves ∨ n ∈ found) begun.first
        fun n there reached m _ feeds =>
          begun.closed n (reached.resolve_left (outside n there)) m feeds
      exact fun n member => (held n member).resolve_left (outside n member)
    exact (begun.marked m).2 (begun.closed n (listed n member) m feeds)
  case rest =>
    refine ⟨_, begun.divisors, (begun.ordered acyclic).filter (fun _ _ _ _ _ => .inr) ?_,
      fun d member => ?_⟩
    · intro n member there m earlier feeds
      obtain ⟨outside, other⟩ := (kept n).1 there
      by_cases zero : m = 0
      · exact .inr (.inl zero)
      · refine .inl ((kept m).2 ⟨?_, zero⟩)
        -- Of the cone only the root may be read from outside, and the root lies above `n`.
        refine not_feeds_of_free free (gate n member other) outside (fun same => ?_) feeds
        exact (begun.below n member).not_feeds acyclic (same ▸ feeds)
    · obtain ⟨listed, there⟩ := List.mem_filter.1 member
      obtain ⟨⟨g, slot⟩, -⟩ := isLiveGate_eq_true.1 (gate d listed ((kept d).1 there).2)
      simp [isGate, slot]

namespace Pool.Ready

variable {p : Pool} {limits : SideLimits}

theorem join (ready : p.Ready net leaves cone) (clear : p.Clear net root cone)
    (free : FanoutFree net root leaves cone) (same : limits.root = root) {n : Nat}
    (live : net.isLiveGate n = true) (admitted : p.admits net limits n = true) :
    (p.joined n).Ready net leaves cone := by
  simp only [admits, Bool.and_eq_true, Bool.not_eq_true', List.all_eq_true, List.any_eq_false,
    beq_iff_eq, same] at admitted
  obtain ⟨⟨⟨⟨⟨fresh, -⟩, -⟩, -⟩, window⟩, other⟩ := admitted
  have marked (m : Nat) : (p.joined n).visited.isMarked m = true ↔
      m = n ∨ p.visited.isMarked m = true := isMarked_joined clear.started
  have absent : n ∉ cone := fun member => by
    rw [clear.held n member] at fresh
    cases fresh
  constructor
  case visited =>
    intro m visited
    rw [mem_joined]
    rcases (marked m).1 visited with rfl | earlier
    · exact .inr (.inl (.inr rfl))
    · exact (ready.visited m earlier).imp_right (Or.imp_left .inl)
  case below => exact fun k member m feeds => (marked m).2 (.inr (ready.below k member m feeds))
  case rest =>
    obtain ⟨rest, divisors, ordered, gates⟩ := ready.rest
    refine ⟨rest ++ [n], by rw [joined, divisors, List.append_assoc],
      ordered.append ⟨fun m feeds => ?_, trivial⟩, fun d member => ?_⟩
    · obtain ⟨f, reads, rfl⟩ := feeds
      have outside := not_feeds_of_free free live absent (other f reads) ⟨f, reads, rfl⟩
      have known := ready.visited f.node (window f reads)
      rw [divisors, List.mem_append] at known
      tauto
    · rcases List.mem_append.1 member with earlier | last
      · exact gates d earlier
      · obtain ⟨⟨g, slot⟩, -⟩ := isLiveGate_eq_true.1 live
        rw [List.mem_singleton.1 last]
        simp [isGate, slot]

theorem inside (ready : p.Ready net leaves cone) (slots : ∀ n ∈ leaves, n < net.size) :
    ∀ d ∈ p.divisors, d < net.size := by
  obtain ⟨rest, divisors, -, gates⟩ := ready.rest
  intro d member
  rw [divisors] at member
  rcases List.mem_append.1 member with leaf | gate
  · exact slots d leaf
  · obtain ⟨g, slot⟩ := Option.isSome_iff_exists.1 (gates d gate)
    exact lt_size_of_gate? slot

theorem inOrder (ready : p.Ready net leaves cone) (free : FanoutFree net root leaves cone)
    (ordered : net.InOrder (fun m => m ∉ cone) cone) :
    ∃ rest, p.divisors = leaves ++ rest ∧
      net.InOrder (fun m => m = 0 ∨ m ∈ leaves) (rest ++ cone) ∧
      ∀ n ∈ rest ++ cone, net.isGate n = true := by
  obtain ⟨rest, same, sorted, gates⟩ := ready.rest
  refine ⟨rest, same, sorted.append (ordered.mono fun n member m feeds outside => ?_), ?_⟩
  · have known := ready.visited m (ready.below n member m feeds)
    rw [same, List.mem_append] at known
    tauto
  · intro n member
    rcases List.mem_append.1 member with earlier | there
    · exact gates n earlier
    · obtain ⟨⟨g, slot⟩, -⟩ := isLiveGate_eq_true.1 (free.inner n there)
      simp [isGate, slot]

end Pool.Ready

def sideLimits (net : Network) (params : Params) (root : Nat) : SideLimits where
  root := root
  maxLevel := if params.preserveDepth then net.level root else levelLimit
  maxFanout := params.skipFanoutLimitForDivisors

def poolLimit (params : Params) (leaves cone : List Nat) : Nat :=
  budget params + leaves.length - cone.length

theorem Pool.Widened.clear_ready {p p' : Pool} {limits : SideLimits} {limit : Nat}
    (widened : p.Widened net limits limit p') (same : limits.root = root)
    (free : FanoutFree net root leaves cone) (clear : p.Clear net root cone)
    (ready : p.Ready net leaves cone) : p'.Clear net root cone ∧ p'.Ready net leaves cone := by
  refine widened.keeps (fun q => q.Clear net root cone ∧ q.Ready net leaves cone)
    ⟨clear, ready⟩ fun q n held live admitted => ?_
  exact ⟨held.1.join same admitted, held.2.join held.1 free same live admitted⟩

structure Collecting (c : DivisorFinder) (net : Network) (root : Nat) (leaves cone : List Nat)
    (params : Params) (found : List Nat) (start : Pool) (inCone : Marks) : Prop where
  begun : start.Begun net root leaves cone found
  clear : start.Clear net root cone
  ready : start.Ready net leaves cone
  outcome :
    if budget params < start.divisors.length + cone.length - leaves.length then
      c.run net root leaves cone params = .ok (.error (.divisorBudgetExceeded
        (start.divisors.length + cone.length - leaves.length) (budget params)),
        ⟨start.visited, inCone⟩)
    else ∃ last, Pool.widen net (sideLimits net params root) (poolLimit params leaves cone)
          (start.divisors.length + net.size + 1) 0 start = .ok last ∧
        start.Widened net (sideLimits net params root) (poolLimit params leaves cone) last ∧
        c.run net root leaves cone params = .ok (.ok last.divisors, ⟨last.visited, inCone⟩)

theorem exists_pool (c : DivisorFinder) (params : Params) {interior : List Nat}
    (orderly : net.Orderly) (acyclic : net.Acyclic) (free : FanoutFree net root leaves cone)
    (separates : Separates net [root] leaves interior) (apart : root ∉ leaves)
    (below : ∀ n ∈ leaves, n < net.size ∧ net.Reaches root n) :
    ∃ found start inCone, c.Collecting net root leaves cone params found start inCone := by
  have slots : ∀ n ∈ leaves, n < net.size := fun n member => (below n member).1
  have first := lt_of_isLiveGate (free.inner root free.first)
  have available : Marks.requireRoom ((leaves ++ cone).filter (net.size ≤ ·)) = .ok () := by
    refine requireRoom_of_slots fun n member => ?_
    rcases List.mem_append.1 member with leaf | there
    · exact slots n leaf
    · exact lt_of_isLiveGate (free.inner n there)
  have rooted : ensure (leaves.contains root || decide (root < net.size)) .outOfRange = .ok () := by
    rw [ensure_eq_ok]
    simp [first]
  have required : net.require root = .ok () := require_eq_ok.2 first
  obtain ⟨started, marks, pool⟩ := Pool.foldl_addLeaf leaves ⟨c.visited.newTraversal, []⟩
    (Marks.current_newTraversal_ne_zero c.visited) separates.nodup
    fun n _ => Marks.isMarked_newTraversal _ n
  have window (m : Nat) :
      (leaves.foldl Pool.addLeaf ⟨c.visited.newTraversal, []⟩).visited.isMarked m = true ↔
        m ∈ leaves := by
    rw [marks, Marks.isMarked_newTraversal]
    simp
  have inside (m : Nat) : (c.inCone.newTraversal.markAll cone).isMarked m = true ↔ m ∈ cone := by
    rw [Marks.isMarked_markAll (Marks.current_newTraversal_ne_zero _), Marks.isMarked_newTraversal]
    simp
  obtain ⟨found, begun⟩ := Pool.begun_addCone root started window (by simpa using pool) inside
  have clear := begun.clear orderly acyclic free apart fun n member => (below n member).2
  have ready := begun.ready orderly acyclic free separates apart
  refine ⟨found, _, c.inCone.newTraversal.markAll cone, begun, clear, ready, ?_⟩
  simp only [DivisorFinder.run, available, rooted, bind, Except.bind, pure, Except.pure]
  split
  · rfl
  · obtain ⟨last, ran, widened⟩ := Pool.exists_widen (sideLimits net params root)
      (poolLimit params leaves cone) _ 0 orderly.inPlace (ready.inside slots)
    refine ⟨last, ran, widened, ?_⟩
    rw [sideLimits, poolLimit] at ran
    -- Both ways of choosing the depth limit widen the same pool.
    cases depth : params.preserveDepth <;>
      simp only [depth, ↓reduceIte, Bool.false_eq_true] at ran <;>
      simp only [↓reduceIte, Bool.false_eq_true, required, ran]

/-- The divisors of a root are found, or there are too many; nothing is refused. They start with the
    leaves, and the others and the cone can be computed one after another. -/
theorem exists_run (c : DivisorFinder) (params : Params) {interior : List Nat}
    (orderly : net.Orderly) (acyclic : net.Acyclic) (free : FanoutFree net root leaves cone)
    (separates : Separates net [root] leaves interior) (apart : root ∉ leaves)
    (below : ∀ n ∈ leaves, n < net.size ∧ net.Reaches root n)
    (ordered : net.InOrder (fun m => m ∉ cone) cone) :
    ∃ found c', c.run net root leaves cone params = .ok (found, c') ∧
      ∀ divisors, found = .ok divisors → ∃ rest, divisors = leaves ++ rest ∧
        net.InOrder (fun m => m = 0 ∨ m ∈ leaves) (rest ++ cone) ∧
        ∀ n ∈ rest ++ cone, net.isGate n = true := by
  obtain ⟨found, start, inCone, -, clear, ready, outcome⟩ :=
    exists_pool c params orderly acyclic free separates apart below
  split at outcome
  · exact ⟨_, _, outcome, by simp⟩
  · obtain ⟨last, -, widened, run⟩ := outcome
    refine ⟨_, _, run, fun divisors same => ?_⟩
    cases same
    exact (widened.clear_ready rfl free clear ready).2.inOrder free ordered

end DivisorFinder

theorem Windowed.divisors_clear {params : Params} {w : RootWindow}
    (window : Windowed params net w cone) (orderly : net.Orderly) (acyclic : net.Acyclic) :
    ∀ d ∈ w.divisors, ¬net.Reaches d w.root ∧ d ∉ cone ∧ net.isDead d = false := by
  obtain ⟨c, c', interior, grown⟩ := window.cut
  obtain ⟨-, separates, -⟩ := Cutter.run_sound orderly.inPlace grown
  obtain ⟨finder, finder', run⟩ := window.divisors
  obtain ⟨found, start, inCone, -, clear, ready, outcome⟩ := finder.exists_pool params orderly
    acyclic window.free separates window.apart (Cutter.reaches_of_run orderly.inPlace grown)
  split at outcome
  · rw [run] at outcome
    cases outcome
  · obtain ⟨last, -, widened, ran⟩ := outcome
    rw [run] at ran
    have same : w.divisors = last.divisors :=
      Except.ok.inj (Prod.mk.inj (Except.ok.inj ran)).1
    obtain ⟨clear, -⟩ := widened.clear_ready rfl window.free clear ready
    rw [same]
    intro d member
    obtain ⟨visited, outside⟩ := clear.divisors d member
    refine ⟨clear.behind d visited fun here => outside ?_, outside, clear.live d member⟩
    rw [here]
    exact window.free.first

end LogicOpt
