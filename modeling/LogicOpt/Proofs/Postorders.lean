import LogicOpt.Proofs.Simulators

/-!
Orders of a network. The traversal that keeps a list of waiting nodes takes the turns of the
recursive one: between two visits its marked nodes are the finished ones, and the nodes that the
recursion has entered besides wait further down the list. On an acyclic network no such node is met
again, so both list the same nodes in the same order, and the list of waiting nodes runs empty.
-/

namespace LogicOpt

namespace Network

variable {net : Network} {skip : Nat → Bool}

theorem attendTimes_add (turns more : Nat) (a : Agenda) :
    net.attendTimes skip (turns + more) a =
      net.attendTimes skip more (net.attendTimes skip turns a) := by
  induction turns generalizing a with
  | zero => rw [Nat.zero_add]; rfl
  | succ turns ih => rw [Nat.succ_add]; exact ih _

theorem attendTimes_nil (turns : Nat) (done : Sweep) :
    net.attendTimes skip turns ⟨[], done⟩ = ⟨[], done⟩ := by
  induction turns with
  | zero => rfl
  | succ turns ih => exact ih

theorem attend_passed {n : Nat} {rest : List Nat} {done : Sweep}
    (passed : skip n = true ∨ done.marks.isMarked n = true) :
    net.attend skip ⟨n :: rest, done⟩ = ⟨rest, done⟩ := by
  simp [attend, passed]

theorem attend_waits {n m : Nat} {rest : List Nat} {done : Sweep} (kept : skip n = false)
    (fresh : done.marks.isMarked n = false) (awaits : net.awaited? skip done.marks n = some m) :
    net.attend skip ⟨n :: rest, done⟩ = ⟨m :: n :: rest, done⟩ := by
  simp [attend, kept, fresh, awaits]

theorem attend_finishes {n : Nat} {rest : List Nat} {done : Sweep} (kept : skip n = false)
    (fresh : done.marks.isMarked n = false) (ready : net.awaited? skip done.marks n = none) :
    net.attend skip ⟨n :: rest, done⟩ =
      ⟨rest, ⟨done.marks.mark n, done.order.push n⟩⟩ := by
  simp [attend, kept, fresh, ready]

/-- The recursion is at `s` and the traversal with the list at `t`. They have listed the same nodes;
    the recursion has marked those and the ones it has entered only. -/
structure Abreast (entered : Nat → Prop) (s t : Sweep) : Prop where
  begun : s.marks.current ≠ 0
  started : t.marks.current ≠ 0
  order : t.order = s.order
  marked : ∀ m, s.marks.isMarked m = true ↔ t.marks.isMarked m = true ∨ entered m
  unfinished : ∀ m, entered m → t.marks.isMarked m = false

variable {entered : Nat → Prop} {s s' t t' : Sweep} {n : Nat}

theorem Abreast.enter (abreast : Abreast entered s t) (fresh : t.marks.isMarked n = false) :
    Abreast (fun m => entered m ∨ m = n) { s with marks := s.marks.mark n } t where
  begun := abreast.begun
  started := abreast.started
  order := abreast.order
  marked := fun m => by
    simp only [Marks.isMarked_mark abreast.begun, Bool.or_eq_true, beq_iff_eq, abreast.marked]
    tauto
  unfinished := by
    rintro m (outer | rfl)
    · exact abreast.unfinished m outer
    · exact fresh

theorem Abreast.finish (abreast : Abreast (fun m => entered m ∨ m = n) s t)
    (other : ¬entered n) :
    Abreast entered { s with order := s.order.push n } ⟨t.marks.mark n, t.order.push n⟩ where
  begun := abreast.begun
  started := abreast.started
  order := by rw [abreast.order]
  marked := fun m => by
    simp only [Marks.isMarked_mark abreast.started, Bool.or_eq_true, beq_iff_eq, abreast.marked]
    tauto
  unfinished := fun m outer => by
    have apart : m ≠ n := fun same => other (same ▸ outer)
    simp [Marks.isMarked_mark abreast.started, apart, abreast.unfinished m (.inl outer)]

theorem Abreast.grown (before : Abreast entered s t) (after : Abreast entered s' t')
    (grown : ∀ m, s.marks.isMarked m = true → s'.marks.isMarked m = true) {m : Nat}
    (marked : t.marks.isMarked m = true) : t'.marks.isMarked m = true := by
  refine ((after.marked m).1 (grown m ((before.marked m).2 (.inl marked)))).resolve_right ?_
  intro outer
  rw [before.unfinished m outer] at marked
  cases marked

/-- Some turns take `n` from the list and bring the traversal from `t` to where the recursion is
    at `s'`: at most one turn more than two for every node they list, and fewer if `n` is not
    passed over. -/
def Attends (net : Network) (skip : Nat → Bool) (entered : Nat → Prop) (n : Nat) (s' t : Sweep) :
    Prop :=
  ∀ rest, ∃ turns t', net.attendTimes skip turns ⟨n :: rest, t⟩ = ⟨rest, t'⟩ ∧
    Abreast entered s' t' ∧ turns + 2 * t.order.size ≤ 2 * t'.order.size + 1 ∧
    (skip n = false → t.marks.isMarked n = false → turns + 2 * t.order.size < 2 * t'.order.size)

theorem sweep_passed {depth : Nat} (passed : skip n = true ∨ s.marks.isMarked n = true) :
    net.sweep skip depth s n = s := by
  cases depth with
  | zero => rfl
  | succ depth => rw [sweep, if_pos (by simpa [or_comm] using passed)]

theorem awaited?_of_passed {marks : Marks} {passed ahead : List Signal}
    (split : net.fanins n = passed ++ ahead)
    (behind : ∀ f ∈ passed, skip f.node = true ∨ marks.isMarked f.node = true) :
    net.awaited? skip marks n =
      (ahead.map (·.node)).find? fun m => !(skip m || marks.isMarked m) := by
  have none : (passed.map (·.node)).find? (fun m => !(skip m || marks.isMarked m)) = none := by
    rw [List.find?_eq_none, List.forall_mem_map]
    intro f member
    rcases behind f member with skipped | skipped <;> simp [skipped]
  rw [awaited?, split, List.map_append, List.find?_append, none, Option.none_or]

theorem attends_fanins {depth : Nat} {passed ahead : List Signal}
    (split : net.fanins n = passed ++ ahead) (kept : skip n = false) (other : ¬entered n)
    (apart : ∀ f ∈ net.fanins n, ¬(entered f.node ∨ f.node = n))
    (visits : ∀ f ∈ net.fanins n, ∀ s t, Abreast (fun m => entered m ∨ m = n) s t →
      (net.unmarked s.marks).length < depth →
        Attends net skip (fun m => entered m ∨ m = n) f.node (net.sweep skip depth s f.node) t)
    (abreast : Abreast (fun m => entered m ∨ m = n) s t)
    (behind : ∀ f ∈ passed, skip f.node = true ∨ t.marks.isMarked f.node = true)
    (room : ahead = [] ∨ (net.unmarked s.marks).length < depth) (rest : List Nat) :
    let below := ahead.foldl (fun s f => net.sweep skip depth s f.node) s
    ∃ turns t', net.attendTimes skip turns ⟨n :: rest, t⟩ = ⟨rest, t'⟩ ∧
      Abreast entered { below with order := below.order.push n } t' ∧
      turns + 2 * t.order.size < 2 * t'.order.size := by
  have fresh := abreast.unfinished n (.inr rfl)
  induction ahead generalizing passed s t with
  | nil =>
    have ready := awaited?_of_passed split behind
    refine ⟨1, _, attend_finishes kept fresh ready, abreast.finish other, ?_⟩
    simp only [Array.size_push]
    omega
  | cons f later ih =>
    have room := room.resolve_left (by simp)
    have next : net.fanins n = (passed ++ [f]) ++ later := by simp [split]
    have member : f ∈ net.fanins n := by simp [split]
    by_cases skipped : skip f.node = true ∨ t.marks.isMarked f.node = true
    · have still : net.sweep skip depth s f.node = s :=
        sweep_passed (skipped.imp_right fun marked => (abreast.marked _).2 (.inl marked))
      rw [List.foldl_cons, still]
      exact ih next abreast (List.forall_mem_append.2 ⟨behind, by simpa using skipped⟩)
        (.inr room) fresh
    · simp only [not_or, Bool.not_eq_true] at skipped
      have awaits : net.awaited? skip t.marks n = some f.node := by
        rw [awaited?_of_passed split behind]
        simp [skipped]
      obtain ⟨first, mid, head, level, -, few⟩ := visits f member s t abreast room (n :: rest)
      have few := few skipped.1 skipped.2
      obtain ⟨found, swept⟩ := sweep_spec net skip depth s f.node abreast.begun room
      have grown (m : Nat) (marked : s.marks.isMarked m = true) :
          (net.sweep skip depth s f.node).marks.isMarked m = true :=
        (swept.marked m).2 (.inl marked)
      have met : skip f.node = true ∨ mid.marks.isMarked f.node = true :=
        (swept.reached f.node (by simp)).imp_right fun marked =>
          ((level.marked f.node).1 marked).resolve_right (apart f member)
      have passed : ∀ g ∈ passed ++ [f], skip g.node = true ∨ mid.marks.isMarked g.node = true :=
        List.forall_mem_append.2 ⟨fun g earlier =>
          (behind g earlier).imp_right (abreast.grown level grown), by simpa using met⟩
      obtain ⟨more, t', tail, done, cost⟩ := ih next level passed
        (.inr (Nat.lt_of_le_of_lt (length_unmarked_le grown) room))
        (level.unfinished n (.inr rfl))
      have wait : net.attendTimes skip 1 ⟨n :: rest, t⟩ = ⟨f.node :: n :: rest, t⟩ :=
        attend_waits kept fresh awaits
      refine ⟨1 + first + more, t', ?_, done, by omega⟩
      rw [attendTimes_add, attendTimes_add, wait, head, tail]

/-- On an acyclic network every visit of the recursion is a run of turns. -/
theorem attends_sweep (skip : Nat → Bool) (acyclic : net.Acyclic) {depth : Nat}
    (abreast : Abreast entered s t) (apart : ∀ m, entered m → ¬net.Reaches n m)
    (room : (net.unmarked s.marks).length < depth) :
    Attends net skip entered n (net.sweep skip depth s n) t := by
  induction depth generalizing entered s t n with
  | zero => omega
  | succ depth ih =>
    intro rest
    have other : ¬entered n := fun outer => apart n outer (.refl n)
    by_cases skipped : skip n = true ∨ t.marks.isMarked n = true
    · rw [sweep_passed (skipped.imp_right fun marked => (abreast.marked n).2 (.inl marked))]
      refine ⟨1, t, attend_passed skipped, abreast, by omega, fun kept fresh => ?_⟩
      simp [kept, fresh] at skipped
    · simp only [not_or, Bool.not_eq_true] at skipped
      obtain ⟨kept, fresh⟩ := skipped
      have unmarked : s.marks.isMarked n = false := by
        rw [← Bool.not_eq_true, abreast.marked]
        simp [fresh, other]
      have inner := abreast.enter fresh
      -- Nothing that the recursion has entered can be met below one of the fanins.
      have below (f : Signal) (member : f ∈ net.fanins n) (m : Nat) (outer : entered m ∨ m = n) :
          ¬net.Reaches f.node m := by
        intro path
        have feeds : net.Feeds f.node n := ⟨f, member, rfl⟩
        rcases outer with outer | rfl
        · exact apart m outer (path.head feeds)
        · exact path.not_feeds acyclic feeds
      have deep : net.fanins n = [] ∨
          (net.unmarked (s.marks.mark n)).length < depth := by
        by_cases inside : n < net.size
        · have := length_unmarked_mark abreast.begun inside unmarked
          exact .inr (by omega)
        · exact .inl (fanins_eq_nil_of_size_le (by omega))
      obtain ⟨turns, t', run, done, cost⟩ := attends_fanins (List.nil_append _).symm kept other
        (fun f member outer => below f member _ outer (.refl _))
        (fun f member s t level few => ih level (below f member) few) inner (by simp) deep rest
      rw [sweep, if_neg (by simp [unmarked, kept])]
      exact ⟨turns, t', run, done, by omega, fun _ _ => cost⟩

theorem attends_starts (skip : Nat → Bool) (acyclic : net.Acyclic) (starts : List Nat)
    (abreast : Abreast (fun _ => False) s t) :
    ∃ turns t', net.attendTimes skip turns ⟨starts, t⟩ = ⟨[], t'⟩ ∧
      Abreast (fun _ => False) (starts.foldl (net.sweep skip net.depthBound) s) t' ∧
      turns + 2 * t.order.size ≤ 2 * t'.order.size + starts.length := by
  induction starts generalizing s t with
  | nil => exact ⟨0, t, rfl, abreast, by simp⟩
  | cons n rest ih =>
    obtain ⟨first, mid, head, level, few, -⟩ := attends_sweep skip (n := n) acyclic
      abreast (by simp) (length_unmarked_lt_depthBound net s.marks) rest
    obtain ⟨more, t', tail, done, cost⟩ := ih level
    refine ⟨first + more, t', ?_, done, ?_⟩
    · rw [attendTimes_add, head, tail]
    · rw [List.length_cons]
      omega

theorem abreast_start : Abreast (fun _ => False) (.start .empty) (.start .empty) where
  begun := Marks.current_newTraversal_ne_zero _
  started := Marks.current_newTraversal_ne_zero _
  order := rfl
  marked := by simp
  unfinished := by simp

theorem Listed.lt_size (inPlace : net.InPlace) {starts order : List Nat}
    (listed : Listed net skip starts order)
    (given : ∀ n ∈ starts, n < net.size ∨ skip n = true) {n : Nat} (member : n ∈ order) :
    n < net.size := by
  rcases listed.source n member with start | ⟨k, -, f, reads, rfl⟩
  · exact (given n start).resolve_right (by simp [listed.kept n member])
  · exact inPlace.fanin_lt k f reads

theorem postorderFrom_eq_ok (inPlace : net.InPlace) (acyclic : net.Acyclic)
    {starts boundary : List Nat} (given : ∀ n ∈ starts, n < net.size ∨ n ∈ boundary) :
    net.postorderFrom starts boundary = .ok (net.postorder starts boundary.contains) := by
  have given' : ∀ n ∈ starts, n < net.size ∨ boundary.contains n = true := by simpa using given
  obtain ⟨turns, t', run, abreast, cost⟩ :=
    attends_starts boundary.contains acyclic starts abreast_start
  have order : t'.order.toList = net.postorder starts boundary.contains := by
    rw [abreast.order]
    rfl
  have listed := listed_postorder net boundary.contains starts
  have few : t'.order.size ≤ net.size := by
    have subset : net.postorder starts boundary.contains ⊆ List.range net.size :=
      fun n member => List.mem_range.2 (listed.lt_size inPlace given' member)
    have le := (listed.nodup.subperm subset).length_le
    rwa [← order, List.length_range, Array.length_toList] at le
  have enough : turns ≤ starts.length + 2 * net.size := by
    have : (Sweep.start Marks.empty).order.size = 0 := rfl
    omega
  obtain ⟨spare, total⟩ := Nat.exists_eq_add_of_le enough
  have inside : net.requireAll (starts.filter fun n => !boundary.contains n) = .ok () := by
    rw [requireAll_eq_ok]
    intro n member
    obtain ⟨start, outside⟩ := List.mem_filter.1 member
    exact (given n start).resolve_right (by simpa using outside)
  simp only [postorderFrom, inside, total, attendTimes_add, run, attendTimes_nil, order]
  rfl

/-- The order lists each node on a path from the starts that touches no node of the boundary, once
    and after its fanins outside the boundary. -/
structure Postordered (net : Network) (starts boundary order : List Nat) : Prop where
  nodup : order.Nodup
  mem_iff : ∀ n, n ∈ order ↔ ∃ start ∈ starts, net.FreePath boundary.contains start n
  fanins_before : ∀ before n after, order = before ++ n :: after →
    ∀ m, net.Feeds m n → m ∉ boundary → m ∈ before

/-- The order of the whole network: the constant, the inputs, and then the live gates, as a
    postorder from the outputs and the live gates gives them. -/
structure TopoSorted (net : Network) (gates : List Nat) : Prop where
  order : net.topoOrder = 0 :: net.inputs ++ gates
  nodup : net.topoOrder.Nodup
  mem_iff : ∀ n, n ∈ gates ↔ net.isLiveGate n = true
  live : ∀ n ∈ net.topoOrder, net.isDead n = false
  fanins_before : ∀ before n after, net.topoOrder = before ++ n :: after →
    ∀ m, net.Feeds m n → m ∈ before
  rest : net.postorderFrom (net.outputSignals.map (·.node) ++ net.liveGates) (0 :: net.inputs) =
    .ok gates

theorem Listed.postordered {starts boundary order : List Nat} (acyclic : net.Acyclic)
    (listed : Listed net boundary.contains starts order) :
    net.Postordered starts boundary order where
  nodup := listed.nodup
  mem_iff := fun _ => listed.mem_iff_freePath
  fanins_before := by
    rintro before n after rfl m feeds outside
    exact ((listed.ordered acyclic).known feeds).resolve_left (by simpa using outside)

theorem InPlace.contains_sources (inPlace : net.InPlace) :
    (0 :: net.inputs).contains = net.isSource := by
  funext n
  rw [Bool.eq_iff_iff, List.contains_iff_mem, List.mem_cons, ← inPlace.isInput_iff, isSource,
    Bool.or_eq_true, beq_iff_eq]

theorem Simulable.inOrder_topoOrder (sound : net.Simulable) :
    net.InOrder (fun _ => False) net.topoOrder := by
  have inPlace := sound.inPlace
  have listed := listed_postorder net net.isSource (net.outputSignals.map (·.node) ++ net.liveGates)
  refine (inPlace.inOrder_sources _ fun n member => ?_).append
    ((listed.ordered sound.acyclic).mono fun _ _ m _ source => .inr ?_)
  · rwa [← inPlace.contains_sources, List.contains_iff_mem]
  · rwa [← inPlace.contains_sources, List.contains_iff_mem] at source

theorem Simulable.topoSorted (sound : net.Simulable) :
    net.TopoSorted
      (net.postorder (net.outputSignals.map (·.node) ++ net.liveGates) net.isSource) := by
  have inPlace := sound.inPlace
  have listed := listed_postorder net net.isSource (net.outputSignals.map (·.node) ++ net.liveGates)
  have live (n : Nat) (member : n ∈ net.topoOrder) : net.isDead n = false :=
    Bool.eq_false_iff.2 fun dead => not_mem_topoOrder sound dead member
  have given (n : Nat) (start : n ∈ net.outputSignals.map (·.node) ++ net.liveGates) :
      n < net.size := by
    rcases List.mem_append.1 start with output | gate
    · obtain ⟨s, there, rfl⟩ := List.mem_map.1 output
      obtain ⟨o, known, rfl⟩ := List.mem_map.1 there
      exact inPlace.output_lt o known
    · exact List.mem_range.1 (List.mem_filter.1 gate).1
  have sources (n : Nat) (member : n ∈ 0 :: net.inputs) : net.isSource n = true := by
    rwa [← inPlace.contains_sources, List.contains_iff_mem]
  constructor
  case order => rfl
  case nodup =>
    refine List.nodup_append.2 ⟨List.nodup_cons.2 ⟨fun zero => ?_, inPlace.nodup_inputs⟩,
      listed.nodup, fun n source m gate same => ?_⟩
    · have input := inPlace.isInput_iff.2 zero
      simp [isInput_eq_true, (inPlace.constant_iff 0).2 rfl] at input
    · have free := listed.kept m gate
      rw [← same, sources n source] at free
      cases free
  case mem_iff =>
    intro n
    constructor
    · intro member
      have awake := live n (List.mem_append_right _ member)
      cases slot : net.gate? n with
      | some g => exact isLiveGate_eq_true.2 ⟨⟨g, slot⟩, awake⟩
      | none =>
        have inside := listed.lt_size inPlace (fun m start => .inl (given m start)) member
        have free := listed.kept n member
        rw [inPlace.isSource_of_gate?_eq_none inside slot] at free
        cases free
    · intro gate
      obtain ⟨⟨g, slot⟩, -⟩ := isLiveGate_eq_true.1 gate
      refine (listed.reached n (List.mem_append_right _ (mem_liveGates.2 gate))).resolve_left ?_
      rw [inPlace.not_source_of_gate slot]
      exact Bool.false_ne_true
  case live => exact live
  case fanins_before =>
    intro before n after split m feeds
    have ordered := sound.inOrder_topoOrder
    rw [split] at ordered
    exact (ordered.known feeds).resolve_left id
  case rest =>
    rw [postorderFrom_eq_ok inPlace sound.acyclic fun n start => .inl (given n start),
      inPlace.contains_sources]

/-- On an acyclic network a postorder from any slots with any boundary comes to its end, and it lists
    what can be met, fanins first. The order of a well-formed network begins with its sources
    and lists every live gate after its fanins. -/
theorem fanins_first (inPlace : net.InPlace) (acyclic : net.Acyclic) :
    (∀ starts boundary, (∀ n ∈ starts, n < net.size ∨ n ∈ boundary) →
      ∃ order, net.postorderFrom starts boundary = .ok order ∧
        net.Postordered starts boundary order) ∧
    (net.integrityIssue? = none → ∃ gates, net.TopoSorted gates) := by
  refine ⟨fun starts boundary given => ?_, fun integrity =>
    ⟨_, Simulable.topoSorted ⟨inPlace, integrity, acyclic⟩⟩⟩
  exact ⟨_, postorderFrom_eq_ok inPlace acyclic given,
    (listed_postorder net boundary.contains starts).postordered acyclic⟩

end Network

open Network

/-- Gate 5 reads the later slot 6; it is given twice and has another start below it, and input 2 is
    the boundary. -/
theorem fanins_first_of_rewired : ∃ stages net,
    Completed (empty "rewired")
      (Command.load 3 [(.and2, [2, 4]), (.and2, [8, 6])] [10] ++
        [.createGate .xor2 [.ofLiteral 2, .ofLiteral 4], .substitute 4 (.ofLiteral 12)])
      stages net ∧
    net.InPlace ∧ net.Acyclic ∧ net.integrityIssue? = none ∧
    net.postorderFrom [5, 6, 5, 2] [2] = .ok [3, 1, 6, 5] ∧
    net.Postordered [5, 6, 5, 2] [2] [3, 1, 6, 5] ∧ ∃ gates, net.TopoSorted gates := by
  obtain ⟨stages, net, history, checks⟩ := Command.exists_completed
    (Command.load 3 [(.and2, [2, 4]), (.and2, [8, 6])] [10] ++
      [.createGate .xor2 [.ofLiteral 2, .ofLiteral 4], .substitute 4 (.ofLiteral 12)])
    (empty "rewired")
    (fun _ net => decide net.Acyclic && net.size == 7 &&
      (net.postorderFrom [5, 6, 5, 2] [2]).toOption.any (· == [3, 1, 6, 5]))
    (by decide +kernel)
  simp only [Bool.and_eq_true, decide_eq_true_eq, beq_iff_eq] at checks
  obtain ⟨⟨acyclic, size⟩, answer⟩ := checks
  obtain ⟨order, run, listed⟩ := exists_of_any answer
  rw [beq_iff_eq] at listed
  subst listed
  have valid := history.wellFormed acyclic
  obtain ⟨any, whole⟩ := fanins_first valid.inPlace valid.acyclic
  obtain ⟨order, same, postordered⟩ := any [5, 6, 5, 2] [2] (by simp [size])
  rw [run] at same
  cases same
  exact ⟨stages, net, history, valid.inPlace, acyclic, valid.integrity, run, postordered,
    whole valid.integrity⟩

end LogicOpt
