import LogicOpt.Proofs.Costs
import LogicOpt.Proofs.Histories
import LogicOpt.Proofs.Turns

/-!
Why a substitution comes to its end as long as it takes no twin. The queue never grows by more than
what the nodes that were never queued cost less: a queued consumer leaves them, and a gate built in
its place is cheaper. Every turn shortens the queue, so their sum bounds the turns to come.
-/

namespace LogicOpt

open Relation Network

/-- What the nodes without a replacement of their own cost together. -/
def Replacements.left (r : Replacements) (size : Nat) (cost : Nat → Nat) : Nat :=
  ∑ n ∈ Finset.range size, if r.handles n then 0 else cost n

namespace Replacements

variable {r r' : Replacements} {size : Nat} {cost cost' : Nat → Nat}

theorem left_le_left (more : ∀ n, r.handles n = true → r'.handles n = true)
    (cheaper : ∀ n < size, cost' n ≤ cost n) : r'.left size cost' ≤ r.left size cost := by
  refine Finset.sum_le_sum fun n member => ?_
  by_cases handled : r.handles n = true
  · simp [handled, more n handled]
  · simp only [handled, Bool.false_eq_true, ↓reduceIte]
    split
    · exact Nat.zero_le _
    · exact cheaper n (Finset.mem_range.1 member)

theorem left_enqueue {n : Nat} (target : Signal) (free : r.handles n = false) (inside : n < size) :
    (r.enqueue n target).left size cost + cost n = r.left size cost := by
  unfold left
  rw [← Finset.add_sum_erase _ _ (Finset.mem_range.2 inside),
    ← Finset.add_sum_erase _ _ (Finset.mem_range.2 inside)]
  have others : ∀ m ∈ (Finset.range size).erase n,
      (if (r.enqueue n target).handles m then 0 else cost m) = if r.handles m then 0 else cost m := by
    intro m member
    have other : (n == m) = false := by simpa using (Finset.ne_of_mem_erase member).symm
    rw [handles_enqueue, other, Bool.false_or]
  rw [Finset.sum_congr rfl others, handles_enqueue, free]
  simp [Nat.add_comm]

theorem left_succ_le : r.left (size + 1) cost ≤ r.left size cost + cost size := by
  rw [left, Finset.sum_range_succ]
  refine Nat.add_le_add_left ?_ _
  split
  · exact Nat.zero_le _
  · exact Nat.le_refl _

theorem left_le_mul {top : Nat} (bound : ∀ n < size, cost n ≤ top) : r.left size cost ≤ size * top := by
  have sum := Finset.sum_le_card_nsmul (Finset.range size)
    (fun n => if r.handles n then 0 else cost n) top fun n member => by
      split
      · exact Nat.zero_le _
      · exact bound n (Finset.mem_range.1 member)
  rwa [Finset.card_range, Nat.nsmul_eq_mul] at sum

end Replacements

structure Draining (first target : Nat) (net : Network) (r : Replacements)
    (swap : Nat → Nat → Prop) (turns : Nat) : Prop where
  schedule : Schedule first net r swap
  begun : swap first target
  bounded : ∃ cost, Costs net first target cost ∧ r.left net.size cost + r.queue.length ≤ turns

variable {net net' current : Network} {swap : Nat → Nat → Prop} {first target turns old : Nat}
  {r r' : Replacements} {new : Signal}

theorem Visited.slot {cost : Nat → Nat} {consumer : Nat} (tallied : net.Tallied)
    (visited : Visited old new r consumer net r' net') (lower : cost new.node < cost old)
    (inside : new.node < net.size) {n : Nat} (below : n < net.size) :
    (∀ m, net'.Feeds m n → m < net.size) ∧ net'.load cost n ≤ net.load cost n := by
  have same (body : net'.body? n = net.body? n) :
      (∀ m, net'.Feeds m n → m < net.size) ∧ net'.load cost n ≤ net.load cost n :=
    ⟨fun m feeds => tallied.lt_of_feeds ((feeds_congr body).1 feeds),
      Nat.le_of_eq (load_congr body)⟩
  cases visited with
  | passed => exact same rfl
  | queued slot awake free was target =>
    cases target with
    | folded => exact same rfl
    | held => exact same rfl
    | complemented shape resolved kind alive created => exact same (created.body below)
  | @rewired g h net' slot awake free was shape change =>
    by_cases self : n = consumer
    · subst self
      have after : net'.gate? n = some h := by rw [change.gate?, if_pos rfl]
      refine ⟨fun m feeds => ?_, ?_⟩
      · rcases mem_redirected shape ((mem_fanins after).1 feeds) with rfl | member
        · exact inside
        · exact tallied.lt_of_feeds (feeds_of_gate? slot member)
      · rw [load_of_gate after, load_of_gate slot]
        exact Nat.le_of_lt (weight_redirected_lt was shape lower)
    · exact same (by rw [change.body, if_neg self])

/-- A consumer is queued for an old node, or for the node that was built for it. -/
theorem Queued.fresh {consumer : Nat} {g : Gate Signal} {s : Signal}
    (target : Queued old new r consumer net g s net') :
    net'.size = net.size ∨ (net'.size = net.size + 1 ∧ s.node = net.size) := by
  cases target with
  | folded => exact .inl rfl
  | held => exact .inl rfl
  | complemented shape resolved kind alive created =>
    cases created with
    | folded => exact .inl rfl
    | shared => exact .inl rfl
    | appended shape absent change => exact .inr ⟨change.size, rfl⟩

namespace Draining

theorem visit (draining : Draining first target net r swap turns) {consumer u : Nat}
    (consistent : net.Consistent) (differ : old ≠ new.node) (inside : new.node < net.size)
    (live : net.isDead new.node = false) (swapped : swap old u) (path : TransGen swap old new.node)
    (visited : Visited old new r consumer net r' net') :
    ∃ swap', (∀ a b, swap a b → swap' a b) ∧ Draining first target net' r' swap' turns := by
  obtain ⟨cost, costs, bound⟩ := draining.bounded
  obtain ⟨swap', more, schedule⟩ :=
    draining.schedule.visit consistent differ inside live swapped path visited
  have begun := more _ _ draining.begun
  obtain ⟨rank, ranks⟩ := schedule.ranks
  obtain ⟨cost', costs'⟩ := exists_costs ranks begun
  have falls := schedule.costs_fall
    (visited.consistent consistent differ inside live).inPlace.gate?_zero begun costs'
  have lower : cost new.node < cost old :=
    (draining.schedule.costs_fall consistent.inPlace.gate?_zero draining.begun costs).lt path
  have cheaper : ∀ n < net.size, cost' n ≤ cost n :=
    costs.le costs' (draining.schedule.inside _ _ draining.begun).2 fun n below =>
      visited.slot consistent.toTallied lower inside below
  refine ⟨swap', more, schedule, begun, cost', costs', ?_⟩
  have same : r.left net.size cost' ≤ r.left net.size cost :=
    Replacements.left_le_left (fun _ => id) cheaper
  cases visited with
  | passed => omega
  | rewired slot awake free was shape change =>
    rw [change.size]
    omega
  | @queued g s net' slot awake free was target =>
    have taken : (r.enqueue consumer s).left net.size cost' + cost' consumer =
        r.left net.size cost' := Replacements.left_enqueue s free (lt_size_of_gate? slot)
    have queued : (r.enqueue consumer s).queue.length = r.queue.length + 1 := by
      simp [Replacements.enqueue]
    have less : cost' s.node < cost' consumer :=
      falls consumer s.node (schedule.queue (consumer, s) (by simp [Replacements.enqueue]))
    rcases target.fresh with size | ⟨size, node⟩
    · rw [size, queued]
      omega
    · have grown : (r.enqueue consumer s).left (net.size + 1) cost' ≤
          (r.enqueue consumer s).left net.size cost' + cost' net.size := Replacements.left_succ_le
      rw [size, queued]
      rw [node] at less
      omega

theorem pop (draining : Draining first target net r swap turns) {s : Signal}
    {rest : List (Nat × Signal)} (queue : r.queue = (old, s) :: rest) :
    ∃ fewer < turns, Draining first target net { r with queue := rest } swap fewer ∧
      swap old s.node := by
  obtain ⟨cost, costs, bound⟩ := draining.bounded
  obtain ⟨popped, swapped⟩ := draining.schedule.pop queue
  rw [queue, List.length_cons] at bound
  exact ⟨turns - 1, by omega, ⟨popped, draining.begun, cost, costs, by
    show r.left net.size cost + rest.length ≤ turns - 1
    omega⟩, swapped⟩

theorem of_bodies (draining : Draining first target net r swap turns) (size : net'.size = net.size)
    (bodies : ∀ m, net'.body? m = net.body? m) : Draining first target net' r swap turns := by
  obtain ⟨cost, costs, bound⟩ := draining.bounded
  exact ⟨draining.schedule.of_bodies size bodies, draining.begun, cost, costs.of_bodies bodies,
    by rwa [size]⟩

theorem record (draining : Draining first target net r swap turns)
    (path : TransGen swap old new.node) :
    Draining first target net (r.record old new) swap turns := by
  obtain ⟨cost, costs, bound⟩ := draining.bounded
  refine ⟨draining.schedule.record path, draining.begun, cost, costs, Nat.le_trans ?_ bound⟩
  refine Nat.add_le_add_right (Replacements.left_le_left (fun n handled => ?_) fun _ _ => le_rfl) _
  rw [Replacements.handles_record, handled, Bool.or_true]

/-- A turn that takes no twin is one turn less to come. -/
theorem replace (draining : Draining first target net r swap turns) (consistent : net.Consistent)
    {s : Signal} {rest : List (Nat × Signal)} (queue : r.queue = (old, s) :: rest)
    (twinless : ¬(⟨{ r with queue := rest }, old, s, net⟩ : Turn).TakesTwin)
    (replaced : Replaced { r with queue := rest } old s net r' net') :
    ∃ swap', ∃ fewer < turns, Draining first target net' r' swap' fewer := by
  obtain ⟨fewer, less, popped, swapped⟩ := draining.pop queue
  obtain ⟨swap', draining⟩ := Schedule.replace_invariant
    (fun swap r net => Draining first target net r swap fewer) schedule of_bodies
    (fun draining => draining.record) (fun draining => draining.visit) popped consistent swapped
    (fun t resolved => Bool.eq_false_iff.2 fun taken => twinless ⟨t, resolved, taken⟩) replaced
  exact ⟨swap', fewer, less, draining⟩

theorem bound_le {size : Nat} (positive : 0 < size) :
    size * 5 ^ (size - 1) + 1 ≤ Nat.pow (size + 1) (size + 1) := by
  rcases Nat.lt_or_ge size 4 with small | large
  · obtain rfl | rfl | rfl : size = 1 ∨ size = 2 ∨ size = 3 := by omega
    all_goals decide
  · obtain ⟨n, rfl⟩ : ∃ n, size = n + 1 := ⟨size - 1, by omega⟩
    have base : 5 ^ n ≤ (n + 2) ^ n := Nat.pow_le_pow_left (by omega) n
    calc (n + 1) * 5 ^ n + 1
        ≤ (n + 1) * (n + 2) ^ n + (n + 2) ^ n :=
          Nat.add_le_add (Nat.mul_le_mul_left _ base) (Nat.pow_pos (by omega))
      _ = (n + 2) * (n + 2) ^ n := (Nat.succ_mul (n + 1) _).symm
      _ = (n + 2) ^ (n + 1) := Nat.pow_succ'.symm
      _ ≤ (n + 2) ^ (n + 2) := Nat.pow_le_pow_right (by omega) (by omega)

theorem start (consistent : net.Consistent) (acyclic : net.Acyclic)
    (apart : ¬net.Reaches new.node old) (inside : old < net.size ∧ new.node < net.size) :
    Draining old new.node net (.start old new) (fun a b => a = old ∧ b = new.node)
      (Edit.replacementBound net) := by
  have schedule := Edit.schedule_start acyclic apart inside
  obtain ⟨rank, ranks⟩ := schedule.ranks
  obtain ⟨cost, costs⟩ := exists_costs ranks ⟨rfl, rfl⟩
  refine ⟨schedule, ⟨rfl, rfl⟩, cost, costs, ?_⟩
  have ends : ∀ a b, Leads net (fun a b => a = old ∧ b = new.node) a b → b < net.size := by
    rintro a b (feeds | ⟨rfl, rfl⟩)
    · exact consistent.toTallied.lt_of_feeds feeds
    · exact inside.2
  have low : ∀ n < net.size, cost n ≤ 5 ^ (net.size - 1) := fun n below =>
    (costs.le_pow (ranks.card_lowerNodes ends) n).trans <| Nat.pow_le_pow_right (by decide) <|
      Nat.le_sub_one_of_lt (card_lowerNodes_lt below)
  have sum := (Replacements.start old new).left_le_mul low
  have bound := bound_le (Nat.zero_lt_of_lt inside.1)
  show (Replacements.start old new).left net.size cost + 1 ≤ Nat.pow (net.size + 1) (net.size + 1)
  omega

end Draining

/-- As long as no turn has taken a twin, the turns had and the turns left stay within the bound. -/
theorem Underway.draining {turns : List Turn} (valid : net.WellFormed)
    (inside : old < net.size ∧ new.node < net.size) (apart : ¬net.Reaches new.node old)
    (underway : Underway net old new turns r current) (twinless : ∀ t ∈ turns, ¬t.TakesTwin) :
    current.Consistent ∧ ∃ swap left, Draining old new.node current r swap left ∧
      turns.length + left ≤ Edit.replacementBound net := by
  obtain ⟨consistent, acyclic⟩ := wellFormed_iff.1 valid
  induction underway with
  | start => exact ⟨consistent, _, _, .start consistent acyclic apart inside, by simp⟩
  | turn before queue run ih =>
    rw [List.forall_mem_append, List.forall_mem_singleton] at twinless
    obtain ⟨consistent, swap, left, draining, bound⟩ := ih twinless.1
    have replaced := Edit.replace_gives run
    obtain ⟨swap', fewer, less, draining⟩ :=
      draining.replace consistent queue twinless.2 replaced
    refine ⟨(replaced.consistent consistent).1, swap', fewer, draining, ?_⟩
    rw [List.length_append, List.length_singleton]
    omega

theorem Draining.length_le (draining : Draining first target net r swap turns) :
    r.queue.length ≤ turns := by
  obtain ⟨cost, -, bound⟩ := draining.bounded
  omega

/-- No node is queued twice. The replacements done close a chain exactly if some turn took a live twin
    for its dead target although they led from the twin back to the node whose turn it was; as long as
    they close none, following them comes to an end. As long as no turn takes a twin, the turns had
    and the replacements queued are no more than the bound, and a substitution that takes none neither
    exhausts the bound nor meets a closed chain. -/
theorem substituteNode_ends (valid : net.WellFormed) (present : old < net.size)
    (inside : new.node < net.size) (apart : ¬net.Reaches new.node old) :
    (∀ turns r current, Underway net old new turns r current →
      (turns.map (·.node) ++ r.queue.map (·.1)).Nodup ∧
      (r.Acyclic ↔ ∀ t ∈ turns, ¬t.LeadsBack) ∧
      (r.Acyclic → (∀ s, ∃ answer, r.resolve s = .ok answer) ∧
        ∀ node target rest, r.queue = (node, target) :: rest →
          (Edit.replace { r with queue := rest } node target).LoopFree) ∧
      ((∀ t ∈ turns, ¬t.TakesTwin) →
        turns.length + r.queue.length ≤ Edit.replacementBound net)) ∧
    ((∀ e ∈ Edit.substitutionEncounters old new net, e.takesTwin = false) →
      ∀ fault net', Edit.substituteNode old new net = .error fault net' → fault.isLoop = false) := by
  constructor
  · intro turns r current underway
    refine ⟨underway.lined.nodup, underway.acyclic_iff, fun acyclic => ⟨r.exists_resolve acyclic,
      fun node target rest queue => Edit.loopFree_replace (r := { r with queue := rest }) acyclic _ _⟩,
      fun twinless => ?_⟩
    obtain ⟨-, swap, left, draining, bound⟩ :=
      underway.draining valid ⟨present, inside⟩ apart twinless
    have := draining.length_le
    omega
  · intro twinless fault net' run
    obtain ⟨turns, r, next, underway, twins, node, target, rest, queue, stop⟩ :=
      Edit.replaceAll_stops .start run
    rw [List.nil_append] at underway
    have plain : ∀ t ∈ turns, ¬t.TakesTwin := by
      intro t member taken
      obtain ⟨e, there, twin⟩ := twins t member taken
      rw [twinless e there] at twin
      cases twin
    rcases stop with ⟨length, rfl⟩ | failed
    · -- All steps are used up, and still something is queued.
      obtain ⟨-, swap, left, draining, bound⟩ :=
        underway.draining valid ⟨present, inside⟩ apart plain
      have queued := draining.length_le
      rw [queue, List.length_cons] at queued
      omega
    · have acyclic := underway.acyclic_iff.2 fun t member back => plain t member back.takesTwin
      exact Edit.loopFree_replace (r := { r with queue := rest }) acyclic _ _ _ _ _ failed

/-- An input gives way to the complement of a dead conjunction, which comes back, and the exclusive
    disjunction that reads the input gives way to a new gate. -/
theorem ends_of_complement : ∃ stages net,
    Completed (empty "complement")
      (Command.load 3 [(.and2, [2, 4]), (.xor2, [6, 2])] [10] ++ [.takeOut 4]) stages net ∧
    net.WellFormed ∧ 3 < net.size ∧ 4 < net.size ∧ ¬net.Reaches 4 3 ∧
    (∃ e ∈ Edit.substitutionEncounters 3 (.ofLiteral 9) net, e.dead = true) ∧
    (∃ net', Edit.Gives (Edit.substituteNode 3 (.ofLiteral 9)) net () net' ∧ net.size < net'.size) ∧
    (∀ e ∈ Edit.substitutionEncounters 3 (.ofLiteral 9) net, e.takesTwin = false) ∧
    (∀ turns r current, Underway net 3 (.ofLiteral 9) turns r current →
      (turns.map (·.node) ++ r.queue.map (·.1)).Nodup ∧
      ((∀ t ∈ turns, ¬t.TakesTwin) →
        turns.length + r.queue.length ≤ Edit.replacementBound net)) ∧
    ∀ fault net', Edit.substituteNode 3 (.ofLiteral 9) net = .error fault net' →
      fault.isLoop = false := by
  obtain ⟨stages, net, history, checks⟩ := Command.exists_completed
    (Command.load 3 [(.and2, [2, 4]), (.xor2, [6, 2])] [10] ++ [.takeOut 4]) (empty "complement")
    (fun _ net => decide net.Acyclic && decide (4 < net.size) && decide ¬net.Reaches 4 3 &&
      (Edit.substitutionEncounters 3 (.ofLiteral 9) net).any (·.dead) &&
      (Edit.substitutionEncounters 3 (.ofLiteral 9) net).all (!·.takesTwin) &&
      Edit.yields (Edit.substituteNode 3 (.ofLiteral 9))
        (fun _ net' => decide (net.size < net'.size)) net)
    (by decide +kernel)
  simp only [Bool.and_eq_true, decide_eq_true_eq, List.any_eq_true, List.all_eq_true,
    Bool.not_eq_true'] at checks
  obtain ⟨⟨⟨⟨⟨acyclic, inside⟩, apart⟩, revived⟩, twinless⟩, yielded⟩ := checks
  obtain ⟨⟨⟩, net', run, larger⟩ := Edit.exists_gives yielded
  have valid := history.wellFormed acyclic
  have present : 3 < net.size := Nat.lt_of_succ_lt inside
  obtain ⟨underway, quiet⟩ := @substituteNode_ends net 3 (.ofLiteral 9) valid present inside apart
  refine ⟨stages, net, history, valid, present, inside, apart, revived,
    ⟨net', run, of_decide_eq_true larger⟩, twinless, fun turns r current turn => ?_, quiet twinless⟩
  obtain ⟨nodup, -, -, bound⟩ := underway turns r current turn
  exact ⟨nodup, bound⟩

def conjunctions (pairs : List (Nat × Nat)) : List Command :=
  pairs.map fun (a, b) => .andGate (.ofLiteral a) (.ofLiteral b)

/-- Three inputs and conjunctions, some of them taken out again and computed by a later slot. The last
    input is replaced five times, by gates that are to be rewired in a certain order. -/
def rounds : List Command :=
  [.addInput "i0", .addInput "i1"] ++
  conjunctions [(4, 2), (6, 2), (6, 8), (10, 2), (4, 10), (12, 2), (14, 8), (2, 17), (10, 12),
    (20, 5), (21, 24), (24, 19), (6, 24), (20, 19), (32, 24), (34, 23), (28, 23), (36, 12),
    (38, 27)] ++
  [.takeOut 20] ++
  conjunctions [(20, 19), (44, 23), (42, 19), (46, 27)] ++
  [.addInput "i2"] ++
  conjunctions [(16, 20), (38, 46), (30, 48), (56, 8), (50, 60), (62, 27), (64, 8), (48, 23),
    (30, 44), (66, 15), (68, 42), (72, 6), (16, 2), (74, 55)] ++
  [.takeOut 38] ++
  conjunctions [(78, 42), (80, 78), (44, 23), (84, 71), (86, 12)] ++
  [.substitute 26 (.ofLiteral 40)] ++
  conjunctions [(90, 9), (92, 6), (88, 30)] ++
  [.substitute 26 (.ofLiteral 76)] ++
  conjunctions [(96, 9), (98, 6)] ++
  [.takeOut 50] ++
  conjunctions [(48, 23), (102, 78), (104, 59), (106, 30), (108, 95), (110, 6)] ++
  [.takeOut 56] ++
  conjunctions [(42, 19), (114, 83), (116, 19), (118, 14)] ++
  [.takeOut 60] ++
  conjunctions [(38, 27)] ++
  [.substitute 26 (.ofLiteral 112), .substitute 26 (.ofLiteral 120),
    .substitute 26 (.ofLiteral 100)]

/-- The second input gives way to the constant. In one of the turns the replacements done lead from a
    dead target's twin to the node whose turn it is, and the substitution goes round in a circle. -/
theorem cycle_of_rounds : ∃ stages net net',
    Completed (empty "rounds") rounds stages net ∧ net.WellFormed ∧ 2 < net.size ∧
      net.isDead 2 = false ∧ ¬net.Reaches 0 2 ∧
      Edit.substituteNode 2 (.constant false) net = .error (.cyclicReplacement 61) net' := by
  obtain ⟨stages, net, history, checks⟩ := Command.exists_completed rounds (empty "rounds")
    (fun stages net => stages.all (·.met.all (!·.takesTwin)) && decide (2 < net.size) &&
      !net.isDead 2 && decide ¬net.Reaches 0 2 &&
      Edit.stops (Edit.substituteNode 2 (.constant false)) (· == .cyclicReplacement 61) net)
    (by decide +kernel)
  simp only [Bool.and_eq_true, decide_eq_true_eq, List.all_eq_true, Bool.not_eq_true'] at checks
  obtain ⟨⟨⟨⟨twinless, inside⟩, live⟩, apart⟩, stopped⟩ := checks
  obtain ⟨fault, net', run, cyclic⟩ := Edit.exists_error stopped
  have acyclic := history.acyclic_of_twinless (consistent_empty _) (wellFormed_empty _).acyclic
    twinless
  exact ⟨stages, net, net', history, history.wellFormed acyclic, inside, live, apart,
    by rw [run, eq_of_beq cyclic]⟩

end LogicOpt
