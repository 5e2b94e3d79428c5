import LogicOpt.Proofs.Placement
import LogicOpt.Proofs.Settling

/-!
The gates that survive a substitution. The nodes that are to be replaced are going to die, and so are
the members of the root's cone that nothing takes over; the other live gates survive. Where one more
comes to survive, because it is built or taken over as a target, a consumer joins the nodes to be
replaced in exchange.
-/

namespace LogicOpt

open Relation Network

variable {net net' : Network}

/-- Members of a cone that nothing outside refers to, except for its root, and that no replacement is
    by. -/
structure Doomed (root : Nat) (net : Network) (r : Replacements) (doomed : List Nat) : Prop where
  first : root ∈ doomed
  zero : 0 ∉ doomed
  inside : ∀ d ∈ doomed, d < net.size
  readers : ∀ d ∈ doomed, d ≠ root → ∀ n, net.isLiveGate n = true → net.Feeds d n → n ∈ doomed
  outputs : ∀ o ∈ net.outputs, o.signal.node ∈ doomed → o.signal.node = root
  handled : r.handles root = true
  free : ∀ d ∈ doomed, r.handles d = true → d = root
  queue : ∀ p ∈ r.queue, p.2.node ∈ doomed → p.2.node = root
  replaced : ∀ (n : Nat) (s : Signal), r.replaced[n]? = some s → s.node ∉ doomed
  reached : ∀ holds : Nat → Prop, holds root →
    (∀ n ∈ doomed, holds n → ∀ m ∈ doomed, net.Feeds m n → holds m) → ∀ m ∈ doomed, holds m

namespace Doomed

variable {root : Nat} {r : Replacements} {doomed : List Nat} {kept fresh : Nat → Prop}

theorem pop (state : Doomed root net r doomed) {p : Nat × Signal} {rest : List (Nat × Signal)}
    (queue : r.queue = p :: rest) : Doomed root net { r with queue := rest } doomed :=
  { state with queue := fun p member => state.queue p (by rw [queue]; simp [member]) }

theorem shift (state : Doomed root net r doomed) (shift : Shift net net' kept fresh)
    (clear : ∀ m, fresh m → m ∉ doomed) (same : ∀ d ∈ doomed, kept d) :
    Doomed root net' r doomed where
  first := state.first
  zero := state.zero
  inside := fun d member => Nat.lt_of_lt_of_le (state.inside d member) shift.size_le
  readers := fun d member other n live feeds => by
    rcases shift.reads d n live feeds with ⟨live, feeds⟩ | fresh
    · exact state.readers d member other n live feeds
    · exact absurd member (clear d fresh)
  outputs := fun o' member there => by
    rcases shift.outputs o' member with ⟨o, earlier, same⟩ | fresh
    · rw [← same] at there ⊢
      exact state.outputs o earlier there
    · exact absurd there (clear _ fresh)
  handled := state.handled
  free := state.free
  queue := state.queue
  replaced := state.replaced
  reached := fun holds start step => state.reached holds start fun n there known m member feeds =>
    step n there known m member ((feeds_congr (shift.body n (same n there))).2 feeds)

theorem claim (state : Doomed root net r doomed) {c : Nat} (other : c ≠ root)
    (clear : ∀ m ∈ doomed, ¬net.Feeds m c) : Doomed root net r (doomed.filter (· != c)) := by
  have split {d : Nat} : d ∈ doomed.filter (· != c) ↔ d ∈ doomed ∧ d ≠ c := by simp
  constructor
  case first => exact split.2 ⟨state.first, other.symm⟩
  case zero => exact fun member => state.zero (split.1 member).1
  case inside => exact fun d member => state.inside d (split.1 member).1
  case readers =>
    intro d member apart n live feeds
    obtain ⟨there, -⟩ := split.1 member
    refine split.2 ⟨state.readers d there apart n live feeds, ?_⟩
    rintro rfl
    exact clear d there feeds
  case outputs => exact fun o member there => state.outputs o member (split.1 there).1
  case handled => exact state.handled
  case free => exact fun d member => state.free d (split.1 member).1
  case queue => exact fun p member there => state.queue p member (split.1 there).1
  case replaced => exact fun n s entry there => state.replaced n s entry (split.1 there).1
  case reached =>
    intro holds start step m member
    obtain ⟨there, apart⟩ := split.1 member
    refine (state.reached (fun m => m = c ∨ holds m) (.inr start) ?_ m there).resolve_left apart
    intro n inner known k below feeds
    by_cases self : k = c
    · exact .inl self
    · have here : n ≠ c := fun same => clear k below (same ▸ feeds)
      have known := known.resolve_left here
      exact .inr (step n (split.2 ⟨inner, here⟩) known k (split.2 ⟨below, self⟩) feeds)

theorem enqueue (state : Doomed root net r doomed) {consumer : Nat} {target : Signal}
    (outside : consumer ∉ doomed) (clear : target.node ∈ doomed → target.node = root) :
    Doomed root net (r.enqueue consumer target) doomed :=
  { state with
    handled := by rw [Replacements.handles_enqueue, state.handled, Bool.or_true]
    free := fun d member handled => by
      rw [Replacements.handles_enqueue, Bool.or_eq_true, beq_iff_eq] at handled
      rcases handled with rfl | handled
      · exact absurd member outside
      · exact state.free d member handled
    queue := fun p member => by
      rcases List.mem_append.1 member with member | member
      · exact state.queue p member
      · rw [List.mem_singleton.1 member]
        exact clear }

theorem record (state : Doomed root net r doomed) {old : Nat} {new : Signal}
    (handled : r.handles old = true) (clear : new.node ∉ doomed) :
    Doomed root net (r.record old new) doomed :=
  { state with
    handled := by rw [Replacements.handles_record, state.handled, Bool.or_true]
    free := fun d member handles => by
      rw [Replacements.handles_record, Bool.or_eq_true, beq_iff_eq] at handles
      rcases handles with rfl | handles
      · exact state.free old member handled
      · exact state.free d member handles
    replaced := fun n s entry => by
      rw [Replacements.getElem?_record] at entry
      split at entry
      · cases entry
        exact clear
      · exact state.replaced n s entry }

theorem not_reads (state : Doomed root net r doomed) {swap : Nat → Nat → Prop}
    (schedule : Schedule root net r swap) {d q t : Nat} (member : d ∈ doomed) (swapped : swap q t) :
    ¬net.Feeds q d := by
  intro feeds
  obtain ⟨rank, ranks⟩ := schedule.ranks
  have below : rank d ≤ rank root := by
    refine state.reached (fun m => rank m ≤ rank root) (Nat.le_refl _) ?_ d member
    intro n _ known m _ feeds
    have := ranks n m (.inl feeds)
    omega
  have above := (ranks.mono fun _ _ => .inl).le (schedule.reads_first swapped)
  have step := ranks d q (.inl feeds)
  omega

end Doomed

/-- The number of live gates that are neither to be replaced nor doomed. -/
def survivors (net : Network) (r : Replacements) (doomed : List Nat) : Nat :=
  (List.range net.size).countP fun n => net.isLiveGate n && !r.handles n && !doomed.contains n

section Survivors

variable {r r' : Replacements} {doomed doomed' : List Nat}

theorem survivors_le (size : net'.size = net.size)
    (fewer : ∀ n, net'.isLiveGate n = true → r'.handles n = false → n ∉ doomed' →
      net.isLiveGate n = true ∧ r.handles n = false ∧ n ∉ doomed) :
    survivors net' r' doomed' ≤ survivors net r doomed := by
  rw [survivors, survivors, size]
  refine List.countP_mono_left fun n _ counted => ?_
  simp only [Bool.and_eq_true, Bool.not_eq_true', List.contains_eq_mem, decide_eq_false_iff_not]
    at counted ⊢
  obtain ⟨live, free, outside⟩ := fewer n counted.1.1 counted.1.2 counted.2
  exact ⟨⟨live, free⟩, outside⟩

theorem survivors_enqueue {consumer : Nat} (target : Signal) (live : net.isLiveGate consumer = true)
    (free : r.handles consumer = false) (outside : consumer ∉ doomed) :
    survivors net (r.enqueue consumer target) doomed + 1 = survivors net r doomed := by
  rw [survivors, survivors, List.countP_eq_length_filter, List.countP_eq_length_filter]
  refine (length_filter_range (lt_of_isLiveGate live) ⟨?_, ?_⟩ fun m other => ?_).symm
  · simp [live, free, outside]
  · simp [Replacements.handles_enqueue]
  · have apart : (consumer == m) = false := beq_eq_false_iff_ne.2 other.symm
    rw [Replacements.handles_enqueue, apart, Bool.false_or]

theorem survivors_record (net : Network) (r : Replacements) (doomed : List Nat) (old : Nat)
    (new : Signal) : survivors net (r.record old new) doomed ≤ survivors net r doomed := by
  refine survivors_le rfl fun n live free outside => ⟨live, ?_, outside⟩
  rw [Replacements.handles_record, Bool.or_eq_false_iff] at free
  exact free.2

theorem survivors_claim (net : Network) (r : Replacements) (doomed : List Nat) (c : Nat) :
    survivors net r (doomed.filter (· != c)) ≤ survivors net r doomed + 1 := by
  have once : (List.range net.size).count c ≤ 1 := List.nodup_iff_count_le_one.1 List.nodup_range c
  have split := countP_or_eq_le
    (fun n => net.isLiveGate n && !r.handles n && !doomed.contains n) c (List.range net.size)
  refine Nat.le_trans (List.countP_mono_left fun n _ counted => ?_)
    (Nat.le_trans split (Nat.add_le_add_left once _))
  by_cases here : c = n
  · simp [here]
  · have other : n ≠ c := fun same => here same.symm
    simp only [Bool.and_eq_true, Bool.not_eq_true', List.contains_eq_mem, List.mem_filter,
      bne_iff_ne, ne_eq, other, not_false_eq_true, and_true, decide_eq_false_iff_not] at counted
    simp [counted]

theorem survivors_created {g : Gate Signal} {s : Signal} (created : Created net g s net') :
    survivors net' r doomed ≤ survivors net r doomed + 1 := by
  have same : survivors net r doomed ≤ survivors net r doomed + 1 := Nat.le_succ _
  cases created with
  | folded => exact same
  | shared => exact same
  | appended shape absent change =>
    rw [survivors, change.size, List.range_succ, List.countP_append]
    refine Nat.add_le_add (List.countP_mono_left fun n member counted => ?_)
      (List.countP_le_length)
    simp only [Bool.and_eq_true] at counted ⊢
    refine ⟨⟨?_, counted.1.2⟩, counted.2⟩
    exact ((change.isLiveGate n).1 counted.1.1).resolve_left
      (Nat.ne_of_lt (List.mem_range.1 member))

end Survivors

theorem Created.same {g : Gate Signal} {s : Signal} (created : Created net g s net')
    (inside : s.node < net.size) : net' = net := by
  cases created with
  | folded => rfl
  | shared => rfl
  | appended => exact absurd inside (Nat.lt_irrefl _)

theorem Doomed.operand {root old consumer : Nat} {r : Replacements} {doomed : List Nat}
    {swap : Nat → Nat → Prop} {busy : Nat → Prop} {u : Nat} (state : Doomed root net r doomed)
    (schedule : Schedule root net r swap) (settled : Settled net r busy) (swapped : swap old u)
    (begun : old = root ∨ ∃ s, r.replaced[root]? = some s)
    (live : net.isLiveGate consumer = true) (free : r.handles consumer = false)
    (was : net.Feeds old consumer) :
    consumer ∉ doomed ∧ ∀ m, net.Feeds m consumer → m ≠ old → m ∉ doomed := by
  have outside : consumer ∉ doomed := fun member => state.not_reads schedule member swapped was
  refine ⟨outside, fun m feeds other member => ?_⟩
  by_cases here : m = root
  · subst here
    rcases begun with same | ⟨s, entry⟩
    · exact other same.symm
    · rw [settled.operand live free feeds] at entry
      cases entry
  · exact outside (state.readers m member here consumer live feeds)

theorem Doomed.visit {root old consumer u : Nat} {new : Signal} {r r' : Replacements}
    {doomed : List Nat} {swap : Nat → Nat → Prop} (state : Doomed root net r doomed)
    (schedule : Schedule root net r swap) (settled : Settled net r (· = old))
    (consistent : net.Consistent) (differ : old ≠ new.node) (swapped : swap old u)
    (begun : old = root ∨ ∃ s, r.replaced[root]? = some s) (absent : r.replaced[new.node]? = none)
    (clear : new.node ∉ doomed) (visited : Visited old new r consumer net r' net') :
    ∃ doomed', Doomed root net' r' doomed' ∧ doomed' ⊆ doomed ∧
      survivors net' r' doomed' ≤ survivors net r doomed := by
  cases visited with
  | passed reason => exact ⟨doomed, state, List.Subset.refl _, Nat.le_refl _⟩
  | @queued g s net' slot awake free was target =>
    have live := isLiveGate_eq_true.2 ⟨⟨g, slot⟩, awake⟩
    obtain ⟨outside, operands⟩ :=
      state.operand schedule settled swapped begun live free (feeds_of_gate? slot was)
    obtain ⟨k, t, created, same, known⟩ := settled.queued differ absent slot awake free was target
    have shift := created.shift
    have safe : ∀ m ∈ k.nodes, m ∉ doomed := by
      intro m member
      obtain ⟨-, other, rfl | feeds⟩ := known m member
      · exact clear
      · exact operands m feeds other
    by_cases taken : s.node ∈ doomed ∧ s.node ≠ root
    · obtain ⟨member, other⟩ := taken
      obtain rfl := created.same (by rw [same]; exact state.inside _ member)
      have claimed := state.claim other fun m there feeds => by
        rcases created.origin consistent.toTallied with zero | below | all
        · exact state.zero (by rwa [← zero, same])
        · exact safe _ below (by rwa [same])
        · exact safe m (all m (by rwa [same])) there
      refine ⟨_, claimed.enqueue (fun there => outside (List.mem_filter.1 there).1) (by simp),
        fun d member => (List.mem_filter.1 member).1, ?_⟩
      have fewer := survivors_enqueue s live free fun there : consumer ∈ doomed.filter (· != s.node)
        => outside (List.mem_filter.1 there).1
      have more := survivors_claim net' r doomed s.node
      omega
    · refine ⟨doomed, (state.shift shift safe state.inside).enqueue outside fun there =>
        Classical.byContradiction fun other => taken ⟨there, other⟩, List.Subset.refl _, ?_⟩
      have live' : net'.isLiveGate consumer = true := by
        rw [isLiveGate_congr (created.body (lt_size_of_gate? slot)) (created.dead consumer)]
        exact live
      have fewer := survivors_enqueue s live' free outside
      have more : survivors net' r doomed ≤ survivors net r doomed + 1 := survivors_created created
      omega
  | @rewired g h net' slot awake free was shape change =>
    have live := isLiveGate_eq_true.2 ⟨⟨g, slot⟩, awake⟩
    obtain ⟨outside, -⟩ :=
      state.operand schedule settled swapped begun live free (feeds_of_gate? slot was)
    have reads := (redirected_reads was differ shape).2
    have shift := change.shift slot fun m member => ((reads m).1 member).imp_right And.left
    exact ⟨doomed, state.shift shift (fun m fresh => fresh ▸ clear) fun d member same =>
        outside (same ▸ member), List.Subset.refl _, survivors_le change.size
          fun n running free outside => ⟨by rwa [change.isLiveGate slot] at running, free, outside⟩⟩

end LogicOpt
