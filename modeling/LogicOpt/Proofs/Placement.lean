import LogicOpt.Proofs.DivisorPools
import LogicOpt.Proofs.Histories
import LogicOpt.Proofs.Insertion

/-!
Where an inserted candidate lies. It has fewer gates than the root's cone, so it cannot bring the
whole cone in again. Hence the root is not among its gates, and none of them is computed from the
root.
-/

namespace LogicOpt

open Network

variable {net net' : Network}

theorem countP_or_eq_le (p : Nat → Bool) (a : Nat) (l : List Nat) :
    l.countP (fun n => p n || a == n) ≤ l.countP p + l.count a := by
  induction l with
  | nil => simp
  | cons n rest ih =>
    rw [List.countP_cons, List.countP_cons, List.count_cons]
    by_cases same : a = n
    · subst same
      simp only [BEq.rfl, Bool.or_true, ↓reduceIte]
      omega
    · have other : ¬n = a := fun flipped => same flipped.symm
      simp only [beq_iff_eq, same, other, Bool.or_eq_true, or_false, ↓reduceIte]
      omega

def mentions (signals : Array Signal) (n : Nat) : Bool := signals.any (·.node == n)

theorem mentions_eq_true {signals : Array Signal} {n : Nat} :
    mentions signals n = true ↔ ∃ s ∈ signals, s.node = n := by
  rw [mentions, Array.any_eq_true']
  simp only [beq_iff_eq]

theorem mentions_push (signals : Array Signal) (s : Signal) (n : Nat) :
    mentions (signals.push s) n = (mentions signals n || s.node == n) := by
  simp [mentions]

theorem mentions_start (divisors : List Nat) (n : Nat) :
    mentions (.constant false :: divisors.map .ofNode).toArray n = true ↔ n = 0 ∨ n ∈ divisors := by
  simp only [mentions_eq_true, List.mem_toArray, List.mem_cons, List.mem_map]
  constructor
  · rintro ⟨s, rfl | ⟨d, member, rfl⟩, rfl⟩
    · exact .inl rfl
    · exact .inr member
  · rintro (rfl | member)
    · exact ⟨_, .inl rfl, rfl⟩
    · exact ⟨_, .inr ⟨n, member, rfl⟩, rfl⟩

theorem mentions_of_resolved {signals : Array Signal} {fanins answers : List Signal}
    (resolved : fanins.mapM (Edit.readPosition signals) = .ok answers) :
    ∀ f ∈ answers, mentions signals f.node = true := by
  induction fanins generalizing answers with
  | nil =>
    cases resolved
    simp
  | cons a rest ih =>
    simp only [List.mapM_cons, bind_eq_ok] at resolved
    obtain ⟨first, head, others, tail, same⟩ := resolved
    cases same
    rw [List.forall_mem_cons]
    refine ⟨?_, ih tail⟩
    unfold Edit.readPosition at head
    split at head
    · rename_i t entry
      cases head
      refine mentions_eq_true.2 ⟨t, Array.mem_of_getElem? entry, ?_⟩
      rw [Signal.node_negateIf]
    · cases head

theorem Created.origin {g : Gate Signal} {s : Signal} (created : Created net g s net')
    (tallied : net.Tallied) :
    s.node = 0 ∨ s.node ∈ g.nodes ∨ ∀ m, net'.Feeds m s.node → m ∈ g.nodes := by
  cases created with
  | folded shape => exact (Gate.normalize_trivial shape).imp_right .inl
  | shared shape entry =>
    refine .inr (.inr fun m feeds => ?_)
    have member := (mem_fanins (tallied.table _ _ entry).1).1 feeds
    exact (Gate.normalize_gate shape).2.2.subset member
  | appended shape absent change =>
    refine .inr (.inr fun m feeds => (Gate.normalize_gate shape).2.2.subset ?_)
    rcases change.feeds.1 feeds with ⟨-, member⟩ | feeds
    · exact member
    · obtain ⟨k, slot, -⟩ := feeds_iff.1 feeds
      exact absurd (lt_size_of_gate? slot) (Nat.lt_irrefl _)

theorem Created.gates {g : Gate Signal} {s : Signal} (created : Created net g s net') :
    (net'.numGates = net.numGates) ∨ (net'.numGates = net.numGates + 1 ∧ s.node = net.size) := by
  cases created with
  | folded => exact .inl rfl
  | shared => exact .inl rfl
  | appended shape absent change => exact .inr ⟨change.numGates, rfl⟩

/-- Every node mentioned belongs to the base or reads only nodes mentioned. -/
def Grounded (net : Network) (base : Nat → Prop) (signals : Array Signal) : Prop :=
  ∀ n, mentions signals n = true →
    n < net.size ∧ (base n ∨ ∀ m, net.Feeds m n → mentions signals m = true)

namespace FanoutFree

variable {root : Nat} {leaves cone divisors : List Nat}

theorem inside (free : FanoutFree net root leaves cone) : ∀ m ∈ cone, m < net.size :=
  fun m member => lt_of_isLiveGate (free.inner m member)

theorem foreign (free : FanoutFree net root leaves cone) (consistent : net.Consistent)
    (clear : ∀ d ∈ divisors, d ∉ cone) (n : Nat) (member : n ∈ cone) : ¬(n = 0 ∨ n ∈ divisors) := by
  rintro (rfl | divisor)
  · obtain ⟨⟨g, slot⟩, -⟩ := isLiveGate_eq_true.1 (free.inner 0 member)
    rw [consistent.inPlace.gate?_zero] at slot
    cases slot
  · exact clear n divisor member

end FanoutFree

namespace Inserted

variable {signals signals' : Array Signal} {gates : List (Gate Signal)}

theorem acyclic (inserted : Inserted net signals gates signals' net') (consistent : net.Consistent)
    (acyclic : net.Acyclic) : net'.Acyclic :=
  (inserted.keeps (fun net => net.Acyclic)
    (fun consistent acyclic alive created =>
      created.acyclic acyclic consistent.toTallied fun m member => (alive m member).1)
    consistent acyclic).2

theorem body (inserted : Inserted net signals gates signals' net') {m : Nat}
    (inside : m < net.size) : net'.body? m = net.body? m := by
  induction inserted with
  | nil => rfl
  | cons resolved kind alive created later ih =>
    rw [ih (Nat.lt_of_lt_of_le inside created.size_le), created.body inside]

theorem numGates_le (inserted : Inserted net signals gates signals' net') :
    net.numGates ≤ net'.numGates := by
  induction inserted with
  | nil => exact Nat.le_refl _
  | cons resolved kind alive created later ih =>
    rcases created.gates with same | ⟨more, -⟩ <;> omega

theorem mentions_mono (inserted : Inserted net signals gates signals' net') {n : Nat}
    (mentioned : mentions signals n = true) : mentions signals' n = true := by
  induction inserted with
  | nil => exact mentioned
  | cons resolved kind alive created later ih =>
    exact ih (by rw [mentions_push, mentioned, Bool.true_or])

theorem grounded (inserted : Inserted net signals gates signals' net') (consistent : net.Consistent)
    {base : Nat → Prop} (zero : base 0) (start : Grounded net base signals) :
    Grounded net' base signals' := by
  induction inserted with
  | nil => exact start
  | @cons net mid net' signals signals' g k s rest resolved kind alive created later ih =>
    refine ih (created.consistent consistent (fun m member => (alive m member).1)
      fun m member => (alive m member).2) fun n mentioned => ?_
    have operands : ∀ m ∈ k.nodes, mentions signals m = true := by
      intro m member
      obtain ⟨f, there, rfl⟩ := Gate.mem_nodes.1 member
      exact mentions_of_resolved resolved f there
    have earlier (known : mentions signals n = true) : n < mid.size ∧
        (base n ∨ ∀ m, mid.Feeds m n → mentions (signals.push s) m = true) := by
      obtain ⟨inside, settled⟩ := start n known
      refine ⟨Nat.lt_of_lt_of_le inside created.size_le, settled.imp_right fun reads m feeds => ?_⟩
      rw [mentions_push, reads m ((feeds_congr (created.body inside)).1 feeds), Bool.true_or]
    rw [mentions_push, Bool.or_eq_true, beq_iff_eq] at mentioned
    rcases mentioned with known | rfl
    · exact earlier known
    · have inside := (created.live consistent.toTallied (fun m member => (alive m member).1)
        fun m member => (alive m member).2).1
      rcases created.origin consistent.toTallied with same | member | reads
      · exact ⟨inside, .inl (same ▸ zero)⟩
      · exact earlier (operands _ member)
      · refine ⟨inside, .inr fun m feeds => ?_⟩
        rw [mentions_push, operands m (reads m feeds), Bool.true_or]

/-- Each gate of a candidate is new or brings in one node at most. -/
theorem numGates_mentions {nodes : List Nat} (inserted : Inserted net signals gates signals' net')
    (nodup : nodes.Nodup) (inside : ∀ m ∈ nodes, m < net.size) :
    net'.numGates + nodes.countP (mentions signals') ≤
      net.numGates + gates.length + nodes.countP (mentions signals) := by
  induction inserted with
  | nil => exact Nat.le_refl _
  | @cons net mid net' signals signals' g k s rest resolved kind alive created later ih =>
    have whole := ih fun m member => Nat.lt_of_lt_of_le (inside m member) created.size_le
    have more : nodes.countP (mentions (signals.push s)) ≤
        nodes.countP (mentions signals) + nodes.count s.node := by
      rw [show mentions (signals.push s) = fun n => mentions signals n || s.node == n from
        funext (mentions_push signals s)]
      exact countP_or_eq_le _ s.node nodes
    have once := List.nodup_iff_count_le_one.1 nodup s.node
    rw [List.length_cons]
    rcases created.gates with same | ⟨grown, fresh⟩
    · omega
    · have absent : nodes.count s.node = 0 := List.count_eq_zero.2 fun member =>
        Nat.lt_irrefl _ (fresh ▸ inside _ member)
      omega

theorem reaches (inserted : Inserted net signals gates signals' net') (tallied : net.Tallied)
    {n m : Nat} (inside : n < net.size) (path : net'.Reaches n m) :
    m < net.size ∧ net.Reaches n m := by
  induction path with
  | refl => exact ⟨inside, .refl n⟩
  | step _ feeds ih =>
    obtain ⟨below, path⟩ := ih
    have reads := (feeds_congr (inserted.body below)).1 feeds
    exact ⟨tallied.lt_of_feeds reads, path.step reads⟩

theorem grounded_start {divisors : List Nat}
    (inserted : Inserted net (.constant false :: divisors.map .ofNode).toArray gates signals net')
    (consistent : net.Consistent) (inside : ∀ d ∈ divisors, d < net.size) :
    Grounded net' (fun n => n = 0 ∨ n ∈ divisors) signals :=
  inserted.grounded consistent (.inl rfl) fun n mentioned => by
    have base := (mentions_start _ n).1 mentioned
    refine ⟨?_, .inl base⟩
    rcases base with rfl | divisor
    · exact consistent.inPlace.size_pos
    · exact inside n divisor

/-- A candidate with fewer gates than the cone keeps clear of the root. -/
theorem apart {root : Nat} {leaves cone divisors : List Nat}
    (inserted : Inserted net (.constant false :: divisors.map .ofNode).toArray gates signals net')
    (consistent : net.Consistent) (ordered : net.Acyclic) (free : FanoutFree net root leaves cone)
    (clear : ∀ d ∈ divisors, ¬net.Reaches d root ∧ d ∉ cone)
    (inside : ∀ d ∈ divisors, d < net.size) (few : gates.length < cone.length) :
    net'.numGates + cone.countP (mentions signals) ≤ net.numGates + gates.length ∧
      ∀ n, mentions signals n = true → ¬net'.Reaches n root := by
  have tallied := consistent.toTallied
  have foreign := free.foreign consistent fun d member => (clear d member).2
  have none : cone.countP (mentions (.constant false :: divisors.map .ofNode).toArray) = 0 :=
    List.countP_eq_zero.2 fun n member mentioned => foreign n member ((mentions_start _ n).1 mentioned)
  have counted := inserted.numGates_mentions free.nodup free.inside
  rw [none] at counted
  have grounded := inserted.grounded_start consistent inside
  refine ⟨counted, fun n => ?_⟩
  -- With the root, the candidate would mention all that is read on the way down in the cone.
  have missing : mentions signals root = false := Bool.eq_false_iff.2 fun mentioned => by
    have all : ∀ m ∈ cone, mentions signals m = true := by
      refine free.reached _ mentioned fun n member known m _ feeds => ?_
      have reads := (grounded n known).2.resolve_left (foreign n member)
      exact reads m ((feeds_congr (inserted.body (free.inside n member))).2 feeds)
    rw [List.countP_eq_length.2 all] at counted
    have := inserted.numGates_le
    omega
  induction n using (inserted.acyclic consistent ordered).induction with
  | _ n ih =>
    intro mentioned path
    rcases path.cases_head with rfl | ⟨m, feeds, rest⟩
    · rw [missing] at mentioned
      cases mentioned
    · rcases (grounded n mentioned).2 with (rfl | divisor) | reads
      · have reads := (feeds_congr (inserted.body tallied.inPlace.size_pos)).1 feeds
        obtain ⟨g, slot, -⟩ := feeds_iff.1 reads
        rw [consistent.inPlace.gate?_zero] at slot
        cases slot
      · exact (clear n divisor).1 (inserted.reaches tallied (inside n divisor) path).2
      · exact ih m feeds (reads m feeds) rest

end Inserted

end LogicOpt
