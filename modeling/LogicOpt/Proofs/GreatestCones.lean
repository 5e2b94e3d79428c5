import LogicOpt.Proofs.ConeRuns
import LogicOpt.Proofs.Histories
import Mathlib.Order.Bounds.Basic

/-!
The cone of a root is the greatest set of gates that goes away with it. A member is released with its
last reader, and nothing reads what it is computed into, so a set that only its own gates refer to is
released as a whole. Gates need not be in normal form for that: a gate may refer to a node more than
once.
-/

namespace LogicOpt

open Network

/-- A set of nodes that goes away with `root`. The others are gates that the root is computed from,
    none of them is a leaf, and only gates of the set refer to them. -/
structure Network.GoesWith (net : Network) (root : Nat) (leaves : List Nat) (set : Set Nat) :
    Prop where
  root_mem : root ∈ set
  isGate : ∀ m ∈ set, m ≠ root → net.isGate m = true
  apart : ∀ m ∈ set, m ≠ root → m ∉ leaves
  below : ∀ m ∈ set, m ≠ root → net.Reaches root m
  unread : ∀ m ∈ set, m ≠ root → ∀ o ∈ net.outputs, o.signal.node ≠ m
  readers : ∀ m ∈ set, m ≠ root → ∀ g, net.isLiveGate g = true → net.Feeds m g → g ∈ set

variable {net : Network} {root : Nat} {leaves nodes : List Nat} {idle : Nat → Nat}

theorem FanoutFree.goesWith (free : FanoutFree net root leaves nodes) :
    net.GoesWith root leaves {m | m ∈ nodes} where
  root_mem := free.first
  isGate := fun m member _ => (Bool.and_eq_true_iff.1 (free.inner m member)).1
  apart := free.apart
  below := fun m member _ =>
    free.reached (net.Reaches root) (.refl root) (fun _ _ path _ _ feeds => path.step feeds) m member
  unread := fun m member other => outputReferences_eq_zero.1 (free.unread m member other)
  readers := free.readers

theorem Network.Balanced.exists_reader (balanced : net.Balanced) {m : Nat}
    (live : net.isLiveGate root = true) (path : net.Reaches root m) (other : m ≠ root) :
    ∃ g, net.isLiveGate g = true ∧ net.Feeds m g := by
  cases path with
  | refl => exact absurd rfl other
  | @step k _ path feeds =>
    obtain ⟨g, slot, -⟩ := feeds_iff.1 feeds
    have awake := path.live balanced (isLiveGate_eq_true.1 live).2
    exact ⟨k, isLiveGate_eq_true.2 ⟨⟨g, slot⟩, awake⟩, feeds⟩

/-- A list with the root takes whatever goes away with it, if every node that is not on the list has a
    reader that is not. -/
theorem Network.GoesWith.mem_of_spared {set : Set Nat} {taken : List Nat}
    (goes : net.GoesWith root leaves set) (acyclic : net.Acyclic) (first : root ∈ taken)
    (spared : ∀ n ∈ set, n ≠ root → n ∉ taken →
      ∃ k, net.isLiveGate k = true ∧ net.Feeds n k ∧ k ∉ taken) : ∀ m ∈ set, m ∈ taken := by
  have step (n : Nat) (kept : n ∈ set ∧ n ∉ taken) : ∃ k, net.Feeds n k ∧ k ∈ set ∧ k ∉ taken := by
    obtain ⟨member, outside⟩ := kept
    have other : n ≠ root := fun same => outside (same ▸ first)
    obtain ⟨k, awake, feeds, outside⟩ := spared n member other outside
    exact ⟨k, feeds, goes.readers n member other k awake feeds, outside⟩
  intro m member
  by_contra outside
  exact not_of_readers acyclic step m ⟨member, outside⟩

theorem Network.GoesWith.mem_released {set : Set Nat} (goes : net.GoesWith root leaves set)
    (balanced : net.Balanced) (acyclic : net.Acyclic) (live : net.isLiveGate root = true)
    (state : Releasing net root (fun m => net.fanoutCount m + leaves.count m) idle nodes []) :
    ∀ m ∈ set, m ∈ nodes := by
  have nodup : nodes.Nodup := by simpa using state.nodup
  have running : ∀ n ∈ nodes, net.isLiveGate n = true :=
    fun n member => (state.mem_iff.1 member).live balanced live
  refine goes.mem_of_spared acyclic (state.mem_iff.2 .root) fun n member other outside => ?_
  -- With all its readers released nothing would be left of the count, and it would be released too.
  by_contra none
  have released (g : Nat) (awake : net.isLiveGate g = true) (feeds : net.Feeds n g) : g ∈ nodes :=
    Decidable.not_not.1 fun spared => none ⟨g, awake, feeds, spared⟩
  have unread : net.readsAmong (net.liveGatesApart nodes) n = 0 := by
    refine readsAmong_eq_zero.2 fun g there feeds => ?_
    obtain ⟨awake, apart⟩ := mem_liveGatesApart.1 there
    exact apart (released g awake feeds)
  have zero : idle n = 0 := by
    have sum := state.counts n
    rw [balanced.fanoutCount_eq nodup running, unread,
      outputReferences_eq_zero.2 (goes.unread n member other),
      List.count_eq_zero.2 (goes.apart n member other)] at sum
    omega
  obtain ⟨gate, slot⟩ := Option.isSome_iff_exists.1 (goes.isGate n member other)
  obtain ⟨g, awake, feeds⟩ := balanced.exists_reader live (goes.below n member other) other
  have above := state.mem_iff.1 (released g awake feeds)
  exact outside (state.mem_iff.2
    (.under above feeds zero (balanced.inPlace.not_source_of_gate slot)))

theorem Edit.Released.nodup {cone : Cone} (released : Released net root leaves idle cone) :
    cone.nodes.Nodup := by
  simpa using released.state.nodup

theorem Edit.Released.isGreatest {cone : Cone} (released : Released net root leaves idle cone)
    (balanced : net.Balanced) (acyclic : net.Acyclic) (live : net.isLiveGate root = true) :
    IsGreatest {set | net.GoesWith root leaves set} {m | m ∈ cone.nodes} :=
  ⟨(fanoutFree_of_releasing balanced live released.state).goesWith, fun _ goes m member =>
    goes.mem_released balanced acyclic live released.state m member⟩

/-- On slots that were built by the operations and pass the check, without cycles, the cone of a live
    gate above any leaves is found, whatever the finder was used for before, and all counts are as
    before. It is the greatest set that goes away with the root, listed once each, fanins first and
    the root last. With the leaves counted once more, releasing the root's references and retaining
    them comes upon as many gates, and no count falls below zero. -/
theorem greatest_runCone (c : ConeFinder) (inPlace : net.InPlace)
    (integrity : net.integrityIssue? = none) (acyclic : net.Acyclic)
    (live : net.isLiveGate root = true) (inside : ∀ n ∈ leaves, n < net.size) :
    ∃ cone c', Edit.Gives (c.run root leaves) net (cone, c') net ∧
      IsGreatest {set | net.GoesWith root leaves set} {m | m ∈ cone.nodes} ∧
      cone.nodes.Nodup ∧ net.InOrder (fun m => m ∉ cone.nodes) cone.nodes ∧
      cone.nodes.getLast? = some root ∧ cone.gain = cone.nodes.length ∧
      ∃ counted idle,
        Edit.Gives (leaves.forM fun n => discard (Edit.incrFanoutCount n)) net ⟨⟩ counted ∧
        Edit.Gives (Edit.releaseNode root) counted cone.gain idle ∧
        Edit.Gives (Edit.retainNode root) idle cone.gain counted := by
  have balanced := balanced_of_integrity inPlace integrity
  obtain ⟨cone, c', idle, run, released⟩ :=
    Edit.exists_runCone c balanced acyclic live inside
  obtain ⟨counted, raised⟩ := Edit.countLeaves_total net.fanoutCount inside
  obtain rfl := Edit.countLeaves_gives raised
  rw [recount_self] at raised
  exact ⟨cone, c', run, released.isGreatest balanced acyclic live, released.nodup, released.ordered,
    released.last, released.gain, _, _, raised, released.release, released.retain⟩

/-- Gates over four inputs; both fanins of gate 8 read gate 5. -/
def reconvergent (outputs : List Nat) : List Command :=
  Command.load 4 [(.and2, [2, 4]), (.xor2, [10, 6]), (.and2, [10, 9]), (.and2, [12, 14]),
    (.and2, [6, 8]), (.and2, [16, 19])] outputs

/-- Gate 9 is a leaf, and input 3 is one twice. The finder was used for gate 8 before. -/
theorem greatest_of_reconvergence : ∃ stages net part c cone c',
    Completed (empty "reconvergence") (reconvergent [20]) stages net ∧
    net.WellFormed ∧ net.isLiveGate 10 = true ∧
    Edit.Gives (ConeFinder.empty.run 8 [1, 2]) net (part, c) net ∧
    Edit.Gives (c.run 10 [9, 3, 3]) net (cone, c') net ∧ cone = ⟨[5, 6, 7, 8, 10], 5⟩ ∧
    IsGreatest {set | net.GoesWith 10 [9, 3, 3] set} {m | m ∈ cone.nodes} := by
  obtain ⟨stages, net, history, checks⟩ := Command.exists_completed (reconvergent [20])
    (empty "reconvergence")
    (fun _ net => decide net.Acyclic && net.size == 11 && net.isLiveGate 8 && net.isLiveGate 10 &&
      Edit.yields (ConeFinder.empty.run 8 [1, 2]) (fun (_, c) mid =>
        Edit.yields (c.run 10 [9, 3, 3]) (fun (cone, _) _ => cone == ⟨[5, 6, 7, 8, 10], 5⟩) mid) net)
    (by decide +kernel)
  simp only [Bool.and_eq_true, decide_eq_true_eq, beq_iff_eq] at checks
  obtain ⟨⟨⟨⟨acyclic, size⟩, middle⟩, top⟩, yielded⟩ := checks
  have valid := history.wellFormed acyclic
  have found (c : ConeFinder) (root : Nat) (leaves : List Nat)
      (live : net.isLiveGate root = true) (inside : ∀ n ∈ leaves, n < 11) :=
    greatest_runCone c valid.inPlace valid.integrity acyclic live (size ▸ inside)
  obtain ⟨⟨part, c⟩, mid, first, later⟩ := Edit.exists_gives yielded
  obtain ⟨_, _, again, -⟩ := found .empty 8 [1, 2] middle (by simp)
  obtain ⟨-, rfl⟩ := first.unique again
  obtain ⟨⟨cone, c'⟩, _, second, listed⟩ := Edit.exists_gives later
  obtain ⟨_, _, again, greatest, -⟩ := found c 10 [9, 3, 3] top (by simp)
  obtain ⟨same, rfl⟩ := second.unique again
  cases same
  exact ⟨stages, _, part, c, cone, c', history, valid, top, first, second, beq_iff_eq.1 listed,
    greatest⟩

end LogicOpt
