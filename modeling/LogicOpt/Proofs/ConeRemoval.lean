import LogicOpt.Proofs.EventStream
import LogicOpt.Proofs.GreatestCones
import LogicOpt.Proofs.LiveValuations
import LogicOpt.Proofs.Settling

namespace LogicOpt

open Network

namespace Network

variable {net net' : Network} {root : Nat} {removed : List Nat}

theorem Cleared.goesWith (cleared : Cleared net removed net') (after : net'.Consistent)
    (first : root ∈ removed) (below : ∀ m ∈ removed, net.Reaches root m) :
    net.GoesWith root [] {m | m ∈ removed} := by
  have dead (m : Nat) (member : m ∈ removed) : net'.isDead m = true :=
    (cleared.isDead m).2 (.inr member)
  refine ⟨first, fun m member _ => ?_, by simp, fun m member _ => below m member,
    fun m member _ o there same => ?_, fun m member _ g running feeds => ?_⟩
  · exact (Bool.and_eq_true_iff.1 (cleared.live m member)).1
  · rw [← cleared.trimmed.outputs] at there
    have awake := after.outputs_live o there
    rw [same, dead m member] at awake
    cases awake
  · by_contra outside
    have awake := after.fanins_live g m ((cleared.isLiveGate g).2 ⟨running, outside⟩)
      ((feeds_congr (cleared.trimmed.body g)).2 feeds)
    rw [dead m member] at awake
    cases awake

/-- Whatever goes away with the root is removed with it, unless it is left dangling. -/
theorem GoesWith.mem_cleared {set : Set Nat} (goes : net.GoesWith root [] set)
    (before : net.Consistent) (acyclic : net.Acyclic) (live : net.isLiveGate root = true)
    (cleared : Cleared net removed net') (after : net'.Consistent) (first : root ∈ removed)
    (dangling : ∀ m, net'.Dangling m → net.Dangling m) : ∀ m ∈ set, m ∈ removed := by
  have balanced := before.toOrderly.balanced
  refine goes.mem_of_spared acyclic first fun n member other outside => ?_
  have path := goes.below n member other
  obtain ⟨gate, slot⟩ := Option.isSome_iff_exists.1 (goes.isGate n member other)
  have running : net'.isLiveGate n = true := by
    have awake := path.live balanced (isLiveGate_eq_true.1 live).2
    exact (cleared.isLiveGate n).2 ⟨isLiveGate_eq_true.2 ⟨⟨gate, slot⟩, awake⟩, outside⟩
  have read : ¬net'.Dangling n := fun left => by
    obtain ⟨g, awake, feeds⟩ := balanced.exists_reader live path other
    exact before.not_feeds_of_unread (dangling n left).2 awake feeds
  have apart : ∀ o ∈ net'.outputs, o.signal.node ≠ n := by
    rw [cleared.trimmed.outputs]
    exact goes.unread n member other
  -- A survivor is still read, and not by an output.
  obtain ⟨k, above, feeds⟩ := after.toTallied.exists_reader running read apart
  obtain ⟨above, survives⟩ := (cleared.isLiveGate k).1 above
  exact ⟨k, above, (feeds_congr (cleared.trimmed.body k)).1 feeds, survives⟩

theorem takeOut_isGreatest (consistent : net.Consistent) (acyclic : net.Acyclic)
    (live : net.isLiveGate root = true) (unread : net.fanoutCount root = 0) :
    ∃ removed, Cleared net removed (net.takeOut root) ∧
      IsGreatest {set | net.GoesWith root [] set} {m | m ∈ removed} := by
  obtain ⟨removed, cleared, below, dangling⟩ :=
    takeOut_cleared consistent ⟨lt_of_isLiveGate live, .inr (.inr unread)⟩
  have after := cleared.trimmed.consistent consistent
  have first : root ∈ removed := by
    by_contra kept
    have zero : (net.takeOut root).fanoutCount root = 0 :=
      Nat.le_zero.1 (unread ▸ cleared.fanoutCount_le root)
    exact (dangling root ⟨(cleared.isLiveGate root).2 ⟨live, kept⟩, zero⟩).2 rfl
  refine ⟨removed, cleared, cleared.goesWith after first below, fun _ goes m member => ?_⟩
  exact goes.mem_cleared consistent acyclic live cleared after first
    (fun n left => (dangling n left).1) m member

theorem LiveValuation.trimmed {input value : Nat → Bool} (valuation : net.LiveValuation input value)
    (trimmed : Trimmed net net') : net'.LiveValuation input value where
  constant := valuation.constant
  input := fun n here => by
    rw [isInput_eq_body?, trimmed.body, ← isInput_eq_body?] at here
    exact valuation.input n here
  gate := fun n g slot awake => by
    have live : net'.isLiveGate n = true := isLiveGate_eq_true.2 ⟨⟨g, slot⟩, awake⟩
    rw [gate?_congr (trimmed.body n)] at slot
    exact valuation.gate n g slot (isLiveGate_eq_true.1 (trimmed.isLiveGate live)).2

end Network

variable {net : Network} {root : Nat}

/-- Taking out a live gate that nothing reads kills the gates that the finder lists for it beforehand,
    whatever the finder was used for, and no others. Subscribers are told of each of them once. All
    that is left is counted as it is still read, the network is well-formed again, and whatever the
    inputs are, outputs and surviving nodes have the values that they had. -/
theorem takeOutNode_removes_cone (c : ConeFinder) (valid : net.WellFormed)
    (live : net.isLiveGate root = true) (unread : net.fanoutCount root = 0) :
    ∃ cone c' net', Edit.Gives (c.run root []) net (cone, c') net ∧
      Edit.Gives (Edit.takeOutNode root) net () net' ∧
      (∀ m ∈ cone.nodes, net.isLiveGate m = true) ∧
      (∀ m, net'.isDead m = true ↔ net.isDead m = true ∨ m ∈ cone.nodes) ∧
      net'.numGates + cone.gain = net.numGates ∧
      (∃ removed : List Nat, removed.Perm cone.nodes ∧ Told net (removed.map .removed) net') ∧
      (∀ m, net'.body? m = net.body? m) ∧ net'.outputs = net.outputs ∧
      (∀ m, net'.fanoutCount m = net'.references.count m) ∧ net'.WellFormed ∧
      ∀ input, (∃ value, net.LiveValuation input value ∧ net'.LiveValuation input value) ∧
        ∀ value value', net.LiveValuation input value → net'.LiveValuation input value' →
          (∀ m, m < net.size → net'.isDead m = false → value' m = value m) ∧
          net'.outputValues value' = net.outputValues value := by
  obtain ⟨consistent, acyclic⟩ := wellFormed_iff.1 valid
  have balanced := consistent.toOrderly.balanced
  obtain ⟨cone, c', idle, run, released⟩ :=
    Edit.exists_runCone c balanced acyclic live (List.forall_mem_nil _)
  obtain ⟨removed, cleared, greatest⟩ := takeOut_isGreatest consistent acyclic live unread
  have trimmed := cleared.trimmed
  have after := trimmed.consistent consistent
  have same (m : Nat) : m ∈ removed ↔ m ∈ cone.nodes :=
    Set.ext_iff.1 (greatest.unique (released.isGreatest balanced acyclic live)) m
  have perm : removed.Perm cone.nodes :=
    (List.perm_ext_iff_of_nodup cleared.nodup released.nodup).2 same
  have ran : Edit.Gives (Edit.takeOutNode root) net () (net.takeOut root) := by
    simp only [Edit.takeOutNode, Edit.gives_bind, Edit.gives_check, Edit.gives_update]
    exact ⟨(), net, ⟨by simp [ensure, lt_of_isLiveGate live], rfl⟩, rfl⟩
  refine ⟨cone, c', net.takeOut root, run, ran, fun m member => ?_, fun m => ?_, ?_,
    ⟨removed, perm, cleared.told⟩, trimmed.body, trimmed.outputs, after.toOrderly.balanced.count,
    wellFormed_iff.2 ⟨after, trimmed.acyclic acyclic⟩, fun input => ⟨?_, ?_⟩⟩
  · exact cleared.live m ((same m).2 member)
  · rw [cleared.isDead, same]
  · rw [after.numGates, consistent.numGates, cleared.length_liveGates, released.gain,
      perm.length_eq]
  · obtain ⟨value, valuation⟩ := exists_valuation acyclic consistent.inPlace input
    exact ⟨value, valuation.live, valuation.live.trimmed trimmed⟩
  · intro value value' before later
    have left := before.trimmed trimmed
    have still := (trimmed.acyclic acyclic).live
    refine ⟨fun m inside awake => ?_, ?_⟩
    · exact later.unique still after left m (by rwa [trimmed.size]) awake
    · rw [later.outputValues_eq still after left]
      simp only [outputValues, trimmed.outputs]

/-- Two subscribers watch gate 10 go. Gate 5 has two readers and goes last; gate 9 is an output and
    stays. -/
theorem removed_of_reconvergence : ∃ stages net cone c' net',
    Completed watched (reconvergent [18]) stages net ∧
    net.WellFormed ∧ net.isLiveGate 10 = true ∧ net.fanoutCount 10 = 0 ∧
    Edit.Gives (ConeFinder.empty.run 10 []) net (cone, c') net ∧
    Edit.Gives (Edit.takeOutNode 10) net () net' ∧ cone = ⟨[5, 6, 7, 8, 10], 5⟩ ∧
    net'.eventsShown 1 = net.eventsShown 1 ++
      [.removed 10, .removed 8, .removed 7, .removed 6, .removed 5] ∧
    (∀ m, net'.isDead m = true ↔ net.isDead m = true ∨ m ∈ cone.nodes) ∧
    net'.numGates + cone.gain = net.numGates ∧ net'.WellFormed := by
  obtain ⟨stages, net, history, checks⟩ := Command.exists_completed (reconvergent [18]) watched
    (fun _ net => decide net.Acyclic && net.isLiveGate 10 && net.fanoutCount 10 == 0 &&
      Edit.yields (ConeFinder.empty.run 10 [])
        (fun found _ => found.1 == ⟨[5, 6, 7, 8, 10], 5⟩) net &&
      Edit.yields (Edit.takeOutNode 10) (fun _ net' => net'.eventsShown 1 == net.eventsShown 1 ++
        [.removed 10, .removed 8, .removed 7, .removed 6, .removed 5]) net)
    (by decide +kernel)
  simp only [Bool.and_eq_true, decide_eq_true_eq, beq_iff_eq] at checks
  obtain ⟨⟨⟨⟨acyclic, live⟩, unread⟩, listed⟩, shown⟩ := checks
  have consistent := (history.consistent (wellFormed_iff.1 wellFormed_watched).1).1
  have valid := wellFormed_iff.2 ⟨consistent, acyclic⟩
  obtain ⟨cone, c', net', run, taken, -, dead, gates, -, -, -, -, after, -⟩ :=
    takeOutNode_removes_cone .empty valid live unread
  obtain ⟨⟨found, _⟩, _, again, listed⟩ := Edit.exists_gives listed
  obtain ⟨same, -⟩ := run.unique again
  cases same
  obtain ⟨_, _, again, shown⟩ := Edit.exists_gives shown
  obtain ⟨-, rfl⟩ := taken.unique again
  exact ⟨stages, net, cone, c', net', history, valid, live, unread, run, taken,
    beq_iff_eq.1 listed, beq_iff_eq.1 shown, dead, gates, after⟩

end LogicOpt
