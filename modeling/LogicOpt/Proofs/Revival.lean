import LogicOpt.Proofs.Firings
import LogicOpt.Proofs.Runs
import LogicOpt.Proofs.Traversal

namespace LogicOpt

open Network

/-- The listed gates were restored; every other slot is as it was. -/
structure Revived (net net' : Network) (order : List Nat) : Prop where
  frame : Frame net net'
  size : net'.size = net.size
  body : ∀ m, net'.body? m = net.body? m
  dead : ∀ m, net'.isDead m = true ↔ net.isDead m = true ∧ m ∉ order
  count : ∀ m, net.fanoutCount m ≤ net'.fanoutCount m
  outputs : net'.outputs = net.outputs
  table : ∀ {k : Gate Signal} {m : Nat}, net.table[k]? = some m → net'.table[k]? = some m
  announced : Announced net net'

/-- The dead nodes that come back together with a dead node. -/
def Network.deadCone (net : Network) (n : Nat) : List Nat :=
  net.postorder [n] fun m => !net.isDead m

namespace Edit

variable {net net' : Network}

theorem reviveGate_gives {n : Nat} {g : Gate Signal} (tallied : net.Tallied)
    (slot : net.gate? n = some g) (dead : net.isDead n = true)
    (run : Gives (reviveGate n) net () net') : Restored net net' n g ∧ Announced net net' := by
  simp only [reviveGate, gives_bind, gives_update, gives_get, gives_ofExcept] at run
  obtain ⟨_, _, rfl, _, _, ⟨rfl, rfl⟩, _, _, ⟨-, rfl⟩, rfl⟩ := run
  have change := restored_reattach slot (tallied.canonical n g slot).nodup_nodes
    (fun m member => tallied.lt_of_feeds (feeds_of_gate? slot member))
    (fun m _ listed => by
      have live := (tallied.mem_fanouts.1 listed).1
      simp [isLiveGate, dead] at live)
    fun holder entry => (tallied.table g holder entry).2
  exact ⟨change.relevel ((relevelled_setLevel ..).trans (relevelled_notify ..)),
    announced_restore slot dead change⟩

theorem reviveAll_gives {order : List Nat} (tallied : net.Tallied) (nodup : order.Nodup)
    (dead : ∀ n ∈ order, net.isDead n = true) (run : Gives (order.forM reviveGate) net () net') :
    net'.Tallied ∧ Revived net net' order := by
  induction order generalizing net with
  | nil =>
    simp only [List.forM_eq_forM, List.forM_nil, gives_pure] at run
    obtain ⟨-, rfl⟩ := run
    exact ⟨tallied, .refl _, rfl, fun _ => rfl, by simp, fun _ => Nat.le_refl _, rfl,
      fun entry => entry, .refl _⟩
  | cons n rest ih =>
    simp only [List.forM_eq_forM, List.forM_cons, gives_bind] at run
    obtain ⟨⟨⟩, mid, head, tail⟩ := run
    obtain ⟨fresh, nodup⟩ := List.nodup_cons.1 nodup
    obtain ⟨g, slot⟩ := tallied.gate_of_dead (dead n (by simp))
    obtain ⟨change, announced⟩ := reviveGate_gives tallied slot (dead n (by simp)) head
    have still : ∀ m ∈ rest, mid.isDead m = true := by
      intro m member
      have other : m ≠ n := fun same => fresh (same ▸ member)
      rw [change.dead, dead m (by simp [member])]
      simp [other]
    obtain ⟨after, revived⟩ := ih (tallied.restore change slot (dead n (by simp))) nodup still tail
    refine ⟨after, change.frame.trans revived.frame, revived.size.trans change.size,
      fun m => (revived.body m).trans (change.body m), fun m => ?_, fun m => ?_,
      revived.outputs.trans change.outputs, fun entry => revived.table ?_,
      announced.trans revived.announced⟩
    · rw [revived.dead, change.dead]
      by_cases self : m = n <;> simp [self]
    · refine Nat.le_trans ?_ (revived.count m)
      rw [change.count]
      exact Nat.le_add_right ..
    · rw [change.table]
      split
      · rename_i same
        rw [← same, entry]
        rfl
      · exact entry

theorem revive_gives {n : Nat} (consistent : net.Consistent) (dead : net.isDead n = true)
    (run : Gives (revive n) net () net') :
    net'.Consistent ∧ Revived net net' (net.deadCone n) ∧ n ∈ net.deadCone n := by
  simp only [revive, gives_bind, gives_get] at run
  obtain ⟨_, _, ⟨rfl, rfl⟩, run⟩ := run
  have listed := listed_postorder net (fun m => !net.isDead m) [n]
  have asleep : ∀ m ∈ net.deadCone n, net.isDead m = true := by
    intro m member
    simpa using listed.kept m member
  obtain ⟨tallied, revived⟩ := reviveAll_gives consistent.toTallied listed.nodup asleep run
  refine ⟨⟨tallied, fun g m live feeds => ?_, fun o member => ?_⟩, revived, ?_⟩
  · have feeds : net.Feeds m g := (feeds_congr (revived.body g)).1 feeds
    obtain ⟨⟨h, slot⟩, awake⟩ := isLiveGate_eq_true.1 live
    refine Bool.eq_false_iff.2 fun stillDead => ?_
    obtain ⟨wasDead, absent⟩ := (revived.dead m).1 stillDead
    -- A live reader was live before, or it came back together with what it reads.
    by_cases member : g ∈ net.deadCone n
    · rcases listed.closed g member m feeds with skipped | there
      · simp [wasDead] at skipped
      · exact absent there
    · have before : net.isDead g = false :=
        Bool.eq_false_iff.2 fun d => by
          rw [(revived.dead g).2 ⟨d, member⟩] at awake
          cases awake
      rw [gate?_congr (revived.body g)] at slot
      rw [consistent.fanins_live g m (isLiveGate_eq_true.2 ⟨⟨h, slot⟩, before⟩) feeds] at wasDead
      cases wasDead
  · rw [revived.outputs] at member
    refine Bool.eq_false_iff.2 fun stillDead => ?_
    have wasDead := ((revived.dead _).1 stillDead).1
    rw [consistent.outputs_live o member] at wasDead
    cases wasDead
  · exact (listed.reached n (by simp)).resolve_left (by simp [dead])

end Edit

end LogicOpt
