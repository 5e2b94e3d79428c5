import LogicOpt.Proofs.Firings
import Mathlib.Data.List.Perm.Subperm

namespace LogicOpt

namespace Network

variable {net net' : Network}

/-- A live gate that nothing reads. -/
def Dangling (net : Network) (n : Nat) : Prop := net.isLiveGate n = true ∧ net.fanoutCount n = 0

theorem noDangling_iff : net.NoDangling ↔ ∀ n, ¬net.Dangling n := by
  simp [NoDangling, Dangling]

instance (net : Network) : Decidable net.NoDangling :=
  decidable_of_iff (∀ n ∈ net.liveGates, net.fanoutCount n ≠ 0) (by
    simp only [mem_liveGates]
    rfl)

/-- Gates that nothing reads were removed, one after another. -/
inductive Trimmed (net : Network) : Network → Prop where
  | refl : Trimmed net net
  | step {mid net' : Network} {n : Nat} {g : Gate Signal} (before : Trimmed net mid)
      (slot : mid.gate? n = some g) (awake : mid.isDead n = false)
      (unread : mid.fanoutCount n = 0) (change : Removed mid net' n g)
      (announced : Announced mid net') : Trimmed net net'

theorem Trimmed.head {mid : Network} {n : Nat} {g : Gate Signal} (slot : net.gate? n = some g)
    (awake : net.isDead n = false) (unread : net.fanoutCount n = 0)
    (change : Removed net mid n g) (announced : Announced net mid) (rest : Trimmed mid net') :
    Trimmed net net' := by
  induction rest with
  | refl => exact .step .refl slot awake unread change announced
  | step _ slot' awake' unread' change' announced' ih =>
    exact .step ih slot' awake' unread' change' announced'

theorem Trimmed.trans {mid : Network} (first : Trimmed net mid) (second : Trimmed mid net') :
    Trimmed net net' := by
  induction second with
  | refl => exact first
  | step _ slot awake unread change announced ih =>
    exact .step ih slot awake unread change announced

theorem Trimmed.consistent (trimmed : Trimmed net net') (before : net.Consistent) :
    net'.Consistent := by
  induction trimmed with
  | refl => exact before
  | step _ slot awake unread change _ ih => exact ih.remove change slot awake unread

theorem Trimmed.size (trimmed : Trimmed net net') : net'.size = net.size := by
  induction trimmed with
  | refl => rfl
  | step _ _ _ _ change _ ih => rw [change.size, ih]

theorem Trimmed.body (trimmed : Trimmed net net') (m : Nat) : net'.body? m = net.body? m := by
  induction trimmed with
  | refl => rfl
  | step _ _ _ _ change _ ih => rw [change.body, ih]

theorem Trimmed.outputs (trimmed : Trimmed net net') : net'.outputs = net.outputs := by
  induction trimmed with
  | refl => rfl
  | step _ _ _ _ change _ ih => rw [change.outputs, ih]

theorem Trimmed.frame (trimmed : Trimmed net net') : Frame net net' := by
  induction trimmed with
  | refl => exact .refl net
  | step _ _ _ _ change _ ih => exact ih.trans change.frame

theorem Trimmed.announced (trimmed : Trimmed net net') : Announced net net' := by
  induction trimmed with
  | refl => exact .refl net
  | step _ _ _ _ _ announced ih => exact ih.trans announced

theorem Trimmed.dead (trimmed : Trimmed net net') {m : Nat} (dead : net.isDead m = true) :
    net'.isDead m = true := by
  induction trimmed with
  | refl => exact dead
  | step _ _ _ _ change _ ih => rw [change.dead, ih, Bool.or_true]

/-- These gates were removed, one after another; nothing read a gate any more when it was. -/
inductive Cleared : Network → List Nat → Network → Prop where
  | nil {net : Network} : Cleared net [] net
  | cons {net mid net' : Network} {n : Nat} {g : Gate Signal} {removed : List Nat}
      (slot : net.gate? n = some g) (awake : net.isDead n = false)
      (unread : net.fanoutCount n = 0) (change : Removed net mid n g)
      (told : Told net [.removed n] mid) (rest : Cleared mid removed net') :
      Cleared net (n :: removed) net'

namespace Cleared

variable {removed : List Nat}

theorem trimmed (cleared : Cleared net removed net') : Trimmed net net' := by
  induction cleared with
  | nil => exact .refl
  | cons slot awake unread change told _ ih => exact .head slot awake unread change told.announced ih

theorem told (cleared : Cleared net removed net') : Told net (removed.map .removed) net' := by
  induction cleared with
  | nil => exact told_of_silent rfl rfl rfl
  | cons _ _ _ _ told _ ih => exact told.trans ih

theorem isDead (cleared : Cleared net removed net') (m : Nat) :
    net'.isDead m = true ↔ net.isDead m = true ∨ m ∈ removed := by
  induction cleared with
  | nil => simp
  | cons _ _ _ change _ _ ih =>
    rw [ih, change.dead, Bool.or_eq_true, beq_iff_eq, List.mem_cons]
    tauto

theorem isLiveGate (cleared : Cleared net removed net') (m : Nat) :
    net'.isLiveGate m = true ↔ net.isLiveGate m = true ∧ m ∉ removed := by
  induction cleared with
  | nil => simp
  | cons _ _ _ change _ _ ih =>
    rw [ih, change.isLiveGate, List.mem_cons]
    tauto

theorem live (cleared : Cleared net removed net') : ∀ m ∈ removed, net.isLiveGate m = true := by
  induction cleared with
  | nil => simp
  | cons slot awake _ change _ _ ih =>
    rw [List.forall_mem_cons]
    exact ⟨isLiveGate_eq_true.2 ⟨⟨_, slot⟩, awake⟩,
      fun m member => ((change.isLiveGate m).1 (ih m member)).2⟩

theorem nodup (cleared : Cleared net removed net') : removed.Nodup := by
  induction cleared with
  | nil => exact List.nodup_nil
  | cons _ _ _ change _ rest ih =>
    exact List.nodup_cons.2
      ⟨fun member => ((change.isLiveGate _).1 (rest.live _ member)).1 rfl, ih⟩

theorem length_liveGates (cleared : Cleared net removed net') :
    net.liveGates.length = net'.liveGates.length + removed.length := by
  induction cleared with
  | nil => rfl
  | cons slot awake _ change _ _ ih =>
    rw [change.length_liveGates (isLiveGate_eq_true.2 ⟨⟨_, slot⟩, awake⟩), ih, List.length_cons]
    omega

theorem fanoutCount_le (cleared : Cleared net removed net') (m : Nat) :
    net'.fanoutCount m ≤ net.fanoutCount m := by
  induction cleared with
  | nil => exact Nat.le_refl _
  | cons _ _ _ change _ _ ih =>
    have := change.count m
    omega

end Cleared

def counted (net : Network) : List Nat :=
  (List.range net.size).filter fun m => net.fanoutCount m != 0

theorem mem_counted {m : Nat} : m ∈ net.counted ↔ m < net.size ∧ net.fanoutCount m ≠ 0 := by
  simp [counted]

theorem Removed.length_counted {n : Nat} {g : Gate Signal} {added : List Nat}
    (change : Removed net net' n g) (nodup : added.Nodup)
    (inside : ∀ m ∈ g.nodes, m < net.size)
    (news : ∀ m, m ∈ added ↔ m ∈ g.nodes ∧ net.fanoutCount m = 1) :
    added.length + net'.counted.length ≤ net.counted.length := by
  have apart : (added ++ net'.counted).Nodup := by
    refine List.nodup_append.2 ⟨nodup, List.nodup_range.filter _, fun m member k there => ?_⟩
    rintro rfl
    obtain ⟨reads, one⟩ := (news m).1 member
    have positive := (mem_counted.1 there).2
    rw [change.count, if_pos reads, one] at positive
    exact positive rfl
  have subset : added ++ net'.counted ⊆ net.counted := by
    intro m member
    rw [mem_counted]
    rcases List.mem_append.1 member with member | member
    · obtain ⟨reads, one⟩ := (news m).1 member
      exact ⟨inside m reads, by omega⟩
    · obtain ⟨below, positive⟩ := mem_counted.1 member
      rw [change.size] at below
      rw [change.count] at positive
      exact ⟨below, by omega⟩
  have le := (apart.subperm subset).length_le
  rwa [List.length_append] at le

/-- What may be on the worklist: sources, dead nodes, and nodes that nothing reads. -/
def Removable (net : Network) (n : Nat) : Prop :=
  n < net.size ∧ (net.isSource n = true ∨ net.isDead n = true ∨ net.fanoutCount n = 0)

theorem Removable.after {n m : Nat} {g : Gate Signal} (removable : net.Removable m)
    (change : Removed net net' n g) : net'.Removable m := by
  obtain ⟨below, reason⟩ := removable
  refine ⟨by rw [change.size]; exact below, ?_⟩
  rcases reason with source | dead | zero
  · refine .inl ?_
    rw [isSource, isInput_eq_body?, change.body, ← isInput_eq_body?]
    exact source
  · exact .inr (.inl (by rw [change.dead, dead, Bool.or_true]))
  · exact .inr (.inr (by rw [change.count, zero, Nat.zero_sub]))

theorem removeGate_spec (consistent : net.Consistent) (work : List Nat) {n : Nat} {g : Gate Signal}
    (slot : net.gate? n = some g) (awake : net.isDead n = false) (unread : net.fanoutCount n = 0) :
    ∃ mid added, net.removeGate n work = (mid, added ++ work) ∧ Removed net mid n g ∧
      Told net [.removed n] mid ∧ mid.Consistent ∧
      added.length + mid.counted.length ≤ net.counted.length ∧
      (∀ m ∈ added, net.Feeds m n ∧ mid.Removable m) ∧
      ∀ m, mid.Dangling m → m ∉ added → net.Dangling m ∧ m ≠ n := by
  have nodup := (consistent.canonical n g slot).nodup_nodes
  have below (m : Nat) (member : m ∈ g.nodes) : m < net.size :=
    consistent.toTallied.lt_of_feeds (feeds_of_gate? slot member)
  obtain ⟨added, work', ⟨apart, news⟩, change⟩ := removed_removeGate work slot nodup unread
  refine ⟨(net.removeGate n work).1, added, by rw [← work'], change,
    told_remove work slot awake nodup, consistent.remove change slot awake unread,
    change.length_counted apart below news, fun m member => ?_, fun m dangling absent => ?_⟩
  · obtain ⟨reads, one⟩ := (news m).1 member
    refine ⟨feeds_of_gate? slot reads, by rw [change.size]; exact below m reads, .inr (.inr ?_)⟩
    rw [change.count, if_pos reads, one]
  · obtain ⟨running, zero⟩ := dangling
    obtain ⟨other, running⟩ := (change.isLiveGate m).1 running
    refine ⟨⟨running, ?_⟩, other⟩
    rw [change.count] at zero
    split at zero
    · rename_i reads
      by_contra positive
      exact absent ((news m).2 ⟨reads, by omega⟩)
    · exact zero

/-- Removal clears gates below the worklist, and leaves nothing dangling that was not, nor anything
    on the worklist. -/
theorem removeAll_spec (steps : Nat) (net : Network) (work : List Nat) (consistent : net.Consistent)
    (removable : ∀ n ∈ work, net.Removable n) (enough : work.length + net.counted.length ≤ steps) :
    ∃ removed, Cleared net removed (removeAll steps net work) ∧
      (∀ m ∈ removed, ∃ n ∈ work, net.Reaches n m) ∧
      ∀ m, (removeAll steps net work).Dangling m → net.Dangling m ∧ m ∉ work := by
  induction steps generalizing net work with
  | zero =>
    obtain rfl : work = [] := List.length_eq_zero_iff.1 (by omega)
    exact ⟨[], .nil, by simp, fun m dangling => ⟨dangling, by simp⟩⟩
  | succ steps ih =>
    cases work with
    | nil => exact ⟨[], .nil, by simp, fun m dangling => ⟨dangling, by simp⟩⟩
    | cons n work =>
      obtain ⟨⟨inside, reason⟩, others⟩ := List.forall_mem_cons.1 removable
      rw [List.length_cons] at enough
      rw [removeAll]
      split
      · rename_i skipped
        obtain ⟨removed, cleared, below, dangling⟩ := ih net work consistent others (by omega)
        refine ⟨removed, cleared, fun m member => ?_, fun m still => ?_⟩
        · obtain ⟨k, there, path⟩ := below m member
          exact ⟨k, List.mem_cons_of_mem _ there, path⟩
        · obtain ⟨⟨live, zero⟩, absent⟩ := dangling m still
          refine ⟨⟨live, zero⟩, fun member => ?_⟩
          rcases List.mem_cons.1 member with rfl | member
          · obtain ⟨⟨g, slot⟩, awake⟩ := isLiveGate_eq_true.1 live
            rw [consistent.inPlace.not_source_of_gate slot, awake] at skipped
            cases skipped
          · exact absent member
      · rename_i kept
        simp only [Bool.or_eq_true, not_or, Bool.not_eq_true] at kept
        obtain ⟨notSource, awake⟩ := kept
        have unread : net.fanoutCount n = 0 := by
          rcases reason with source | dead | zero
          · rw [notSource] at source
            cases source
          · rw [awake] at dead
            cases dead
          · exact zero
        obtain ⟨g, slot⟩ := consistent.inPlace.gate_of_not_source inside notSource
        obtain ⟨mid, added, split, change, told, after, fewer, news, step⟩ :=
          removeGate_spec consistent work slot awake unread
        simp only [split]
        have removableNext : ∀ m ∈ added ++ work, mid.Removable m := by
          intro m member
          rcases List.mem_append.1 member with member | member
          · exact (news m member).2
          · exact (others m member).after change
        have enoughNext : (added ++ work).length + mid.counted.length ≤ steps := by
          rw [List.length_append]
          omega
        obtain ⟨removed, cleared, reached, dangling⟩ := ih _ _ after removableNext enoughNext
        refine ⟨n :: removed, .cons slot awake unread change told cleared, ?_, fun m still => ?_⟩
        · rw [List.forall_mem_cons]
          refine ⟨⟨n, by simp, .refl n⟩, fun m member => ?_⟩
          obtain ⟨k, there, path⟩ := reached m member
          have path : net.Reaches k m := path.mono fun _ _ => change.feeds.1
          rcases List.mem_append.1 there with there | there
          · exact ⟨n, by simp, path.head (news k there).1⟩
          · exact ⟨k, List.mem_cons_of_mem _ there, path⟩
        · obtain ⟨left, absent⟩ := dangling m still
          rw [List.mem_append, not_or] at absent
          obtain ⟨before, other⟩ := step m left absent.1
          exact ⟨before, by simp [other, absent.2]⟩

theorem takeOut_cleared (consistent : net.Consistent) {n : Nat} (removable : net.Removable n) :
    ∃ removed, Cleared net removed (net.takeOut n) ∧ (∀ m ∈ removed, net.Reaches n m) ∧
      ∀ m, (net.takeOut n).Dangling m → net.Dangling m ∧ m ≠ n := by
  have enough : [n].length + net.counted.length ≤ net.size + 1 := by
    have := List.length_filter_le (fun m => net.fanoutCount m != 0) (List.range net.size)
    rw [List.length_range] at this
    rw [List.length_singleton, counted]
    omega
  obtain ⟨removed, cleared, reached, dangling⟩ :=
    removeAll_spec (net.size + 1) net [n] consistent (by simpa using removable) enough
  exact ⟨removed, cleared, by simpa using reached, fun m still => by simpa using dangling m still⟩

theorem takeOut_spec (consistent : net.Consistent) {n : Nat} (removable : net.Removable n) :
    Trimmed net (net.takeOut n) ∧ ∀ m, (net.takeOut n).Dangling m → net.Dangling m ∧ m ≠ n := by
  obtain ⟨removed, cleared, -, dangling⟩ := takeOut_cleared consistent removable
  exact ⟨cleared.trimmed, dangling⟩

theorem removeDangling_spec (consistent : net.Consistent) {n : Nat} (inside : n < net.size) :
    Trimmed net (net.removeDangling n) ∧
      ∀ m, (net.removeDangling n).Dangling m → net.Dangling m ∧ m ≠ n := by
  unfold removeDangling
  split
  · rename_i unread
    have zero : net.fanoutCount n = 0 := by simpa using (Bool.and_eq_true_iff.1 unread).2
    exact takeOut_spec consistent ⟨inside, .inr (.inr zero)⟩
  · rename_i kept
    refine ⟨.refl, fun m dangling => ⟨dangling, ?_⟩⟩
    rintro rfl
    obtain ⟨live, zero⟩ := dangling
    exact kept (by simp [(isLiveGate_eq_true.1 live).2, zero])

/-- Going through a list of nodes leaves none of them dangling. -/
theorem foldl_removeDangling_spec (consistent : net.Consistent) (nodes : List Nat)
    (inside : ∀ n ∈ nodes, n < net.size) :
    Trimmed net (nodes.foldl removeDangling net) ∧
      ∀ m, (nodes.foldl removeDangling net).Dangling m → net.Dangling m ∧ m ∉ nodes := by
  induction nodes generalizing net with
  | nil => exact ⟨.refl, fun m dangling => ⟨dangling, by simp⟩⟩
  | cons n rest ih =>
    obtain ⟨first, settled⟩ := removeDangling_spec consistent (inside n (by simp))
    obtain ⟨others, kept⟩ := ih (first.consistent consistent) fun m member => by
      rw [first.size]
      exact inside m (List.mem_cons_of_mem _ member)
    refine ⟨first.trans others, fun m dangling => ?_⟩
    obtain ⟨before, absent⟩ := kept m dangling
    obtain ⟨start, other⟩ := settled m before
    exact ⟨start, by simp [other, absent]⟩

end Network

end LogicOpt
