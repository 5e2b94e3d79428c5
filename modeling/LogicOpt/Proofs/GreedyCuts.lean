import LogicOpt.Proofs.ValidCuts

namespace LogicOpt

open Network

namespace Cut

/-- What expanding a node adds: whatever it reads outside the cut, the constant apart. -/
def news (net : Network) (cut : Cut) (n : Nat) : List Nat :=
  (Cutter.reads net n).filter fun m => m ∉ cut.leaves ∧ m ∉ cut.interior

def cost (net : Network) (cut : Cut) (n : Nat) : Nat := (cut.news net n).length

/-- A leaf that is a gate and not read by too many. -/
structure Expandable (net : Network) (maxFanout : Nat) (cut : Cut) (n : Nat) : Prop where
  leaf : n ∈ cut.leaves
  isGate : net.isGate n = true
  few : net.fanoutCount n ≤ maxFanout

/-- Leaf `n` is expanded rather than leaf `m`: fewer leaves are added, or as many from a higher
    level, or as many from the same level, and `n` is listed earlier. -/
def Before (net : Network) (cut : Cut) (n m : Nat) : Prop :=
  cut.cost net n < cut.cost net m ∨ cut.cost net n = cut.cost net m ∧
    (net.level m < net.level n ∨
      net.level m = net.level n ∧ cut.leaves.idxOf n < cut.leaves.idxOf m)

/-- The first of all leaves that can be expanded gives way to what it adds. -/
structure GreedyStep (net : Network) (maxLeaves maxFanout : Nat) (cut cut' : Cut) (n : Nat) : Prop
    where
  expandable : cut.Expandable net maxFanout n
  first : ∀ m, cut.Expandable net maxFanout m → m ≠ n → cut.Before net n m
  fits : cut.leaves.length - 1 + cut.cost net n ≤ maxLeaves
  leaves : cut'.leaves = cut.leaves.erase n ++ cut.news net n
  interior : cut'.interior = cut.interior ++ [n]
  length : cut'.leaves.length + 1 = cut.leaves.length + cut.cost net n

inductive GreedyRun (net : Network) (maxLeaves maxFanout : Nat) : Cut → Cut → Prop where
  | refl (cut : Cut) : GreedyRun net maxLeaves maxFanout cut cut
  | head {cut mid cut' : Cut} {n : Nat} (step : cut.GreedyStep net maxLeaves maxFanout mid n)
      (rest : GreedyRun net maxLeaves maxFanout mid cut') : GreedyRun net maxLeaves maxFanout cut cut'

/-- Whatever leaf were expanded, there would be too many. -/
def Full (net : Network) (maxLeaves maxFanout : Nat) (cut : Cut) : Prop :=
  ∀ n, cut.Expandable net maxFanout n → maxLeaves < cut.leaves.length - 1 + cut.cost net n

variable {net : Network} {maxLeaves maxFanout : Nat} {cut left right : Cut}

theorem Before.asymm {n m : Nat} (before : cut.Before net n m) : ¬cut.Before net m n := by
  unfold Before at before ⊢
  omega

theorem GreedyStep.unique {n m : Nat} (first : cut.GreedyStep net maxLeaves maxFanout left n)
    (second : cut.GreedyStep net maxLeaves maxFanout right m) : left = right := by
  have same : n = m := by
    by_contra differ
    have before := first.first m second.expandable (Ne.symm differ)
    exact before.asymm (second.first n first.expandable differ)
  subst same
  have leaves := first.leaves.trans second.leaves.symm
  have interior := first.interior.trans second.interior.symm
  cases left
  cases right
  cases leaves
  cases interior
  rfl

theorem GreedyStep.not_full {n : Nat} (step : cut.GreedyStep net maxLeaves maxFanout right n) :
    ¬cut.Full net maxLeaves maxFanout := fun full =>
  Nat.not_lt_of_le step.fits (full n step.expandable)

theorem GreedyRun.unique (first : GreedyRun net maxLeaves maxFanout cut left)
    (second : GreedyRun net maxLeaves maxFanout cut right) (full : left.Full net maxLeaves maxFanout)
    (full' : right.Full net maxLeaves maxFanout) : left = right := by
  induction first with
  | refl =>
    cases second with
    | refl => rfl
    | head step => exact absurd full step.not_full
  | head step _ ih =>
    cases second with
    | refl => exact absurd full' step.not_full
    | head step' rest =>
      obtain rfl := step.unique step'
      exact ih rest full

end Cut

namespace Cutter

variable {net : Network} {pivots : List Nat} {maxLeaves maxFanout : Nat}

def Growth.cut (s : Growth) : Cut := ⟨s.leaves, s.interior⟩

theorem nodup_reads (canonical : net.CanonicalGates) (n : Nat) : (reads net n).Nodup := by
  cases slot : net.gate? n with
  | none =>
    have nothing : reads net n = [] := List.eq_nil_iff_forall_not_mem.2 fun m member => by
      obtain ⟨g, present, -⟩ := feeds_iff.1 (mem_reads.1 member).1
      rw [slot] at present
      cases present
    simp [nothing]
  | some g =>
    have sub : (reads net n).Sublist g.nodes := by
      rw [reads, fanins_eq_operands slot]
      exact List.filter_sublist.map _
    exact (canonical n g slot).nodup_nodes.sublist sub

theorem Growth.Aligned.news_eq {s : Growth} (aligned : s.Aligned) (n : Nat) :
    ((reads net n).filter fun m => !s.marks.isMarked m) = s.cut.news net n := by
  refine List.filter_congr fun m _ => ?_
  rw [Bool.eq_iff_iff, Bool.not_eq_true', ← Bool.not_eq_true, aligned.marked, Growth.nodes,
    List.mem_append, not_or, decide_eq_true_eq]
  rfl

theorem Growth.Sound.choice?_eq_some {s : Growth} (sound : s.Sound net maxFanout pivots)
    (inPlace : net.InPlace) {n : Nat} (leaf : n ∈ s.leaves) {choice : Choice} :
    choice? net maxFanout s.marks n = some choice ↔
      s.cut.Expandable net maxFanout n ∧ choice = ⟨n, s.cut.cost net n, net.level n⟩ := by
  have inside := (sound.below n (List.mem_append_left _ leaf)).1
  obtain ⟨m, cost, level⟩ := choice
  rw [Cutter.choice?_eq_some, expansionCost?_eq_some, sound.toAligned.news_eq, Choice.mk.injEq]
  constructor
  · rintro ⟨same, height, ⟨inner, few⟩, price⟩
    obtain ⟨g, slot⟩ := inPlace.gate_of_not_source inside inner
    exact ⟨⟨leaf, by simp [isGate, slot], few⟩, same, price.symm, height⟩
  · rintro ⟨⟨-, gate, few⟩, same, price, height⟩
    obtain ⟨g, slot⟩ := Option.isSome_iff_exists.1 gate
    exact ⟨same, height, ⟨inPlace.not_source_of_gate slot, few⟩, price.symm⟩

theorem Choice.Leads.scanned {choice : Choice} {nodes : List Nat} {f : Nat → Option Choice}
    (leads : choice.Leads (nodes.filterMap f)) :
    ∃ before n after, nodes = before ++ n :: after ∧ f n = some choice ∧
      (∀ m ∈ before, ∀ c, f m = some c → choice.better c = true) ∧
      ∀ m ∈ after, ∀ c, f m = some c → c.better choice = false := by
  obtain ⟨before, after, listed, worse, kept⟩ := leads
  obtain ⟨early, late, rfl, rfl, rest⟩ := List.filterMap_eq_append_iff.1 listed
  obtain ⟨skipped, n, last, rfl, none, here, rfl⟩ := List.filterMap_eq_cons_iff.1 rest
  refine ⟨early ++ skipped, n, last, by simp, here, fun m member c found => ?_,
    fun m member c found => kept c (List.mem_filterMap.2 ⟨m, member, found⟩)⟩
  rcases List.mem_append.1 member with member | member
  · exact worse c (List.mem_filterMap.2 ⟨m, member, found⟩)
  · rw [none m member] at found
    cases found

theorem Choice.Leads.cost_le {choice : Choice} {choices : List Choice}
    (leads : choice.Leads choices) : ∀ c ∈ choices, choice.cost ≤ c.cost := by
  obtain ⟨before, after, rfl, worse, kept⟩ := leads
  intro c member
  rcases List.mem_append.1 member with member | member
  · have := Choice.better_eq_true.1 (worse c member)
    omega
  · rcases List.mem_cons.1 member with rfl | member
    · exact Nat.le_refl _
    · have := Choice.better_eq_false.1 (kept c member)
      omega

theorem idxOf_lt_idxOf {before after : List Nat} {n m : Nat} (nodup : (before ++ n :: after).Nodup)
    (later : m ∈ after) : (before ++ n :: after).idxOf n < (before ++ n :: after).idxOf m := by
  obtain ⟨-, rest, apart⟩ := List.nodup_append.1 nodup
  have fresh : n ∉ before := fun member => apart n member n (by simp) rfl
  have fresh' : m ∉ before := fun member => apart m member m (by simp [later]) rfl
  have other : n ≠ m := fun same => (List.nodup_cons.1 rest).1 (same ▸ later)
  rw [List.idxOf_append_of_notMem fresh, List.idxOf_append_of_notMem fresh', List.idxOf_cons_self,
    List.idxOf_cons_ne _ other]
  omega

theorem Growth.Sound.first {s : Growth} (sound : s.Sound net maxFanout pivots)
    (inPlace : net.InPlace) {choice : Choice} (found : best? net maxFanout s = some choice) :
    s.cut.Expandable net maxFanout choice.leaf ∧ choice.cost = s.cut.cost net choice.leaf ∧
      ∀ m, s.cut.Expandable net maxFanout m → m ≠ choice.leaf → s.cut.Before net choice.leaf m := by
  obtain ⟨before, n, after, listed, priced, worse, kept⟩ := (best?_eq_some found).scanned
  have leaf : n ∈ s.leaves := by
    rw [listed]
    simp
  obtain ⟨expandable, rfl⟩ := (sound.choice?_eq_some inPlace leaf).1 priced
  refine ⟨expandable, rfl, fun m other differ => ?_⟩
  have priced := (sound.choice?_eq_some inPlace other.leaf).2 ⟨other, rfl⟩
  have member := other.leaf
  simp only [Growth.cut, listed, List.mem_append, List.mem_cons] at member
  rcases member with earlier | rfl | later
  · rcases Choice.better_eq_true.1 (worse m earlier _ priced) with cheaper | ⟨cost, higher⟩
    · exact .inl cheaper
    · exact .inr ⟨cost, .inl higher⟩
  · exact absurd rfl differ
  · have nodup := (List.nodup_append.1 sound.nodup).1
    have position : s.leaves.idxOf n < s.leaves.idxOf m := by
      rw [listed] at nodup ⊢
      exact idxOf_lt_idxOf nodup later
    rcases Choice.better_eq_false.1 (kept m later _ priced) with dearer | ⟨cost, level⟩
    · exact .inl dearer
    · rcases Nat.lt_or_eq_of_le level with lower | same
      · exact .inr ⟨cost.symm, .inl lower⟩
      · exact .inr ⟨cost.symm, .inr ⟨same, position⟩⟩

theorem Growth.Sound.greedyStep {s mid : Growth} (sound : s.Sound net maxFanout pivots)
    (inPlace : net.InPlace) (canonical : net.CanonicalGates)
    (step : next? net maxLeaves maxFanout s = some mid) :
    ∃ n, s.cut.GreedyStep net maxLeaves maxFanout mid.cut n := by
  obtain ⟨choice, found, fits, rfl⟩ := next?_eq_some step
  obtain ⟨expandable, price, first⟩ := sound.first inPlace found
  rw [price] at fits
  have leaf : choice.leaf ∈ s.leaves := expandable.leaf
  obtain ⟨-, leaves, interior, -⟩ := sound.toAligned.expand net leaf
  have added : s.news (reads net choice.leaf) = s.cut.news net choice.leaf := by
    rw [Growth.news, sound.toAligned.news_eq]
    exact eraseDups_of_nodup ((nodup_reads canonical choice.leaf).filter _)
  rw [added] at leaves
  refine ⟨choice.leaf, expandable, first, fits, leaves, interior, ?_⟩
  have positive := List.length_pos_of_mem leaf
  have sum : (Cutter.expand net s choice.leaf).leaves.length =
      s.leaves.length - 1 + s.cut.cost net choice.leaf := by
    rw [leaves, List.length_append, List.length_erase_of_mem leaf]
    rfl
  show (Cutter.expand net s choice.leaf).leaves.length + 1 =
    s.leaves.length + s.cut.cost net choice.leaf
  omega

theorem Growth.Sound.greedyRun {s last : Growth} (sound : s.Sound net maxFanout pivots)
    (inPlace : net.InPlace) (canonical : net.CanonicalGates)
    (ends : Ends net maxLeaves maxFanout s last) :
    Cut.GreedyRun net maxLeaves maxFanout s.cut last.cut := by
  induction ends with
  | here => exact .refl _
  | turn step later ih =>
    obtain ⟨n, greedy⟩ := sound.greedyStep inPlace canonical step
    exact .head greedy (ih (sound.next inPlace step).1)

theorem Ends.stuck {s last : Growth} (ends : Ends net maxLeaves maxFanout s last) :
    next? net maxLeaves maxFanout last = none := by
  induction ends with
  | here stuck => exact stuck
  | turn _ _ ih => exact ih

theorem Growth.Sound.full {s : Growth} (sound : s.Sound net maxFanout pivots)
    (inPlace : net.InPlace) (stuck : next? net maxLeaves maxFanout s = none) :
    s.cut.Full net maxLeaves maxFanout := by
  intro n expandable
  show maxLeaves < s.leaves.length - 1 + s.cut.cost net n
  have priced := (sound.choice?_eq_some inPlace expandable.leaf).2 ⟨expandable, rfl⟩
  unfold next? at stuck
  split at stuck
  · rename_i missing
    have blocked := best?_eq_none missing n expandable.leaf
    rw [choice?, blocked] at priced
    cases priced
  · rename_i choice found
    split at stuck
    · rename_i large
      have le := (best?_eq_some found).cost_le _
        (List.mem_filterMap.2 ⟨n, expandable.leaf, priced⟩)
      dsimp only at le
      omega
    · cases stuck

end Cutter

variable {net : Network} {pivots : List Nat}

/-- With gates in normal form, a run whose pivots fit the bound expands, from the distinct pivots on,
    always the leaf that is first by fewest new leaves, highest level and earliest position, and each
    time there are as many leaves more as it adds, less one. It ends with the only cut that such steps
    lead to and from which they do not go on: each leaf that is a gate within the fanout limit would
    add two leaves or more, and more than the bound allows. -/
theorem greedy_run (c : Cutter) (inPlace : net.InPlace) (canonical : net.CanonicalGates)
    (room : c.maxLeaves < Cutter.capacityLimit) (inside : ∀ p ∈ pivots, p < net.size)
    (few : pivots.eraseDups.length ≤ c.maxLeaves) :
    ∃ cut marks, c.run net pivots = .ok (.ok cut, { c with marks }) ∧
      Cut.GreedyRun net c.maxLeaves c.maxFanout ⟨pivots.eraseDups, []⟩ cut ∧
      (∀ n, cut.Expandable net c.maxFanout n → 2 ≤ cut.cost net n ∧
        c.maxLeaves < cut.leaves.length - 1 + cut.cost net n) ∧
      ∀ other, Cut.GreedyRun net c.maxLeaves c.maxFanout ⟨pivots.eraseDups, []⟩ other →
        other.Full net c.maxLeaves c.maxFanout → other = cut := by
  obtain ⟨⟨marks, _, _⟩, sound, rfl, rfl, outcome⟩ := Cutter.exists_growth c inPlace room inside
  rw [if_neg (Nat.not_lt_of_le few)] at outcome
  obtain ⟨last, ends, run⟩ := outcome
  obtain ⟨grown, le⟩ := sound.of_ends inPlace few ends
  have greedy := sound.greedyRun inPlace canonical ends
  have full := grown.full inPlace ends.stuck
  refine ⟨last.cut, last.marks, run, greedy, fun n expandable => ?_, fun other reached stops => ?_⟩
  · have dear := full n expandable
    have positive : 0 < last.leaves.length := List.length_pos_of_mem expandable.leaf
    have bound : last.cut.leaves.length ≤ c.maxLeaves := le
    exact ⟨by omega, dear⟩
  · exact reached.unique greedy stops full

/-- Gate 12 reads gates 10 and 11, gate 10 reads gates 8 and 9, and both of these read gate 7. -/
def layered : List Command :=
  Command.load 5 [(.and2, [2, 4]), (.and2, [12, 6]), (.xor2, [14, 8]), (.and2, [14, 11]),
    (.and2, [16, 18]), (.and2, [8, 10]), (.and2, [20, 23])] [24]

/-- Gates 8, 9 and 11 are as dear at first; 8 and 9 are higher, and 8 is listed earlier. Gate 11 costs
    nothing once its fanins are leaves. In the end gate 6 is left, which would add a leaf too many. -/
theorem greedy_of_reconvergence : ∃ stages net cut c',
    Completed (empty "greedy") layered stages net ∧
    (Cutter.ofLimits 4 2).run net [12, 10, 12] = .ok (.ok cut, c') ∧
    cut = ⟨[4, 5, 3, 6], [12, 10, 8, 9, 11, 7]⟩ ∧
    Cut.GreedyRun net 4 2 ⟨[12, 10], []⟩ cut ∧ cut.Expandable net 2 6 ∧
    4 < cut.leaves.length - 1 + cut.cost net 6 := by
  obtain ⟨stages, net, history, checks⟩ := Command.exists_completed layered (empty "greedy")
    (fun _ net => net.size == 13 && net.isGate 6 && decide (net.fanoutCount 6 ≤ 2) &&
      match (Cutter.ofLimits 4 2).run net [12, 10, 12] with
      | .ok (.ok cut, _) => cut == ⟨[4, 5, 3, 6], [12, 10, 8, 9, 11, 7]⟩
      | _ => false)
    (by decide +kernel)
  have consistent := (history.consistent (consistent_empty "greedy")).1
  simp only [Bool.and_eq_true, beq_iff_eq, decide_eq_true_eq] at checks
  obtain ⟨⟨⟨size, gate⟩, few⟩, checks⟩ := checks
  split at checks
  · rename_i cut c' run
    have inside : ∀ p ∈ [12, 10, 12], p < net.size := by simp [size]
    obtain ⟨_, _, again, greedy, full, -⟩ := greedy_run (.ofLimits 4 2) consistent.inPlace
      consistent.canonical (by decide) inside (by decide)
    rw [run] at again
    cases again
    obtain rfl := beq_iff_eq.1 checks
    have expandable : Cut.Expandable net 2 ⟨[4, 5, 3, 6], [12, 10, 8, 9, 11, 7]⟩ 6 :=
      ⟨by decide, gate, few⟩
    exact ⟨stages, net, _, _, history, run, rfl, greedy, expandable, (full 6 expandable).2⟩
  · cases checks

end LogicOpt
