import LogicOpt.Proofs.Ranking
import LogicOpt.Window.Cut
import Mathlib.Data.List.Induction

namespace LogicOpt

open Network

/-- The leaves are distinct, and from the pivots down to them there are only gates of the
    interior. -/
structure Separates (net : Network) (pivots leaves interior : List Nat) : Prop where
  nodup : leaves.Nodup
  covers : ∀ p ∈ pivots, p ∈ leaves ∨ p ∈ interior
  inner : ∀ n ∈ interior, net.isSource n = false
  closed : ∀ n ∈ interior, ∀ m, net.Feeds m n → m = 0 ∨ m ∈ leaves ∨ m ∈ interior

theorem Separates.interior_of_found {net : Network} {pivots leaves interior found : List Nat}
    (separates : Separates net pivots leaves interior) (inPlace : net.InPlace)
    (acyclic : net.Acyclic) (inside : ∀ p ∈ pivots, p < net.size)
    (source : ∀ m ∈ found, m ∈ pivots ∨ ∃ k ∈ found, net.Feeds m k)
    (apart : ∀ m ∈ found, m ∉ leaves) : ∀ m ∈ found, m = 0 ∨ m ∈ interior ∧ m < net.size := by
  refine induct_of_source acyclic _ source (fun m member start => ?_)
    fun k _ above m member feeds => ?_
  · exact .inr ⟨(separates.covers m start).resolve_left (apart m member), inside m start⟩
  · obtain ⟨f, reads, rfl⟩ := feeds
    rcases above with rfl | ⟨inner, -⟩
    · exact absurd rfl (inPlace.ne_zero_of_feeds ⟨f, reads, rfl⟩)
    · refine (separates.closed k inner f.node ⟨f, reads, rfl⟩).imp_right fun next => ?_
      exact ⟨next.resolve_left (apart f.node member), inPlace.fanin_lt k f reads⟩

theorem Separates.gate_of_found {net : Network} {pivots leaves interior found : List Nat}
    (separates : Separates net pivots leaves interior) (inPlace : net.InPlace)
    (acyclic : net.Acyclic) (inside : ∀ p ∈ pivots, p < net.size)
    (source : ∀ m ∈ found, m ∈ pivots ∨ ∃ k ∈ found, net.Feeds m k)
    (apart : ∀ m ∈ found, m ∉ leaves) : ∀ m ∈ found, m = 0 ∨ net.isGate m = true := by
  intro m member
  refine (separates.interior_of_found inPlace acyclic inside source apart m member).imp_right
    fun ⟨inner, slot⟩ => ?_
  obtain ⟨g, body⟩ := inPlace.gate_of_not_source slot (separates.inner m inner)
  simp [isGate, body]

theorem requireRoom_of_slots {net : Network} {nodes : List Nat}
    (inside : ∀ n ∈ nodes, n < net.size) :
    Marks.requireRoom (nodes.filter (net.size ≤ ·)) = .ok () := by
  have none : nodes.filter (net.size ≤ ·) = [] :=
    List.filter_eq_nil_iff.2 fun n member => by simpa using inside n member
  rw [none]
  rfl

namespace Cutter

variable {net : Network} {pivots : List Nat} {maxLeaves maxFanout : Nat}

def Growth.nodes (s : Growth) : List Nat := s.leaves ++ s.interior

structure Growth.Aligned (s : Growth) : Prop where
  started : s.marks.current ≠ 0
  marked : ∀ m, s.marks.isMarked m = true ↔ m ∈ s.nodes
  nodup : s.nodes.Nodup

def Growth.news (s : Growth) (nodes : List Nat) : List Nat :=
  (nodes.filter fun n => !s.marks.isMarked n).eraseDups

structure Growth.Reached (s s' : Growth) (nodes : List Nat) : Prop where
  aligned : s'.Aligned
  leaves : s'.leaves = s.leaves ++ s.news nodes
  interior : s'.interior = s.interior

theorem Growth.Aligned.begin (marks : Marks) : Growth.Aligned ⟨marks.newTraversal, [], []⟩ :=
  ⟨Marks.current_newTraversal_ne_zero _, by simp [Marks.isMarked_newTraversal, Growth.nodes],
    List.nodup_nil⟩

theorem Growth.Aligned.reorder {s s' : Growth} (aligned : s.Aligned) (marks : s'.marks = s.marks)
    (perm : s'.nodes.Perm s.nodes) : s'.Aligned :=
  ⟨marks ▸ aligned.started, fun m => by rw [marks, aligned.marked, perm.mem_iff],
    perm.nodup_iff.2 aligned.nodup⟩

theorem Growth.Aligned.reach_of_marked {s : Growth} (aligned : s.Aligned) {n : Nat}
    (marked : s.marks.isMarked n = true) : s.reach n = s := by
  simp [Growth.reach, Marks.isFresh_eq_not_isMarked aligned.started, marked]

theorem Growth.Aligned.reach_of_unmarked {s : Growth} (aligned : s.Aligned) {n : Nat}
    (fresh : s.marks.isMarked n = false) :
    s.reach n = { s with marks := s.marks.mark n, leaves := s.leaves ++ [n] } := by
  simp [Growth.reach, Marks.isFresh_eq_not_isMarked aligned.started, fresh]

theorem Growth.Aligned.mark {s : Growth} (aligned : s.Aligned) {n : Nat}
    (fresh : s.marks.isMarked n = false) :
    Growth.Aligned { s with marks := s.marks.mark n, leaves := s.leaves ++ [n] } := by
  have perm : (s.leaves ++ [n] ++ s.interior).Perm (n :: s.nodes) := by
    rw [List.append_assoc, List.singleton_append]
    exact List.perm_middle
  refine ⟨aligned.started, fun m => ?_, perm.nodup_iff.2 (List.nodup_cons.2 ⟨?_, aligned.nodup⟩)⟩
  · rw [Marks.isMarked_mark aligned.started, Bool.or_eq_true, beq_iff_eq, aligned.marked]
    exact (perm.mem_iff.trans List.mem_cons).symm
  · intro member
    rw [(aligned.marked n).2 member] at fresh
    cases fresh

theorem Growth.Aligned.foldl_reach {s : Growth} (aligned : s.Aligned) (nodes : List Nat) :
    s.Reached (nodes.foldl Growth.reach s) nodes := by
  induction nodes generalizing s with
  | nil => exact ⟨aligned, by simp [Growth.news], rfl⟩
  | cons n rest ih =>
    rw [List.foldl_cons]
    cases here : s.marks.isMarked n with
    | true =>
      rw [aligned.reach_of_marked here]
      have skipped : s.news (n :: rest) = s.news rest := by simp [Growth.news, here]
      exact ⟨(ih aligned).aligned, skipped ▸ (ih aligned).leaves, (ih aligned).interior⟩
    | false =>
      rw [aligned.reach_of_unmarked here]
      obtain ⟨after, leaves, interior⟩ := ih (aligned.mark here)
      refine ⟨after, ?_, interior⟩
      -- A node that comes again is marked by then.
      have later : s.news (n :: rest) = n :: Growth.news
          { s with marks := s.marks.mark n, leaves := s.leaves ++ [n] } rest := by
        simp only [Growth.news, List.filter_cons, here, Bool.not_false, ↓reduceIte,
          List.eraseDups_cons, List.filter_filter, Marks.isMarked_mark aligned.started, Bool.not_or]
      rw [leaves, later, List.append_assoc, List.singleton_append]

theorem Growth.mem_news {s : Growth} {nodes : List Nat} {m : Nat} :
    m ∈ s.news nodes ↔ m ∈ nodes ∧ s.marks.isMarked m = false := by
  simp [Growth.news]

theorem Growth.Reached.mem_nodes {s s' : Growth} {nodes : List Nat} (reached : s.Reached s' nodes)
    (aligned : s.Aligned) {m : Nat} : m ∈ s'.nodes ↔ m ∈ s.nodes ∨ m ∈ nodes := by
  have unmarked : s.marks.isMarked m = false ↔ m ∉ s.nodes := by
    rw [← aligned.marked, Bool.not_eq_true]
  rw [Growth.nodes, reached.leaves, reached.interior, List.mem_append, List.mem_append,
    Growth.mem_news, unmarked, Growth.nodes, List.mem_append]
  by_cases leaf : m ∈ s.leaves <;> by_cases inner : m ∈ s.interior <;> simp [leaf, inner]

theorem eraseDups_of_nodup {nodes : List Nat} (nodup : nodes.Nodup) : nodes.eraseDups = nodes := by
  induction nodes with
  | nil => rfl
  | cons n rest ih =>
    obtain ⟨fresh, nodup⟩ := List.nodup_cons.1 nodup
    have others : rest.filter (fun m => !m == n) = rest :=
      List.filter_eq_self.2 fun m member => by
        simp only [Bool.not_eq_true', beq_eq_false_iff_ne]
        exact fun same => fresh (same ▸ member)
    rw [List.eraseDups_cons, others, ih nodup]

theorem length_eraseDups_le (nodes : List Nat) : nodes.eraseDups.length ≤ nodes.length := by
  induction h : nodes.length using Nat.strong_induction_on generalizing nodes with
  | _ k ih =>
    cases nodes with
    | nil => simp
    | cons n rest =>
      rw [List.length_cons] at h
      have fewer := List.length_filter_le (fun m => !m == n) rest
      have shorter := ih _ (by omega) (rest.filter fun m => !m == n) rfl
      rw [List.eraseDups_cons, List.length_cons]
      omega

def reads (net : Network) (n : Nat) : List Nat :=
  ((net.fanins n).filter fun f => f.node != 0).map (·.node)

theorem mem_reads {n m : Nat} : m ∈ reads net n ↔ net.Feeds m n ∧ m ≠ 0 := by
  simp only [reads, List.mem_map, List.mem_filter, bne_iff_ne, Feeds]
  constructor
  · rintro ⟨f, ⟨member, nonzero⟩, rfl⟩
    exact ⟨⟨f, member, rfl⟩, nonzero⟩
  · rintro ⟨⟨f, member, rfl⟩, nonzero⟩
    exact ⟨f, ⟨member, nonzero⟩, rfl⟩

theorem Growth.Aligned.expand {s : Growth} (aligned : s.Aligned) (net : Network) {n : Nat}
    (leaf : n ∈ s.leaves) :
    (Cutter.expand net s n).Aligned ∧
      (Cutter.expand net s n).leaves = s.leaves.erase n ++ s.news (reads net n) ∧
      (Cutter.expand net s n).interior = s.interior ++ [n] ∧
      ∀ m, m ∈ (Cutter.expand net s n).nodes ↔ m ∈ s.nodes ∨ m ∈ reads net n := by
  have moved : (s.leaves.erase n ++ (s.interior ++ [n])).Perm s.nodes := by
    rw [← List.append_assoc]
    exact (List.perm_append_singleton n _).trans
      ((List.perm_cons_erase leaf).symm.append_right s.interior)
  have opened : Growth.Aligned { s with
      leaves := s.leaves.erase n, interior := s.interior ++ [n] } := aligned.reorder rfl moved
  have expanded : Cutter.expand net s n = (reads net n).foldl Growth.reach
      { s with leaves := s.leaves.erase n, interior := s.interior ++ [n] } := by
    rw [reads, List.foldl_map]
    rfl
  rw [expanded]
  have reached := opened.foldl_reach (reads net n)
  exact ⟨reached.aligned, reached.leaves, reached.interior, fun m =>
    (reached.mem_nodes opened).trans (or_congr_left moved.mem_iff)⟩

structure Growth.Sound (s : Growth) (net : Network) (maxFanout : Nat) (pivots : List Nat) : Prop
    extends s.Aligned where
  below : ∀ n ∈ s.nodes, n < net.size ∧ ∃ p ∈ pivots, net.Reaches p n
  covers : ∀ p ∈ pivots, p ∈ s.nodes
  inner : ∀ n ∈ s.interior, net.isSource n = false ∧ net.fanoutCount n ≤ maxFanout
  closed : ∀ n ∈ s.interior, ∀ m, net.Feeds m n → m = 0 ∨ m ∈ s.nodes
  origin : ∀ n ∈ s.nodes, n ∈ pivots ∨ ∃ k ∈ s.interior, net.Feeds n k

theorem Growth.Sound.separates {s : Growth} (sound : s.Sound net maxFanout pivots) :
    Separates net pivots s.leaves s.interior where
  nodup := (List.nodup_append.1 sound.nodup).1
  covers := fun p member => List.mem_append.1 (sound.covers p member)
  inner := fun n member => (sound.inner n member).1
  closed := fun n member m feeds => (sound.closed n member m feeds).imp_right List.mem_append.1

theorem sound_foldl_reach (maxFanout : Nat) (marks : Marks) (inside : ∀ p ∈ pivots, p < net.size) :
    (pivots.foldl Growth.reach ⟨marks.newTraversal, [], []⟩).Sound net maxFanout pivots ∧
      (pivots.foldl Growth.reach ⟨marks.newTraversal, [], []⟩).leaves = pivots.eraseDups ∧
      (pivots.foldl Growth.reach ⟨marks.newTraversal, [], []⟩).interior = [] := by
  obtain ⟨aligned, leaves, interior⟩ := (Growth.Aligned.begin marks).foldl_reach pivots
  have all : Growth.news ⟨marks.newTraversal, [], []⟩ pivots = pivots.eraseDups := by
    simp [Growth.news, Marks.isMarked_newTraversal]
  rw [all, List.nil_append] at leaves
  have pivot (n : Nat) : n ∈ Growth.nodes (pivots.foldl Growth.reach ⟨marks.newTraversal, [], []⟩) ↔
      n ∈ pivots := by
    rw [Growth.nodes, leaves, interior, List.append_nil, List.mem_eraseDups]
  refine ⟨⟨aligned, fun n member => ?_, fun p => (pivot p).2, by simp [interior], by simp [interior],
    fun n member => .inl ((pivot n).1 member)⟩, leaves, interior⟩
  have start := (pivot n).1 member
  exact ⟨inside n start, n, start, .refl n⟩

theorem Growth.Sound.expand {s : Growth} (sound : s.Sound net maxFanout pivots)
    (inPlace : net.InPlace) {n : Nat} (leaf : n ∈ s.leaves) (inner : net.isSource n = false)
    (few : net.fanoutCount n ≤ maxFanout) :
    (Cutter.expand net s n).Sound net maxFanout pivots := by
  obtain ⟨aligned, -, interior, members⟩ := sound.toAligned.expand net leaf
  simp only [mem_reads] at members
  have inners (m : Nat) : m ∈ (Cutter.expand net s n).interior ↔ m ∈ s.interior ∨ m = n := by
    rw [interior, List.mem_append, List.mem_singleton]
  have here : n ∈ s.nodes := List.mem_append_left _ leaf
  refine ⟨aligned, fun m member => ?below, fun p member => ?covers, fun m member => ?inner,
    fun k member m feeds => ?closed, fun m member => ?origin⟩
  case below =>
    rcases (members m).1 member with earlier | ⟨feeds, -⟩
    · exact sound.below m earlier
    · obtain ⟨-, p, start, path⟩ := sound.below n here
      exact ⟨inPlace.lt_of_feeds feeds, p, start, path.step feeds⟩
  case covers => exact (members p).2 (.inl (sound.covers p member))
  case inner =>
    rcases (inners m).1 member with earlier | rfl
    · exact sound.inner m earlier
    · exact ⟨inner, few⟩
  case closed =>
    rw [members]
    rcases (inners k).1 member with earlier | rfl
    · exact (sound.closed k earlier m feeds).imp_right .inl
    · by_cases zero : m = 0
      · exact .inl zero
      · exact .inr (.inr ⟨feeds, zero⟩)
  case origin =>
    simp only [inners]
    rcases (members m).1 member with earlier | ⟨feeds, -⟩
    · exact (sound.origin m earlier).imp_right fun ⟨k, there, feeds⟩ => ⟨k, .inl there, feeds⟩
    · exact .inr ⟨n, .inr rfl, feeds⟩

theorem expansionCost?_eq_some {cost n : Nat} {marks : Marks} :
    expansionCost? net maxFanout marks n = some cost ↔
      (net.isSource n = false ∧ net.fanoutCount n ≤ maxFanout) ∧
        ((reads net n).filter fun m => !marks.isMarked m).length = cost := by
  have counted : ((net.fanins n).countP fun f => f.node != 0 && !marks.isMarked f.node) =
      ((reads net n).filter fun m => !marks.isMarked m).length := by
    rw [← List.countP_eq_length_filter, reads, List.countP_map, List.countP_filter]
    exact List.countP_congr fun f _ => by simp [and_comm]
  unfold expansionCost?
  split
  · rename_i blocked
    rw [Bool.or_eq_true, decide_eq_true_eq] at blocked
    simp only [reduceCtorEq, false_iff, not_and]
    rintro ⟨inner, few⟩
    rcases blocked with source | many
    · rw [inner] at source
      cases source
    · omega
  · rename_i unblocked
    simp only [Bool.or_eq_true, decide_eq_true_eq, not_or, Bool.not_eq_true, not_lt] at unblocked
    rw [counted, Option.some.injEq, and_iff_right unblocked]

/-- A choice as it stands in the scan: every one before it is worse, and no later one is better. -/
def Choice.Leads (choice : Choice) (choices : List Choice) : Prop :=
  ∃ before after, choices = before ++ choice :: after ∧
    (∀ c ∈ before, choice.better c = true) ∧ ∀ c ∈ after, c.better choice = false

theorem Choice.better_eq_true {a b : Choice} :
    a.better b = true ↔ a.cost < b.cost ∨ a.cost = b.cost ∧ b.level < a.level := by
  simp [Choice.better]

theorem Choice.better_eq_false {a b : Choice} :
    a.better b = false ↔ b.cost < a.cost ∨ a.cost = b.cost ∧ a.level ≤ b.level := by
  rw [← Bool.not_eq_true, Choice.better_eq_true]
  omega

theorem Choice.Leads.overtaken {choice c : Choice} {choices : List Choice}
    (leads : choice.Leads choices) (better : c.better choice = true) : c.Leads (choices ++ [c]) := by
  obtain ⟨before, after, rfl, worse, kept⟩ := leads
  refine ⟨before ++ choice :: after, [], by simp, fun d member => ?_, by simp⟩
  rw [Choice.better_eq_true] at better ⊢
  rcases List.mem_append.1 member with member | member
  · have := Choice.better_eq_true.1 (worse d member)
    omega
  · rcases List.mem_cons.1 member with rfl | member
    · exact better
    · have := Choice.better_eq_false.1 (kept d member)
      omega

theorem Choice.Leads.concat {choice c : Choice} {choices : List Choice}
    (leads : choice.Leads choices) (other : c.better choice = false) :
    choice.Leads (choices ++ [c]) := by
  obtain ⟨before, after, rfl, worse, kept⟩ := leads
  refine ⟨before, after ++ [c], by simp, worse, fun d member => ?_⟩
  rcases List.mem_append.1 member with member | member
  · exact kept d member
  · rw [List.mem_singleton.1 member]
    exact other

def keep (best : Option Choice) (c : Choice) : Option Choice :=
  match best with
  | none => some c
  | some other => if c.better other then some c else best

theorem leads_foldl_keep (choices : List Choice) :
    match choices.foldl keep none with
    | none => choices = []
    | some choice => choice.Leads choices := by
  induction choices using List.reverseRecOn with
  | nil => rfl
  | append_singleton rest c ih =>
    rw [List.foldl_concat]
    cases known : rest.foldl keep none with
    | none =>
      rw [known] at ih
      subst ih
      exact ⟨[], [], rfl, by simp, by simp⟩
    | some choice =>
      rw [known] at ih
      cases better : c.better choice with
      | true =>
        simp only [keep, better, ↓reduceIte]
        exact ih.overtaken better
      | false =>
        simp only [keep, better, Bool.false_eq_true, ↓reduceIte]
        exact ih.concat better

def choice? (net : Network) (maxFanout : Nat) (marks : Marks) (n : Nat) : Option Choice :=
  (expansionCost? net maxFanout marks n).map fun cost => ⟨n, cost, net.level n⟩

theorem choice?_eq_some {marks : Marks} {n : Nat} {choice : Choice} :
    choice? net maxFanout marks n = some choice ↔ choice.leaf = n ∧ choice.level = net.level n ∧
      expansionCost? net maxFanout marks n = some choice.cost := by
  rw [choice?, Option.map_eq_some_iff]
  constructor
  · rintro ⟨cost, priced, rfl⟩
    exact ⟨rfl, rfl, priced⟩
  · rintro ⟨rfl, level, priced⟩
    exact ⟨choice.cost, priced, by rw [← level]⟩

theorem best?_eq (net : Network) (maxFanout : Nat) (s : Growth) :
    best? net maxFanout s = (s.leaves.filterMap (choice? net maxFanout s.marks)).foldl keep none := by
  rw [best?, List.foldl_filterMap]
  congr 1
  funext best n
  unfold choice? keep
  cases expansionCost? net maxFanout s.marks n <;> rfl

theorem best?_eq_some {s : Growth} {choice : Choice} (found : best? net maxFanout s = some choice) :
    choice.Leads (s.leaves.filterMap (choice? net maxFanout s.marks)) := by
  have leads := leads_foldl_keep (s.leaves.filterMap (choice? net maxFanout s.marks))
  rwa [← best?_eq, found] at leads

theorem best?_eq_none {s : Growth} (missing : best? net maxFanout s = none) :
    ∀ n ∈ s.leaves, expansionCost? net maxFanout s.marks n = none := by
  have empty := leads_foldl_keep (s.leaves.filterMap (choice? net maxFanout s.marks))
  rw [← best?_eq, missing] at empty
  intro n member
  simpa [choice?] using List.filterMap_eq_nil_iff.1 empty n member

theorem mem_leaves_of_best {s : Growth} {choice : Choice}
    (found : best? net maxFanout s = some choice) :
    choice.leaf ∈ s.leaves ∧
      expansionCost? net maxFanout s.marks choice.leaf = some choice.cost := by
  obtain ⟨before, after, listed, -⟩ := best?_eq_some found
  have member : choice ∈ s.leaves.filterMap (choice? net maxFanout s.marks) := by
    rw [listed]
    simp
  obtain ⟨n, leaf, here⟩ := List.mem_filterMap.1 member
  obtain ⟨rfl, -, priced⟩ := choice?_eq_some.1 here
  exact ⟨leaf, priced⟩

def next? (net : Network) (maxLeaves maxFanout : Nat) (s : Growth) : Option Growth :=
  match best? net maxFanout s with
  | none => none
  | some choice =>
    if s.leaves.length - 1 + choice.cost > maxLeaves then none
    else some (Cutter.expand net s choice.leaf)

/-- The loop goes on from `s` and ends at the second state. -/
inductive Ends (net : Network) (maxLeaves maxFanout : Nat) : Growth → Growth → Prop where
  | here {s : Growth} (stuck : next? net maxLeaves maxFanout s = none) :
    Ends net maxLeaves maxFanout s s
  | turn {s mid last : Growth} (step : next? net maxLeaves maxFanout s = some mid)
      (later : Ends net maxLeaves maxFanout mid last) : Ends net maxLeaves maxFanout s last

theorem grow_succ (net : Network) (maxLeaves maxFanout steps : Nat) (s : Growth) :
    grow net maxLeaves maxFanout (steps + 1) s =
      match next? net maxLeaves maxFanout s with
      | none => s
      | some mid => grow net maxLeaves maxFanout steps mid := by
  rw [grow, next?]
  cases best? net maxFanout s with
  | none => rfl
  | some choice =>
    dsimp only
    split <;> rfl

theorem next?_eq_some {s mid : Growth} (step : next? net maxLeaves maxFanout s = some mid) :
    ∃ choice, best? net maxFanout s = some choice ∧
      s.leaves.length - 1 + choice.cost ≤ maxLeaves ∧ mid = Cutter.expand net s choice.leaf := by
  unfold next? at step
  split at step
  · cases step
  · rename_i choice found
    split at step
    · cases step
    · rename_i fits
      cases step
      exact ⟨choice, found, Nat.le_of_not_lt fits, rfl⟩

theorem Growth.Sound.next {s mid : Growth} (sound : s.Sound net maxFanout pivots)
    (inPlace : net.InPlace) (step : next? net maxLeaves maxFanout s = some mid) :
    mid.Sound net maxFanout pivots ∧ mid.leaves.length ≤ maxLeaves ∧
      mid.interior.length = s.interior.length + 1 := by
  obtain ⟨choice, found, fits, rfl⟩ := next?_eq_some step
  obtain ⟨leaf, priced⟩ := mem_leaves_of_best found
  obtain ⟨⟨inner, few⟩, cost⟩ := expansionCost?_eq_some.1 priced
  obtain ⟨-, leaves, interior, -⟩ := sound.toAligned.expand net leaf
  refine ⟨sound.expand inPlace leaf inner few, ?_, by simp [interior]⟩
  have fresh := length_eraseDups_le ((reads net choice.leaf).filter fun m => !s.marks.isMarked m)
  rw [leaves, List.length_append, List.length_erase_of_mem leaf, Growth.news]
  omega

theorem Growth.Sound.of_ends {s last : Growth} (sound : s.Sound net maxFanout pivots)
    (inPlace : net.InPlace) (le : s.leaves.length ≤ maxLeaves)
    (ends : Ends net maxLeaves maxFanout s last) :
    last.Sound net maxFanout pivots ∧ last.leaves.length ≤ maxLeaves := by
  induction ends with
  | here => exact ⟨sound, le⟩
  | turn step later ih =>
    obtain ⟨after, fits, -⟩ := sound.next inPlace step
    exact ih after fits

/-- Every turn makes another slot inner, so the loop ends by itself within as many turns as there are
    slots. -/
theorem Growth.Sound.ends {s : Growth} (sound : s.Sound net maxFanout pivots)
    (inPlace : net.InPlace) (maxLeaves steps : Nat) (enough : net.size < s.interior.length + steps) :
    Ends net maxLeaves maxFanout s (grow net maxLeaves maxFanout steps s) := by
  induction steps generalizing s with
  | zero =>
    have slots : s.interior.Subset (List.range net.size) := fun n member =>
      List.mem_range.2 (sound.below n (List.mem_append_right _ member)).1
    have few := ((List.nodup_append.1 sound.nodup).2.1.subperm slots).length_le
    rw [List.length_range] at few
    omega
  | succ steps ih =>
    rw [grow_succ]
    cases step : next? net maxLeaves maxFanout s with
    | none => exact .here step
    | some mid =>
      obtain ⟨after, -, grown⟩ := sound.next inPlace step
      exact .turn step (ih after (by omega))

/-- A run on slots ends. It finds the distinct pivots too many, or grows a cut from them. -/
theorem exists_growth (c : Cutter) (inPlace : net.InPlace) (room : c.maxLeaves < capacityLimit)
    (inside : ∀ p ∈ pivots, p < net.size) :
    ∃ first : Growth, first.Sound net c.maxFanout pivots ∧ first.leaves = pivots.eraseDups ∧
      first.interior = [] ∧
      if c.maxLeaves < pivots.eraseDups.length then
        c.run net pivots = .ok (.error (.cutOverflow pivots.eraseDups.length c.maxLeaves),
          { c with marks := first.marks })
      else ∃ last, Ends net c.maxLeaves c.maxFanout first last ∧
        c.run net pivots =
          .ok (.ok ⟨last.leaves, last.interior⟩, { c with marks := last.marks }) := by
  obtain ⟨start, leaves, interior⟩ := sound_foldl_reach c.maxFanout c.marks inside
  refine ⟨_, start, leaves, interior, ?_⟩
  have slots : net.requireAll
      ((pivots.foldl Growth.reach ⟨c.marks.newTraversal, [], []⟩).leaves.filter (· != 0)) =
        .ok () :=
    requireAll_eq_ok.2 fun n member =>
      (start.below n (List.mem_append_left _ (List.mem_filter.1 member).1)).1
  simp only [Cutter.run, requireRoom_of_slots inside, slots, bind, Except.bind]
  rw [ensure, if_pos (decide_eq_true room)]
  dsimp only
  rw [← leaves]
  split
  · rfl
  · rename_i fits
    have ends := start.ends inPlace c.maxLeaves (net.size + 1) (by omega)
    obtain ⟨-, length⟩ := start.of_ends inPlace (Nat.le_of_not_lt fits) ends
    rw [ensure, if_pos (decide_eq_true length)]
    exact ⟨_, ends, rfl⟩

theorem run_sound {c c' : Cutter} {cut : Cut} (inPlace : net.InPlace)
    (run : c.run net pivots = .ok (.ok cut, c')) :
    (∀ n ∈ cut.leaves, n < net.size ∧ ∃ p ∈ pivots, net.Reaches p n) ∧
      Separates net pivots cut.leaves cut.interior ∧ cut.leaves.length ≤ c.maxLeaves := by
  simp only [Cutter.run, bind_eq_ok] at run
  obtain ⟨_, -, _, -, run⟩ := run
  split at run
  · cases run
  · rename_i fits
    simp only [bind_eq_ok, requireAll_eq_ok, List.mem_filter, bne_iff_ne] at run
    obtain ⟨_, known, _, -, same⟩ := run
    cases same
    have inside : ∀ p ∈ pivots, p < net.size := by
      intro p member
      obtain ⟨-, leaves, -⟩ := (Growth.Aligned.begin c.marks).foldl_reach pivots
      have leaf : p ∈ (pivots.foldl Growth.reach ⟨c.marks.newTraversal, [], []⟩).leaves := by
        rw [leaves]
        exact List.mem_append_right _
          (Growth.mem_news.2 ⟨member, Marks.isMarked_newTraversal c.marks p⟩)
      by_cases zero : p = 0
      · rw [zero]
        exact inPlace.size_pos
      · exact known p ⟨leaf, zero⟩
    obtain ⟨start, -, -⟩ := sound_foldl_reach c.maxFanout c.marks inside
    obtain ⟨sound, length⟩ := start.of_ends inPlace (Nat.le_of_not_lt fits)
      (start.ends inPlace c.maxLeaves (net.size + 1) (by omega))
    exact ⟨fun n leaf => sound.below n (List.mem_append_left _ leaf), sound.separates, length⟩

theorem reaches_of_run {c c' : Cutter} {cut : Cut} {root : Nat} (inPlace : net.InPlace)
    (run : c.run net [root] = .ok (.ok cut, c')) :
    ∀ n ∈ cut.leaves, n < net.size ∧ net.Reaches root n := by
  simpa using (run_sound inPlace run).1

theorem exists_run (c : Cutter) (pivots : List Nat) (inPlace : net.InPlace)
    (room : c.maxLeaves < capacityLimit) (inside : ∀ p ∈ pivots, p < net.size) :
    ∃ found marks, c.run net pivots = .ok (found, { c with marks }) := by
  obtain ⟨first, -, -, -, outcome⟩ := exists_growth c inPlace room inside
  split at outcome
  · exact ⟨_, _, outcome⟩
  · obtain ⟨last, -, run⟩ := outcome
    exact ⟨_, _, run⟩

end Cutter

end LogicOpt
