import LogicOpt.Proofs.Changes
import Mathlib.Data.List.Nodup

/-!
The bookkeeping of a network as local facts. A fanout list names every live reader of its node
once, and the count of a node is the length of its list plus the outputs that read it. These facts
survive every change, while "nothing live reads a dead node" fails for a moment when a dead cone is
brought back, so it stands apart. Nothing that only reads the network looks at the table, so the
table stands apart as well.
-/

namespace LogicOpt

namespace Network

variable {net net' : Network}

/-- Lists, counts and slots are in line with the structure. -/
structure Counted (net : Network) : Prop where
  inPlace : net.InPlace
  canonical : net.CanonicalGates
  listed : ∀ g n, net.isLiveGate g = true → net.Feeds n g → g ∈ net.fanouts n
  count : ∀ n, net.fanoutCount n = (net.fanouts n).length + net.outputReferences n
  numGates : net.numGates = net.liveGates.length

structure Tallied (net : Network) : Prop extends Counted net where
  table : net.SoundTable

structure Orderly (net : Network) : Prop extends Counted net where
  fanins_live : ∀ g n, net.isLiveGate g = true → net.Feeds n g → net.isDead n = false
  outputs_live : ∀ o ∈ net.outputs, net.isDead o.signal.node = false

structure Consistent (net : Network) : Prop extends Tallied net, Orderly net

theorem InPlace.size_pos (inPlace : net.InPlace) : 0 < net.size := by
  have constant := (inPlace.constant_iff 0).2 rfl
  refine Nat.lt_of_not_le fun outside => ?_
  rw [body?_eq_none.2 outside] at constant
  cases constant

theorem InPlace.constant_live (inPlace : net.InPlace) : net.isDead 0 = false := by
  have constant := (inPlace.constant_iff 0).2 rfl
  refine Bool.eq_false_iff.2 fun dead => ?_
  obtain ⟨g, slot⟩ := Option.isSome_iff_exists.1 (inPlace.gate_of_dead 0 dead)
  rw [gate?_eq_some.1 slot] at constant
  cases constant

theorem InPlace.gate?_zero (inPlace : net.InPlace) : net.gate? 0 = none := by
  cases slot : net.gate? 0 with
  | none => rfl
  | some g =>
    have constant := (inPlace.constant_iff 0).2 rfl
    rw [gate?_eq_some.1 slot] at constant
    cases constant

theorem InPlace.ne_zero_of_isGate (inPlace : net.InPlace) {n : Nat} (gate : net.isGate n = true) :
    n ≠ 0 := by
  rintro rfl
  rw [isGate, inPlace.gate?_zero] at gate
  cases gate

theorem InPlace.ne_zero_of_feeds (inPlace : net.InPlace) {m n : Nat} (feeds : net.Feeds m n) :
    n ≠ 0 := by
  obtain ⟨g, slot, -⟩ := feeds_iff.1 feeds
  exact inPlace.ne_zero_of_isGate (by simp [isGate, slot])

theorem InPlace.gate_of_not_source (inPlace : net.InPlace) {n : Nat} (inside : n < net.size)
    (other : net.isSource n = false) : ∃ g, net.gate? n = some g := by
  simp only [isSource, Bool.or_eq_false_iff, beq_eq_false_iff_ne] at other
  cases slot : net.body? n with
  | none =>
    have := body?_eq_none.1 slot
    omega
  | some body =>
    cases body with
    | constant => exact absurd ((inPlace.constant_iff n).1 slot) other.1
    | input name =>
      rw [isInput_eq_true.2 ⟨name, slot⟩] at other
      cases other.2
    | gate g => exact ⟨g, gate?_eq_some.2 slot⟩

theorem InPlace.not_source_of_gate (inPlace : net.InPlace) {n : Nat} {g : Gate Signal}
    (slot : net.gate? n = some g) : net.isSource n = false := by
  have body := gate?_eq_some.1 slot
  simp only [isSource, Bool.or_eq_false_iff, beq_eq_false_iff_ne]
  refine ⟨?_, ?_⟩
  · rintro rfl
    rw [(inPlace.constant_iff 0).2 rfl] at body
    cases body
  · rw [Bool.eq_false_iff]
    intro input
    obtain ⟨name, there⟩ := isInput_eq_true.1 input
    rw [there] at body
    cases body

theorem Counted.mem_fanouts (counted : net.Counted) {n g : Nat} :
    g ∈ net.fanouts n ↔ net.isLiveGate g = true ∧ net.Feeds n g :=
  ⟨counted.inPlace.reader_of_fanout n g, fun h => counted.listed g n h.1 h.2⟩

theorem InPlace.lt_of_feeds (inPlace : net.InPlace) {n g : Nat} (feeds : net.Feeds n g) :
    n < net.size := by
  obtain ⟨f, member, rfl⟩ := feeds
  exact inPlace.fanin_lt g f member

theorem Counted.lt_of_feeds (counted : net.Counted) {n g : Nat} (feeds : net.Feeds n g) :
    n < net.size := counted.inPlace.lt_of_feeds feeds

theorem lt_of_isLiveGate {g : Nat} (live : net.isLiveGate g = true) : g < net.size := by
  obtain ⟨⟨gate, slot⟩, -⟩ := isLiveGate_eq_true.1 live
  exact lt_size_of_gate? slot

theorem Counted.not_mem_fanouts_size (counted : net.Counted) (n : Nat) :
    net.size ∉ net.fanouts n := fun member =>
  Nat.lt_irrefl _ (lt_of_isLiveGate (counted.inPlace.reader_of_fanout n _ member).1)

theorem outputReferences_eq_zero {n : Nat} :
    net.outputReferences n = 0 ↔ ∀ o ∈ net.outputs, o.signal.node ≠ n := by
  simp [outputReferences, outputSignals, List.countP_eq_zero]

theorem Counted.unread (counted : net.Counted) {n : Nat} (zero : net.fanoutCount n = 0) :
    net.fanouts n = [] ∧ net.outputReferences n = 0 := by
  have sum := counted.count n
  rw [zero] at sum
  exact ⟨List.length_eq_zero_iff.1 (by omega), by omega⟩

theorem Counted.not_feeds_of_unread (counted : net.Counted) {n g : Nat}
    (zero : net.fanoutCount n = 0) (live : net.isLiveGate g = true) : ¬net.Feeds n g := by
  intro feeds
  have member := counted.listed g n live feeds
  rw [(counted.unread zero).1] at member
  cases member

theorem Orderly.unread_of_dead (orderly : net.Orderly) {n : Nat} (dead : net.isDead n = true) :
    (∀ g, net.isLiveGate g = true → ¬net.Feeds n g) ∧ ∀ o ∈ net.outputs, o.signal.node ≠ n := by
  refine ⟨fun g live feeds => ?_, fun o member same => ?_⟩
  · rw [orderly.fanins_live g n live feeds] at dead
    cases dead
  · have awake := orderly.outputs_live o member
    rw [same, dead] at awake
    cases awake

theorem Orderly.count_of_dead (orderly : net.Orderly) {n : Nat}
    (dead : net.isDead n = true) : net.fanoutCount n = 0 := by
  obtain ⟨unread, apart⟩ := orderly.unread_of_dead dead
  have noReader : net.fanouts n = [] := by
    refine List.eq_nil_iff_forall_not_mem.2 fun g member => ?_
    obtain ⟨live, feeds⟩ := orderly.inPlace.reader_of_fanout n g member
    exact unread g live feeds
  rw [orderly.count, noReader, outputReferences_eq_zero.2 apart]
  rfl

theorem getElem?_tally (size : Nat) (nodes : List Nat) (n : Nat) :
    (tally size nodes)[n]? = if n < size then some (nodes.count n) else none := by
  have counted (nodes : List Nat) (counts : Array Nat) :
      (nodes.foldl (fun counts n => counts.modify n (· + 1)) counts)[n]? =
        counts[n]?.map (· + nodes.count n) := by
    induction nodes generalizing counts with
    | nil => simp
    | cons m rest ih =>
      rw [List.foldl_cons, ih, Array.getElem?_modify, List.count_cons]
      by_cases same : m = n
      · simp [same, Function.comp_def, Nat.add_assoc, Nat.add_comm 1]
      · simp [same]
  rw [tally, counted]
  by_cases inside : n < size <;> simp [inside]

theorem mem_liveGates {g : Nat} : g ∈ net.liveGates ↔ net.isLiveGate g = true := by
  simp only [liveGates, List.mem_filter, List.mem_range, and_iff_right_iff_imp]
  exact lt_of_isLiveGate

theorem nodup_liveGates (net : Network) : net.liveGates.Nodup :=
  List.Nodup.filter _ List.nodup_range

def readers (net : Network) (n : Nat) : List Nat :=
  net.liveGates.filter fun g => (net.fanins g).any (·.node == n)

theorem mem_readers {n g : Nat} :
    g ∈ net.readers n ↔ net.isLiveGate g = true ∧ net.Feeds n g := by
  simp [readers, mem_liveGates, Feeds]

theorem count_references (canonical : net.CanonicalGates) (n : Nat) :
    net.references.count n = (net.readers n).length + net.outputReferences n := by
  have once (g : Nat) : ((net.fanins g).map (·.node)).count n =
      if (net.fanins g).any (·.node == n) then 1 else 0 := by
    have nodup : ((net.fanins g).map (·.node)).Nodup := by
      cases slot : net.gate? g with
      | none =>
        have none : net.fanins g = [] := by
          refine List.eq_nil_iff_forall_not_mem.2 fun f member => ?_
          obtain ⟨h, present, -⟩ := feeds_iff.1 (⟨f, member, rfl⟩ : net.Feeds f.node g)
          rw [slot] at present
          cases present
        simp [none]
      | some h =>
        rw [fanins_eq_operands slot]
        exact (canonical g h slot).nodup_nodes
    rw [nodup.count]
    simp [List.any_eq_true, List.mem_map]
  have sum (gates : List Nat) :
      (gates.flatMap fun g => (net.fanins g).map (·.node)).count n =
        (gates.filter fun g => (net.fanins g).any (·.node == n)).length := by
    induction gates with
    | nil => rfl
    | cons g rest ih =>
      rw [List.flatMap_cons, List.count_append, ih, once, List.filter_cons]
      split <;> simp [Nat.add_comm]
  rw [references, List.count_append, sum, readers, outputReferences, List.count_eq_countP,
    List.countP_map, outputSignals]
  simp [List.countP_map, Function.comp_def]

theorem Counted.length_fanouts (counted : net.Counted) (n : Nat) :
    (net.fanouts n).length = (net.readers n).length := by
  refine List.Perm.length_eq ((List.perm_ext_iff_of_nodup (counted.inPlace.fanouts_nodup n) ?_).2
    fun g => ?_)
  · exact (nodup_liveGates net).filter _
  · rw [counted.mem_fanouts, mem_readers]

theorem Orderly.integrity (orderly : net.Orderly) : net.integrityIssue? = none := by
  rw [integrityIssue?, Option.or_eq_none_iff, Option.or_eq_none_iff, Option.or_eq_none_iff]
  refine ⟨?fanins, ?outputs, ?fanouts, ?gates⟩
  case fanins =>
    refine List.findSome?_eq_none_iff.2 fun g live => ?_
    have live := mem_liveGates.1 live
    refine List.findSome?_eq_none_iff.2 fun f member => ?_
    have feeds : net.Feeds f.node g := ⟨f, member, rfl⟩
    simp [orderly.fanins_live g _ live feeds, orderly.listed g _ live feeds]
  case outputs =>
    refine List.findSome?_eq_none_iff.2 fun o member => ?_
    simp [outputIssue?, orderly.outputs_live o member]
  case fanouts =>
    refine List.findSome?_eq_none_iff.2 fun n inside => ?_
    have inside := List.mem_range.1 inside
    have actual : (tally net.size net.references)[n]?.getD 0 = net.fanoutCount n := by
      rw [getElem?_tally, if_pos inside, Option.getD_some, count_references orderly.canonical,
        orderly.count, orderly.length_fanouts]
    simp only [fanoutIssue?, actual]
    split
    · rename_i dead
      simp [orderly.count_of_dead dead]
    · simp only [ne_eq, not_true_eq_false, ↓reduceIte]
      refine List.findSome?_eq_none_iff.2 fun g member => ?_
      obtain ⟨live, f, reads, same⟩ := orderly.inPlace.reader_of_fanout n g member
      have awake := (isLiveGate_eq_true.1 live).2
      have found : (net.fanins g).any (·.node == n) = true := by
        simp only [List.any_eq_true, beq_iff_eq]
        exact ⟨f, reads, same⟩
      simp [awake, found]
  case gates => simp [gateCountIssue?, orderly.numGates]

theorem fanoutCount_eq_zero_of_size_le {n : Nat} (outside : net.size ≤ n) :
    net.fanoutCount n = 0 := by
  have none : net.nodes[n]? = none := Array.getElem?_eq_none outside
  simp [fanoutCount, none]

theorem listed_of_integrity (integrity : net.integrityIssue? = none) {g n : Nat}
    (live : net.isLiveGate g = true) (feeds : net.Feeds n g) :
    net.isDead n = false ∧ g ∈ net.fanouts n := by
  rw [integrityIssue?, Option.or_eq_none_iff] at integrity
  obtain ⟨f, member, rfl⟩ := feeds
  have passed := List.findSome?_eq_none_iff.1
    (List.findSome?_eq_none_iff.1 integrity.1 g (mem_liveGates.2 live)) f member
  cases dead : net.isDead f.node <;> simp_all

theorem output_live_of_integrity (integrity : net.integrityIssue? = none) :
    ∀ o ∈ net.outputs, net.isDead o.signal.node = false := by
  intro o member
  rw [integrityIssue?, Option.or_eq_none_iff, Option.or_eq_none_iff] at integrity
  have passed := List.findSome?_eq_none_iff.1 integrity.2.1 o member
  simpa [outputIssue?] using passed

theorem mem_references {n : Nat} :
    n ∈ net.references ↔
      (∃ g, net.isLiveGate g = true ∧ net.Feeds n g) ∨ ∃ o ∈ net.outputs, o.signal.node = n := by
  simp [references, outputSignals, Feeds, mem_liveGates]

/-- Every node is counted as often as live gates and outputs refer to it, and live gates read live
    nodes. Gates need not be in normal form for that. -/
structure Balanced (net : Network) : Prop where
  inPlace : net.InPlace
  fanins_live : ∀ g n, net.isLiveGate g = true → net.Feeds n g → net.isDead n = false
  count : ∀ n, net.fanoutCount n = net.references.count n

theorem balanced_of_integrity (inPlace : net.InPlace) (integrity : net.integrityIssue? = none) :
    net.Balanced := by
  have fanins_live (g n : Nat) (live : net.isLiveGate g = true) (feeds : net.Feeds n g) :
      net.isDead n = false := (listed_of_integrity integrity live feeds).1
  have outputs_live := output_live_of_integrity integrity
  refine ⟨inPlace, fanins_live, fun n => ?_⟩
  by_cases inside : n < net.size
  · rw [integrityIssue?, Option.or_eq_none_iff, Option.or_eq_none_iff,
      Option.or_eq_none_iff] at integrity
    have passed := List.findSome?_eq_none_iff.1 integrity.2.2.1 n (List.mem_range.2 inside)
    simp only [fanoutIssue?, getElem?_tally, inside, ↓reduceIte, Option.getD_some] at passed
    split at passed
    · rename_i dead
      have unread : n ∉ net.references := by
        rw [mem_references]
        rintro (⟨g, live, feeds⟩ | ⟨o, member, rfl⟩)
        · rw [fanins_live g n live feeds] at dead
          cases dead
        · rw [outputs_live o member] at dead
          cases dead
      rw [List.count_eq_zero.2 unread]
      by_contra counted
      simp [counted] at passed
    · by_contra differ
      simp [differ] at passed
  · have unread : n ∉ net.references := by
      rw [mem_references]
      rintro (⟨g, -, f, member, rfl⟩ | ⟨o, member, rfl⟩)
      · exact inside (inPlace.fanin_lt g f member)
      · exact inside (inPlace.output_lt o member)
    rw [fanoutCount_eq_zero_of_size_le (Nat.le_of_not_lt inside), List.count_eq_zero.2 unread]

theorem Orderly.balanced (orderly : net.Orderly) : net.Balanced :=
  balanced_of_integrity orderly.inPlace orderly.integrity

theorem Reaches.head {a b c : Nat} (feeds : net.Feeds b a) (path : net.Reaches b c) :
    net.Reaches a c := by
  induction path with
  | refl => exact .step (.refl a) feeds
  | step _ last ih => exact .step ih last

theorem Reaches.mono {a b : Nat} (path : net.Reaches a b)
    (feeds : ∀ m k, net.Feeds m k → net'.Feeds m k) : net'.Reaches a b := by
  induction path with
  | refl => exact .refl a
  | step _ last ih => exact .step ih (feeds _ _ last)

theorem Reaches.live (balanced : net.Balanced) {n m : Nat} (path : net.Reaches n m)
    (live : net.isDead n = false) : net.isDead m = false := by
  induction path with
  | refl => exact live
  | step _ feeds ih =>
    obtain ⟨g, slot, -⟩ := feeds_iff.1 feeds
    exact balanced.fanins_live _ _ (isLiveGate_eq_true.2 ⟨⟨g, slot⟩, ih⟩) feeds

/-- What the check establishes on slots that were built by the operations. -/
theorem orderly_of_integrity (inPlace : net.InPlace) (canonical : net.CanonicalGates)
    (integrity : net.integrityIssue? = none) : net.Orderly := by
  have balanced := balanced_of_integrity inPlace integrity
  have exact_list (n : Nat) : (net.fanouts n).length = (net.readers n).length := by
    refine List.Perm.length_eq ((List.perm_ext_iff_of_nodup (inPlace.fanouts_nodup n) ?_).2
      fun g => ?_)
    · exact (nodup_liveGates net).filter _
    · rw [mem_readers]
      exact ⟨inPlace.reader_of_fanout n g, fun h => (listed_of_integrity integrity h.1 h.2).2⟩
  refine ⟨⟨inPlace, canonical, fun g n live feeds => (listed_of_integrity integrity live feeds).2,
    fun n => ?_, ?_⟩, balanced.fanins_live, output_live_of_integrity integrity⟩
  · rw [balanced.count, count_references canonical, exact_list]
  · rw [integrityIssue?, Option.or_eq_none_iff, Option.or_eq_none_iff,
      Option.or_eq_none_iff] at integrity
    by_contra differ
    simp [gateCountIssue?, differ] at integrity

theorem wellFormed_iff : net.WellFormed ↔ net.Consistent ∧ net.Acyclic :=
  ⟨fun valid =>
      have orderly := orderly_of_integrity valid.inPlace valid.canonical valid.integrity
      ⟨{ orderly with table := valid.table }, valid.acyclic⟩,
    fun ⟨consistent, acyclic⟩ =>
      ⟨consistent.inPlace, consistent.toOrderly.integrity, acyclic, consistent.canonical,
        consistent.table⟩⟩

def SourcesKept (net net' : Network) : Prop :=
  ∀ m, net'.body? m = net.body? m ∨
    ∃ g, net'.body? m = some (.gate g) ∧ (net.body? m = none ∨ ∃ h, net.body? m = some (.gate h))

theorem SourcesKept.isInput (kept : SourcesKept net net') (m : Nat) :
    net'.isInput m = net.isInput m := by
  rw [isInput_eq_body?, isInput_eq_body?]
  rcases kept m with same | ⟨g, now, before | ⟨h, before⟩⟩
  · rw [same]
  · simp [now, before, Node.isInput, Node.fresh]
  · simp [now, before, Node.isInput, Node.fresh]

theorem SourcesKept.constant (kept : SourcesKept net net') (m : Nat) :
    net'.body? m = some .constant ↔ net.body? m = some .constant := by
  rcases kept m with same | ⟨g, now, before | ⟨h, before⟩⟩
  · rw [same]
  · simp [now, before]
  · simp [now, before]

theorem isInput_eq_false_of_size_le {m : Nat} (outside : net.size ≤ m) :
    net.isInput m = false := by
  have none : net.nodes[m]? = none := Array.getElem?_eq_none outside
  simp [isInput, none]

theorem lt_size_of_isInput {m : Nat} (input : net.isInput m = true) : m < net.size :=
  Nat.lt_of_not_le fun outside => by
    rw [isInput_eq_false_of_size_le outside] at input
    cases input

theorem filter_range_of_le {p : Nat → Bool} {small large : Nat} (le : small ≤ large)
    (beyond : ∀ m, small ≤ m → p m = false) :
    (List.range large).filter p = (List.range small).filter p := by
  obtain ⟨extra, rfl⟩ := Nat.exists_eq_add_of_le le
  rw [List.range_add, List.filter_append]
  have rest : ((List.range extra).map (small + ·)).filter p = [] := by
    refine List.filter_eq_nil_iff.2 fun m member => ?_
    obtain ⟨k, -, rfl⟩ := List.mem_map.1 member
    simp [beyond (small + k) (by omega)]
  rw [rest, List.append_nil]

theorem SourcesKept.inputs_eq (kept : SourcesKept net net') (frame : Frame net net')
    (le : net.size ≤ net'.size) (before : net.inputs = (List.range net.size).filter net.isInput) :
    net'.inputs = (List.range net'.size).filter net'.isInput := by
  have same : net'.isInput = net.isInput := funext kept.isInput
  rw [frame.inputs, before, same]
  exact (filter_range_of_le le fun m => isInput_eq_false_of_size_le).symm

theorem gate?_congr {m : Nat} (same : net'.body? m = net.body? m) :
    net'.gate? m = net.gate? m := by
  rw [gate?_eq_body?, gate?_eq_body?, same]

theorem feeds_congr {m k : Nat} (same : net'.body? k = net.body? k) :
    net'.Feeds m k ↔ net.Feeds m k := by
  rw [feeds_iff, feeds_iff, gate?_congr same]

theorem isLiveGate_congr {m : Nat} (same : net'.body? m = net.body? m)
    (dead : net'.isDead m = net.isDead m) : net'.isLiveGate m = net.isLiveGate m := by
  unfold isLiveGate isGate
  rw [gate?_congr same, dead]

theorem outputReferences_congr (same : net'.outputs = net.outputs) (n : Nat) :
    net'.outputReferences n = net.outputReferences n := by
  rw [outputReferences, outputReferences, outputSignals, outputSignals, same]

theorem length_filter_range {p q : Nat → Bool} {n size : Nat} (inside : n < size)
    (at_n : p n = true ∧ q n = false) (elsewhere : ∀ m, m ≠ n → p m = q m) :
    ((List.range size).filter p).length = ((List.range size).filter q).length + 1 := by
  induction size with
  | zero => omega
  | succ size ih =>
    simp only [List.range_succ, List.filter_append, List.length_append]
    by_cases last : n = size
    · subst last
      have below : (List.range n).filter p = (List.range n).filter q := by
        refine List.filter_congr fun m member => elsewhere m ?_
        have := List.mem_range.1 member
        omega
      simp [below, at_n.1, at_n.2]
    · rw [ih (by omega)]
      have same := elsewhere size fun h => last h.symm
      simp only [List.filter_cons, same, List.filter_nil]
      omega

theorem liveGates_congr (size : net'.size = net.size)
    (live : ∀ m, net'.isLiveGate m = net.isLiveGate m) : net'.liveGates = net.liveGates := by
  have same : net'.isLiveGate = net.isLiveGate := funext live
  rw [liveGates, liveGates, size, same]

end Network

end LogicOpt
