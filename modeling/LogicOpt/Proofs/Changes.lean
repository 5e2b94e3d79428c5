import LogicOpt.Network.WellFormed
import LogicOpt.Proofs.NormalForms

namespace LogicOpt

namespace Node

def link (n : Node) (consumer : Nat) : Node :=
  { n.addFanout consumer with fanoutCount := n.fanoutCount + 1 }

def unlink (n : Node) (consumer : Nat) : Node :=
  { n.removeFanout consumer with fanoutCount := n.fanoutCount - 1 }

variable (n : Node) (consumer : Nat)

@[simp]
theorem body_link : (n.link consumer).body = n.body := by
  unfold link addFanout
  split <;> rfl

@[simp]
theorem dead_link : (n.link consumer).dead = n.dead := by
  unfold link addFanout
  split <;> rfl

@[simp]
theorem fanoutCount_link : (n.link consumer).fanoutCount = n.fanoutCount + 1 := rfl

theorem fanouts_link {n : Node} {consumer : Nat} (absent : consumer ∉ n.fanouts) :
    (n.link consumer).fanouts = n.fanouts ++ [consumer] := by
  simp [link, addFanout, absent]

@[simp]
theorem body_unlink : (n.unlink consumer).body = n.body := rfl

@[simp]
theorem dead_unlink : (n.unlink consumer).dead = n.dead := rfl

@[simp]
theorem fanoutCount_unlink : (n.unlink consumer).fanoutCount = n.fanoutCount - 1 := rfl

@[simp]
theorem fanouts_unlink :
    (n.unlink consumer).fanouts = n.fanouts.filter (· != consumer) := rfl

end Node

namespace Network

variable {net net' : Network}

theorem gate?_eq_some {n : Nat} {g : Gate Signal} :
    net.gate? n = some g ↔ net.body? n = some (.gate g) := by
  unfold gate? body?
  cases net.nodes[n]? with
  | none => simp
  | some node => rcases node with ⟨_ | _ | _, _, _, _⟩ <;> simp [Node.gate?]

theorem isInput_eq_true {n : Nat} :
    net.isInput n = true ↔ ∃ name, net.body? n = some (.input name) := by
  unfold isInput body?
  cases net.nodes[n]? with
  | none => simp
  | some node => rcases node with ⟨_ | _ | _, _, _, _⟩ <;> simp [Node.isInput]

theorem body?_eq_none {n : Nat} : net.body? n = none ↔ net.size ≤ n := by
  simp [body?, size]

theorem lt_size_of_gate? {n : Nat} {g : Gate Signal} (slot : net.gate? n = some g) :
    n < net.size := by
  refine Nat.lt_of_not_le fun outside => ?_
  rw [gate?_eq_none_of_size_le outside] at slot
  cases slot

theorem mem_fanins {n m : Nat} {g : Gate Signal} (slot : net.gate? n = some g) :
    net.Feeds m n ↔ m ∈ g.nodes := by
  simp [Feeds, fanins_eq_operands slot, Gate.mem_nodes]

theorem feeds_iff {n m : Nat} : net.Feeds m n ↔ ∃ g, net.gate? n = some g ∧ m ∈ g.nodes := by
  constructor
  · rintro ⟨f, member, rfl⟩
    have gate : (net.gate? n).isSome := by
      unfold gate?
      unfold fanins at member
      cases slot : net.nodes[n]? with
      | none => simp [slot] at member
      | some node => rcases node with ⟨_ | _ | _, _, _, _⟩ <;> simp_all [Node.gate?, Node.fanins]
    obtain ⟨g, slot⟩ := Option.isSome_iff_exists.1 gate
    exact ⟨g, slot, (mem_fanins slot).1 ⟨f, member, rfl⟩⟩
  · rintro ⟨g, slot, member⟩
    exact (mem_fanins slot).2 member

theorem isLiveGate_eq_true {n : Nat} :
    net.isLiveGate n = true ↔ (∃ g, net.gate? n = some g) ∧ net.isDead n = false := by
  simp [isLiveGate, isGate, Option.isSome_iff_exists]

theorem getElem?_modifyNode (net : Network) (n : Nat) (f : Node → Node) (m : Nat) :
    (net.modifyNode n f).nodes[m]? = if n = m then net.nodes[m]?.map f else net.nodes[m]? :=
  Array.getElem?_modify

theorem deliver_eq (event : Event) (net : Network) (s : Subscription) :
    ∃ levels journal, deliver event net s = { net with levels, journal } ∧
      levels.size = net.levels.size := by
  unfold deliver
  split
  · exact ⟨_, _, rfl, Reaction.size_relevel ..⟩
  · exact ⟨_, net.journal, rfl, Reaction.size_relevel ..⟩

theorem notify_eq (net : Network) (event : Event) :
    ∃ levels journal, net.notify event = { net with levels, journal } ∧
      levels.size = net.levels.size := by
  have shown (subscriptions : List Subscription) (net : Network) :
      ∃ levels journal, subscriptions.foldl (deliver event) net = { net with levels, journal } ∧
        levels.size = net.levels.size := by
    induction subscriptions generalizing net with
    | nil => exact ⟨net.levels, net.journal, rfl, rfl⟩
    | cons s rest ih =>
      obtain ⟨levels, journal, same, size⟩ := deliver_eq event net s
      obtain ⟨levels', journal', same', size'⟩ := ih (deliver event net s)
      rw [same] at same' size'
      exact ⟨levels', journal', by rw [List.foldl_cons, same, same'], size'.trans size⟩
  exact shown net.subscriptions net

theorem linkFanin_eq (consumer : Nat) (net : Network) (f : Signal) :
    linkFanin consumer net f = net.modifyNode f.node (·.link consumer) := rfl

theorem foldl_linkFanin (consumer : Nat) (fanins : List Signal) (net : Network)
    (nodup : (fanins.map (·.node)).Nodup) :
    ∃ nodes, fanins.foldl (linkFanin consumer) net = { net with nodes } ∧
      nodes.size = net.nodes.size ∧
      ∀ m, nodes[m]? =
        if m ∈ fanins.map (·.node) then
          net.nodes[m]?.map (·.link consumer)
        else net.nodes[m]? := by
  induction fanins generalizing net with
  | nil => exact ⟨net.nodes, rfl, rfl, by simp⟩
  | cons f rest ih =>
    simp only [List.map_cons, List.nodup_cons] at nodup
    obtain ⟨nodes, same, size, slots⟩ := ih (linkFanin consumer net f) nodup.2
    refine ⟨nodes, by rw [List.foldl_cons, same]; rfl, by simp [size, linkFanin, modifyNode], ?_⟩
    intro m
    rw [slots, linkFanin_eq, getElem?_modifyNode]
    by_cases head : f.node = m
    · subst head
      simp [nodup.1]
    · have other : ¬m = f.node := fun h => head h.symm
      simp only [head, ↓reduceIte, List.map_cons, List.mem_cons, other, false_or]

theorem releaseFanin_eq (consumer : Nat) (net : Network) (work : List Nat) (f : Signal) :
    ∃ nodes, releaseFanin consumer (net, work) f =
        ({ net with nodes }, if net.fanoutCount f.node = 1 then f.node :: work else work) ∧
      nodes.size = net.nodes.size ∧
      ∀ m, nodes[m]? =
        if f.node = m then
          net.nodes[m]?.map (·.unlink consumer)
        else net.nodes[m]? := by
  have kept : (net.modifyNode f.node (·.removeFanout consumer)).fanoutCount f.node =
      net.fanoutCount f.node := by
    simp only [fanoutCount, getElem?_modifyNode]
    cases net.nodes[f.node]? <;> simp [Node.removeFanout]
  have fewer : ((net.modifyNode f.node (·.removeFanout consumer)).decrCount f.node).fanoutCount
      f.node = net.fanoutCount f.node - 1 := by
    simp only [fanoutCount, decrCount, getElem?_modifyNode]
    cases net.nodes[f.node]? <;> simp [Node.removeFanout]
  unfold releaseFanin
  simp only [kept, fewer]
  by_cases unread : net.fanoutCount f.node = 0
  · refine ⟨(net.modifyNode f.node (·.removeFanout consumer)).nodes, ?_, ?_, fun m => ?_⟩
    · simp only [unread, ↓reduceIte]
      rfl
    · simp [modifyNode]
    · rw [getElem?_modifyNode]
      split
      · rename_i same
        subst same
        cases slot : net.nodes[f.node]? with
        | none => rfl
        | some node =>
          have zero : node.fanoutCount = 0 := by simpa [fanoutCount, slot] using unread
          simp [Node.unlink, Node.removeFanout, zero]
      · rfl
  · refine ⟨((net.modifyNode f.node (·.removeFanout consumer)).decrCount f.node).nodes, ?_, ?_,
      fun m => ?_⟩
    · have last : net.fanoutCount f.node - 1 = 0 ↔ net.fanoutCount f.node = 1 := by omega
      simp only [unread, last, ↓reduceIte]
      split <;> rfl
    · simp [decrCount, modifyNode]
    · rw [decrCount, getElem?_modifyNode, getElem?_modifyNode]
      split
      · cases net.nodes[m]? <;> rfl
      · rfl

theorem foldl_releaseFanin (consumer : Nat) (fanins : List Signal) (net : Network)
    (work : List Nat) (nodup : (fanins.map (·.node)).Nodup) :
    ∃ nodes added, fanins.foldl (releaseFanin consumer) (net, work) =
        ({ net with nodes }, added ++ work) ∧
      nodes.size = net.nodes.size ∧
      (added.Nodup ∧ ∀ m, m ∈ added ↔ m ∈ fanins.map (·.node) ∧ net.fanoutCount m = 1) ∧
      ∀ m, nodes[m]? =
        if m ∈ fanins.map (·.node) then
          net.nodes[m]?.map (·.unlink consumer)
        else net.nodes[m]? := by
  induction fanins generalizing net work with
  | nil => exact ⟨net.nodes, [], rfl, rfl, by simp, by simp⟩
  | cons f rest ih =>
    simp only [List.map_cons, List.nodup_cons] at nodup
    obtain ⟨first, step, size, slots⟩ := releaseFanin_eq consumer net work f
    obtain ⟨nodes, added, steps, size', ⟨apart, news⟩, slots'⟩ := ih { net with nodes := first }
      (if net.fanoutCount f.node = 1 then f.node :: work else work) nodup.2
    have counts (m : Nat) (other : m ≠ f.node) :
        fanoutCount { net with nodes := first } m = net.fanoutCount m := by
      simp [fanoutCount, slots, other.symm]
    have differ (m : Nat) (member : m ∈ rest.map (·.node)) : m ≠ f.node :=
      fun same => nodup.1 (same ▸ member)
    refine ⟨nodes, added ++ if net.fanoutCount f.node = 1 then [f.node] else [], ?_,
      size'.trans size, ⟨?_, fun m => ?_⟩, fun m => ?_⟩
    · rw [List.foldl_cons, step, steps]
      split <;> simp
    · split
      · refine List.nodup_append.2 ⟨apart, by simp, fun m member other single => ?_⟩
        have := differ m ((news m).1 member).1
        simp_all
      · simpa using apart
    · rw [List.mem_append, news, List.map_cons, List.mem_cons]
      by_cases same : m = f.node
      · subst same
        have fresh : f.node ∉ rest.map (·.node) := nodup.1
        by_cases last : net.fanoutCount f.node = 1 <;> simp [fresh, last]
      · rw [counts m same]
        split <;> simp [same]
    · rw [slots']
      simp only [slots, List.map_cons, List.mem_cons]
      by_cases same : f.node = m
      · subst same
        simp [nodup.1]
      · have other : ¬m = f.node := fun h => same h.symm
        simp [same, other]

theorem gate?_eq_body? (net : Network) (n : Nat) :
    net.gate? n = (net.body? n).bind fun body => Node.gate? (.fresh body) := by
  unfold gate? body?
  cases net.nodes[n]? <;> rfl

theorem isInput_eq_body? (net : Network) (n : Nat) :
    net.isInput n = (net.body? n).any fun body => Node.isInput (.fresh body) := by
  unfold isInput body?
  cases net.nodes[n]? <;> rfl

/-- Two networks with the same slots; recorded levels and what was delivered may differ. -/
def Relevelled (net net' : Network) : Prop :=
  ∃ levels journal, net' = { net with levels, journal } ∧ levels.size = net.levels.size

theorem relevelled_notify (net : Network) (event : Event) : Relevelled net (net.notify event) :=
  notify_eq net event

theorem relevelled_setLevel (net : Network) (n level : Nat) :
    Relevelled net (net.setLevel n level) :=
  ⟨_, net.journal, rfl, by simp⟩

theorem Relevelled.trans {net mid net' : Network} (head : Relevelled net mid)
    (tail : Relevelled mid net') : Relevelled net net' := by
  obtain ⟨levels, journal, rfl, size⟩ := head
  obtain ⟨levels', journal', rfl, size'⟩ := tail
  exact ⟨levels', journal', rfl, size'.trans size⟩

structure Frame (net net' : Network) : Prop where
  inputs : net'.inputs = net.inputs
  subscriptions : net'.subscriptions = net.subscriptions
  nextSubscription : net'.nextSubscription = net.nextSubscription
  size_levels : net.levels.size = net.size → net'.levels.size = net'.size

theorem Frame.relevel {mid : Network} (frame : Frame net mid) (levels : Relevelled mid net') :
    Frame net net' := by
  obtain ⟨levels, journal, rfl, size⟩ := levels
  exact { frame with size_levels := fun start => size.trans (frame.size_levels start) }

theorem Frame.refl (net : Network) : Frame net net := ⟨rfl, rfl, rfl, id⟩

theorem Frame.trans {mid : Network} (first : Frame net mid) (second : Frame mid net') :
    Frame net net' where
  inputs := second.inputs.trans first.inputs
  subscriptions := second.subscriptions.trans first.subscriptions
  nextSubscription := second.nextSubscription.trans first.nextSubscription
  size_levels := fun start => second.size_levels (first.size_levels start)

structure Appended (net net' : Network) (g : Gate Signal) : Prop where
  frame : Frame net net'
  size : net'.size = net.size + 1
  body : ∀ m, net'.body? m = if m = net.size then some (.gate g) else net.body? m
  dead : ∀ m, net'.isDead m = net.isDead m
  fanouts : ∀ m, net'.fanouts m =
    if m ∈ g.nodes then net.fanouts m ++ [net.size] else net.fanouts m
  count : ∀ m, net'.fanoutCount m = net.fanoutCount m + if m ∈ g.nodes then 1 else 0
  table : ∀ k, net'.table[k]? = if k = g then some net.size else net.table[k]?
  outputs : net'.outputs = net.outputs
  numGates : net'.numGates = net.numGates + 1

structure Removed (net net' : Network) (n : Nat) (g : Gate Signal) : Prop where
  frame : Frame net net'
  size : net'.size = net.size
  body : ∀ m, net'.body? m = net.body? m
  dead : ∀ m, net'.isDead m = (m == n || net.isDead m)
  fanouts : ∀ m, net'.fanouts m =
    if m ∈ g.nodes then (net.fanouts m).filter (· != n) else net.fanouts m
  count : ∀ m, net'.fanoutCount m = net.fanoutCount m - if m ∈ g.nodes then 1 else 0
  table : ∀ k, net'.table[k]? =
    if k = g ∧ net.table[g]? = some n then none else net.table[k]?
  outputs : net'.outputs = net.outputs
  numGates : net'.numGates = net.numGates - 1

structure Restored (net net' : Network) (n : Nat) (g : Gate Signal) : Prop where
  frame : Frame net net'
  size : net'.size = net.size
  body : ∀ m, net'.body? m = net.body? m
  dead : ∀ m, net'.isDead m = (m != n && net.isDead m)
  fanouts : ∀ m, net'.fanouts m = if m ∈ g.nodes then net.fanouts m ++ [n] else net.fanouts m
  count : ∀ m, net'.fanoutCount m = net.fanoutCount m + if m ∈ g.nodes then 1 else 0
  table : ∀ k, net'.table[k]? =
    if k = g then some ((net.table[g]?).getD n) else net.table[k]?
  outputs : net'.outputs = net.outputs
  numGates : net'.numGates = net.numGates + 1

/-- Gate `g` in slot `n` became `h`, and its reference moved from `old` to `new`. -/
structure Rewired (net net' : Network) (n : Nat) (g h : Gate Signal) (old new : Nat) : Prop where
  frame : Frame net net'
  size : net'.size = net.size
  body : ∀ m, net'.body? m = if m = n then some (.gate h) else net.body? m
  dead : ∀ m, net'.isDead m = net.isDead m
  fanouts : ∀ m, net'.fanouts m =
    if m = old then (net.fanouts m).filter (· != n)
    else if m = new then net.fanouts m ++ [n] else net.fanouts m
  count : ∀ m, net'.fanoutCount m =
    if m = old then net.fanoutCount m - 1
    else if m = new then net.fanoutCount m + 1 else net.fanoutCount m
  table : ∀ k, net'.table[k]? =
    if k = h then some n
    else if k = g ∧ net.table[g]? = some n then none else net.table[k]?
  outputs : net'.outputs = net.outputs
  numGates : net'.numGates = net.numGates

structure OutputsMoved (net net' : Network) (old : Nat) (new : Signal) : Prop where
  frame : Frame net net'
  size : net'.size = net.size
  body : ∀ m, net'.body? m = net.body? m
  dead : ∀ m, net'.isDead m = net.isDead m
  fanouts : ∀ m, net'.fanouts m = net.fanouts m
  count : ∀ m, net'.fanoutCount m =
    if m = old then net.fanoutCount m - net.outputReferences old
    else if m = new.node then net.fanoutCount m + net.outputReferences old
    else net.fanoutCount m
  table : net'.table = net.table
  outputs : net'.outputs = net.outputs.map (redirectOutput old new)
  numGates : net'.numGates = net.numGates

theorem getElem?_insert_table (table : Std.TreeMap (Gate Signal) Nat) (g k : Gate Signal) (n : Nat) :
    (table.insert g n)[k]? = if k = g then some n else table[k]? := by
  simp only [Std.TreeMap.getElem?_insert, Std.LawfulEqCmp.compare_eq_iff_eq, @eq_comm _ k g]

theorem getElem?_erase_table (table : Std.TreeMap (Gate Signal) Nat) (g k : Gate Signal) :
    (table.erase g)[k]? = if k = g then none else table[k]? := by
  simp only [Std.TreeMap.getElem?_erase, Std.LawfulEqCmp.compare_eq_iff_eq, @eq_comm _ k g]

theorem getElem?_eq_some_of_lt {m : Nat} (inside : m < net.size) :
    ∃ node, net.nodes[m]? = some node :=
  ⟨_, Array.getElem?_eq_getElem inside⟩

theorem getElem?_size (net : Network) : net.nodes[net.size]? = none :=
  Array.getElem?_eq_none (Nat.le_refl _)

theorem appended_appendGate {g : Gate Signal} (level : Nat) (nodup : g.nodes.Nodup)
    (inside : ∀ m ∈ g.nodes, m < net.size) (fresh : ∀ m, net.size ∉ net.fanouts m) :
    Appended net (net.appendGate g level) g := by
  obtain ⟨nodes, same, size, slots⟩ := foldl_linkFanin net.size g.operands
    { net with
      nodes := net.nodes.push (.fresh (.gate g))
      levels := net.levels.push level
      table := net.table.insert g net.size
      numGates := net.numGates + 1 } nodup
  have read (m : Nat) : nodes[m]? =
      if m ∈ g.nodes then net.nodes[m]?.map (·.link net.size)
      else if m = net.size then some (.fresh (.gate g)) else net.nodes[m]? := by
    rw [slots, Array.getElem?_push]
    by_cases member : m ∈ g.nodes
    · have below : m ≠ net.nodes.size := Nat.ne_of_lt (inside m member)
      rw [if_neg below, if_pos member]
      exact if_pos member
    · rw [if_neg member]
      exact if_neg member
  have last : net.size ∉ g.nodes := fun member => Nat.lt_irrefl _ (inside _ member)
  rw [appendGate, same]
  constructor
  case frame => exact ⟨rfl, rfl, rfl, fun start => by simp_all [Network.size]⟩
  case size => simp [Network.size, size]
  case table => exact fun k => getElem?_insert_table ..
  case outputs => rfl
  case numGates => rfl
  all_goals intro m
  all_goals
    by_cases member : m ∈ g.nodes
    · obtain ⟨node, slot⟩ := getElem?_eq_some_of_lt (inside m member)
      have below : m ≠ net.size := Nat.ne_of_lt (inside m member)
      have absent := fresh m
      simp only [fanouts, slot] at absent
      simp [body?, isDead, fanouts, fanoutCount, read, member, slot, below,
        Node.fanouts_link absent]
    · by_cases fresh : m = net.size
      · subst fresh
        simp [body?, isDead, fanouts, fanoutCount, read, last, getElem?_size, Node.fresh]
      · simp [body?, isDead, fanouts, fanoutCount, read, member, fresh]

theorem dropEntry_eq {n : Nat} {g : Gate Signal} (slot : net.gate? n = some g) :
    ∃ table, net.dropEntry n = { net with table } ∧
      ∀ k, table[k]? = if k = g ∧ net.table[g]? = some n then none else net.table[k]? := by
  unfold dropEntry
  simp only [slot]
  by_cases entered : net.table[g]? = some n
  · refine ⟨net.table.erase g, by simp [entered], fun k => ?_⟩
    simp [getElem?_erase_table, entered]
  · exact ⟨net.table, by simp [entered], by simp [entered]⟩

theorem removed_removeGate {n : Nat} {g : Gate Signal} (work : List Nat)
    (slot : net.gate? n = some g) (nodup : g.nodes.Nodup) (unread : net.fanoutCount n = 0) :
    ∃ added, (net.removeGate n work).2 = added ++ work ∧
      (added.Nodup ∧ ∀ m, m ∈ added ↔ m ∈ g.nodes ∧ net.fanoutCount m = 1) ∧
      Removed net (net.removeGate n work).1 n g := by
  obtain ⟨table, dropped, entries⟩ := dropEntry_eq slot
  obtain ⟨levels, journal, notified, levelsSize⟩ := notify_eq (net.kill n) (.removed n)
  simp only [kill, dropped, modifyNode] at notified levelsSize
  obtain ⟨nodes, added, same, size, news, slots⟩ := foldl_releaseFanin n g.operands
    ((net.kill n).notify (.removed n)) work nodup
  rw [removeGate, fanins_eq_operands slot, same]
  simp only [kill, dropped, modifyNode, notified, fanoutCount, Array.getElem?_modify,
    Array.size_modify] at news slots size
  simp only [kill, dropped, modifyNode, notified]
  obtain ⟨node, found⟩ := getElem?_eq_some_of_lt (lt_size_of_gate? slot)
  have zero : node.fanoutCount = 0 := by simpa [fanoutCount, found] using unread
  refine ⟨added, rfl, ⟨news.1, fun m => ?_⟩, ?_⟩
  · rw [news.2]
    by_cases self : n = m
    · subst self
      simp [Gate.nodes, fanoutCount, found, zero]
    · simp [Gate.nodes, fanoutCount, self]
  constructor
  case frame => exact ⟨rfl, rfl, rfl, fun start => levelsSize.trans (start.trans size.symm)⟩
  case size => exact size
  case table => exact entries
  case outputs => rfl
  case numGates => rfl
  all_goals intro m
  all_goals
    by_cases self : n = m
    · subst self
      by_cases member : n ∈ g.operands.map (·.node) <;>
        simp [Gate.nodes, body?, isDead, fanouts, fanoutCount, slots, member, found, zero]
    · have other : ¬m = n := fun h => self h.symm
      by_cases member : m ∈ g.operands.map (·.node) <;>
        cases rest : net.nodes[m]? <;>
          simp [Gate.nodes, body?, isDead, fanouts, fanoutCount, slots, member, self, other, rest]

theorem claimEntry_eq {n : Nat} {g : Gate Signal} (slot : net.gate? n = some g)
    (sound : ∀ holder, net.table[g]? = some holder → net.isDead holder = false) :
    ∃ table, net.claimEntry n = { net with table } ∧
      ∀ k, table[k]? = if k = g then some ((net.table[g]?).getD n) else net.table[k]? := by
  unfold claimEntry
  simp only [slot]
  cases entry : net.table[g]? with
  | none => exact ⟨net.table.insert g n, rfl, fun k => by simp [getElem?_insert_table]⟩
  | some holder =>
    refine ⟨net.table, by simp [sound holder entry], fun k => ?_⟩
    split
    · rename_i same
      rw [same, entry]
      rfl
    · rfl

theorem restored_reattach {n : Nat} {g : Gate Signal} (slot : net.gate? n = some g)
    (nodup : g.nodes.Nodup) (inside : ∀ m ∈ g.nodes, m < net.size)
    (absent : ∀ m ∈ g.nodes, n ∉ net.fanouts m)
    (sound : ∀ holder, net.table[g]? = some holder → net.isDead holder = false) :
    Restored net (net.reattach n) n g := by
  obtain ⟨self, found⟩ := getElem?_eq_some_of_lt (lt_size_of_gate? slot)
  let woken : Network := { net.modifyNode n fun node => { node with dead := false } with
    numGates := net.numGates + 1 }
  have read (m : Nat) : woken.nodes[m]? =
      if n = m then net.nodes[m]?.map fun node => { node with dead := false }
      else net.nodes[m]? := getElem?_modifyNode ..
  have same : woken.gate? n = some g := by
    unfold gate? at slot ⊢
    rw [read, if_pos rfl]
    rw [found] at slot ⊢
    exact slot
  have alive (m : Nat) : woken.isDead m = (m != n && net.isDead m) := by
    unfold isDead
    rw [read]
    by_cases hit : n = m
    · subst hit
      simp [found]
    · have other : ¬m = n := fun h => hit h.symm
      simp [hit, other]
  obtain ⟨table, claimed, entries⟩ := claimEntry_eq same (by
    intro holder entry
    rw [alive, sound holder entry, Bool.and_false])
  obtain ⟨nodes, linked, size, slots⟩ := foldl_linkFanin n g.operands (woken.claimEntry n) nodup
  have shape : net.reattach n = { woken with table, nodes } := by
    unfold reattach
    change ((woken.claimEntry n).fanins n).foldl (linkFanin n) (woken.claimEntry n) = _
    have kept : (woken.claimEntry n).fanins n = g.operands := by
      rw [claimed]
      exact fanins_eq_operands same
    rw [kept, linked, claimed]
  rw [claimed] at size slots
  simp only [read] at slots
  have sizes : nodes.size = net.nodes.size := by simpa [woken, modifyNode] using size
  rw [shape]
  constructor
  case frame => exact ⟨rfl, rfl, rfl, fun start => start.trans sizes.symm⟩
  case size => exact sizes
  case table => exact entries
  case outputs => rfl
  case numGates => rfl
  all_goals intro m
  all_goals
    by_cases member : m ∈ g.operands.map (·.node)
    · obtain ⟨node, rest⟩ := getElem?_eq_some_of_lt (inside m member)
      have away := absent m member
      simp only [fanouts, rest] at away
      have away : n ∉ node.fanouts := away
      by_cases hit : n = m
      · subst hit
        simp [Gate.nodes, body?, isDead, fanouts, fanoutCount, slots, member, rest,
          Node.link, Node.addFanout, away]
      · have other : ¬m = n := fun h => hit h.symm
        simp [Gate.nodes, body?, isDead, fanouts, fanoutCount, slots, member, hit, other, rest,
          Node.link, Node.addFanout, away]
    · by_cases hit : n = m
      · subst hit
        simp [Gate.nodes, body?, isDead, fanouts, fanoutCount, slots, member, found]
      · have other : ¬m = n := fun h => hit h.symm
        simp [Gate.nodes, body?, isDead, fanouts, fanoutCount, slots, member, hit, other]

theorem rewired_rewireGate {n old : Nat} {g h : Gate Signal} {new : Signal}
    (slot : net.gate? n = some g) (differ : old ≠ new.node) (inside : new.node < net.size)
    (absent : n ∉ net.fanouts new.node) :
    Rewired net (net.rewireGate n h old new) n g h old new.node := by
  obtain ⟨self, found⟩ := getElem?_eq_some_of_lt (lt_size_of_gate? slot)
  obtain ⟨target, there⟩ := getElem?_eq_some_of_lt inside
  have away : n ∉ target.fanouts := by simpa [fanouts, there] using absent
  obtain ⟨table, dropped, entries⟩ := dropEntry_eq slot
  have slots (m : Nat) : (net.rewireGate n h old new).nodes[m]? =
      let own := if n = m then net.nodes[m]?.map fun node => { node with body := .gate h }
        else net.nodes[m]?
      if m = old then own.map (·.unlink n)
      else if m = new.node then own.map (·.link n) else own := by
    simp only [rewireGate, dropped, linkFanin_eq, decrCount, getElem?_modifyNode]
    by_cases fromOld : m = old
    · subst fromOld
      have other : ¬new.node = m := fun same => differ same.symm
      simp only [other, ↓reduceIte, Option.map_map]
      rfl
    · have other : ¬old = m := fun same => fromOld same.symm
      by_cases toNew : m = new.node
      · subst toNew
        simp only [fromOld, other, ↓reduceIte]
      · have outside : ¬new.node = m := fun same => toNew same.symm
        simp only [fromOld, toNew, other, outside, ↓reduceIte]
  constructor
  case frame =>
    simp only [rewireGate, dropped, linkFanin_eq, decrCount, modifyNode]
    exact ⟨rfl, rfl, rfl, fun start => start.trans (by simp [Network.size])⟩
  case size =>
    simp only [rewireGate, dropped, linkFanin_eq, decrCount, modifyNode]
    simp [Network.size]
  case table =>
    intro k
    simp only [rewireGate, dropped, linkFanin_eq, decrCount, modifyNode, getElem?_insert_table,
      entries]
  case outputs =>
    simp only [rewireGate, dropped, linkFanin_eq, decrCount, modifyNode]
  case numGates =>
    simp only [rewireGate, dropped, linkFanin_eq, decrCount, modifyNode]
  all_goals intro m
  all_goals
    by_cases hit : n = m
    · subst hit
      by_cases fromOld : n = old
      · subst fromOld
        simp [body?, isDead, fanouts, fanoutCount, slots, found]
      · by_cases toNew : n = new.node
        · subst toNew
          obtain rfl : target = self := by simpa [there] using found
          simp [body?, isDead, fanouts, fanoutCount, slots, found, fromOld,
            Node.link, Node.addFanout, away]
        · simp [body?, isDead, fanouts, fanoutCount, slots, found, fromOld, toNew]
    · have other : ¬m = n := fun h => hit h.symm
      by_cases fromOld : m = old
      · subst fromOld
        cases rest : net.nodes[m]? <;>
          simp [body?, isDead, fanouts, fanoutCount, slots, hit, other, rest]
      · by_cases toNew : m = new.node
        · subst toNew
          simp [body?, isDead, fanouts, fanoutCount, slots, hit, other, fromOld, there,
            Node.link, Node.addFanout, away]
        · simp [body?, isDead, fanouts, fanoutCount, slots, hit, other, fromOld, toNew]

theorem outputsMoved_redirectOutputs {old : Nat} {new : Signal} (differ : old ≠ new.node)
    (inside : new.node < net.size) : OutputsMoved net (net.redirectOutputs old new) old new := by
  obtain ⟨target, there⟩ := getElem?_eq_some_of_lt inside
  have slots (m : Nat) : (net.redirectOutputs old new).nodes[m]? =
      if m = old then net.nodes[m]?.map fun node =>
        { node with fanoutCount := node.fanoutCount - net.outputReferences old }
      else if m = new.node then net.nodes[m]?.map fun node =>
        { node with fanoutCount := node.fanoutCount + net.outputReferences old }
      else net.nodes[m]? := by
    unfold redirectOutputs
    rw [getElem?_modifyNode, getElem?_modifyNode]
    by_cases fromOld : m = old
    · subst fromOld
      have other : ¬new.node = m := fun same => differ same.symm
      simp [other]
    · have other : ¬old = m := fun same => fromOld same.symm
      by_cases toNew : m = new.node
      · subst toNew
        simp [fromOld, other]
      · have outside : ¬new.node = m := fun same => toNew same.symm
        simp [fromOld, toNew, other, outside]
  constructor
  case frame => exact ⟨rfl, rfl, rfl, fun start => start.trans
    (by simp [redirectOutputs, modifyNode, Network.size])⟩
  case size => simp [redirectOutputs, modifyNode, Network.size]
  case table => rfl
  case outputs => rfl
  case numGates => rfl
  all_goals intro m
  all_goals
    by_cases fromOld : m = old
    · subst fromOld
      cases rest : net.nodes[m]? <;> simp [body?, isDead, fanouts, fanoutCount, slots, rest]
    · by_cases toNew : m = new.node
      · subst toNew
        simp [body?, isDead, fanouts, fanoutCount, slots, fromOld, there]
      · simp [body?, isDead, fanouts, fanoutCount, slots, fromOld, toNew]

variable {mid : Network}

theorem Appended.relevel {g : Gate Signal} (change : Appended net mid g)
    (levels : Relevelled mid net') : Appended net net' g := by
  have frame := change.frame.relevel levels
  obtain ⟨levels, journal, rfl, -⟩ := levels
  exact { change with frame }

theorem Restored.relevel {n : Nat} {g : Gate Signal} (change : Restored net mid n g)
    (levels : Relevelled mid net') : Restored net net' n g := by
  have frame := change.frame.relevel levels
  obtain ⟨levels, journal, rfl, -⟩ := levels
  exact { change with frame }

theorem Rewired.relevel {n old new : Nat} {g h : Gate Signal}
    (change : Rewired net mid n g h old new) (levels : Relevelled mid net') :
    Rewired net net' n g h old new := by
  have frame := change.frame.relevel levels
  obtain ⟨levels, journal, rfl, -⟩ := levels
  exact { change with frame }

end Network

end LogicOpt
