import LogicOpt.Proofs.Upkeep

namespace LogicOpt

open Network

/-- The fanins of the live gates, as a subscriber may keep them. -/
abbrev GateMap := Nat → Option (List Signal)

def GateMap.ofNodes (nodes : Array Node) : GateMap := fun n =>
  nodes[n]?.bind fun node => if node.dead then none else node.gate?.map (·.operands)

namespace Event

/-- What a map has to say before an event is shown: a gate that is added is not there, a gate that is
    modified is there with its old fanins, a gate that is removed is there. -/
def Fits (map : GateMap) : Event → Prop
  | added n => map n = none
  | modified n oldFanins => map n = some oldFanins
  | removed n => (map n).isSome = true

/-- The map once an event is entered. The fanins of a gate are read off the nodes that are shown. -/
def enter (nodes : Array Node) (map : GateMap) : Event → GateMap
  | added n | modified n _ => fun m =>
    if m = n then some ((nodes[n]?.map (·.fanins)).getD []) else map m
  | removed n => fun m => if m = n then none else map m

end Event

/-- An event with the nodes and the recorded levels at the moment it is fired. -/
structure Firing where
  event : Event
  nodes : Array Node
  levels : Array Nat

namespace Firing

/-- What the journal keeps of an event that goes to these subscribers in this order. Each of them
    has reacted before the next one is shown the event. -/
def deliveries : List Subscription → Firing → List Delivery
  | [], _ => []
  | s :: rest, f =>
    let later := deliveries rest { f with levels := s.reaction.relevel f.event f.nodes f.levels }
    if s.journaled then ⟨s.id, f.event, f.nodes, f.levels⟩ :: later else later

theorem map_deliveries (subscriptions : List Subscription) (f : Firing) :
    (deliveries subscriptions f).map (fun d => (d.subscription, d.event, d.nodes)) =
      (subscriptions.filter (·.journaled)).map fun s => (s.id, f.event, f.nodes) := by
  induction subscriptions generalizing f with
  | nil => rfl
  | cons s rest ih =>
    simp only [deliveries, List.filter_cons]
    split
    · rw [List.map_cons, List.map_cons, ih]
    · rw [ih]

theorem deliveries_concat {s : Subscription} (silent : s.journaled = false)
    (subscriptions : List Subscription) (f : Firing) :
    deliveries (subscriptions ++ [s]) f = deliveries subscriptions f := by
  induction subscriptions generalizing f with
  | nil => simp [deliveries, silent]
  | cons first rest ih => simp only [List.cons_append, deliveries, ih]

end Firing

/-- A map that starts as the live gates has them after every one of the firings, and at the end. -/
inductive Followed : GateMap → List Firing → GateMap → Prop where
  | nil {map : GateMap} : Followed map [] map
  | cons {map last : GateMap} {f : Firing} {rest : List Firing} (fits : f.event.Fits map)
      (shows : GateMap.ofNodes f.nodes = f.event.enter f.nodes map)
      (later : Followed (.ofNodes f.nodes) rest last) : Followed map (f :: rest) last

theorem Followed.append {map mid last : GateMap} {first second : List Firing}
    (head : Followed map first mid) (tail : Followed mid second last) :
    Followed map (first ++ second) last := by
  induction head with
  | nil => exact tail
  | cons fits shows later ih => exact .cons fits shows (ih tail)

namespace Network

variable {net mid net' : Network}

def gateMap (net : Network) : GateMap := .ofNodes net.nodes

/-- The journal was continued by these events, and they account for what became of the live gates. -/
structure Told (net : Network) (events : List Event) (net' : Network) : Prop where
  subscriptions : net'.subscriptions = net.subscriptions
  firings : ∃ firings : List Firing, firings.map (·.event) = events ∧
    net'.journal.toList = net.journal.toList ++ firings.flatMap (·.deliveries net.subscriptions) ∧
      Followed net.gateMap firings net'.gateMap

def Announced (net net' : Network) : Prop := ∃ events, Told net events net'

theorem told_of_silent (subscriptions : net'.subscriptions = net.subscriptions)
    (journal : net'.journal = net.journal) (same : net'.gateMap = net.gateMap) : Told net [] net' :=
  ⟨subscriptions, [], rfl, by simp [journal], same ▸ .nil⟩

theorem Told.trans {first second : List Event} (head : Told net first mid)
    (tail : Told mid second net') : Told net (first ++ second) net' := by
  obtain ⟨fired, named, journal, followed⟩ := head.firings
  obtain ⟨fired', named', journal', followed'⟩ := tail.firings
  refine ⟨tail.subscriptions.trans head.subscriptions, fired ++ fired', ?_, ?_,
    followed.append followed'⟩
  · rw [List.map_append, named, named']
  · rw [journal', journal, head.subscriptions, List.flatMap_append, List.append_assoc]

theorem Told.announced {events : List Event} (told : Told net events net') : Announced net net' :=
  ⟨events, told⟩

theorem Announced.subscriptions (announced : Announced net net') :
    net'.subscriptions = net.subscriptions := announced.choose_spec.subscriptions

theorem Announced.firings (announced : Announced net net') : ∃ firings : List Firing,
    net'.journal.toList = net.journal.toList ++ firings.flatMap (·.deliveries net.subscriptions) ∧
      Followed net.gateMap firings net'.gateMap := by
  obtain ⟨events, told⟩ := announced
  obtain ⟨firings, -, followed⟩ := told.firings
  exact ⟨firings, followed⟩

theorem announced_of_silent (subscriptions : net'.subscriptions = net.subscriptions)
    (journal : net'.journal = net.journal) (same : net'.gateMap = net.gateMap) :
    Announced net net' := (told_of_silent subscriptions journal same).announced

theorem Announced.refl (net : Network) : Announced net net := announced_of_silent rfl rfl rfl

theorem Announced.trans (head : Announced net mid) (tail : Announced mid net') :
    Announced net net' := by
  obtain ⟨first, head⟩ := head
  obtain ⟨second, tail⟩ := tail
  exact (head.trans tail).announced

theorem journal_notify (net : Network) (event : Event) :
    (net.notify event).journal.toList = net.journal.toList ++
      Firing.deliveries net.subscriptions ⟨event, net.nodes, net.levels⟩ := by
  -- A subscriber may change the levels, so the next one is shown others, but the same nodes.
  have shown (subscriptions : List Subscription) (net : Network) :
      (subscriptions.foldl (deliver event) net).journal.toList = net.journal.toList ++
        Firing.deliveries subscriptions ⟨event, net.nodes, net.levels⟩ := by
    induction subscriptions generalizing net with
    | nil => simp [Firing.deliveries]
    | cons s rest ih =>
      rw [List.foldl_cons, ih, Firing.deliveries, deliver]
      split <;> simp
  exact shown net.subscriptions net

theorem nodes_notify (net : Network) (event : Event) : (net.notify event).nodes = net.nodes := by
  obtain ⟨levels, journal, same, -⟩ := notify_eq net event
  rw [same]

theorem subscriptions_notify (net : Network) (event : Event) :
    (net.notify event).subscriptions = net.subscriptions := by
  obtain ⟨levels, journal, same, -⟩ := notify_eq net event
  rw [same]

theorem told_notify {event : Event} (subscriptions : mid.subscriptions = net.subscriptions)
    (journal : mid.journal = net.journal) (fits : event.Fits net.gateMap)
    (shows : mid.gateMap = event.enter mid.nodes net.gateMap) :
    Told net [event] (mid.notify event) := by
  refine ⟨(subscriptions_notify mid event).trans subscriptions,
    [⟨event, mid.nodes, mid.levels⟩], rfl, ?_, ?_⟩
  · rw [journal_notify, journal, subscriptions, List.flatMap_singleton]
  · have same : (mid.notify event).gateMap = mid.gateMap := by
      rw [gateMap, nodes_notify]
      rfl
    rw [same]
    exact .cons fits shows .nil

theorem announced_notify {event : Event} (subscriptions : mid.subscriptions = net.subscriptions)
    (journal : mid.journal = net.journal) (fits : event.Fits net.gateMap)
    (shows : mid.gateMap = event.enter mid.nodes net.gateMap) :
    Announced net (mid.notify event) :=
  (told_notify subscriptions journal fits shows).announced

theorem gateMap_eq (net : Network) (n : Nat) :
    net.gateMap n = if net.isDead n then none else (net.gate? n).map (·.operands) := by
  unfold gateMap GateMap.ofNodes isDead gate?
  cases net.nodes[n]? <;> rfl

theorem gateMap_eq_some {n : Nat} {g : Gate Signal} (slot : net.gate? n = some g)
    (awake : net.isDead n = false) : net.gateMap n = some g.operands := by
  rw [gateMap_eq, awake, slot]
  rfl

theorem gateMap_congr {m : Nat} (body : net'.body? m = net.body? m)
    (dead : net'.isDead m = net.isDead m) : net'.gateMap m = net.gateMap m := by
  rw [gateMap_eq, gateMap_eq, dead, gate?_eq_body?, gate?_eq_body?, body]

theorem gateMap_of_slot {n : Nat} {g : Gate Signal} (slot : net'.gate? n = some g)
    (awake : net'.isDead n = false)
    (others : ∀ m, m ≠ n → net'.body? m = net.body? m ∧ net'.isDead m = net.isDead m) :
    net'.gateMap = (Event.added n).enter net'.nodes net.gateMap := by
  funext m
  by_cases self : m = n
  · subst self
    have fanins : (net'.nodes[m]?.map (·.fanins)).getD [] = g.operands := fanins_eq_operands slot
    simp only [Event.enter, ↓reduceIte, fanins]
    exact gateMap_eq_some slot awake
  · simp only [Event.enter, if_neg self]
    exact gateMap_congr (others m self).1 (others m self).2

theorem journal_foldl_linkFanin (consumer : Nat) (fanins : List Signal) (net : Network) :
    (fanins.foldl (linkFanin consumer) net).journal = net.journal := by
  induction fanins generalizing net with
  | nil => rfl
  | cons f rest ih => exact ih _

theorem announced_append {g : Gate Signal} {level : Nat}
    (change : Appended net (net.appendGate g level) g) :
    Announced net ((net.appendGate g level).notify (.added net.size)) := by
  refine announced_notify change.frame.subscriptions (journal_foldl_linkFanin ..) ?_ ?_
  · rw [Event.Fits, gateMap_eq, gate?_eq_none_of_size_le (Nat.le_refl _)]
    split <;> rfl
  · refine gateMap_of_slot (g := g) ?_ ?_ fun m other => ⟨?_, change.dead m⟩
    · rw [gate?_eq_some, change.body, if_pos rfl]
    · rw [change.dead]
      exact isDead_eq_false_of_size_le (Nat.le_refl _)
    · rw [change.body, if_neg other]

theorem announced_restore {n level : Nat} {g : Gate Signal} (slot : net.gate? n = some g)
    (dead : net.isDead n = true) (change : Restored net (net.reattach n) n g) :
    Announced net (((net.reattach n).setLevel n level).notify (.added n)) := by
  have journal : (net.reattach n).journal = net.journal := by
    unfold reattach
    simp only [journal_foldl_linkFanin]
    unfold claimEntry
    split
    · split
      · split <;> rfl
      · rfl
    · rfl
  have levelled : Restored net ((net.reattach n).setLevel n level) n g :=
    change.relevel (relevelled_setLevel ..)
  refine announced_notify levelled.frame.subscriptions journal ?_ ?_
  · rw [Event.Fits, gateMap_eq, dead]
    rfl
  · refine gateMap_of_slot (g := g) ?_ ?_ fun m other => ⟨levelled.body m, ?_⟩
    · rw [gate?_congr (levelled.body n), slot]
    · simp [levelled.dead]
    · simp [levelled.dead, other]

theorem announced_rewire {n old : Nat} {g h : Gate Signal} {new : Signal}
    (slot : net.gate? n = some g) (awake : net.isDead n = false)
    (change : Rewired net (net.rewireGate n h old new) n g h old new.node) :
    Announced net ((net.rewireGate n h old new).notify (.modified n g.operands)) := by
  have journal : (net.rewireGate n h old new).journal = net.journal := by
    obtain ⟨table, dropped, -⟩ := dropEntry_eq slot
    simp only [rewireGate, dropped]
    rfl
  refine announced_notify change.frame.subscriptions journal (gateMap_eq_some slot awake) ?_
  refine gateMap_of_slot (g := h) ?_ ?_ fun m other => ⟨?_, change.dead m⟩
  · rw [gate?_eq_some, change.body, if_pos rfl]
  · rw [change.dead, awake]
  · rw [change.body, if_neg other]

theorem announced_moveOutputs {old : Nat} {new : Signal}
    (change : OutputsMoved net (net.redirectOutputs old new) old new) :
    Announced net (net.redirectOutputs old new) :=
  announced_of_silent change.frame.subscriptions rfl
    (funext fun m => gateMap_congr (change.body m) (change.dead m))

theorem told_remove {n : Nat} {g : Gate Signal} (work : List Nat)
    (slot : net.gate? n = some g) (awake : net.isDead n = false) (nodup : g.nodes.Nodup) :
    Told net [.removed n] (net.removeGate n work).1 := by
  have killed : Told net [.removed n] ((net.kill n).notify (.removed n)) := by
    obtain ⟨table, dropped, -⟩ := dropEntry_eq slot
    obtain ⟨node, found⟩ := getElem?_eq_some_of_lt (lt_size_of_gate? slot)
    have marked : net.kill n = { net with
        table
        nodes := net.nodes.modify n fun node => { node with dead := true, fanoutCount := 0 }
        numGates := net.numGates - 1 } := by
      simp only [kill, dropped]
      rfl
    refine told_notify (by rw [marked]) (by rw [marked]) ?_ ?_
    · rw [Event.Fits, gateMap_eq_some slot awake]
      rfl
    · funext m
      rw [marked]
      simp only [gateMap, GateMap.ofNodes, Event.enter, Array.getElem?_modify]
      by_cases self : n = m
      · subst self
        simp [found]
      · have other : ¬m = n := fun same => self same.symm
        simp [self, other]
  -- The event is out before the fanins are released, which touches no live gate's fanins.
  refine killed.trans ?_
  obtain ⟨nodes, added, same, -, -, slots⟩ := foldl_releaseFanin n g.operands
    ((net.kill n).notify (.removed n)) work nodup
  rw [removeGate, fanins_eq_operands slot, same]
  refine told_of_silent rfl rfl (funext fun m => ?_)
  simp only [gateMap, GateMap.ofNodes, slots]
  split
  · cases ((net.kill n).notify (.removed n)).nodes[m]? with
    | none => rfl
    | some node => cases node; rfl
  · rfl

end Network

end LogicOpt
