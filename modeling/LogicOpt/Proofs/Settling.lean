import LogicOpt.Proofs.Scheduling

/-!
What a substitution leaves behind as long as no pending target has died. A node that was replaced is
read by nodes with a replacement of their own only, so in the end, the network being acyclic, none
of the replaced nodes is live.
-/

namespace LogicOpt

open Relation Network

variable {net net' : Network}

namespace Replacements

theorem exists_getElem?_record {r : Replacements} {n q : Nat} (new : Signal)
    (known : n = q ∨ ∃ s, r.replaced[q]? = some s) :
    ∃ s, (r.record n new).replaced[q]? = some s := by
  rw [getElem?_record]
  split
  · exact ⟨new, rfl⟩
  · rename_i other
    exact known.resolve_left other

theorem follow_spec {replaced : Std.TreeMap Nat Signal} {hops : Nat} {s answer : Signal}
    (run : follow replaced hops s = .ok answer) :
    replaced[answer.node]? = none ∧
      (answer = s ∨ ∃ (n : Nat) (t : Signal), replaced[n]? = some t ∧ t.node = answer.node) := by
  induction hops generalizing s with
  | zero =>
    unfold follow at run
    split at run
    · rename_i absent
      cases run
      exact ⟨absent, .inl rfl⟩
    · cases run
  | succ hops ih =>
    unfold follow at run
    split at run
    · rename_i absent
      cases run
      exact ⟨absent, .inl rfl⟩
    · rename_i next entry
      obtain ⟨absent, same | later⟩ := ih (s := next.negateIf s.negated) run
      · exact ⟨absent, .inr ⟨s.node, next, entry, by rw [same, Signal.node_negateIf]⟩⟩
      · exact ⟨absent, .inr later⟩

theorem resolve_of_absent {r : Replacements} {s : Signal} (absent : r.replaced[s.node]? = none) :
    r.resolve s = .ok s := by
  unfold resolve follow
  simp [absent]

theorem resolveAll_of_absent {r : Replacements} {signals : List Signal}
    (absent : ∀ s ∈ signals, r.replaced[s.node]? = none) : signals.mapM r.resolve = .ok signals := by
  induction signals with
  | nil => rfl
  | cons s rest ih =>
    rw [List.forall_mem_cons] at absent
    rw [List.mapM_cons, resolve_of_absent absent.1, ih absent.2]
    rfl

end Replacements

/-- Live gates and outputs read what they read before, and otherwise only nodes as `fresh` says;
    slots as `kept` says are as they were. -/
structure Shift (net net' : Network) (kept fresh : Nat → Prop) : Prop where
  size_le : net.size ≤ net'.size
  reads : ∀ m n, net'.isLiveGate n = true → net'.Feeds m n →
    (net.isLiveGate n = true ∧ net.Feeds m n) ∨ fresh m
  outputs : ∀ o' ∈ net'.outputs,
    (∃ o ∈ net.outputs, o.signal.node = o'.signal.node) ∨ fresh o'.signal.node
  body : ∀ n, kept n → net'.body? n = net.body? n

theorem Shift.of_bodies {kept fresh : Nat → Prop} (size : net'.size = net.size)
    (body : ∀ m, net'.body? m = net.body? m)
    (live : ∀ m, net'.isLiveGate m = true → net.isLiveGate m = true)
    (outputs : ∀ o' ∈ net'.outputs,
      (∃ o ∈ net.outputs, o.signal.node = o'.signal.node) ∨ fresh o'.signal.node) :
    Shift net net' kept fresh where
  size_le := Nat.le_of_eq size.symm
  reads := fun _ n running feeds => .inl ⟨live n running, (feeds_congr (body n)).1 feeds⟩
  outputs := outputs
  body := fun n _ => body n

theorem Shift.mono {kept kept' fresh fresh' : Nat → Prop} (shift : Shift net net' kept fresh)
    (fewer : ∀ n, kept' n → kept n) (more : ∀ n, fresh n → fresh' n) :
    Shift net net' kept' fresh' where
  size_le := shift.size_le
  reads := fun m n running feeds => (shift.reads m n running feeds).imp_right (more m)
  outputs := fun o member => (shift.outputs o member).imp_right (more _)
  body := fun n kept => shift.body n (fewer n kept)

theorem Shift.trans {mid : Network} {kept kept' fresh : Nat → Prop} (first : Shift net mid kept fresh)
    (second : Shift mid net' kept' fresh) (more : ∀ n, kept n → kept' n) :
    Shift net net' kept fresh where
  size_le := Nat.le_trans first.size_le second.size_le
  reads := fun m n running feeds => by
    rcases second.reads m n running feeds with ⟨running, feeds⟩ | new
    · exact first.reads m n running feeds
    · exact .inr new
  outputs := fun o'' member => by
    rcases second.outputs o'' member with ⟨o', there, same⟩ | new
    · rw [← same]
      exact first.outputs o' there
    · exact .inr new
  body := fun n kept => by rw [second.body n (more n kept), first.body n kept]

theorem Network.Trimmed.isLiveGate (trimmed : Trimmed net net') {m : Nat}
    (live : net'.isLiveGate m = true) : net.isLiveGate m = true := by
  obtain ⟨⟨g, slot⟩, awake⟩ := isLiveGate_eq_true.1 live
  refine isLiveGate_eq_true.2 ⟨⟨g, by rwa [gate?_congr (trimmed.body m)] at slot⟩, ?_⟩
  refine Bool.eq_false_iff.2 fun dead => ?_
  rw [trimmed.dead dead] at awake
  cases awake

theorem Created.shift {g : Gate Signal} {s : Signal} (created : Created net g s net') :
    Shift net net' (· < net.size) (· ∈ g.nodes) := by
  have outputs : ∀ o' ∈ net'.outputs,
      (∃ o ∈ net.outputs, o.signal.node = o'.signal.node) ∨ o'.signal.node ∈ g.nodes :=
    fun o member => .inl ⟨o, by rwa [← created.outputs], rfl⟩
  refine ⟨created.size_le, fun m n running feeds => ?_, outputs, fun n inside => created.body inside⟩
  cases created with
  | folded => exact .inl ⟨running, feeds⟩
  | shared => exact .inl ⟨running, feeds⟩
  | appended shape absent change =>
    rcases change.feeds.1 feeds with ⟨-, member⟩ | reads
    · exact .inr ((Gate.normalize_gate shape).2.2.subset member)
    · obtain ⟨k, slot, -⟩ := feeds_iff.1 reads
      have older := ((change.isLiveGate n).1 running).resolve_left
        (Nat.ne_of_lt (lt_size_of_gate? slot))
      exact .inl ⟨older, reads⟩

theorem Network.Rewired.shift {n old new : Nat} {g h : Gate Signal}
    (change : Rewired net net' n g h old new) (slot : net.gate? n = some g)
    (reads : ∀ m ∈ h.nodes, m = new ∨ m ∈ g.nodes) :
    Shift net net' (· ≠ n) (· = new) where
  size_le := Nat.le_of_eq change.size.symm
  reads := fun m k running feeds => by
    rw [change.isLiveGate slot] at running
    rw [change.feeds] at feeds
    split at feeds
    · rename_i self
      subst self
      rcases reads m feeds with here | member
      · exact .inr here
      · exact .inl ⟨running, feeds_of_gate? slot member⟩
    · exact .inl ⟨running, feeds⟩
  outputs := fun o member => .inl ⟨o, by rwa [← change.outputs], rfl⟩
  body := fun m other => by rw [change.body, if_neg other]

/-- Only nodes that have a replacement of their own read a replaced node, and something does. The
    replacement of a busy node is under way. -/
structure Settled (net : Network) (r : Replacements) (busy : Nat → Prop) : Prop where
  inside : ∀ (n : Nat) (s : Signal), r.replaced[n]? = some s → n < net.size
  readers : ∀ (n : Nat) (s : Signal), r.replaced[n]? = some s →
    ∀ c, net.isLiveGate c = true → net.Feeds n c → r.handles c = true
  outputs : ∀ o ∈ net.outputs, r.replaced[o.signal.node]? = none
  read : ∀ (n : Nat) (s : Signal), r.replaced[n]? = some s → ¬busy n → ¬net.Dangling n
  handled : ∀ q, r.handles q = true →
    (∃ s, r.replaced[q]? = some s) ∨ (∃ p ∈ r.queue, p.1 = q) ∨ busy q

namespace Settled

variable {r : Replacements} {busy kept fresh : Nat → Prop}

theorem start (old : Nat) (new : Signal) : Settled net (.start old new) fun _ => False where
  inside := fun n s entry => by simp [Replacements.start] at entry
  readers := fun n s entry => by simp [Replacements.start] at entry
  outputs := fun o _ => by simp [Replacements.start]
  read := fun n s entry => by simp [Replacements.start] at entry
  handled := fun q handled => by
    have same : old = q := by simpa [Replacements.handles, Replacements.start] using handled
    exact .inr (.inl ⟨(old, new), by simp [Replacements.start], same⟩)

theorem pop (settled : Settled net r fun _ => False) {old : Nat} {target : Signal}
    {rest : List (Nat × Signal)} (queue : r.queue = (old, target) :: rest) :
    Settled net { r with queue := rest } (· = old) where
  inside := settled.inside
  readers := settled.readers
  outputs := settled.outputs
  read := fun n s entry _ => settled.read n s entry id
  handled := fun q handled => by
    rcases settled.handled q handled with done | ⟨p, member, same⟩ | none
    · exact .inl done
    · rw [queue] at member
      rcases List.mem_cons.1 member with rfl | member
      · exact .inr (.inr same.symm)
      · exact .inr (.inl ⟨p, member, same⟩)
    · exact none.elim

theorem shift (settled : Settled net r busy) (shift : Shift net net' kept fresh)
    (clear : ∀ m, fresh m → r.replaced[m]? = none)
    (dangling : ∀ (n : Nat) (s : Signal), r.replaced[n]? = some s → ¬busy n → net'.Dangling n →
      net.Dangling n) :
    Settled net' r busy where
  inside := fun n s entry => Nat.lt_of_lt_of_le (settled.inside n s entry) shift.size_le
  readers := fun n s entry c live feeds => by
    rcases shift.reads n c live feeds with ⟨live, feeds⟩ | fresh
    · exact settled.readers n s entry c live feeds
    · rw [clear n fresh] at entry
      cases entry
  outputs := fun o' member => by
    rcases shift.outputs o' member with ⟨o, there, same⟩ | fresh
    · rw [← same]
      exact settled.outputs o there
    · exact clear _ fresh
  read := fun n s entry idle left => settled.read n s entry idle (dangling n s entry idle left)
  handled := settled.handled

theorem enqueue (settled : Settled net r busy) (consumer : Nat) (target : Signal) :
    Settled net (r.enqueue consumer target) busy where
  inside := settled.inside
  readers := fun n s entry c live feeds => by
    rw [Replacements.handles_enqueue, settled.readers n s entry c live feeds, Bool.or_true]
  outputs := settled.outputs
  read := settled.read
  handled := fun q handled => by
    rw [Replacements.handles_enqueue, Bool.or_eq_true, beq_iff_eq] at handled
    rcases handled with rfl | handled
    · exact .inr (.inl ⟨(consumer, target), by simp [Replacements.enqueue], rfl⟩)
    · refine (settled.handled q handled).imp_right (.imp_left ?_)
      rintro ⟨p, member, same⟩
      exact ⟨p, List.mem_append_left _ member, same⟩

theorem record {old : Nat} (settled : Settled net r (· = old)) (new : Signal)
    (inside : old < net.size) (readers : ∀ c, net.isLiveGate c = true → net.Feeds old c →
      r.handles c = true)
    (outputs : ∀ o ∈ net.outputs, o.signal.node ≠ old) (read : ¬net.Dangling old) :
    Settled net (r.record old new) fun _ => False where
  inside := fun n s entry => by
    rw [Replacements.getElem?_record] at entry
    split at entry
    · rename_i same
      exact same ▸ inside
    · exact settled.inside n s entry
  readers := fun n s entry c live feeds => by
    rw [Replacements.handles_record, Bool.or_eq_true]
    rw [Replacements.getElem?_record] at entry
    split at entry
    · rename_i same
      exact .inr (readers c live (same ▸ feeds))
    · exact .inr (settled.readers n s entry c live feeds)
  outputs := fun o member => by
    rw [Replacements.getElem?_record, if_neg fun same => outputs o member same.symm]
    exact settled.outputs o member
  read := fun n s entry _ => by
    rw [Replacements.getElem?_record] at entry
    split at entry
    · rename_i same
      exact same ▸ read
    · rename_i other
      exact settled.read n s entry fun same => other same.symm
  handled := fun q handled => by
    rw [Replacements.handles_record, Bool.or_eq_true, beq_iff_eq] at handled
    by_cases same : old = q
    · exact .inl ⟨new, by rw [Replacements.getElem?_record, if_pos same]⟩
    · rw [Replacements.getElem?_record, if_neg same]
      exact (settled.handled q (handled.resolve_left same)).imp_right
        (.imp_right fun busy => absurd busy.symm same)

end Settled

theorem Queued.created {r : Replacements} {old consumer : Nat} {new s : Signal} {g : Gate Signal}
    (target : Queued old new r consumer net g s net') (was : old ∈ g.nodes) (differ : old ≠ new.node)
    (absent : ∀ m, m = new.node ∨ (m ∈ g.nodes ∧ m ≠ old) → r.replaced[m]? = none) :
    ∃ k t, Created net k t net' ∧ t.node = s.node ∧
      ∀ m ∈ k.nodes, m = new.node ∨ (m ∈ g.nodes ∧ m ≠ old) := by
  have redirected : ∀ m ∈ (g.redirect old new).nodes, m = new.node ∨ (m ∈ g.nodes ∧ m ≠ old) := by
    intro m member
    rw [Gate.nodes_redirect] at member
    obtain ⟨k, source, rfl⟩ := List.mem_map.1 member
    split
    · exact .inl rfl
    · rename_i other
      exact .inr ⟨source, other⟩
  cases target with
  | folded shape => exact ⟨_, _, .folded shape, rfl, redirected⟩
  | held shape entry => exact ⟨_, _, .shared shape entry, rfl, redirected⟩
  | @complemented h k s net' shape resolved kind alive created =>
    have reads := (redirected_reads was differ shape).2
    have known : ∀ f ∈ h.operands, r.replaced[f.node]? = none := fun f member =>
      absent f.node ((reads f.node).1 (Gate.mem_nodes.2 ⟨f, member, rfl⟩))
    rw [Replacements.resolveAll_of_absent known] at resolved
    refine ⟨k, s, created, rfl, fun m member => (reads m).1 ?_⟩
    obtain ⟨f, there, rfl⟩ := Gate.mem_nodes.1 member
    refine Gate.mem_nodes.2 ⟨f, ?_, rfl⟩
    rwa [Except.ok.inj resolved]

namespace Settled

variable {r r' : Replacements} {old consumer : Nat} {new : Signal}

theorem operand {busy : Nat → Prop} (settled : Settled net r busy)
    (live : net.isLiveGate consumer = true) (free : r.handles consumer = false) {m : Nat}
    (feeds : net.Feeds m consumer) : r.replaced[m]? = none := by
  cases entry : r.replaced[m]? with
  | none => rfl
  | some s =>
    rw [settled.readers m s entry consumer live feeds] at free
    cases free

theorem queued {busy : Nat → Prop} {g : Gate Signal} {s : Signal} (settled : Settled net r busy)
    (differ : old ≠ new.node) (absent : r.replaced[new.node]? = none)
    (slot : net.gate? consumer = some g) (awake : net.isDead consumer = false)
    (free : r.handles consumer = false) (was : old ∈ g.nodes)
    (target : Queued old new r consumer net g s net') :
    ∃ k t, Created net k t net' ∧ t.node = s.node ∧ ∀ m ∈ k.nodes,
      r.replaced[m]? = none ∧ m ≠ old ∧ (m = new.node ∨ net.Feeds m consumer) := by
  have live := isLiveGate_eq_true.2 ⟨⟨g, slot⟩, awake⟩
  have known : ∀ m, m = new.node ∨ (m ∈ g.nodes ∧ m ≠ old) → r.replaced[m]? = none := by
    rintro m (rfl | ⟨member, other⟩)
    · exact absent
    · exact settled.operand live free (feeds_of_gate? slot member)
  obtain ⟨k, t, created, same, reads⟩ := target.created was differ known
  refine ⟨k, t, created, same, fun m member => ⟨known m (reads m member), ?_⟩⟩
  rcases reads m member with rfl | ⟨there, other⟩
  · exact ⟨differ.symm, .inl rfl⟩
  · exact ⟨other, .inr (feeds_of_gate? slot there)⟩

theorem visit (settled : Settled net r (· = old)) (differ : old ≠ new.node)
    (absent : r.replaced[new.node]? = none) (visited : Visited old new r consumer net r' net') :
    Settled net' r' (· = old) ∧ r'.replaced = r.replaced ∧
    ∀ c, net'.isLiveGate c = true → net'.Feeds old c → r'.handles c = true ∨
      (c ≠ consumer ∧ net.isLiveGate c = true ∧ net.Feeds old c) := by
  have dangling : ∀ (n : Nat) (s : Signal), r.replaced[n]? = some s → ¬n = old → net'.Dangling n →
      net.Dangling n := by
    intro n s entry idle left
    rcases visited.dangling left with before | same | fresh
    · exact before
    · exact absurd same idle
    · exact absurd (settled.inside n s entry) (Nat.not_lt_of_le fresh)
  cases visited with
  | passed reason =>
    refine ⟨settled, rfl, fun c live feeds => ?_⟩
    by_cases here : c = consumer
    · subst here
      rcases reason with dead | handled | unread
      · rw [(isLiveGate_eq_true.1 live).2] at dead
        cases dead
      · exact .inl handled
      · exact absurd feeds unread
    · exact .inr ⟨here, live, feeds⟩
  | @queued g s net' slot awake free was target =>
    obtain ⟨k, t, created, -, known⟩ := settled.queued differ absent slot awake free was target
    have shift := created.shift
    refine ⟨(settled.shift shift (fun m member => (known m member).1) dangling).enqueue consumer s,
      rfl, fun c running feeds => ?_⟩
    by_cases here : c = consumer
    · rw [here, Replacements.handles_enqueue]
      simp
    · rcases shift.reads old c running feeds with ⟨before, reads⟩ | member
      · exact .inr ⟨here, before, reads⟩
      · exact absurd rfl (known old member).2.1
  | @rewired g h net' slot awake free was shape change =>
    have reads := (redirected_reads was differ shape).2
    have shift := change.shift slot fun m member => ((reads m).1 member).imp_right And.left
    refine ⟨settled.shift shift (fun m fresh => fresh ▸ absent) dangling, rfl,
      fun c running feeds => ?_⟩
    rw [change.isLiveGate slot] at running
    rw [change.feeds] at feeds
    split at feeds
    · rcases (reads old).1 feeds with same | ⟨-, other⟩
      · exact absurd same differ
      · exact absurd rfl other
    · rename_i other
      exact .inr ⟨other, running, feeds⟩

end Settled

theorem Visited.handles {r r' : Replacements} {consumer old : Nat} {new : Signal}
    (visited : Visited old new r consumer net r' net') {q : Nat} (handled : r.handles q = true) :
    r'.handles q = true := by
  cases visited with
  | passed => exact handled
  | queued => rw [Replacements.handles_enqueue, handled, Bool.or_true]
  | rewired => exact handled

/-- What holds of a substitution between two replacements. -/
structure Settling (root : Nat) (net : Network) (r : Replacements) : Prop where
  consistent : net.Consistent
  scheduled : ∃ swap, Schedule root net r swap
  settled : Settled net r fun _ => False

/-- The consumers of `old` are being redirected to `new`; those listed are still to be visited. -/
structure Redirecting (root old : Nat) (new : Signal) (replaced : Std.TreeMap Nat Signal)
    (consumers : List Nat) (r : Replacements) (net : Network) : Prop where
  same : r.replaced = replaced
  scheduled : ∃ swap, Schedule root net r swap ∧ (∃ u, swap old u) ∧ TransGen swap old new.node
  settled : Settled net r (· = old)
  covered : ∀ c, net.isLiveGate c = true → net.Feeds old c → c ∈ consumers ∨ r.handles c = true

namespace Redirecting

variable {root old : Nat} {new : Signal} {consumers : List Nat}
  {replaced : Std.TreeMap Nat Signal} {r r' : Replacements}

theorem start {swap : Nat → Nat → Prop} {u : Nat} (consistent : net.Consistent)
    (schedule : Schedule root net r swap) (swapped : swap old u) (path : TransGen swap old new.node)
    (settled : Settled net r (· = old)) :
    Redirecting root old new r.replaced (net.fanouts old) r net :=
  ⟨rfl, ⟨swap, schedule, ⟨u, swapped⟩, path⟩, settled,
    fun _ live feeds => .inl (consistent.mem_fanouts.2 ⟨live, feeds⟩)⟩

theorem visit {consumer : Nat} (state : Redirecting root old new replaced (consumer :: consumers) r net)
    (differ : old ≠ new.node) (absent : replaced[new.node]? = none) (consistent : net.Consistent)
    (inside : new.node < net.size) (live : net.isDead new.node = false)
    (visited : Visited old new r consumer net r' net') :
    Redirecting root old new replaced consumers r' net' := by
  obtain ⟨swap, schedule, ⟨u, swapped⟩, path⟩ := state.scheduled
  obtain ⟨grown, further, schedule'⟩ :=
    schedule.visit consistent differ inside live swapped path visited
  obtain ⟨settled', same', covered⟩ :=
    state.settled.visit differ (by rwa [state.same]) visited
  refine ⟨same'.trans state.same, ⟨grown, schedule', ⟨u, further _ _ swapped⟩,
    TransGen.mono further _ _ path⟩, settled', fun c live feeds => ?_⟩
  rcases covered c live feeds with handled | ⟨other, live, feeds⟩
  · exact .inr handled
  · rcases state.covered c live feeds with member | handled
    · exact .inl ((List.mem_cons.1 member).resolve_left other)
    · exact .inr (visited.handles handled)

theorem finish (state : Redirecting root old new replaced [] r net) (differ : old ≠ new.node)
    (absent : replaced[new.node]? = none) (consistent : net.Consistent)
    (inside : new.node < net.size) (live : net.isDead new.node = false) (present : old < net.size) :
    Settling root ((net.redirectOutputs old new).settle old) (r.record old new) ∧
      Shift net ((net.redirectOutputs old new).settle old) (fun _ => True) (· = new.node) ∧
      ∀ m, ((net.redirectOutputs old new).settle old).isLiveGate m = true →
        net.isLiveGate m = true := by
  obtain ⟨swap, schedule, -, path⟩ := state.scheduled
  obtain ⟨change, moved, trimmed, left⟩ := moved_consistent consistent differ inside live present
  have size := trimmed.size.trans change.size
  have bodies (m : Nat) : ((net.redirectOutputs old new).settle old).body? m = net.body? m := by
    rw [trimmed.body, change.body]
  have older (m : Nat) (running : ((net.redirectOutputs old new).settle old).isLiveGate m = true) :
      net.isLiveGate m = true := by
    rw [← change.isLiveGate]
    exact trimmed.isLiveGate running
  have outputs : ∀ o ∈ ((net.redirectOutputs old new).settle old).outputs,
      o.signal.node ≠ old ∧
        ((∃ o' ∈ net.outputs, o'.signal.node = o.signal.node) ∨ o.signal.node = new.node) := by
    intro o member
    rw [trimmed.outputs, change.outputs] at member
    obtain ⟨o', there, rfl⟩ := List.mem_map.1 member
    unfold redirectOutput
    split
    · exact ⟨differ.symm, .inr rfl⟩
    · rename_i other
      exact ⟨other, .inl ⟨o', there, rfl⟩⟩
  have shift : Shift net ((net.redirectOutputs old new).settle old) (fun _ => True) (· = new.node) :=
    .of_bodies size bodies older fun o member => (outputs o member).2
  have dangling : ∀ (n : Nat) (s : Signal), r.replaced[n]? = some s → ¬n = old →
      ((net.redirectOutputs old new).settle old).Dangling n → net.Dangling n := by
    intro n s _ idle dangling
    obtain ⟨⟨running, zero⟩, -⟩ := left n dangling
    rw [change.isLiveGate] at running
    rw [change.count, if_neg idle] at zero
    refine ⟨running, ?_⟩
    split at zero
    · omega
    · exact zero
  have settled := state.settled.shift shift (fun m fresh => by rw [fresh, state.same]; exact absent)
    dangling
  refine ⟨⟨trimmed.consistent moved, ⟨swap, (schedule.of_bodies size bodies).record path⟩,
    settled.record new (by rwa [size]) ?_ (fun o member => (outputs o member).1)
    fun dangling => (left old dangling).2 rfl⟩, shift, older⟩
  intro c running feeds
  exact (state.covered c (older c running) ((feeds_congr (bodies c)).1 feeds)).resolve_left
    (by simp)

end Redirecting

theorem Awakened.of_live {s new : Signal} (awakened : Awakened net s new net')
    (live : net.isDead s.node = false) : net' = net ∧ new = s := by
  cases awakened with
  | live => exact ⟨rfl, rfl⟩
  | twin dead =>
    rw [live] at dead
    cases dead
  | revived dead =>
    rw [live] at dead
    cases dead

namespace Settling

variable {root old : Nat} {r r' : Replacements} {target : Signal} {rest : List (Nat × Signal)}

theorem begin (state : Settling root net r) (queue : r.queue = (old, target) :: rest) {s : Signal}
    (resolved : ({ r with queue := rest } : Replacements).resolve target = .ok s) :
    ∃ swap, Schedule root net { r with queue := rest } swap ∧ swap old target.node ∧
      TransGen swap old s.node ∧ old ≠ s.node ∧ r.replaced[s.node]? = none := by
  obtain ⟨swap, schedule⟩ := state.scheduled
  obtain ⟨popped, swapped⟩ := schedule.pop queue
  have path : TransGen swap old s.node := TransGen.head' swapped (popped.resolve resolved)
  refine ⟨swap, popped, swapped, path, ?_, (Replacements.follow_spec resolved).1⟩
  -- The rank falls along replacements, so they do not lead back to `old`.
  rintro same
  obtain ⟨rank, ranks⟩ := schedule.ranks
  have below := ranks.lt (TransGen.mono (fun _ _ step => .inr step) _ _ path)
  rw [← same] at below
  exact Nat.lt_irrefl _ below

theorem record (state : Settling root net r) (queue : r.queue = (old, target) :: rest) {s : Signal}
    (resolved : ({ r with queue := rest } : Replacements).resolve target = .ok s)
    (dead : net.isDead old = true) :
    Settling root net (({ r with queue := rest } : Replacements).record old s) := by
  obtain ⟨swap, schedule, swapped, path, -, -⟩ := state.begin queue resolved
  have consistent := state.consistent
  obtain ⟨unread, apart⟩ := consistent.toOrderly.unread_of_dead dead
  refine ⟨consistent, ⟨swap, schedule.record path⟩, (state.settled.pop queue).record s
    (schedule.inside old _ swapped).1 (fun c live feeds => absurd feeds (unread c live)) apart
    fun left => ?_⟩
  rw [(isLiveGate_eq_true.1 left.1).2] at dead
  cases dead

theorem replace (state : Settling root net r) (queue : r.queue = (old, target) :: rest)
    (plain : ∀ s, ({ r with queue := rest } : Replacements).resolve target = .ok s →
      (⟨net, old, s.node⟩ : Encounter).dead = false)
    (replaced : Replaced { r with queue := rest } old target net r' net') :
    Settling root net' r' := by
  have consistent := state.consistent
  cases replaced with
  | @dropped s new net' resolved inside awakened same =>
    obtain ⟨-, rfl⟩ := awakened.of_live (plain s resolved)
    obtain ⟨-, -, -, -, differ, -⟩ := state.begin queue resolved
    exact absurd same differ
  | @recorded s new net' resolved inside awakened differ dead =>
    obtain ⟨rfl, rfl⟩ := awakened.of_live (plain s resolved)
    exact state.record queue resolved dead
  | @moved s new mid swept r' resolved inside awakened differ present awake visits =>
    obtain ⟨rfl, rfl⟩ := awakened.of_live (plain s resolved)
    obtain ⟨swap, schedule, swapped, path, -, absent⟩ := state.begin queue resolved
    have live := plain new resolved
    obtain ⟨after, le, dead, redirected⟩ := visits_invariant (r := { r with queue := rest })
      (Redirecting root old new r.replaced) differ
      (fun consistent inside live state visited =>
        state.visit differ absent consistent inside live visited)
      consistent inside live
      (.start consistent schedule swapped path (state.settled.pop queue)) visits
    exact (redirected.finish differ absent after (by omega) (by rw [dead]; exact live)
      (by omega)).1

end Settling

theorem Network.Tallied.exists_reader (tallied : net.Tallied) {n : Nat}
    (live : net.isLiveGate n = true) (read : ¬net.Dangling n)
    (apart : ∀ o ∈ net.outputs, o.signal.node ≠ n) :
    ∃ c, net.isLiveGate c = true ∧ net.Feeds n c := by
  have sum := tallied.count n
  rw [outputReferences_eq_zero.2 apart, Nat.add_zero] at sum
  obtain ⟨c, member⟩ := List.exists_mem_of_ne_nil (net.fanouts n) fun none => read ⟨live, by
    rw [sum, none, List.length_nil]⟩
  exact ⟨c, tallied.mem_fanouts.1 member⟩

theorem Settling.acyclic {root : Nat} {r : Replacements} (state : Settling root net r) :
    net.Acyclic := by
  obtain ⟨swap, schedule⟩ := state.scheduled
  obtain ⟨rank, ranks⟩ := schedule.ranks
  exact acyclic_of_ranks rank (ranks.mono fun _ _ => .inl)

theorem Settling.not_live {root : Nat} {r : Replacements} (state : Settling root net r)
    (empty : r.queue = []) : ∀ q, ¬(net.isLiveGate q = true ∧ r.handles q = true) := by
  -- If one were live, a live node that reads it would have a replacement too, and so on for ever.
  refine not_of_readers state.acyclic fun q ⟨live, handled⟩ => ?_
  obtain ⟨s, entry⟩ : ∃ s, r.replaced[q]? = some s := by
    refine (state.settled.handled q handled).resolve_right ?_
    rintro (⟨p, member, -⟩ | none)
    · rw [empty] at member
      cases member
    · exact none
  obtain ⟨c, running, feeds⟩ := state.consistent.toTallied.exists_reader live
    (state.settled.read q s entry id) fun o member same => by
      rw [← same, state.settled.outputs o member] at entry
      cases entry
  exact ⟨c, feeds, running, state.settled.readers q s entry c running feeds⟩

end LogicOpt
