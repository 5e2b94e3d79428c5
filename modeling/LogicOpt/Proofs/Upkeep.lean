import LogicOpt.Proofs.Bookkeeping

namespace LogicOpt

namespace Network

variable {net net' : Network}

theorem isDead_eq_false_of_size_le {m : Nat} (outside : net.size ≤ m) : net.isDead m = false := by
  have none : net.nodes[m]? = none := Array.getElem?_eq_none outside
  simp [isDead, none]

theorem fanin_lt_of_feeds (below : ∀ n m, net.Feeds m n → m < net.size) :
    ∀ n, ∀ f ∈ net.fanins n, f.node < net.size :=
  fun n f member => below n f.node ⟨f, member, rfl⟩

theorem feeds_of_gate? {n m : Nat} {g : Gate Signal} (slot : net.gate? n = some g)
    (member : m ∈ g.nodes) : net.Feeds m n :=
  (mem_fanins slot).2 member

theorem nodup_append_singleton {xs : List Nat} {x : Nat} (nodup : xs.Nodup) (absent : x ∉ xs) :
    (xs ++ [x]).Nodup := by
  refine List.nodup_append.2 ⟨nodup, by simp, fun m member k single => ?_⟩
  rw [List.mem_singleton.1 single]
  rintro rfl
  exact absent member

theorem Tallied.after (tallied : net.Tallied) (frame : Frame net net')
    (sources : SourcesKept net net') (size_le : net.size ≤ net'.size)
    (dead : ∀ m, net'.isDead m = true → ∃ g, net'.gate? m = some g)
    (below : ∀ n m, net'.Feeds m n → m < net'.size)
    (nodup : ∀ n, (net'.fanouts n).Nodup)
    (readers : ∀ n m, m ∈ net'.fanouts n ↔ net'.isLiveGate m = true ∧ net'.Feeds n m)
    (output : ∀ o ∈ net'.outputs, o.signal.node < net'.size) (canonical : net'.CanonicalGates)
    (table : net'.SoundTable)
    (count : ∀ n, net'.fanoutCount n = (net'.fanouts n).length + net'.outputReferences n)
    (gates : net'.numGates = net'.liveGates.length) : net'.Tallied where
  inPlace := {
    size_levels := frame.size_levels tallied.inPlace.size_levels
    constant_iff := fun n => (sources.constant n).trans (tallied.inPlace.constant_iff n)
    inputs_eq := sources.inputs_eq frame size_le tallied.inPlace.inputs_eq
    gate_of_dead := fun n h => Option.isSome_iff_exists.2 (dead n h)
    fanin_lt := fanin_lt_of_feeds below
    fanouts_nodup := nodup
    reader_of_fanout := fun n m member => (readers n m).1 member
    output_lt := output
    subscription_lt := by
      rw [frame.subscriptions, frame.nextSubscription]
      exact tallied.inPlace.subscription_lt }
  canonical := canonical
  table := table
  listed := fun m n live feeds => (readers n m).2 ⟨live, feeds⟩
  count := count
  numGates := gates

theorem Tallied.gate_of_dead (tallied : net.Tallied) {n : Nat} (dead : net.isDead n = true) :
    ∃ g, net.gate? n = some g :=
  Option.isSome_iff_exists.1 (tallied.inPlace.gate_of_dead n dead)

section Append

variable {g : Gate Signal} (change : Appended net net' g)

include change

theorem Appended.gate? (m : Nat) :
    net'.gate? m = if m = net.size then some g else net.gate? m := by
  rw [gate?_eq_body?, change.body, gate?_eq_body?]
  split <;> rfl

theorem Appended.feeds {m k : Nat} :
    net'.Feeds m k ↔ (k = net.size ∧ m ∈ g.nodes) ∨ net.Feeds m k := by
  rw [feeds_iff, feeds_iff, change.gate?]
  by_cases last : k = net.size
  · subst last
    simp [gate?_eq_none_of_size_le (Nat.le_refl net.size)]
  · simp [last]

theorem Appended.isLiveGate (m : Nat) :
    net'.isLiveGate m = true ↔ m = net.size ∨ net.isLiveGate m = true := by
  rw [isLiveGate_eq_true, isLiveGate_eq_true, change.gate?, change.dead]
  by_cases last : m = net.size
  · simp [last, isDead_eq_false_of_size_le (Nat.le_refl net.size)]
  · simp [last]

theorem Appended.sources : SourcesKept net net' := by
  intro m
  rw [change.body]
  split
  · rename_i last
    exact .inr ⟨g, rfl, .inl (body?_eq_none.2 (by omega))⟩
  · exact .inl rfl

theorem Appended.length_liveGates :
    net'.liveGates.length = net.liveGates.length + 1 := by
  rw [liveGates, change.size]
  have grown := length_filter_range (p := net'.isLiveGate) (q := net.isLiveGate) (n := net.size)
    (Nat.lt_succ_self net.size) ?_ ?_
  · rw [grown, filter_range_of_le (Nat.le_succ net.size) fun m outside => ?_]
    · rfl
    · simp [Network.isLiveGate, isGate, gate?_eq_none_of_size_le outside]
  · refine ⟨(change.isLiveGate _).2 (.inl rfl), ?_⟩
    simp [Network.isLiveGate, isGate, gate?_eq_none_of_size_le (Nat.le_refl net.size)]
  · intro m other
    rw [Bool.eq_iff_iff, change.isLiveGate]
    simp [other]

theorem Tallied.append (tallied : net.Tallied) (canonical : g.Canonical)
    (inside : ∀ m ∈ g.nodes, m < net.size) : net'.Tallied := by
  refine tallied.after change.frame change.sources (by rw [change.size]; omega) ?dead ?below
    ?nodup ?readers ?output ?canonical ?table ?count ?gates
  case dead =>
    intro n dead
    rw [change.dead] at dead
    obtain ⟨h, slot⟩ := tallied.gate_of_dead dead
    exact ⟨h, by rw [change.gate?, if_neg (Nat.ne_of_lt (lt_size_of_gate? slot)), slot]⟩
  case below =>
    intro n m feeds
    rw [change.size]
    rcases change.feeds.1 feeds with ⟨-, member⟩ | feeds
    · exact Nat.lt_succ_of_lt (inside m member)
    · exact Nat.lt_succ_of_lt (tallied.lt_of_feeds feeds)
  case nodup =>
    intro n
    rw [change.fanouts]
    split
    · exact nodup_append_singleton (tallied.inPlace.fanouts_nodup n)
        (tallied.not_mem_fanouts_size n)
    · exact tallied.inPlace.fanouts_nodup n
  case readers =>
    intro n m
    rw [change.fanouts, change.isLiveGate, change.feeds]
    have old := tallied.mem_fanouts (n := n) (g := m)
    have away := tallied.not_mem_fanouts_size n
    have unread : ¬net.Feeds n net.size := by
      rw [feeds_iff, gate?_eq_none_of_size_le (Nat.le_refl net.size)]
      simp
    by_cases last : m = net.size
    · subst last
      split <;> simp_all
    · split <;> simp_all
  case output =>
    rw [change.outputs, change.size]
    exact fun o member => Nat.lt_succ_of_lt (tallied.inPlace.output_lt o member)
  case canonical =>
    intro n h slot
    rw [change.gate?] at slot
    split at slot
    · cases slot
      exact canonical
    · exact tallied.canonical n h slot
  case table =>
    intro k n entry
    rw [change.table] at entry
    rw [change.gate?, change.dead]
    split at entry
    · cases entry
      rename_i same
      simp [same, isDead_eq_false_of_size_le (Nat.le_refl net.size)]
    · obtain ⟨slot, live⟩ := tallied.table k n entry
      have below := lt_size_of_gate? slot
      simp [Nat.ne_of_lt below, slot, live]
  case count =>
    intro n
    rw [change.count, change.fanouts, outputReferences_congr change.outputs, tallied.count]
    split
    · rw [List.length_append, List.length_singleton]
      omega
    · rfl
  case gates => rw [change.numGates, tallied.numGates, change.length_liveGates]

theorem Consistent.append (consistent : net.Consistent) (canonical : g.Canonical)
    (inside : ∀ m ∈ g.nodes, m < net.size) (live : ∀ m ∈ g.nodes, net.isDead m = false) :
    net'.Consistent := by
  refine ⟨consistent.toTallied.append change canonical inside, ?fanins, ?outputs⟩
  case fanins =>
    intro k n awake feeds
    rw [change.dead]
    rcases change.feeds.1 feeds with ⟨-, member⟩ | feeds
    · exact live n member
    · rcases (change.isLiveGate k).1 awake with rfl | awake
      · rw [feeds_iff, gate?_eq_none_of_size_le (Nat.le_refl net.size)] at feeds
        simp at feeds
      · exact consistent.fanins_live k n awake feeds
  case outputs =>
    intro o member
    rw [change.outputs] at member
    rw [change.dead]
    exact consistent.outputs_live o member

end Append

section Remove

variable {n : Nat} {g : Gate Signal} (change : Removed net net' n g)

include change

theorem Removed.gate? (m : Nat) : net'.gate? m = net.gate? m := gate?_congr (change.body m)

theorem Removed.feeds {m k : Nat} : net'.Feeds m k ↔ net.Feeds m k := feeds_congr (change.body k)

theorem Removed.isLiveGate (m : Nat) :
    net'.isLiveGate m = true ↔ m ≠ n ∧ net.isLiveGate m = true := by
  rw [isLiveGate_eq_true, isLiveGate_eq_true, change.gate?, change.dead]
  by_cases self : m = n <;> simp [self]

theorem Removed.length_liveGates (live : net.isLiveGate n = true) :
    net.liveGates.length = net'.liveGates.length + 1 := by
  rw [liveGates, liveGates, change.size]
  refine length_filter_range (lt_of_isLiveGate live) ⟨live, ?_⟩ fun m other => ?_
  · rw [Bool.eq_false_iff]
    exact fun h => ((change.isLiveGate n).1 h).1 rfl
  · rw [Bool.eq_iff_iff, change.isLiveGate]
    simp [other]

theorem Consistent.remove (consistent : net.Consistent) (slot : net.gate? n = some g)
    (awake : net.isDead n = false) (unread : net.fanoutCount n = 0) : net'.Consistent := by
  have tallied := consistent.toTallied
  have live : net.isLiveGate n = true := isLiveGate_eq_true.2 ⟨⟨g, slot⟩, awake⟩
  have reader (m : Nat) : n ∈ net.fanouts m ↔ m ∈ g.nodes := by
    rw [tallied.mem_fanouts, mem_fanins slot]
    simp [live]
  refine ⟨?_, ?fanins, ?outputs⟩
  case fanins =>
    intro k m running feeds
    rw [change.feeds] at feeds
    have running := ((change.isLiveGate k).1 running).2
    have other : m ≠ n := by
      rintro rfl
      exact tallied.not_feeds_of_unread unread running feeds
    rw [change.dead, consistent.fanins_live k m running feeds]
    simp [other]
  case outputs =>
    intro o member
    rw [change.outputs] at member
    have other : o.signal.node ≠ n :=
      outputReferences_eq_zero.1 (tallied.unread unread).2 o member
    rw [change.dead, consistent.outputs_live o member]
    simp [other]
  refine tallied.after change.frame (fun m => .inl (change.body m))
    (Nat.le_of_eq change.size.symm) ?dead ?below ?nodup ?readers ?output ?canonical ?table ?count ?gates
  case dead =>
    intro m dead
    rw [change.gate?]
    rw [change.dead, Bool.or_eq_true, beq_iff_eq] at dead
    rcases dead with rfl | dead
    · exact ⟨g, slot⟩
    · exact tallied.gate_of_dead dead
  case below =>
    intro k m feeds
    rw [change.size]
    exact tallied.lt_of_feeds (change.feeds.1 feeds)
  case nodup =>
    intro m
    rw [change.fanouts]
    split
    · exact (tallied.inPlace.fanouts_nodup m).filter _
    · exact tallied.inPlace.fanouts_nodup m
  case readers =>
    intro m k
    rw [change.isLiveGate, change.feeds, change.fanouts, and_assoc, ← tallied.mem_fanouts]
    split
    · rw [List.mem_filter]
      simp [and_comm]
    · rename_i absent
      have away : n ∉ net.fanouts m := fun member => absent ((reader m).1 member)
      exact ⟨fun member => ⟨fun same => away (same ▸ member), member⟩, fun h => h.2⟩
  case output =>
    rw [change.outputs, change.size]
    exact tallied.inPlace.output_lt
  case canonical =>
    intro m h slot
    rw [change.gate?] at slot
    exact tallied.canonical m h slot
  case table =>
    intro k m entry
    rw [change.table] at entry
    split at entry
    · cases entry
    · rename_i kept
      obtain ⟨holder, running⟩ := tallied.table k m entry
      rw [change.gate?, change.dead, running]
      refine ⟨holder, ?_⟩
      have other : m ≠ n := by
        rintro rfl
        rw [slot] at holder
        cases holder
        exact kept ⟨rfl, entry⟩
      simp [other]
  case count =>
    intro m
    rw [change.count, change.fanouts, outputReferences_congr change.outputs, tallied.count]
    split
    · rename_i member
      have listed := (reader m).2 member
      have shorter : ((net.fanouts m).filter (· != n)).length + 1 = (net.fanouts m).length := by
        rw [← (tallied.inPlace.fanouts_nodup m).erase_eq_filter, List.length_erase_of_mem listed]
        have := List.length_pos_of_mem listed
        omega
      omega
    · rfl
  case gates => rw [change.numGates, tallied.numGates, change.length_liveGates live]; rfl

end Remove

section Restore

variable {n : Nat} {g : Gate Signal} (change : Restored net net' n g)

include change

theorem Restored.gate? (m : Nat) : net'.gate? m = net.gate? m := gate?_congr (change.body m)

theorem Restored.feeds {m k : Nat} : net'.Feeds m k ↔ net.Feeds m k := feeds_congr (change.body k)

theorem Restored.isLiveGate (slot : net.gate? n = some g) (m : Nat) :
    net'.isLiveGate m = true ↔ m = n ∨ net.isLiveGate m = true := by
  rw [isLiveGate_eq_true, isLiveGate_eq_true, change.gate?, change.dead]
  by_cases self : m = n <;> simp [self, slot]

theorem Restored.length_liveGates (slot : net.gate? n = some g) (dead : net.isDead n = true) :
    net'.liveGates.length = net.liveGates.length + 1 := by
  rw [liveGates, liveGates, change.size]
  refine length_filter_range (lt_size_of_gate? slot)
    ⟨(change.isLiveGate slot n).2 (.inl rfl), by simp [Network.isLiveGate, dead]⟩ fun m other => ?_
  rw [Bool.eq_iff_iff, change.isLiveGate slot]
  simp [other]

theorem Tallied.restore (tallied : net.Tallied) (slot : net.gate? n = some g)
    (dead : net.isDead n = true) : net'.Tallied := by
  have asleep (m : Nat) : n ∉ net.fanouts m := by
    intro member
    have live := (tallied.mem_fanouts.1 member).1
    simp [Network.isLiveGate, dead] at live
  refine tallied.after change.frame (fun m => .inl (change.body m))
    (Nat.le_of_eq change.size.symm) ?dead ?below ?nodup ?readers ?output ?canonical ?table ?count
    ?gates
  case dead =>
    intro m still
    rw [change.dead, Bool.and_eq_true] at still
    rw [change.gate?]
    exact tallied.gate_of_dead still.2
  case below =>
    intro k m feeds
    rw [change.size]
    exact tallied.lt_of_feeds (change.feeds.1 feeds)
  case nodup =>
    intro m
    rw [change.fanouts]
    split
    · exact nodup_append_singleton (tallied.inPlace.fanouts_nodup m) (asleep m)
    · exact tallied.inPlace.fanouts_nodup m
  case readers =>
    intro m k
    rw [change.fanouts, change.isLiveGate slot, change.feeds]
    have old := tallied.mem_fanouts (n := m) (g := k)
    have reads : net.Feeds m n ↔ m ∈ _ := mem_fanins slot
    have away := asleep m
    by_cases self : k = n
    · subst self
      split <;> simp_all
    · split <;> simp_all
  case output =>
    rw [change.outputs, change.size]
    exact tallied.inPlace.output_lt
  case canonical =>
    intro m h slot
    rw [change.gate?] at slot
    exact tallied.canonical m h slot
  case table =>
    intro k m entry
    rw [change.table] at entry
    rw [change.gate?, change.dead]
    split at entry
    · rename_i same
      subst same
      cases held : net.table[k]? with
      | none =>
        rw [held] at entry
        cases entry
        simp [slot]
      | some holder =>
        rw [held] at entry
        cases entry
        obtain ⟨there, live⟩ := tallied.table k holder held
        simp [there, live]
    · obtain ⟨there, live⟩ := tallied.table k m entry
      simp [there, live]
  case count =>
    intro m
    rw [change.count, change.fanouts, outputReferences_congr change.outputs, tallied.count]
    split
    · rw [List.length_append, List.length_singleton]
      omega
    · rfl
  case gates => rw [change.numGates, tallied.numGates, change.length_liveGates slot dead]

end Restore

section Rewire

variable {n old new : Nat} {g h : Gate Signal} (change : Rewired net net' n g h old new)

include change

theorem Rewired.gate? (m : Nat) : net'.gate? m = if m = n then some h else net.gate? m := by
  rw [gate?_eq_body?, change.body, gate?_eq_body?]
  split <;> rfl

theorem Rewired.feeds {m k : Nat} :
    net'.Feeds m k ↔ if k = n then m ∈ h.nodes else net.Feeds m k := by
  rw [feeds_iff, feeds_iff, change.gate?]
  by_cases self : k = n <;> simp [self]

theorem Rewired.isLiveGate (slot : net.gate? n = some g) (m : Nat) :
    net'.isLiveGate m = net.isLiveGate m := by
  rw [Bool.eq_iff_iff, isLiveGate_eq_true, isLiveGate_eq_true, change.gate?, change.dead]
  by_cases self : m = n <;> simp [self, slot]

theorem Rewired.sources (slot : net.gate? n = some g) : SourcesKept net net' := by
  intro m
  rw [change.body]
  split
  · rename_i self
    rw [self]
    exact .inr ⟨h, rfl, .inr ⟨g, gate?_eq_some.1 slot⟩⟩
  · exact .inl rfl

theorem Tallied.rewire (tallied : net.Tallied) (slot : net.gate? n = some g)
    (live : net.isLiveGate n = true) (differ : old ≠ new) (inside : new < net.size)
    (canonical : h.Canonical) (was : old ∈ g.nodes) (fresh : new ∉ g.nodes)
    (reads : ∀ m, m ∈ h.nodes ↔ m = new ∨ (m ∈ g.nodes ∧ m ≠ old)) : net'.Tallied := by
  have reader (m : Nat) : n ∈ net.fanouts m ↔ m ∈ g.nodes := by
    rw [tallied.mem_fanouts, mem_fanins slot]
    simp [live]
  have awake := (isLiveGate_eq_true.1 live).2
  refine tallied.after change.frame (change.sources slot) (Nat.le_of_eq change.size.symm) ?dead
    ?below ?nodup ?readers ?output ?canonical ?table ?count ?gates
  case dead =>
    intro m dead
    rw [change.dead] at dead
    obtain ⟨k, there⟩ := tallied.gate_of_dead dead
    rw [change.gate?]
    split
    · exact ⟨h, rfl⟩
    · exact ⟨k, there⟩
  case below =>
    intro k m feeds
    rw [change.size]
    rw [change.feeds] at feeds
    split at feeds
    · rcases (reads m).1 feeds with rfl | ⟨member, -⟩
      · exact inside
      · exact tallied.lt_of_feeds (feeds_of_gate? slot member)
    · exact tallied.lt_of_feeds feeds
  case nodup =>
    intro m
    rw [change.fanouts]
    split
    · exact (tallied.inPlace.fanouts_nodup m).filter _
    · split
      · rename_i same
        refine nodup_append_singleton (tallied.inPlace.fanouts_nodup m) ?_
        rw [reader, same]
        exact fresh
      · exact tallied.inPlace.fanouts_nodup m
  case readers =>
    intro m k
    rw [change.isLiveGate slot, change.feeds, change.fanouts]
    by_cases self : k = n
    · subst self
      simp only [↓reduceIte, live, true_and, reads]
      by_cases fromOld : m = old
      · subst fromOld
        simp [differ]
      · by_cases toNew : m = new
        · subst toNew
          simp [fromOld]
        · simp [fromOld, toNew, reader]
    · have kept := tallied.mem_fanouts (n := m) (g := k)
      simp only [self, ↓reduceIte]
      split
      · simp [self, kept]
      · split <;> simp [self, kept]
  case output =>
    rw [change.outputs, change.size]
    exact tallied.inPlace.output_lt
  case canonical =>
    intro m k there
    rw [change.gate?] at there
    split at there
    · cases there
      exact canonical
    · exact tallied.canonical m k there
  case table =>
    intro k m entry
    rw [change.table] at entry
    rw [change.gate?, change.dead]
    split at entry
    · rename_i same
      cases entry
      simp [same, awake]
    · split at entry
      · cases entry
      · rename_i kept
        obtain ⟨there, running⟩ := tallied.table k m entry
        have other : m ≠ n := by
          rintro rfl
          rw [slot] at there
          cases there
          exact kept ⟨rfl, entry⟩
        simp [other, there, running]
  case count =>
    intro m
    rw [change.count, change.fanouts, outputReferences_congr change.outputs, tallied.count]
    split
    · rename_i same
      subst same
      have listed := (reader m).2 was
      rw [← (tallied.inPlace.fanouts_nodup m).erase_eq_filter, List.length_erase_of_mem listed]
      have := List.length_pos_of_mem listed
      omega
    · split
      · rw [List.length_append, List.length_singleton]
        omega
      · rfl
  case gates =>
    rw [change.numGates, tallied.numGates, liveGates_congr change.size (change.isLiveGate slot)]

theorem Consistent.rewire (consistent : net.Consistent) (slot : net.gate? n = some g)
    (live : net.isLiveGate n = true) (differ : old ≠ new) (inside : new < net.size)
    (awake : net.isDead new = false) (canonical : h.Canonical) (was : old ∈ g.nodes)
    (fresh : new ∉ g.nodes) (reads : ∀ m, m ∈ h.nodes ↔ m = new ∨ (m ∈ g.nodes ∧ m ≠ old)) :
    net'.Consistent := by
  refine ⟨consistent.toTallied.rewire change slot live differ inside canonical was fresh reads,
    ?fanins, ?outputs⟩
  case fanins =>
    intro k m running feeds
    rw [change.isLiveGate slot] at running
    rw [change.dead]
    rw [change.feeds] at feeds
    split at feeds
    · rename_i self
      rcases (reads m).1 feeds with rfl | ⟨member, -⟩
      · exact awake
      · exact consistent.fanins_live n m live (feeds_of_gate? slot member)
    · exact consistent.fanins_live k m running feeds
  case outputs =>
    intro o member
    rw [change.outputs] at member
    rw [change.dead]
    exact consistent.outputs_live o member

end Rewire

theorem redirected_reads {g h : Gate Signal} {old : Nat} {new : Signal} {negated : Bool}
    (was : old ∈ g.nodes) (differ : old ≠ new.node)
    (shape : (g.redirect old new).normalize = .gate h negated) :
    new.node ∉ g.nodes ∧ ∀ m, m ∈ h.nodes ↔ m = new.node ∨ (m ∈ g.nodes ∧ m ≠ old) := by
  have nodup := Gate.nodup_nodes_of_normalize shape
  rw [Gate.nodes_redirect] at nodup
  refine ⟨fun twice => ?_, fun m => ?_⟩
  · have same := List.inj_on_of_nodup_map nodup was twice (by simp [differ.symm])
    exact differ same
  · rw [(Gate.normalize_gate shape).2.2.mem_iff, Gate.nodes_redirect, List.mem_map]
    constructor
    · rintro ⟨k, member, rfl⟩
      split
      · exact .inl rfl
      · exact .inr ⟨member, ‹_›⟩
    · rintro (rfl | ⟨member, other⟩)
      · exact ⟨old, was, by simp⟩
      · exact ⟨m, member, by simp [other]⟩

section Outputs

variable {old : Nat} {new : Signal} (change : OutputsMoved net net' old new)

include change

theorem OutputsMoved.gate? (m : Nat) : net'.gate? m = net.gate? m := gate?_congr (change.body m)

theorem OutputsMoved.feeds {m k : Nat} : net'.Feeds m k ↔ net.Feeds m k :=
  feeds_congr (change.body k)

theorem OutputsMoved.isLiveGate (m : Nat) : net'.isLiveGate m = net.isLiveGate m :=
  isLiveGate_congr (change.body m) (change.dead m)

theorem OutputsMoved.outputReferences (differ : old ≠ new.node) (m : Nat) :
    net'.outputReferences m =
      if m = old then 0
      else if m = new.node then net.outputReferences m + net.outputReferences old
      else net.outputReferences m := by
  have moved (outputs : List Output) :
      ((outputs.map (redirectOutput old new)).map (·.signal)).countP (·.node == m) =
        if m = old then 0
        else if m = new.node then (outputs.map (·.signal)).countP (·.node == m) +
          (outputs.map (·.signal)).countP (·.node == old)
        else (outputs.map (·.signal)).countP (·.node == m) := by
    induction outputs with
    | nil => simp
    | cons o rest ih =>
      simp only [List.map_cons, List.countP_cons, ih, redirectOutput]
      by_cases hit : o.signal.node = old
      · by_cases fromOld : m = old
        · simp [fromOld, hit, differ.symm]
        · by_cases toNew : m = new.node
          · subst toNew
            simp [fromOld, hit, differ]
            omega
          · have other : ¬new.node = m := fun same => toNew same.symm
            have outside : ¬old = m := fun same => fromOld same.symm
            simp [fromOld, toNew, hit, other, outside]
      · by_cases fromOld : m = old
        · simp [fromOld, hit]
        · by_cases toNew : m = new.node
          · subst toNew
            simp [fromOld, hit]
            omega
          · simp [fromOld, toNew, hit]
  rw [Network.outputReferences, Network.outputSignals, change.outputs]
  exact moved net.outputs

theorem Consistent.moveOutputs (consistent : net.Consistent) (differ : old ≠ new.node)
    (inside : new.node < net.size) (awake : net.isDead new.node = false) : net'.Consistent := by
  have tallied := consistent.toTallied
  have target (o : Output) (member : o ∈ net'.outputs) :
      o.signal.node = new.node ∨ ∃ p ∈ net.outputs, p.signal.node = o.signal.node := by
    rw [change.outputs] at member
    obtain ⟨p, there, rfl⟩ := List.mem_map.1 member
    unfold redirectOutput
    split
    · exact .inl rfl
    · exact .inr ⟨p, there, rfl⟩
  refine ⟨?_, ?fanins, ?outputs⟩
  case fanins =>
    intro k m live feeds
    rw [change.dead]
    exact consistent.fanins_live k m (change.isLiveGate k ▸ live) (change.feeds.1 feeds)
  case outputs =>
    intro o member
    rw [change.dead]
    rcases target o member with same | ⟨p, there, same⟩
    · rw [same]
      exact awake
    · rw [← same]
      exact consistent.outputs_live p there
  refine tallied.after change.frame (fun m => .inl (change.body m))
    (Nat.le_of_eq change.size.symm) ?dead ?below ?nodup ?readers ?output ?canonical ?table ?count
    ?gates
  case dead =>
    intro m dead
    rw [change.dead] at dead
    rw [change.gate?]
    exact tallied.gate_of_dead dead
  case below =>
    intro k m feeds
    rw [change.size]
    exact tallied.lt_of_feeds (change.feeds.1 feeds)
  case nodup =>
    intro m
    rw [change.fanouts]
    exact tallied.inPlace.fanouts_nodup m
  case readers =>
    intro m k
    rw [change.fanouts, change.isLiveGate, change.feeds]
    exact tallied.mem_fanouts
  case output =>
    intro o member
    rw [change.size]
    rcases target o member with same | ⟨p, there, same⟩
    · rw [same]
      exact inside
    · rw [← same]
      exact tallied.inPlace.output_lt p there
  case canonical =>
    intro m h slot
    rw [change.gate?] at slot
    exact tallied.canonical m h slot
  case table =>
    intro k m entry
    rw [change.table] at entry
    rw [change.gate?, change.dead]
    exact tallied.table k m entry
  case count =>
    intro m
    rw [change.count, change.fanouts, change.outputReferences differ, tallied.count]
    by_cases fromOld : m = old
    · subst fromOld
      simp
    · by_cases toNew : m = new.node
      · subst toNew
        simp only [differ.symm, ↓reduceIte]
        omega
      · simp [fromOld, toNew]
  case gates =>
    rw [change.numGates, tallied.numGates, liveGates_congr change.size change.isLiveGate]

end Outputs

theorem Tallied.relevel (tallied : net.Tallied) (levels : Relevelled net net') : net'.Tallied := by
  obtain ⟨levels, journal, rfl, size⟩ := levels
  have inPlace := tallied.inPlace
  exact ⟨⟨{ inPlace with size_levels := size.trans inPlace.size_levels }, tallied.canonical,
    tallied.listed, tallied.count, tallied.numGates⟩, tallied.table⟩

theorem Consistent.relevel (consistent : net.Consistent) (levels : Relevelled net net') :
    net'.Consistent := by
  have tallied := consistent.toTallied.relevel levels
  obtain ⟨levels, journal, rfl, -⟩ := levels
  exact ⟨tallied, consistent.fanins_live, consistent.outputs_live⟩

end Network

end LogicOpt
