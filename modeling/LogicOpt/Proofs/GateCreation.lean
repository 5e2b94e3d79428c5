import LogicOpt.Proofs.CompleteForms
import LogicOpt.Proofs.SafeDivisors
import LogicOpt.Proofs.Simulators

namespace LogicOpt

open Network

namespace Network

variable {net net' : Network} {value value' : Nat → Bool}

/-- What simulation answers under a valuation: its value at every live slot, false at dead ones. -/
def Displays (net : Network) (value : Nat → Bool) (values : Array Bool) : Prop :=
  ∀ n < net.size, values[n]? = some (!net.isDead n && value n)

theorem Simulable.exists_displays (sound : net.Simulable) (fits : net.Fits value) :
    ∃ values, net.simulateValues (net.inputs.map value) = .ok values ∧
      net.Displays value values := by
  have length : (net.inputs.map value).length = net.inputs.length := List.length_map value
  obtain ⟨values, run, assigns⟩ := sound.assigns length
  obtain ⟨_, again, right⟩ := simulateValues_of_fits sound.inPlace sound.acyclic fits
  rw [run] at again
  cases again
  refine ⟨values, run, fun n inside => ?_⟩
  cases dead : net.isDead n with
  | true => exact assigns.dead n dead
  | false =>
    have here : n < values.size := assigns.size.symm ▸ inside
    have shown := right n inside dead
    rw [Array.getElem?_eq_getElem here] at shown ⊢
    exact congrArg some shown

theorem Displays.signal {values : Array Bool} {s : Signal} (displays : net.Displays value values)
    (inside : s.node < net.size) (live : net.isDead s.node = false) :
    signalValue false values s = signalUnder value s := by
  rw [signalValue, displays s.node inside, live]
  cases h : s.negated <;> simp [GateValue.complementIf, GateValue.complement, signalUnder, h]

theorem Refined.exists_displays (refined : Refined net value net' value') (sound : net.Simulable)
    (sound' : net'.Simulable) (fits : net.Fits value)
    (dead : ∀ n < net.size, net'.isDead n = net.isDead n) :
    ∃ before after, net.simulateValues (net.inputs.map value) = .ok before ∧
      net'.simulateValues (net.inputs.map value) = .ok after ∧ net.Displays value before ∧
      net'.Displays value' after ∧ ∀ n < net.size, after[n]? = before[n]? := by
  obtain ⟨before, run, first⟩ := sound.exists_displays fits
  obtain ⟨after, run', second⟩ := sound'.exists_displays refined.fits
  have inputs : net'.inputs.map value' = net.inputs.map value := by
    rw [refined.sources.inputs]
    refine List.map_congr_left fun n member => refined.kept n ?_
    exact lt_size_of_isInput (sound.inPlace.isInput_iff.2 member)
  rw [inputs] at run'
  refine ⟨before, after, run, run', first, second, fun n inside => ?_⟩
  rw [first n inside, second n (Nat.lt_of_lt_of_le inside refined.size_le), dead n inside,
    refined.kept n inside]

end Network

namespace Edit

variable {α β : Type} {net mid net' : Network}

theorem checkFanins_of_live {fanins : List Signal}
    (alive : ∀ f ∈ fanins, f.node < net.size ∧ net.isDead f.node = false) :
    Gives (fanins.forM fun f => check (·.checkFanin f)) net () net := by
  induction fanins with
  | nil => exact gives_pure.2 ⟨rfl, rfl⟩
  | cons f rest ih =>
    rw [List.forall_mem_cons] at alive
    simp only [List.forM_eq_forM, List.forM_cons, gives_bind, gives_check]
    refine ⟨(), net, ⟨?_, rfl⟩, ih alive.2⟩
    simp only [checkFanin, require, bind_eq_ok, ensure_eq_ok, decide_eq_true_eq, Bool.not_eq_true']
    exact ⟨(), alive.1⟩

theorem createGate_eq {g : Gate Signal}
    (alive : ∀ f ∈ g.operands, f.node < net.size ∧ net.isDead f.node = false) :
    createGate g.kind g.operands net = addNormal g.normalize net := by
  have made : Gives (ofExcept (g.kind.normalize g.operands)) net g.normalize net :=
    gives_ofExcept.2 ⟨Gate.normalize_operands g, rfl⟩
  rw [createGate, (checkFanins_of_live alive).bind_eq, made.bind_eq]

theorem addNormal_of_entry {h : Gate Signal} {negated : Bool} {n : Nat}
    (entry : net.table[h]? = some n) (live : net.isDead n = false) :
    Gives (addNormal (.gate h negated)) net ⟨n, negated⟩ net := by
  simp only [addNormal, shareGate, gives_bind, gives_get, gives_pure]
  refine ⟨n, net, ⟨net, net, ⟨rfl, rfl⟩, ?_⟩, rfl, rfl⟩
  simp only [entry, gives_bind, gives_check, gives_pure, ensure_eq_ok]
  exact ⟨⟨⟩, net, ⟨by simp [live], rfl⟩, trivial, rfl⟩

theorem exists_addNormal (table : net.SoundTable) (form : Normal) :
    (∃ s net', Gives (addNormal form) net s net') ∨
      ∃ h negated, form = .gate h negated ∧ addNormal form net = .error .outOfRange net ∧
        levelLimit ≤ net.faninLevel h.operands + 1 := by
  cases form with
  | trivial s => exact .inl ⟨s, net, gives_pure.2 ⟨rfl, rfl⟩⟩
  | gate h negated =>
    cases entry : net.table[h]? with
    | some n => exact .inl ⟨_, net, addNormal_of_entry entry (table h n entry).2⟩
    | none =>
      have start : Gives get net net net := gives_get.2 ⟨rfl, rfl⟩
      by_cases low : net.faninLevel h.operands + 1 < levelLimit
      · left
        refine ⟨⟨net.size, negated⟩,
          (net.appendGate h (net.faninLevel h.operands + 1)).notify (.added net.size), ?_⟩
        simp only [addNormal, shareGate, gives_bind, gives_get, gives_pure]
        refine ⟨net.size, _, ⟨net, net, ⟨rfl, rfl⟩, ?_⟩, rfl, rfl⟩
        simp only [entry, gives_bind, gives_ofExcept, gives_update, gives_pure, checkLevel,
          ensure_eq_ok, decide_eq_true_eq]
        exact ⟨⟨⟩, net, ⟨low, rfl⟩, (), _, rfl, (), _, rfl, trivial, rfl⟩
      · right
        refine ⟨h, negated, rfl, ?_, Nat.not_lt.1 low⟩
        have refused : ofExcept (checkLevel (net.faninLevel h.operands + 1)) net =
            .error .outOfRange net := by
          rw [checkLevel, ensure, decide_eq_false low]
          rfl
        rw [addNormal, bind_error]
        rw [shareGate, start.bind_eq]
        simp only [entry]
        exact bind_error refused _

end Edit

theorem foldl_max_eq (levels : List Nat) (start : Nat) :
    levels.foldl max start = start ∨ levels.foldl max start ∈ levels := by
  induction levels generalizing start with
  | nil => exact .inl rfl
  | cons a rest ih =>
    rw [List.foldl_cons, List.mem_cons]
    rcases ih (max start a) with same | member
    · omega
    · exact .inr (.inr member)

theorem Network.faninLevel_eq (net : Network) (fanins : List Signal) :
    net.faninLevel fanins = 0 ∨ ∃ f ∈ fanins, net.level f.node = net.faninLevel fanins := by
  rcases foldl_max_eq ((fanins.filter fun f => !net.isDead f.node).map fun f => net.level f.node) 0
    with zero | member
  · exact .inl zero
  · obtain ⟨f, kept, same⟩ := List.mem_map.1 member
    exact .inr ⟨f, (List.mem_filter.1 kept).1, same⟩

theorem Edit.exists_createGate {net : Network} {kind : GateKind} {fanins : List Signal}
    (table : net.SoundTable) (length : fanins.length = kind.arity)
    (alive : ∀ f ∈ fanins, f.node < net.size ∧ net.isDead f.node = false) :
    (∃ s net', Gives (createGate kind fanins) net s net') ∨
      (createGate kind fanins net = .error .outOfRange net ∧
        ∃ f ∈ fanins, levelLimit ≤ net.level f.node + 1) := by
  obtain ⟨g, rfl, rfl⟩ := Gate.exists_ofOperands length
  rcases exists_addNormal table g.normalize with ⟨s, net', run⟩ | ⟨h, negated, shape, failed, high⟩
  · exact .inl ⟨s, net', (createGate_eq alive).trans run⟩
  · refine .inr ⟨(createGate_eq alive).trans failed, ?_⟩
    have perm := (Gate.normalize_gate shape).2.2
    rcases net.faninLevel_eq h.operands with zero | ⟨k, member, same⟩
    · rw [zero] at high
      exact absurd high (by decide)
    · obtain ⟨f, there, node⟩ := Gate.mem_nodes.1 (perm.subset (Gate.mem_nodes.2 ⟨k, member, rfl⟩))
      exact ⟨f, there, by rw [node, same]; exact high⟩

/-- What building a gate from live fanins leaves, and what its signal computes. -/
structure GateBuilt (net : Network) (kind : GateKind) (fanins : List Signal) (s : Signal)
    (net' : Network) : Prop where
  wellFormed : net'.WellFormed
  slots : net' = net ∨ net'.size = net.size + 1
  inside : s.node < net'.size
  live : net'.isDead s.node = false
  kept : ∀ n < net.size, net'.body? n = net.body? n ∧ net'.isDead n = net.isDead n
  inputs : net'.inputs = net.inputs
  outputs : net'.outputs = net.outputs
  values : ∀ inputs : List Bool, inputs.length = net.inputs.length → ∃ before after,
    net.simulateValues inputs = .ok before ∧ net'.simulateValues inputs = .ok after ∧
      (∀ n < net.size, after[n]? = before[n]?) ∧
      kind.apply (fanins.map (signalValue false before)) = .ok (signalValue false after s)
  again : ∀ g negated, kind.normalize fanins = .ok (.gate g negated) →
    ∀ later negated', kind.normalize later = .ok (.gate g negated') →
      Edit.Gives (Edit.createGate kind later) net' (s.negateIf (negated ^^ negated')) net'

theorem Created.slots {net net' : Network} {g : Gate Signal} {s : Signal}
    (created : Created net g s net') : net' = net ∨ net'.size = net.size + 1 := by
  cases created with
  | folded => exact .inl rfl
  | shared => exact .inl rfl
  | appended shape absent change => exact .inr change.size

theorem Created.entry {net net' : Network} {g h : Gate Signal} {negated : Bool} {s : Signal}
    (created : Created net g s net') (shape : g.normalize = .gate h negated) :
    net'.table[h]? = some s.node ∧ s.negated = negated := by
  cases created with
  | folded folds =>
    rw [shape] at folds
    cases folds
  | shared found entry =>
    rw [shape] at found
    cases found
    exact ⟨entry, rfl⟩
  | appended found absent change =>
    rw [shape] at found
    cases found
    exact ⟨by rw [change.table, if_pos rfl], rfl⟩

theorem Created.gateBuilt {net net' : Network} {g : Gate Signal} {s : Signal}
    (created : Created net g s net') (valid : net.WellFormed)
    (alive : ∀ f ∈ g.operands, f.node < net.size ∧ net.isDead f.node = false) :
    GateBuilt net g.kind g.operands s net' := by
  obtain ⟨consistent, acyclic⟩ := wellFormed_iff.1 valid
  have reads (m : Nat) (member : m ∈ g.nodes) : m < net.size ∧ net.isDead m = false := by
    obtain ⟨f, there, rfl⟩ := Gate.mem_nodes.1 member
    exact alive f there
  have inside (m : Nat) (member : m ∈ g.nodes) := (reads m member).1
  have live (m : Nat) (member : m ∈ g.nodes) := (reads m member).2
  have after := created.consistent consistent inside live
  have valid' : net'.WellFormed :=
    wellFormed_iff.2 ⟨after, created.acyclic acyclic consistent.toTallied inside⟩
  obtain ⟨within, awake⟩ := created.live consistent.toTallied inside live
  refine ⟨valid', created.slots, within, awake,
    fun n below => ⟨created.body below, created.dead n⟩, created.frame.inputs, created.outputs,
    fun inputs length => ?_, fun h negated normal later negated' normal' => ?_⟩
  · obtain ⟨value, fits, rfl⟩ := exists_valuation_of_inputs consistent.inPlace acyclic length
    obtain ⟨value', refined, same⟩ := created.refined consistent.toTallied fits inside
    obtain ⟨before, after, run, run', first, second, kept⟩ :=
      refined.exists_displays valid.simulable valid'.simulable fits fun n _ => created.dead n
    refine ⟨before, after, run, run', kept, ?_⟩
    have operands : g.operands.map (signalValue false before) =
        g.operands.map (signalUnder value) :=
      List.map_congr_left fun f member => first.signal (alive f member).1 (alive f member).2
    rw [operands, Gate.apply_operands, second.signal within awake, same]
  · rw [Gate.normalize_operands, Except.ok.injEq] at normal
    obtain ⟨k, kind, rfl⟩ : ∃ k : Gate Signal, k.kind = g.kind ∧ k.operands = later := by
      cases shaped : Gate.ofFanins g.kind later with
      | error fault => simp [GateKind.normalize, shaped, Except.map] at normal'
      | ok k => exact ⟨k, Gate.ofFanins_eq_ok.1 shaped⟩
    rw [← kind, Gate.normalize_operands, Except.ok.injEq] at normal'
    -- Both lists read what the gate in normal form reads.
    have perm := (Gate.normalize_gate normal').2.2.symm.trans (Gate.normalize_gate normal).2.2
    have alive' (f : Signal) (member : f ∈ k.operands) :
        f.node < net'.size ∧ net'.isDead f.node = false := by
      obtain ⟨below, awake⟩ := reads f.node (perm.subset (Gate.mem_nodes.2 ⟨f, member, rfl⟩))
      exact ⟨Nat.lt_of_lt_of_le below created.size_le, by rw [created.dead, awake]⟩
    obtain ⟨entry, polarity⟩ := created.entry normal
    have answer : s.negateIf (negated ^^ negated') = ⟨s.node, negated'⟩ := by
      rw [Signal.negateIf, polarity, ← Bool.xor_assoc, Bool.xor_self, Bool.false_xor]
    rw [← kind, answer]
    refine (Edit.createGate_eq alive').trans ?_
    rw [normal']
    exact Edit.addNormal_of_entry entry awake

namespace Network

variable {net net' : Network}

/-- Nothing was taken out, nobody listens, and every gate is one level above the highest of its
    fanins. -/
structure Layered (net : Network) : Prop where
  alive : ∀ n, net.isDead n = false
  silent : net.subscriptions = []
  level : ∀ n g, net.gate? n = some g →
    net.level n = (g.operands.map fun f => net.level f.node).foldl max 0 + 1

theorem faninLevel_of_alive (alive : ∀ n, net.isDead n = false) (fanins : List Signal) :
    net.faninLevel fanins = (fanins.map fun f => net.level f.node).foldl max 0 := by
  rw [faninLevel, List.filter_eq_self.2 fun f _ => by rw [alive, Bool.not_false]]

theorem levels_appendGate (g : Gate Signal) (level : Nat) :
    (net.appendGate g level).levels = net.levels.push level := by
  refine List.foldlRecOn g.operands (linkFanin net.size)
    (motive := fun (later : Network) => later.levels = net.levels.push level) rfl ?_
  intro later same f _
  exact same

theorem level_push {level n : Nat} (levels : net'.levels = net.levels.push level)
    (below : n < net.levels.size) : net'.level n = net.level n := by
  rw [Network.level, Network.level, levels, Array.getElem?_push_lt below,
    Array.getElem?_eq_getElem below]

theorem Layered.appended {h : Gate Signal} (layered : net.Layered) (inPlace : net.InPlace)
    (change : Appended net net' h) (inside : ∀ m ∈ h.nodes, m < net.size)
    (levels : net'.levels = net.levels.push (net.faninLevel h.operands + 1)) : net'.Layered where
  alive := fun n => by rw [change.dead, layered.alive]
  silent := change.frame.subscriptions.trans layered.silent
  level := fun n g slot => by
    have old (g : Gate Signal) (inside : ∀ m ∈ g.nodes, m < net.size) :
        (g.operands.map fun f => net'.level f.node) = g.operands.map fun f => net.level f.node :=
      List.map_congr_left fun f member => level_push levels <|
        inPlace.size_levels.symm ▸ inside f.node (Gate.mem_nodes.2 ⟨f, member, rfl⟩)
    rw [change.gate?] at slot
    split at slot
    · rename_i here
      cases slot
      rw [old h inside, here, ← faninLevel_of_alive layered.alive, Network.level, levels,
        ← inPlace.size_levels, Array.getElem?_push_size]
      rfl
    · have below := lt_size_of_gate? slot
      have earlier (m : Nat) (member : m ∈ g.nodes) : m < net.size := by
        obtain ⟨f, there, rfl⟩ := feeds_of_gate? slot member
        exact inPlace.fanin_lt n f there
      rw [level_push levels (inPlace.size_levels.symm ▸ below), layered.level n g slot,
        old g earlier]

theorem Layered.appendInput (layered : net.Layered) (inPlace : net.InPlace) (name : String) :
    (net.appendInput name).Layered where
  alive := fun n => by rw [isDead_appendInput, layered.alive]
  silent := layered.silent
  level := fun n g slot => by
    rw [gate?_appendInput] at slot
    have levels : (net.appendInput name).levels = net.levels.push 0 := rfl
    have old (m : Nat) (inside : m < net.size) : (net.appendInput name).level m = net.level m :=
      level_push levels (inPlace.size_levels.symm ▸ inside)
    rw [old n (lt_size_of_gate? slot), layered.level n g slot]
    refine congrArg (fun levels => levels.foldl max 0 + 1) (List.map_congr_left fun f member => ?_)
    rw [← fanins_eq_operands slot] at member
    exact (old f.node (inPlace.fanin_lt n f member)).symm

theorem Layered.appendOutput (layered : net.Layered) (name : String) (s : Signal) :
    (net.appendOutput name s).Layered where
  alive := fun n => by rw [isDead_appendOutput, layered.alive]
  silent := layered.silent
  level := fun n g slot => by
    rw [gate?_congr (body?_appendOutput net name s n)] at slot
    exact layered.level n g slot

end Network

variable {net net' : Network}

theorem Edit.createGate_levels {kind : GateKind} {fanins : List Signal} {s : Signal}
    (consistent : net.Consistent) (silent : net.subscriptions = [])
    (run : Gives (createGate kind fanins) net s net') :
    net' = net ∨ ∃ h : Gate Signal, Appended net net' h ∧ (∀ m ∈ h.nodes, m < net.size) ∧
      net'.levels = net.levels.push (net.faninLevel h.operands + 1) := by
  obtain ⟨alive, g, rfl, rfl, created⟩ := createGate_gives consistent.toTallied run
  cases created with
  | folded => exact .inl rfl
  | shared => exact .inl rfl
  | @appended h negated net' shape absent change =>
    have perm := (Gate.normalize_gate shape).2.2
    have inside (m : Nat) (member : m ∈ h.nodes) : m < net.size := by
      obtain ⟨f, there, rfl⟩ := Gate.mem_nodes.1 (perm.subset member)
      exact (alive f there).1
    refine .inr ⟨h, change, inside, ?_⟩
    have normal : Gives (addNormal (.gate h negated)) net ⟨net.size, negated⟩ net' := by
      rw [← shape]
      exact (createGate_eq alive).symm.trans run
    simp only [addNormal, gives_bind, gives_pure, shareGate, gives_get] at normal
    obtain ⟨n, mid, ⟨start, _, ⟨rfl, rfl⟩, shared⟩, -, rfl⟩ := normal
    simp only [absent, gives_bind, gives_ofExcept, gives_update, gives_pure] at shared
    obtain ⟨_, _, ⟨-, rfl⟩, _, mid, rfl, _, _, rfl, -, rfl⟩ := shared
    have silent : (net.appendGate h (net.faninLevel h.operands + 1)).subscriptions = [] :=
      (appended_appendGate _ (Gate.normalize_gate shape).1.nodup_nodes inside
        consistent.not_mem_fanouts_size).frame.subscriptions.trans silent
    rw [notify, silent]
    exact levels_appendGate h _

theorem Edit.createGate_layered {kind : GateKind} {fanins : List Signal} {s : Signal}
    (consistent : net.Consistent) (layered : net.Layered)
    (run : Gives (createGate kind fanins) net s net') : net'.Layered := by
  rcases createGate_levels consistent layered.silent run with rfl | ⟨h, change, inside, levels⟩
  · exact layered
  · exact layered.appended consistent.inPlace change inside levels

def Command.builds : Command → Bool
  | addInput _ => true
  | addOutput .. => true
  | createGate .. => true
  | orGate .. => true
  | _ => false

theorem Command.layered {c : Command} (consistent : net.Consistent) (layered : net.Layered)
    (builds : c.builds = true) (run : Edit.Gives c.edit net () net') : net'.Layered := by
  cases c with
  | addInput name =>
    simp only [edit, Edit.addInput, Edit.gives_bind, Edit.gives_get, Edit.gives_update,
      Edit.gives_pure] at run
    obtain ⟨_, _, ⟨_, _, ⟨rfl, rfl⟩, _, _, rfl, rfl, rfl⟩, -, rfl⟩ := run
    exact layered.appendInput consistent.inPlace name
  | addOutput name s =>
    simp only [edit, Edit.addOutput, Edit.gives_bind, Edit.gives_check, Edit.gives_update] at run
    obtain ⟨_, _, ⟨-, rfl⟩, rfl⟩ := run
    exact layered.appendOutput name s
  | createGate kind fanins =>
    simp only [edit, Edit.gives_bind, Edit.gives_pure] at run
    obtain ⟨s, _, created, -, rfl⟩ := run
    exact Edit.createGate_layered consistent layered created
  | orGate a b =>
    simp only [edit, Edit.orGate, Edit.andGate, Edit.gives_bind, Edit.gives_pure] at run
    obtain ⟨_, _, ⟨s, _, created, rfl, rfl⟩, -, rfl⟩ := run
    exact Edit.createGate_layered consistent layered created
  | takeOut n => cases builds
  | recomputeLevels => cases builds
  | setLevel n level => cases builds
  | substitute old new => cases builds

theorem Completed.layered {commands : List Command} {stages : List Stage}
    (history : Completed net commands stages net') (consistent : net.Consistent)
    (layered : net.Layered) (builds : ∀ c ∈ commands, c.builds = true) : net'.Layered := by
  induction history with
  | nil => exact layered
  | cons admissible run later ih =>
    rw [List.forall_mem_cons] at builds
    exact ih (Command.keeps consistent admissible run).1
      (Command.layered consistent layered builds.1 run) builds.2

theorem Network.layered_empty (name : String) : (empty name).Layered where
  alive := fun n => by cases n <;> simp [isDead, empty, Node.fresh]
  silent := rfl
  level := fun n g slot => by cases n <;> simp [gate?, empty, Node.fresh, Node.gate?] at slot

/-- A kind over live fanins is built, unless its level does not fit, and built right. Where nothing
    but building ever happened, every gate is one level above the highest of its fanins. -/
theorem gateBuilt_createGate {kind : GateKind} {fanins : List Signal} (valid : net.WellFormed)
    (length : fanins.length = kind.arity)
    (alive : ∀ f ∈ fanins, f.node < net.size ∧ net.isDead f.node = false) :
    ((∃ s net', Edit.Gives (Edit.createGate kind fanins) net s net') ∨
      (Edit.createGate kind fanins net = .error .outOfRange net ∧
        ∃ f ∈ fanins, levelLimit ≤ net.level f.node + 1)) ∧
    (∀ s net', Edit.Gives (Edit.createGate kind fanins) net s net' →
      GateBuilt net kind fanins s net') ∧
    ∀ name commands stages built, Completed (empty name) commands stages built →
      (∀ c ∈ commands, c.builds = true) → ∀ n g, built.gate? n = some g →
        built.level n = (g.operands.map fun f => built.level f.node).foldl max 0 + 1 := by
  refine ⟨Edit.exists_createGate valid.table length alive, fun s net' run => ?_,
    fun name commands stages built history builds => ?_⟩
  · have tallied := (wellFormed_iff.1 valid).1.toTallied
    obtain ⟨-, g, rfl, rfl, created⟩ := Edit.createGate_gives tallied run
    exact created.gateBuilt valid alive
  · exact (history.layered (consistent_empty name) (layered_empty name) builds).level

/-- The complement of an exclusive disjunction is built, and the disjunction itself is found. -/
theorem gateBuilt_of_exclusive : ∃ stages net net',
    Completed (empty "exclusive") (Command.load 2 [(.and2, [2, 4])] [6]) stages net ∧
    net.WellFormed ∧
    Edit.Gives (Edit.createGate .xor2 [⟨3, true⟩, ⟨2, false⟩]) net ⟨4, true⟩ net' ∧
    GateBuilt net .xor2 [⟨3, true⟩, ⟨2, false⟩] ⟨4, true⟩ net' ∧
    Edit.Gives (Edit.createGate .xor2 [⟨2, false⟩, ⟨3, false⟩]) net' ⟨4, false⟩ net' ∧
    net.level 3 = max (net.level 1) (net.level 2) + 1 := by
  obtain ⟨stages, net, history, checks⟩ := Command.exists_completed
    (Command.load 2 [(.and2, [2, 4])] [6]) (empty "exclusive")
    (fun _ net => decide net.Acyclic && decide (net.gate? 3 = some (.and2 ⟨1, false⟩ ⟨2, false⟩)) &&
      decide (∀ f ∈ [(⟨3, true⟩ : Signal), ⟨2, false⟩],
        f.node < net.size ∧ net.isDead f.node = false) &&
      Edit.yields (Edit.createGate .xor2 [⟨3, true⟩, ⟨2, false⟩]) (fun s _ => s == ⟨4, true⟩) net)
    (by decide +kernel)
  simp only [Bool.and_eq_true, decide_eq_true_eq] at checks
  obtain ⟨⟨⟨acyclic, slot⟩, alive⟩, yielded⟩ := checks
  obtain ⟨s, net', run, same⟩ := Edit.exists_gives yielded
  rw [eq_of_beq same] at run
  have valid := history.wellFormed acyclic
  obtain ⟨-, built, levels⟩ := @gateBuilt_createGate net .xor2 _ valid rfl alive
  refine ⟨stages, net, net', history, valid, run, built _ _ run, ?_, ?_⟩
  · exact (built _ _ run).again (.xor2 ⟨2, false⟩ ⟨3, false⟩) true rfl _ false rfl
  · exact levels _ _ _ _ history (by decide) 3 _ slot

end LogicOpt
