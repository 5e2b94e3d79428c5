import LogicOpt.Network.Level
import LogicOpt.Proofs.Scheduling

/-!
Networks as they come about: by a history of commands that starts from the empty network. Every
command keeps the bookkeeping in line, whatever its substitutions meet. They close no cycle unless a
dead target is exchanged for a live twin.
-/

namespace LogicOpt

open Network

inductive Command where
  | addInput (name : String)
  | addOutput (name : String) (s : Signal)
  | createGate (kind : GateKind) (fanins : List Signal)
  | orGate (a b : Signal)
  | takeOut (n : Nat)
  | recomputeLevels
  | setLevel (n level : Nat)
  | substitute (old : Nat) (new : Signal)
deriving DecidableEq

namespace Command

def andGate (a b : Signal) : Command := .createGate .and2 [a, b]

def edit : Command → Edit Unit
  | addInput name => do let _ ← Edit.addInput name
  | addOutput name s => Edit.addOutput name s
  | createGate kind fanins => do let _ ← Edit.createGate kind fanins
  | orGate a b => do let _ ← Edit.orGate a b
  | takeOut n => Edit.takeOutNode n
  | recomputeLevels => Edit.update (·.recomputeLevels)
  | setLevel n level => Edit.setLevel n level
  | substitute old new => Edit.substituteNode old new

/-- Outputs are put on live signals, gates that nothing reads are taken out, and a node is not
    replaced by what is computed from it. -/
def Admissible (net : Network) : Command → Prop
  | addOutput _ s => net.isDead s.node = false
  | takeOut n => net.isGate n = true ∧ net.fanoutCount n = 0
  | substitute old new => ¬net.Reaches new.node old
  | _ => True

instance (net : Network) (c : Command) : Decidable (c.Admissible net) := by
  cases c <;> unfold Admissible <;> infer_instance

def encounters (net : Network) : Command → List Encounter
  | substitute old new => Edit.substitutionEncounters old new net
  | _ => []

end Command

/-- What a command met, and the network it left. -/
structure Stage where
  met : List Encounter
  net : Network

/-- The commands completed one after another, each admissible in its turn. -/
inductive Completed : Network → List Command → List Stage → Network → Prop where
  | nil {net : Network} : Completed net [] [] net
  | cons {net mid net' : Network} {c : Command} {rest : List Command} {stages : List Stage}
      (admissible : c.Admissible net) (run : Edit.Gives c.edit net () mid)
      (later : Completed mid rest stages net') :
      Completed net (c :: rest) (⟨c.encounters net, mid⟩ :: stages) net'

namespace Network

variable {net net' : Network}

section AppendInput

variable (net) (name : String)

theorem getElem?_appendInput (m : Nat) :
    (net.appendInput name).nodes[m]? =
      if m = net.size then some (.fresh (.input name)) else net.nodes[m]? := by
  rw [appendInput, Array.getElem?_push]
  rfl

theorem size_appendInput : (net.appendInput name).size = net.size + 1 := by
  simp [appendInput, size]

theorem read_appendInput {α : Type} (f : Option Node → α)
    (unread : f (some (.fresh (.input name))) = f none) (m : Nat) :
    f (net.appendInput name).nodes[m]? = f net.nodes[m]? := by
  rw [getElem?_appendInput]
  split
  · rename_i last
    rw [last, getElem?_size, unread]
  · rfl

theorem gate?_appendInput (m : Nat) : (net.appendInput name).gate? m = net.gate? m :=
  read_appendInput net name (·.bind Node.gate?) rfl m

theorem isDead_appendInput (m : Nat) : (net.appendInput name).isDead m = net.isDead m :=
  read_appendInput net name (·.any Node.dead) rfl m

theorem fanouts_appendInput (m : Nat) : (net.appendInput name).fanouts m = net.fanouts m :=
  read_appendInput net name (fun slot => (slot.map Node.fanouts).getD []) rfl m

theorem fanoutCount_appendInput (m : Nat) :
    (net.appendInput name).fanoutCount m = net.fanoutCount m :=
  read_appendInput net name (fun slot => (slot.map Node.fanoutCount).getD 0) rfl m

theorem isInput_appendInput (m : Nat) :
    (net.appendInput name).isInput m = (m == net.size || net.isInput m) := by
  unfold isInput
  rw [getElem?_appendInput]
  split
  · rename_i last
    simp [last, Node.fresh, Node.isInput]
  · rename_i other
    simp [other]

theorem feeds_appendInput {m k : Nat} : (net.appendInput name).Feeds m k ↔ net.Feeds m k := by
  rw [feeds_iff, feeds_iff, gate?_appendInput]

theorem isLiveGate_appendInput (m : Nat) :
    (net.appendInput name).isLiveGate m = net.isLiveGate m := by
  rw [isLiveGate, isLiveGate, isGate, isGate, gate?_appendInput, isDead_appendInput]

theorem Consistent.appendInput (consistent : net.Consistent) :
    (net.appendInput name).Consistent := by
  have inPlace := consistent.inPlace
  have feeds {m k : Nat} := feeds_appendInput net name (m := m) (k := k)
  constructor
  case toTallied =>
    refine ⟨⟨?inPlace, ?canonical, ?listed, ?count, ?numGates⟩, ?table⟩
    case inPlace =>
      constructor
      case size_levels =>
        rw [size_appendInput, ← inPlace.size_levels]
        simp [Network.appendInput]
      case constant_iff =>
        intro n
        rw [← inPlace.constant_iff n]
        unfold body?
        rw [getElem?_appendInput]
        split
        · rename_i last
          rw [last, getElem?_size]
          simp [Node.fresh]
        · rfl
      case inputs_eq =>
        rw [size_appendInput, List.range_succ, List.filter_append]
        have below : (List.range net.size).filter (net.appendInput name).isInput =
            (List.range net.size).filter net.isInput := by
          refine List.filter_congr fun m member => ?_
          have other : m ≠ net.size := Nat.ne_of_lt (List.mem_range.1 member)
          simp [isInput_appendInput, other]
        have inputs : (net.appendInput name).inputs = net.inputs ++ [net.size] := rfl
        rw [inputs, below, ← inPlace.inputs_eq]
        simp [isInput_appendInput]
      case gate_of_dead =>
        intro n dead
        rw [isDead_appendInput] at dead
        rw [isGate, gate?_appendInput]
        exact inPlace.gate_of_dead n dead
      case fanin_lt =>
        refine fanin_lt_of_feeds fun n m reads => ?_
        rw [size_appendInput]
        exact Nat.lt_succ_of_lt (consistent.lt_of_feeds (feeds.1 reads))
      case fanouts_nodup =>
        intro n
        rw [fanouts_appendInput]
        exact inPlace.fanouts_nodup n
      case reader_of_fanout =>
        intro n m member
        rw [fanouts_appendInput] at member
        rw [isLiveGate_appendInput, feeds]
        exact inPlace.reader_of_fanout n m member
      case output_lt =>
        intro o member
        rw [size_appendInput]
        exact Nat.lt_succ_of_lt (inPlace.output_lt o member)
      case subscription_lt => exact inPlace.subscription_lt
    case canonical =>
      intro n g slot
      rw [gate?_appendInput] at slot
      exact consistent.canonical n g slot
    case table =>
      intro g n entry
      rw [gate?_appendInput, isDead_appendInput]
      exact consistent.table g n entry
    case listed =>
      intro g n live reads
      rw [fanouts_appendInput]
      rw [isLiveGate_appendInput] at live
      exact consistent.listed g n live (feeds.1 reads)
    case count =>
      intro n
      rw [fanoutCount_appendInput, fanouts_appendInput]
      exact consistent.count n
    case numGates =>
      have same : (net.appendInput name).isLiveGate = net.isLiveGate :=
        funext (isLiveGate_appendInput net name)
      rw [liveGates, same, size_appendInput, filter_range_of_le (Nat.le_succ _) fun m outside => by
        simp [isLiveGate, isGate, gate?_eq_none_of_size_le outside]]
      exact consistent.numGates
  case fanins_live =>
    intro g n live reads
    rw [isLiveGate_appendInput] at live
    rw [isDead_appendInput]
    exact consistent.fanins_live g n live (feeds.1 reads)
  case outputs_live =>
    intro o member
    rw [isDead_appendInput]
    exact consistent.outputs_live o member

end AppendInput

section AppendOutput

variable (net) (name : String) (s : Signal)

theorem body?_appendOutput (m : Nat) : (net.appendOutput name s).body? m = net.body? m := by
  simp only [appendOutput, incrCount, body?, getElem?_modifyNode]
  split <;> simp [Function.comp_def]

theorem isDead_appendOutput (m : Nat) : (net.appendOutput name s).isDead m = net.isDead m := by
  simp only [appendOutput, incrCount, isDead, getElem?_modifyNode]
  split
  · cases net.nodes[m]? <;> rfl
  · rfl

theorem fanouts_appendOutput (m : Nat) : (net.appendOutput name s).fanouts m = net.fanouts m := by
  simp only [appendOutput, incrCount, fanouts, getElem?_modifyNode]
  split <;> simp [Function.comp_def]

theorem size_appendOutput : (net.appendOutput name s).size = net.size := by
  simp [appendOutput, incrCount, modifyNode, size]

theorem fanoutCount_appendOutput (inside : s.node < net.size) (m : Nat) :
    (net.appendOutput name s).fanoutCount m =
      net.fanoutCount m + if s.node = m then 1 else 0 := by
  simp only [appendOutput, incrCount, fanoutCount, getElem?_modifyNode]
  split
  · rename_i same
    subst same
    obtain ⟨node, slot⟩ := getElem?_eq_some_of_lt inside
    simp [slot]
  · rfl

theorem outputReferences_appendOutput (m : Nat) :
    (net.appendOutput name s).outputReferences m =
      net.outputReferences m + if s.node = m then 1 else 0 := by
  simp only [outputReferences, outputSignals, appendOutput, incrCount, modifyNode, List.map_append,
    List.countP_append]
  split <;> simp_all

theorem Consistent.appendOutput (consistent : net.Consistent) (inside : s.node < net.size)
    (live : net.isDead s.node = false) : (net.appendOutput name s).Consistent := by
  have body := body?_appendOutput net name s
  have dead := isDead_appendOutput net name s
  have fanouts := fanouts_appendOutput net name s
  have size := size_appendOutput net name s
  have liveGate (m : Nat) := isLiveGate_congr (body m) (dead m)
  have outputs {o : Output} : o ∈ (net.appendOutput name s).outputs →
      o ∈ net.outputs ∨ o.signal = s := by
    intro member
    rcases List.mem_append.1 member with member | member
    · exact .inl member
    · rw [List.mem_singleton.1 member]
      exact .inr rfl
  have below {n m : Nat} (reads : (net.appendOutput name s).Feeds m n) : m < net.size :=
    consistent.lt_of_feeds ((feeds_congr (body n)).1 reads)
  constructor
  case toTallied =>
    apply consistent.toTallied.after
    case frame =>
      exact ⟨rfl, rfl, rfl, fun levels => by rw [size, ← levels]; rfl⟩
    case sources => exact fun m => .inl (body m)
    case size_le => rw [size]
    case dead =>
      intro m asleep
      rw [gate?_congr (body m)]
      exact consistent.gate_of_dead (by rw [← dead]; exact asleep)
    case below =>
      intro n m reads
      rw [size]
      exact below reads
    case nodup =>
      intro n
      rw [fanouts]
      exact consistent.inPlace.fanouts_nodup n
    case readers =>
      intro n m
      rw [fanouts, liveGate, feeds_congr (body m)]
      exact consistent.mem_fanouts
    case output =>
      intro o member
      rw [size]
      rcases outputs member with member | same
      · exact consistent.inPlace.output_lt o member
      · rwa [same]
    case canonical =>
      intro n g slot
      rw [gate?_congr (body n)] at slot
      exact consistent.canonical n g slot
    case table =>
      intro g n entry
      rw [gate?_congr (body n), dead]
      exact consistent.table g n entry
    case count =>
      intro n
      rw [fanoutCount_appendOutput net name s inside, fanouts, outputReferences_appendOutput,
        consistent.count, Nat.add_assoc]
    case gates =>
      rw [liveGates_congr size liveGate]
      exact consistent.numGates
  case fanins_live =>
    intro g n running reads
    rw [liveGate] at running
    rw [dead]
    exact consistent.fanins_live g n running ((feeds_congr (body g)).1 reads)
  case outputs_live =>
    intro o member
    rw [dead]
    rcases outputs member with member | same
    · exact consistent.outputs_live o member
    · rwa [same]

end AppendOutput

theorem acyclic_of_feeds (acyclic : net.Acyclic) (feeds : ∀ m n, net'.Feeds m n → net.Feeds m n) :
    net'.Acyclic :=
  Subrelation.wf (fun {m n} reads => feeds m n reads) acyclic

theorem acyclic_relevel (acyclic : net.Acyclic) (levels : Relevelled net net') : net'.Acyclic := by
  obtain ⟨_, _, rfl, -⟩ := levels
  exact acyclic

theorem acyclic_append {g : Gate Signal} (acyclic : net.Acyclic) (tallied : net.Tallied)
    (change : Appended net net' g) (inside : ∀ m ∈ g.nodes, m < net.size) : net'.Acyclic := by
  have older (n : Nat) (below : n < net.size) : Acc net'.Feeds n := by
    induction n using acyclic.induction with
    | _ n ih =>
      refine ⟨n, fun m feeds => ?_⟩
      have reads := (change.feeds.1 feeds).resolve_left fun last => Nat.ne_of_lt below last.1
      exact ih m reads (tallied.lt_of_feeds reads)
  refine ⟨fun n => ⟨n, fun m feeds => older m ?_⟩⟩
  rcases change.feeds.1 feeds with ⟨-, member⟩ | reads
  · exact inside m member
  · exact tallied.lt_of_feeds reads

theorem Trimmed.acyclic (trimmed : Trimmed net net') (acyclic : net.Acyclic) : net'.Acyclic :=
  acyclic_of_feeds acyclic fun _ n => (feeds_congr (trimmed.body n)).1

theorem relevelled_recomputeLevels (net : Network) : Relevelled net net.recomputeLevels := by
  unfold recomputeLevels
  generalize net.topoOrder = order
  induction order generalizing net with
  | nil => exact ⟨net.levels, net.journal, rfl, rfl⟩
  | cons n rest ih => exact (relevelled_setLevel net n _).trans (ih _)

theorem journal_recomputeLevels (net : Network) :
    net.recomputeLevels.journal = net.journal := by
  unfold recomputeLevels
  generalize net.topoOrder = order
  induction order generalizing net with
  | nil => rfl
  | cons n rest ih => exact ih (net.relevelNode n)

end Network

variable {net net' : Network}

theorem Created.acyclic {g : Gate Signal} {s : Signal} (created : Created net g s net')
    (acyclic : net.Acyclic) (tallied : net.Tallied) (inside : ∀ m ∈ g.nodes, m < net.size) :
    net'.Acyclic := by
  cases created with
  | folded => exact acyclic
  | shared => exact acyclic
  | appended shape absent change =>
    have perm := (Gate.normalize_gate shape).2.2
    exact acyclic_append acyclic tallied change fun m member => inside m (perm.subset member)

inductive Command.Carried : Command → Network → Network → Prop where
  | addInput {net : Network} {name : String} :
      Carried (.addInput name) net (net.appendInput name)
  | addOutput {net : Network} {name : String} {s : Signal} (inside : s.node < net.size)
      (live : net.isDead s.node = false) :
      Carried (.addOutput name s) net (net.appendOutput name s)
  | created {c : Command} {net net' : Network} {g : Gate Signal} {s : Signal}
      (alive : ∀ m ∈ g.nodes, m < net.size ∧ net.isDead m = false)
      (created : Created net g s net') : Carried c net net'
  | takenOut {n : Nat} {net net' : Network} (trimmed : Trimmed net net') :
      Carried (.takeOut n) net net'
  | relevelled {c : Command} {net net' : Network} (levels : Relevelled net net')
      (journal : net'.journal = net.journal) : Carried c net net'
  | substituted {old : Nat} {new : Signal} {net net' : Network}
      (apart : ¬net.Reaches new.node old)
      (run : Edit.Gives (Edit.substituteNode old new) net () net') :
      Carried (.substitute old new) net net'

theorem Edit.createGate_carried {c : Command} {kind : GateKind} {fanins : List Signal} {s : Signal}
    (consistent : net.Consistent) (run : Gives (createGate kind fanins) net s net') :
    c.Carried net net' := by
  obtain ⟨alive, g, -, rfl, created⟩ := createGate_gives consistent.toTallied run
  refine .created (fun m member => ?_) created
  obtain ⟨f, there, rfl⟩ := Gate.mem_nodes.1 member
  exact alive f there

theorem Command.carried {c : Command} (consistent : net.Consistent) (admissible : c.Admissible net)
    (run : Edit.Gives c.edit net () net') : c.Carried net net' := by
  cases c with
  | addInput name =>
    simp only [edit, Edit.addInput, Edit.gives_bind, Edit.gives_get, Edit.gives_update,
      Edit.gives_pure] at run
    obtain ⟨_, _, ⟨_, _, ⟨rfl, rfl⟩, _, _, rfl, rfl, rfl⟩, -, rfl⟩ := run
    exact .addInput
  | addOutput name s =>
    simp only [edit, Edit.addOutput, Edit.gives_bind, Edit.gives_check, Edit.gives_update,
      ensure_eq_ok, decide_eq_true_eq] at run
    obtain ⟨_, _, ⟨inside, rfl⟩, rfl⟩ := run
    exact .addOutput inside admissible
  | createGate kind fanins =>
    simp only [edit, Edit.gives_bind, Edit.gives_pure] at run
    obtain ⟨s, _, created, -, rfl⟩ := run
    exact Edit.createGate_carried consistent created
  | orGate a b =>
    simp only [edit, Edit.orGate, Edit.andGate, Edit.gives_bind, Edit.gives_pure] at run
    obtain ⟨_, _, ⟨s, _, created, rfl, rfl⟩, -, rfl⟩ := run
    exact Edit.createGate_carried consistent created
  | takeOut n =>
    simp only [edit, Edit.takeOutNode, Edit.gives_bind, Edit.gives_check, Edit.gives_update] at run
    obtain ⟨_, _, ⟨-, rfl⟩, rfl⟩ := run
    obtain ⟨gate, unread⟩ := admissible
    obtain ⟨g, slot⟩ := Option.isSome_iff_exists.1 gate
    exact .takenOut (takeOut_spec consistent ⟨lt_size_of_gate? slot, .inr (.inr unread)⟩).1
  | recomputeLevels =>
    simp only [edit, Edit.gives_update] at run
    subst run
    exact .relevelled (relevelled_recomputeLevels net) (journal_recomputeLevels net)
  | setLevel n level =>
    simp only [edit, Edit.setLevel, Edit.gives_bind, Edit.gives_check, Edit.gives_update] at run
    obtain ⟨_, _, ⟨-, rfl⟩, rfl⟩ := run
    exact .relevelled (relevelled_setLevel net n level) rfl
  | substitute old new => exact .substituted admissible run

theorem Command.keeps {c : Command} (consistent : net.Consistent) (admissible : c.Admissible net)
    (run : Edit.Gives c.edit net () net') :
    net'.Consistent ∧
      ((∀ e ∈ c.encounters net, e.takesTwin = false) → net.Acyclic → net'.Acyclic) := by
  cases carried consistent admissible run with
  | addInput =>
    exact ⟨consistent.appendInput net _, fun _ acyclic =>
      acyclic_of_feeds acyclic fun _ _ => (feeds_appendInput net _).1⟩
  | addOutput inside live =>
    exact ⟨consistent.appendOutput net _ _ inside live, fun _ acyclic =>
      acyclic_of_feeds acyclic fun _ n => (feeds_congr (body?_appendOutput net _ _ n)).1⟩
  | created alive created =>
    exact ⟨created.consistent consistent (fun m member => (alive m member).1)
        fun m member => (alive m member).2,
      fun _ acyclic =>
        created.acyclic acyclic consistent.toTallied fun m member => (alive m member).1⟩
  | takenOut trimmed => exact ⟨trimmed.consistent consistent, fun _ => trimmed.acyclic⟩
  | relevelled levels =>
    exact ⟨consistent.relevel levels, fun _ acyclic => acyclic_relevel acyclic levels⟩
  | substituted apart run =>
    exact ⟨(Edit.substituteNode_consistent consistent run).1, fun twinless acyclic =>
      Edit.substituteNode_acyclic consistent acyclic apart twinless run⟩

namespace Completed

variable {commands : List Command} {stages : List Stage}

theorem consistent (history : Completed net commands stages net') (start : net.Consistent) :
    net'.Consistent ∧ ∀ s ∈ stages, s.net.Consistent := by
  induction history with
  | nil => exact ⟨start, by simp⟩
  | cons admissible run later ih =>
    have after := (Command.keeps start admissible run).1
    obtain ⟨last, others⟩ := ih after
    refine ⟨last, fun s member => ?_⟩
    rcases List.mem_cons.1 member with rfl | member
    · exact after
    · exact others s member

theorem acyclic (history : Completed net commands stages net') (start : net.Consistent)
    (acyclic : net.Acyclic)
    (twins : ∀ s ∈ stages, (∃ e ∈ s.met, e.takesTwin = true) → s.net.Acyclic) :
    ∀ s ∈ stages, s.net.Acyclic := by
  induction history with
  | nil => simp
  | @cons net mid net' c rest stages admissible run later ih =>
    obtain ⟨after, kept⟩ := Command.keeps start admissible run
    have here : mid.Acyclic := by
      by_cases taken : ∃ e ∈ c.encounters net, e.takesTwin = true
      · exact twins ⟨c.encounters net, mid⟩ (by simp) taken
      · refine kept (fun e member => Bool.eq_false_iff.2 fun twin => ?_) acyclic
        exact taken ⟨e, member, twin⟩
    intro s member
    rcases List.mem_cons.1 member with rfl | member
    · exact here
    · exact ih after here (fun s member => twins s (List.mem_cons_of_mem _ member)) s member

theorem acyclic_of_twinless (history : Completed net commands stages net') (start : net.Consistent)
    (acyclic : net.Acyclic) (twinless : ∀ s ∈ stages, ∀ e ∈ s.met, e.takesTwin = false) :
    net'.Acyclic := by
  induction history with
  | nil => exact acyclic
  | cons admissible run later ih =>
    rw [List.forall_mem_cons] at twinless
    obtain ⟨after, kept⟩ := Command.keeps start admissible run
    exact ih after (kept twinless.1 acyclic) twinless.2

end Completed

theorem Network.consistent_empty (name : String) : (Network.empty name).Consistent :=
  (wellFormed_iff.1 (wellFormed_empty name)).1

theorem Completed.wellFormed {name : String} {commands : List Command} {stages : List Stage}
    (history : Completed (empty name) commands stages net) (acyclic : net.Acyclic) :
    net.WellFormed :=
  wellFormed_iff.2 ⟨(history.consistent (consistent_empty name)).1, acyclic⟩

namespace Command

def load (inputs : Nat) (gates : List (GateKind × List Nat)) (outputs : List Nat) : List Command :=
  (List.range inputs).map (fun i => addInput ("i" ++ toString i)) ++
    gates.map (fun (kind, literals) => createGate kind (literals.map .ofLiteral)) ++
    outputs.mapIdx fun i literal => addOutput ("o" ++ toString i) (.ofLiteral literal)

def play : List Command → Network → Option (List Stage × Network)
  | [], net => some ([], net)
  | c :: rest, net =>
    if c.Admissible net then
      match c.edit net with
      | .ok () mid =>
        (play rest mid).map fun (stages, net') => (⟨c.encounters net, mid⟩ :: stages, net')
      | .error _ _ => none
    else none

theorem completed_of_play {commands : List Command} {stages : List Stage} {net net' : Network}
    (played : play commands net = some (stages, net')) : Completed net commands stages net' := by
  induction commands generalizing net stages with
  | nil =>
    obtain ⟨rfl, rfl⟩ := played
    exact .nil
  | cons c rest ih =>
    unfold play at played
    split at played
    · rename_i admissible
      split at played
      · rename_i mid run
        obtain ⟨⟨later, last⟩, continued, same⟩ := Option.map_eq_some_iff.1 played
        cases same
        exact .cons admissible run (ih continued)
      · cases played
    · cases played

theorem exists_completed (commands : List Command) (net : Network)
    (holds : List Stage → Network → Bool)
    (played : (play commands net).any (fun left => holds left.1 left.2) = true) :
    ∃ stages net', Completed net commands stages net' ∧ holds stages net' = true := by
  obtain ⟨⟨stages, net'⟩, ran, passed⟩ := (Option.any_eq_true _ _).1 played
  exact ⟨stages, net', completed_of_play ran, passed⟩

end Command

/-- After every command of a history the bookkeeping is in line, gates are in normal form, and the
    table is sound. The network is acyclic after all of them exactly if it is so after those whose
    substitution took a twin for a dead target. -/
theorem Completed.invariant {name : String} {commands : List Command} {stages : List Stage}
    (history : Completed (empty name) commands stages net) :
    (∀ s ∈ stages, s.net.integrityIssue? = none ∧ (∀ n, (s.net.fanouts n).Nodup) ∧
      s.net.CanonicalGates ∧ s.net.SoundTable) ∧
    ((∀ s ∈ stages, s.net.Acyclic) ↔
      ∀ s ∈ stages, (∃ e ∈ s.met, e.takesTwin = true) → s.net.Acyclic) := by
  have start := consistent_empty name
  refine ⟨fun s member => ?_, fun all s member _ => all s member,
    history.acyclic start (wellFormed_empty name).acyclic⟩
  have consistent := (history.consistent start).2 s member
  exact ⟨consistent.integrity, consistent.inPlace.fanouts_nodup, consistent.canonical,
    consistent.table⟩

/-- A dead node takes the place of an input. -/
theorem invariant_of_revival : ∃ stages net,
    Completed (empty "revival")
      (Command.load 3 [(.and2, [2, 4]), (.and2, [6, 8])] [10] ++
        [.substitute 4 (.ofLiteral 6), .substitute 3 (.ofLiteral 8)]) stages net ∧
      (∃ s ∈ stages, ∃ e ∈ s.met, e.dead = true) ∧
      ∀ s ∈ stages, s.net.integrityIssue? = none ∧ s.net.Acyclic := by
  obtain ⟨stages, net, history, plain⟩ := Command.exists_completed
    (Command.load 3 [(.and2, [2, 4]), (.and2, [6, 8])] [10] ++
      [.substitute 4 (.ofLiteral 6), .substitute 3 (.ofLiteral 8)]) (empty "revival")
    (fun stages _ =>
      stages.any (·.met.any (·.dead)) && stages.all (·.met.all (!·.takesTwin)))
    (by decide +kernel)
  simp only [Bool.and_eq_true, List.any_eq_true, List.all_eq_true, Bool.not_eq_true'] at plain
  obtain ⟨revived, twinless⟩ := plain
  obtain ⟨all, acyclic⟩ := Completed.invariant history
  have none : ∀ s ∈ stages, (∃ e ∈ s.met, e.takesTwin = true) → s.net.Acyclic := by
    rintro s member ⟨e, there, taken⟩
    rw [twinless s member e there] at taken
    cases taken
  exact ⟨stages, net, history, revived, fun s member => ⟨(all s member).1, acyclic.2 none s member⟩⟩

/-- Eight inputs and eighteen gates, and four substitutions. In the last one a target has died and is
    exchanged for its live twin. -/
def cascade : List Command :=
  Command.load 8
    [(.maj3, [10, 3, 4]), (.maj3, [17, 2, 4]), (.maj3, [12, 5, 8]), (.and2, [14, 8]),
     (.and2, [24, 6]), (.maj3, [26, 18, 5]), (.maj3, [16, 2, 28]), (.maj3, [26, 18, 21]),
     (.and2, [32, 2]), (.maj3, [8, 22, 34]), (.and2, [36, 6]), (.maj3, [38, 18, 5]),
     (.and2, [40, 2]), (.maj3, [18, 5, 42]), (.maj3, [10, 2, 44]), (.maj3, [10, 3, 6]),
     (.and2, [36, 48]), (.maj3, [18, 4, 50])]
    [34, 30, 46, 52] ++
  [.substitute 7 (.ofLiteral 22), .substitute 6 (.ofLiteral 18), .substitute 5 (.ofLiteral 16),
    .substitute 8 (.ofLiteral 2)]

/-- The gates in slots 17, 18 and 25 read one another in a circle. -/
theorem cycle_of_cascade :
    ∃ stages net, Completed (empty "cascade") cascade stages net ∧ ¬net.Acyclic := by
  obtain ⟨stages, net, history, cyclic⟩ := Command.exists_completed cascade (empty "cascade")
    (fun _ net => !decide net.Acyclic) (by decide +kernel)
  exact ⟨stages, net, history, by simpa using cyclic⟩

end LogicOpt
