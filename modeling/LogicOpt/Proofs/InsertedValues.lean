import LogicOpt.Proofs.GateCreation
import LogicOpt.Proofs.Placement
import LogicOpt.Proofs.TableAlgebra

namespace LogicOpt

open Network

namespace Candidate

/-- The candidates made by appending gates and choosing an output. -/
inductive Built : Candidate → Prop
  | empty (numDivisors : Nat) : Built (.empty numDivisors)
  | addGate {c c' : Candidate} {kind : GateKind} {fanins : List Signal} {s : Signal}
      (built : Built c) (run : c.addGate kind fanins = .ok (c', s)) : Built c'
  | setOutput {c : Candidate} (built : Built c) (output : Signal) : Built { c with output }

theorem checkFanins_eq_ok {c : Candidate} {fanins : List Signal} {u : Unit} :
    c.checkFanins fanins = .ok u ↔ ∀ s ∈ fanins, s.node < c.nextPosition := by
  induction fanins with
  | nil => simp [checkFanins]
  | cons s rest ih =>
    rw [checkFanins, List.forall_mem_cons]
    split
    · rename_i inside
      rw [ih]
      exact ⟨fun others => ⟨inside, others⟩, And.right⟩
    · rename_i outside
      exact ⟨nofun, fun all => absurd all.1 outside⟩

theorem addGate_eq_ok {c c' : Candidate} {kind : GateKind} {fanins : List Signal} {s : Signal}
    (run : c.addGate kind fanins = .ok (c', s)) :
    ∃ g : Gate Signal, c' = { c with gates := c.gates ++ [g] } ∧
      ∀ f ∈ g.operands, f.node < c.nextPosition := by
  unfold addGate at run
  cases shaped : Gate.ofOperands? kind fanins with
  | none => simp [shaped, throw, throwThe, MonadExceptOf.throw] at run
  | some g =>
    have operands := (Gate.ofFanins_eq_ok.1 (by rw [Gate.ofFanins, shaped])).2
    simp only [shaped, bind_eq_ok, pure, Except.pure, Except.ok.injEq, Prod.mk.injEq] at run
    obtain ⟨_, -, _, checked, _, -, rfl, -⟩ := run
    exact ⟨g, rfl, by rw [operands]; exact checkFanins_eq_ok.1 checked⟩

theorem Ordered.addGate {c : Candidate} {g : Gate Signal} (ordered : c.Ordered)
    (earlier : ∀ f ∈ g.operands, f.node < c.nextPosition) :
    Ordered { c with gates := c.gates ++ [g] } := by
  intro i inside f member
  simp only [List.getElem_append] at member
  split at member
  · exact ordered i _ f member
  · simp only [List.length_append, List.length_singleton] at inside
    have last : i = c.gates.length := by omega
    have below := earlier f (by simpa [last] using member)
    rw [nextPosition] at below
    rw [last]
    exact below

theorem Built.ordered {c : Candidate} (built : c.Built) : c.Ordered := by
  induction built with
  | empty n =>
    intro i inside
    cases inside
  | addGate built run ih =>
    obtain ⟨g, rfl, earlier⟩ := addGate_eq_ok run
    exact ih.addGate earlier
  | setOutput built output ih => exact ih

end Candidate

namespace Edit

variable {α β : Type} {net mid net' : Network}

def Overflows (op : Edit α) (net : Network) : Prop :=
  ∃ mid n, op net = .error .outOfRange mid ∧ n < mid.size ∧ mid.isDead n = false ∧
    levelLimit ≤ mid.level n + 1

theorem Overflows.bind_left {op : Edit α} (excess : op.Overflows net) (f : α → Edit β) :
    (op >>= f).Overflows net := by
  obtain ⟨mid, n, failed, high⟩ := excess
  exact ⟨mid, n, bind_error failed f, high⟩

theorem Overflows.bind_right {op : Edit α} {a : α} {f : α → Edit β} (run : Gives op net a mid)
    (excess : (f a).Overflows mid) : (op >>= f).Overflows net := by
  obtain ⟨last, n, failed, high⟩ := excess
  exact ⟨last, n, by rw [run.bind_eq, failed], high⟩

def Lively (net : Network) (signals : Array Signal) : Prop :=
  ∀ s ∈ signals, s.node < net.size ∧ net.isDead s.node = false

theorem Lively.start {divisors : List Signal} (consistent : net.Consistent)
    (alive : ∀ d ∈ divisors, d.node < net.size ∧ net.isDead d.node = false) :
    Lively net (.constant false :: divisors).toArray := by
  intro s member
  rcases List.mem_cons.1 (List.mem_toArray.1 member) with rfl | member
  · exact ⟨consistent.inPlace.size_pos, consistent.inPlace.constant_live⟩
  · exact alive s member

theorem Lively.push {signals : Array Signal} {k : Gate Signal} {s : Signal}
    (lively : Lively net signals) (tallied : net.Tallied)
    (alive : ∀ m ∈ k.nodes, m < net.size ∧ net.isDead m = false) (created : Created net k s net') :
    Lively net' (signals.push s) := by
  intro t member
  rcases Array.mem_push.1 member with old | rfl
  · obtain ⟨below, awake⟩ := lively t old
    exact ⟨Nat.lt_of_lt_of_le below created.size_le, by rw [created.dead, awake]⟩
  · exact created.live tallied (fun m member => (alive m member).1) fun m member =>
      (alive m member).2

theorem Lively.position {signals : Array Signal} (lively : Lively net signals) {f t : Signal}
    (run : readPosition signals f = .ok t) : t.node < net.size ∧ net.isDead t.node = false := by
  obtain ⟨s, entry, rfl⟩ := readPosition_eq_ok.1 run
  exact lively s (Array.mem_of_getElem? entry)

theorem exists_insertGate {signals : Array Signal} {g : Gate Signal} (consistent : net.Consistent)
    (lively : Lively net signals) (earlier : ∀ f ∈ g.operands, f.node < signals.size) :
    (∃ s net', Gives (insertGate signals g) net (signals.push s) net' ∧ net'.Consistent ∧
      Lively net' (signals.push s)) ∨ (insertGate signals g).Overflows net := by
  -- Positions hold live signals, so only the level of the gate can be refused.
  obtain ⟨k, read⟩ := Gate.exists_mapM (f := readPosition signals) fun f member =>
    exists_readPosition (earlier f member)
  obtain ⟨kind, resolved⟩ := Gate.mapM_eq_ok.1 read
  have alive : ∀ t ∈ k.operands, t.node < net.size ∧ net.isDead t.node = false :=
    Gate.forall_operands_of_mapM (fun _ _ _ => lively.position) read
  have start : Gives (ofExcept (g.operands.mapM (readPosition signals))) net k.operands net :=
    gives_ofExcept.2 ⟨resolved, rfl⟩
  rcases exists_createGate consistent.table (kind ▸ Gate.length_operands k) alive with
    ⟨s, net', run⟩ | ⟨failed, f, member, high⟩
  · left
    obtain ⟨-, k', _, operands, created⟩ := createGate_gives consistent.toTallied run
    have reads (m : Nat) (member : m ∈ k'.nodes) : m < net.size ∧ net.isDead m = false := by
      obtain ⟨f, there, rfl⟩ := Gate.mem_nodes.1 member
      exact alive f (operands ▸ there)
    refine ⟨s, net', ?_, created.consistent consistent (fun m member => (reads m member).1)
      fun m member => (reads m member).2, lively.push consistent.toTallied reads created⟩
    rw [insertGate, gives_bind]
    refine ⟨_, _, start, ?_⟩
    simp only [gives_bind, gives_pure]
    exact ⟨s, net', run, rfl, rfl⟩
  · right
    obtain ⟨below, awake⟩ := alive f member
    exact .bind_right start (.bind_left ⟨net, f.node, failed, below, awake, high⟩ _)

theorem exists_insertGates {gates : List (Gate Signal)} {signals : Array Signal}
    (consistent : net.Consistent) (lively : Lively net signals)
    (ordered : ∀ i (h : i < gates.length), ∀ f ∈ (gates[i]).operands, f.node < signals.size + i) :
    (∃ signals' net', Gives (gates.foldlM insertGate signals) net signals' net' ∧
      signals'.size = signals.size + gates.length) ∨
    Overflows (gates.foldlM insertGate signals) net := by
  induction gates generalizing net signals with
  | nil => exact .inl ⟨signals, net, gives_pure.2 ⟨rfl, rfl⟩, rfl⟩
  | cons g rest ih =>
    rw [List.foldlM_cons]
    rcases exists_insertGate (g := g) consistent lively (ordered 0 (by simp)) with
      ⟨s, mid, run, after, lively'⟩ | excess
    · have more : (signals.push s).size = signals.size + 1 := Array.size_push ..
      rcases ih after lively' (more ▸ Candidate.operands_lt_tail ordered) with
        ⟨signals', net', tail, size⟩ | excess
      · refine .inl ⟨signals', net', gives_bind.2 ⟨_, mid, run, tail⟩, ?_⟩
        rw [size, Array.size_push, List.length_cons]
        omega
      · exact .inr (.bind_right run excess)
    · exact .inr (excess.bind_left _)

theorem exists_insert {c : Candidate} {divisors : List Signal} (consistent : net.Consistent)
    (closed : c.Closed) (length : divisors.length = c.numDivisors)
    (alive : ∀ d ∈ divisors, d.node < net.size ∧ net.isDead d.node = false) :
    (∃ s net', Gives (insert c divisors) net s net') ∨ (insert c divisors).Overflows net := by
  have counted : Gives (ofExcept (ensure (divisors.length == c.numDivisors) .outOfRange)) net ()
      net := gives_ofExcept.2 ⟨by simp [length], rfl⟩
  have lively : Lively net (.constant false :: divisors).toArray := .start consistent alive
  have start : (Signal.constant false :: divisors).toArray.size = c.numDivisors + 1 := by
    simp [length]
  rcases exists_insertGates consistent lively (closed.operands_lt start) with
    ⟨signals, net', run, size⟩ | excess
  · left
    obtain ⟨s, read⟩ := exists_readPosition (size ▸ closed.output_lt start)
    refine ⟨s, net', ?_⟩
    rw [insert, gives_bind]
    refine ⟨(), net, counted, ?_⟩
    rw [gives_bind]
    exact ⟨signals, net', run, gives_ofExcept.2 ⟨read, rfl⟩⟩
  · exact .inr (.bind_right counted (.bind_left excess _))

end Edit

/-- What inserting a candidate over live divisors leaves, and what its signal computes. -/
structure CandidateInserted (net : Network) (c : Candidate) (divisors : List Signal) (s : Signal)
    (net' : Network) : Prop where
  wellFormed : net'.WellFormed
  slots : net.size ≤ net'.size ∧ net'.size ≤ net.size + c.numGates
  gates : net.numGates ≤ net'.numGates ∧ net'.numGates ≤ net.numGates + c.numGates
  inside : s.node < net'.size
  live : net'.isDead s.node = false
  kept : ∀ n < net.size, net'.body? n = net.body? n ∧ net'.isDead n = net.isDead n
  inputs : net'.inputs = net.inputs
  outputs : net'.outputs = net.outputs
  values : ∀ inputs : List Bool, inputs.length = net.inputs.length → ∃ before after,
    net.simulateValues inputs = .ok before ∧ net'.simulateValues inputs = .ok after ∧
      (∀ n < net.size, after[n]? = before[n]?) ∧
      c.evaluate false (divisors.map (signalValue false before)) = .ok (signalValue false after s)

namespace Inserted

variable {net net' : Network} {signals signals' : Array Signal} {gates : List (Gate Signal)}

theorem size_le_add (inserted : Inserted net signals gates signals' net') :
    net'.size ≤ net.size + gates.length := by
  induction inserted with
  | nil => exact Nat.le_refl _
  | cons resolved kind alive created later ih =>
    rw [List.length_cons]
    rcases created.slots with rfl | size
    · omega
    · omega

theorem sameFrame (inserted : Inserted net signals gates signals' net') : Frame net net' := by
  induction inserted with
  | nil => exact .refl _
  | cons resolved kind alive created later ih => exact created.frame.trans ih

theorem outputs (inserted : Inserted net signals gates signals' net') :
    net'.outputs = net.outputs := by
  induction inserted with
  | nil => rfl
  | cons resolved kind alive created later ih => rw [ih, created.outputs]

theorem lively (inserted : Inserted net signals gates signals' net') (consistent : net.Consistent)
    (start : Edit.Lively net signals) : Edit.Lively net' signals' := by
  induction inserted with
  | nil => exact start
  | cons resolved kind alive created later ih =>
    exact ih (created.consistent consistent (fun m member => (alive m member).1)
      fun m member => (alive m member).2) (start.push consistent.toTallied alive created)

end Inserted

theorem Edit.insert_inserts {net net' : Network} {c : Candidate} {divisors : List Signal}
    {s : Signal} (valid : net.WellFormed)
    (alive : ∀ d ∈ divisors, d.node < net.size ∧ net.isDead d.node = false)
    (run : Gives (insert c divisors) net s net') : CandidateInserted net c divisors s net' := by
  obtain ⟨consistent, acyclic⟩ := wellFormed_iff.1 valid
  obtain ⟨length, signals, inserted, output⟩ := insert_gives consistent run
  have after := inserted.consistent consistent
  have valid' : net'.WellFormed := wellFormed_iff.2 ⟨after, inserted.acyclic consistent acyclic⟩
  have gates : net'.numGates ≤ net.numGates + c.gates.length := by
    simpa using inserted.numGates_mentions List.nodup_nil fun n (member : n ∈ []) => nomatch member
  have start : Lively net (.constant false :: divisors).toArray := .start consistent alive
  obtain ⟨below, awake⟩ := (inserted.lively consistent start).position output
  refine ⟨valid', ⟨inserted.size_le, inserted.size_le_add⟩,
    ⟨inserted.numGates_le, gates⟩, below, awake,
    fun n inside => ⟨inserted.body inside, inserted.dead n⟩, inserted.sameFrame.inputs,
    inserted.outputs, fun inputs number => ?_⟩
  obtain ⟨value, fits, rfl⟩ := exists_valuation_of_inputs consistent.inPlace acyclic number
  obtain ⟨value', refined, -, evaluated⟩ :=
    inserted.output output length consistent fits fun d member => (alive d member).1
  obtain ⟨before, after, simulated, simulated', first, second, kept⟩ :=
    refined.exists_displays valid.simulable valid'.simulable fits fun n _ => inserted.dead n
  refine ⟨before, after, simulated, simulated', kept, ?_⟩
  have read : divisors.map (signalValue false before) = divisors.map (signalUnder value) :=
    List.map_congr_left fun d member => first.signal (alive d member).1 (alive d member).2
  rw [read, evaluated, second.signal below awake]

/-- Within the domain, a map to truth values that respects the gates that can be applied, all of
    which stay in the domain. -/
structure ReadsBits {α : Type} [GateValue α] (domain : α → Prop) (h : α → Bool) : Prop where
  complement : ∀ x, domain x →
    domain (GateValue.complement x) ∧ h (GateValue.complement x) = !h x
  apply : ∀ g : Gate α, (∀ a ∈ g.operands, domain a) →
    ∃ x, g.apply = .ok x ∧ domain x ∧ h x = (g.map h).eval

theorem readsBits_word {k : Nat} (inside : k < 64) : ReadsBits (fun _ => True) (wordBit · k) where
  complement := fun x _ => ⟨trivial, (pointwise_wordBit inside).complement x⟩
  apply := fun g _ => by
    refine ⟨g.eval, Gate.apply_of_alike (fun _ _ => rfl) g, trivial, ?_⟩
    have bits := pointwise_wordBit inside
    cases g with
    | and2 a b => exact bits.and2 a b
    | xor2 a b => exact bits.xor2 a b
    | maj3 a b c => exact bits.maj3 a b c

theorem readsBits_table {n m : Nat} (inside : m < 2 ^ n) :
    ReadsBits (fun t : TruthTable => t.Packed ∧ t.numVars = n) (·.bit m) where
  complement := fun t ⟨packed, vars⟩ =>
    ⟨⟨TruthTable.packed_complement packed, vars⟩, TruthTable.bit_complement packed (vars ▸ inside)⟩
  apply := fun g operands => by
    obtain ⟨t, run, shape, bits⟩ := TruthTable.apply_packed operands
    exact ⟨t, run, shape, bits m⟩

namespace ReadsBits

variable {α : Type} [GateValue α] {domain : α → Prop} {h : α → Bool} {values : Array α}

theorem complementIf (reads : ReadsBits domain h) {x : α} (known : domain x) (flip : Bool) :
    domain (GateValue.complementIf x flip) ∧
      h (GateValue.complementIf x flip) = GateValue.complementIf (h x) flip := by
  cases flip with
  | false => exact ⟨known, rfl⟩
  | true => exact reads.complement x known

theorem domain_readSignal (reads : ReadsBits domain h) (known : ∀ v ∈ values, domain v)
    {s : Signal} {x : α} (run : Candidate.readSignal values s = .ok x) : domain x := by
  obtain ⟨v, entry, rfl⟩ := Candidate.readSignal_eq_ok.1 run
  exact (reads.complementIf (known v (Array.mem_of_getElem? entry)) _).1

theorem readSignal (reads : ReadsBits domain h) (known : ∀ v ∈ values, domain v) (s : Signal) :
    (Candidate.readSignal values s).map h = Candidate.readSignal (values.map h) s := by
  unfold Candidate.readSignal
  rw [Array.getElem?_map]
  cases entry : values[s.node]? with
  | none => rfl
  | some v =>
    exact congrArg Except.ok (reads.complementIf (known v (Array.mem_of_getElem? entry)) _).2

omit [GateValue α] in
theorem mapM_map {β γ : Type} {f : γ → Except Fault α} {f' : γ → Except Fault β} {h : α → β}
    (same : ∀ a, (f a).map h = f' a) (g : Gate γ) : (g.mapM f).map (Gate.map h) = g.mapM f' := by
  cases g with
  | and2 a b =>
    simp only [Gate.mapM, ← same]
    cases f a <;> cases f b <;> rfl
  | xor2 a b =>
    simp only [Gate.mapM, ← same]
    cases f a <;> cases f b <;> rfl
  | maj3 a b c =>
    simp only [Gate.mapM, ← same]
    cases f a <;> cases f b <;> cases f c <;> rfl

theorem evaluateGate (reads : ReadsBits domain h) (known : ∀ v ∈ values, domain v)
    (g : Gate Signal) :
    (Candidate.evaluateGate values g).map (·.map h) = Candidate.evaluateGate (values.map h) g ∧
      ∀ later, Candidate.evaluateGate values g = .ok later → ∀ v ∈ later, domain v := by
  have operands := mapM_map (reads.readSignal known) g
  cases read : g.mapM (Candidate.readSignal values) with
  | error fault =>
    rw [read] at operands
    simp only [Candidate.evaluateGate, read, ← operands]
    refine ⟨rfl, fun later run => ?_⟩
    cases run
  | ok k =>
    rw [read] at operands
    obtain ⟨x, applied, inside, bit⟩ := reads.apply k <|
      Gate.forall_operands_of_mapM (fun _ _ _ => reads.domain_readSignal known) read
    have bits : (k.map h).apply = .ok (h x) := by
      rw [Gate.apply_of_alike (fun _ _ => rfl), bit]
    constructor
    · simp only [Candidate.evaluateGate, read, ← operands, Except.map, bind, Except.bind, applied,
        bits, pure, Except.pure, Array.map_push]
    · intro later run v member
      simp only [Candidate.evaluateGate, read, bind, Except.bind, applied, pure, Except.pure,
        Except.ok.injEq] at run
      subst run
      rcases Array.mem_push.1 member with old | rfl
      · exact known v old
      · exact inside

theorem evaluateGates (reads : ReadsBits domain h) (gates : List (Gate Signal))
    (known : ∀ v ∈ values, domain v) :
    (gates.foldlM Candidate.evaluateGate values).map (·.map h) =
        gates.foldlM Candidate.evaluateGate (values.map h) ∧
      ∀ later, gates.foldlM Candidate.evaluateGate values = .ok later → ∀ v ∈ later, domain v := by
  induction gates generalizing values with
  | nil =>
    refine ⟨rfl, fun later run => ?_⟩
    cases run
    exact known
  | cons g rest ih =>
    obtain ⟨same, inside⟩ := reads.evaluateGate known g
    rw [List.foldlM_cons, List.foldlM_cons, ← same]
    cases run : Candidate.evaluateGate values g with
    | error fault => exact ⟨rfl, nofun⟩
    | ok later => exact ih (inside later run)

theorem evaluate (reads : ReadsBits domain h) (c : Candidate) {zero : α} {divisors : List α}
    (constant : domain zero) (off : h zero = false) (known : ∀ d ∈ divisors, domain d) :
    (c.evaluate zero divisors).map h = c.evaluate false (divisors.map h) := by
  have start : ∀ v ∈ (zero :: divisors).toArray, domain v := by
    intro v member
    rcases List.mem_cons.1 (List.mem_toArray.1 member) with rfl | member
    · exact constant
    · exact known v member
  obtain ⟨same, inside⟩ := reads.evaluateGates c.gates start
  have bits : (zero :: divisors).toArray.map h = (false :: divisors.map h).toArray := by
    simp [off]
  rw [bits] at same
  simp only [Candidate.evaluate, List.length_map, ← same]
  by_cases length : divisors.length = c.numDivisors
  · cases run : c.gates.foldlM Candidate.evaluateGate (zero :: divisors).toArray with
    | error fault => simp [ensure, length, bind, Except.bind, Except.map]
    | ok later =>
      simp only [ensure, length, beq_self_eq_true, if_true, bind, Except.bind, Except.map]
      exact reads.readSignal (inside later run) c.output
  · simp [ensure, length, bind, Except.bind, Except.map]

end ReadsBits

/-- Inserting a candidate over live divisors ends, unless a level does not fit, and gives a signal
    that has the value of the evaluated candidate. Evaluation over words and over truth tables is
    evaluation over their bits. -/
theorem candidateInserted_insert {net : Network} {c : Candidate} {divisors : List Signal}
    (valid : net.WellFormed) (built : c.Built) (output : c.output.node < c.nextPosition)
    (length : divisors.length = c.numDivisors)
    (alive : ∀ d ∈ divisors, d.node < net.size ∧ net.isDead d.node = false) :
    ((∃ s net', Edit.Gives (Edit.insert c divisors) net s net') ∨
      (Edit.insert c divisors).Overflows net) ∧
    (∀ s net', Edit.Gives (Edit.insert c divisors) net s net' →
      CandidateInserted net c divisors s net') ∧
    (∀ (c : Candidate) (words : List UInt64), ∀ k < 64,
      (c.evaluate 0 words).map (wordBit · k) = c.evaluate false (words.map (wordBit · k))) ∧
    (∀ (c : Candidate) (n : Nat) (tables : List TruthTable),
      (∀ t ∈ tables, t.Packed ∧ t.numVars = n) → ∀ m < 2 ^ n,
        (c.evaluate (.const0 n) tables).map (·.bit m) =
          c.evaluate false (tables.map (·.bit m))) := by
  refine ⟨Edit.exists_insert (wellFormed_iff.1 valid).1 ⟨built.ordered, output⟩ length alive,
    fun s net' run => Edit.insert_inserts valid alive run, fun c words k inside => ?_,
    fun c n tables shape m inside => ?_⟩
  · exact (readsBits_word inside).evaluate c trivial (wordBit_zero k) fun _ _ => trivial
  · exact (readsBits_table inside).evaluate c ⟨TruthTable.packed_const0 n, rfl⟩
      (TruthTable.bit_const0 n m) shape

/-- Of two gates, the second folds away. -/
theorem candidateInserted_of_folded :
    let c : Candidate :=
      ⟨2, [.and2 ⟨1, false⟩ ⟨2, false⟩, .and2 ⟨3, false⟩ ⟨0, true⟩], ⟨4, true⟩⟩
    c.Built ∧ (c.evaluate 0 [0xC, 0xA]).map (wordBit · 1) = c.evaluate false [false, true] ∧
    ∃ stages net net',
      Completed (empty "folded") (Command.load 2 [(.and2, [2, 4])] [6]) stages net ∧
      net.WellFormed ∧ Edit.Gives (Edit.insert c [⟨1, false⟩, ⟨3, true⟩]) net ⟨4, true⟩ net' ∧
      CandidateInserted net c [⟨1, false⟩, ⟨3, true⟩] ⟨4, true⟩ net' := by
  intro c
  have first : (Candidate.empty 2).addGate .and2 [⟨1, false⟩, ⟨2, false⟩] =
      .ok (⟨2, [.and2 ⟨1, false⟩ ⟨2, false⟩], .constant false⟩, ⟨3, false⟩) := rfl
  have second : Candidate.addGate ⟨2, [.and2 ⟨1, false⟩ ⟨2, false⟩], .constant false⟩ .and2
      [⟨3, false⟩, ⟨0, true⟩] = .ok (⟨2, c.gates, .constant false⟩, ⟨4, false⟩) := rfl
  have built : c.Built := .setOutput (.addGate (.addGate (.empty 2) first) second) ⟨4, true⟩
  obtain ⟨stages, net, history, checks⟩ := Command.exists_completed
    (Command.load 2 [(.and2, [2, 4])] [6]) (empty "folded")
    (fun _ net => decide net.Acyclic &&
      decide (∀ d ∈ [(⟨1, false⟩ : Signal), ⟨3, true⟩],
        d.node < net.size ∧ net.isDead d.node = false) &&
      Edit.yields (Edit.insert
        ⟨2, [.and2 ⟨1, false⟩ ⟨2, false⟩, .and2 ⟨3, false⟩ ⟨0, true⟩], ⟨4, true⟩⟩
        [⟨1, false⟩, ⟨3, true⟩]) (fun s _ => s == ⟨4, true⟩) net)
    (by decide +kernel)
  simp only [Bool.and_eq_true, decide_eq_true_eq] at checks
  obtain ⟨⟨acyclic, alive⟩, yielded⟩ := checks
  obtain ⟨s, net', run, same⟩ := Edit.exists_gives yielded
  rw [eq_of_beq same] at run
  have valid := history.wellFormed acyclic
  obtain ⟨-, inserted, words, -⟩ := candidateInserted_insert valid built (by decide) rfl alive
  exact ⟨built, words c [0xC, 0xA] 1 (by decide), stages, net, net', history, valid, run,
    inserted _ _ run⟩

end LogicOpt
