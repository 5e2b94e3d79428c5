import LogicOpt.Network.Semantics
import LogicOpt.Proofs.Candidates
import LogicOpt.Proofs.Insertion
import LogicOpt.Proofs.Ranking

/-!
What changes of gates keep of a network's function. A valuation of all slots is carried along: every
change leaves it a valuation, once new slots have their values. Nothing here needs the network to be
acyclic, and dead slots take part. A substitution does the same for values that some gates do not
fit, as long as it never aims at one of those.
-/

namespace LogicOpt

open Network

namespace Network

/-- Every gate has the value that its operands give it. -/
structure Fits (net : Network) (value : Nat → Bool) : Prop where
  zero : value 0 = false
  gate : ∀ n g, net.gate? n = some g → value n = g.evalUnder value

/-- Every gate that is not free has the value that its operands give it. -/
structure FitsOff (net : Network) (free : Nat → Prop) (value : Nat → Bool) : Prop where
  zero : value 0 = false
  gate : ∀ n g, net.gate? n = some g → ¬free n → value n = g.evalUnder value

def outputValues (net : Network) (value : Nat → Bool) : List (String × Bool) :=
  net.outputs.map fun o => (o.name, signalUnder value o.signal)

structure SameInputs (net net' : Network) : Prop where
  inputs : net'.inputs = net.inputs
  names : ∀ n, net'.inputName? n = net.inputName? n

/-- Values of the later network that old slots and the outputs share with the values before. -/
structure Extended (net : Network) (value : Nat → Bool) (net' : Network) (value' : Nat → Bool) :
    Prop where
  kept : ∀ n, n < net.size → value' n = value n
  size_le : net.size ≤ net'.size
  sources : SameInputs net net'
  outputs : net'.outputValues value' = net.outputValues value

/-- The valuation goes over into one of the later network, and the outputs keep their values. -/
structure Refined (net : Network) (value : Nat → Bool) (net' : Network) (value' : Nat → Bool) :
    Prop where
  fits : net'.Fits value'
  kept : ∀ n, n < net.size → value' n = value n
  size_le : net.size ≤ net'.size
  sources : SameInputs net net'
  outputs : net'.outputValues value' = net.outputValues value

variable {net mid net' : Network} {value value' : Nat → Bool} {free : Nat → Prop}

theorem signalUnder_congr {s : Signal} (same : value' s.node = value s.node) :
    signalUnder value' s = signalUnder value s := by
  rw [signalUnder, signalUnder, same]

namespace SameInputs

theorem refl (net : Network) : SameInputs net net := ⟨rfl, fun _ => rfl⟩

theorem trans (first : SameInputs net mid) (second : SameInputs mid net') : SameInputs net net' :=
  ⟨second.inputs.trans first.inputs, fun n => (second.names n).trans (first.names n)⟩

theorem of_sources (frame : Frame net net') (sources : SourcesKept net net') :
    SameInputs net net' := by
  refine ⟨frame.inputs, fun n => ?_⟩
  have read (net : Network) :
      net.inputName? n = (net.body? n).bind fun body => Node.inputName? (.fresh body) := by
    unfold inputName? body?
    cases net.nodes[n]? <;> rfl
  rw [read, read]
  rcases sources n with same | ⟨g, now, before | ⟨h, before⟩⟩
  · rw [same]
  · simp [now, before, Node.inputName?, Node.fresh]
  · simp [now, before, Node.inputName?, Node.fresh]

end SameInputs

namespace Extended

theorem refl (net : Network) (value : Nat → Bool) : Extended net value net value :=
  ⟨fun _ _ => rfl, Nat.le_refl _, .refl net, rfl⟩

theorem trans {later : Nat → Bool} (first : Extended net value mid value')
    (second : Extended mid value' net' later) : Extended net value net' later where
  kept := fun n inside => by
    rw [second.kept n (Nat.lt_of_lt_of_le inside first.size_le), first.kept n inside]
  size_le := Nat.le_trans first.size_le second.size_le
  sources := first.sources.trans second.sources
  outputs := second.outputs.trans first.outputs

theorem signal (extended : Extended net value net' value') {s : Signal}
    (inside : s.node < net.size) : signalUnder value' s = signalUnder value s :=
  signalUnder_congr (extended.kept s.node inside)

theorem of_bodies (frame : Frame net net') (size : net'.size = net.size)
    (body : ∀ m, net'.body? m = net.body? m) (outputs : net'.outputs = net.outputs) :
    Extended net value net' value where
  kept := fun _ _ => rfl
  size_le := Nat.le_of_eq size.symm
  sources := .of_sources frame fun m => .inl (body m)
  outputs := by rw [outputValues, outputValues, outputs]

theorem refined (extended : Extended net value net' value') (fits : net'.Fits value') :
    Refined net value net' value' :=
  ⟨fits, extended.kept, extended.size_le, extended.sources, extended.outputs⟩

end Extended

namespace FitsOff

theorem of_bodies (fits : net.FitsOff free value) (body : ∀ m, net'.body? m = net.body? m) :
    net'.FitsOff free value where
  zero := fits.zero
  gate := fun n g slot => fits.gate n g (by rwa [gate?_congr (body n)] at slot)

theorem normal (fits : net.FitsOff free value) {g h : Gate Signal} {negated : Bool} {n : Nat}
    (shape : g.normalize = .gate h negated) (slot : net.gate? n = some h) (bound : ¬free n) :
    signalUnder value ⟨n, negated⟩ = g.evalUnder value := by
  rw [← Gate.value_normalize fits.zero g, shape, Normal.value, signalUnder,
    fits.gate n h slot bound]

theorem trivial (fits : net.FitsOff free value) {g : Gate Signal} {s : Signal}
    (shape : g.normalize = .trivial s) : signalUnder value s = g.evalUnder value := by
  rw [← Gate.value_normalize fits.zero g, shape, Normal.value]

end FitsOff

theorem fits_iff : net.Fits value ↔ net.FitsOff (fun _ => False) value :=
  ⟨fun fits => ⟨fits.zero, fun n g slot _ => fits.gate n g slot⟩,
    fun fits => ⟨fits.zero, fun n g slot => fits.gate n g slot id⟩⟩

namespace Refined

theorem extended (refined : Refined net value net' value') : Extended net value net' value' :=
  ⟨refined.kept, refined.size_le, refined.sources, refined.outputs⟩

theorem refl (fits : net.Fits value) : Refined net value net value :=
  (Extended.refl net value).refined fits

theorem trans {later : Nat → Bool} (first : Refined net value mid value')
    (second : Refined mid value' net' later) : Refined net value net' later :=
  (first.extended.trans second.extended).refined second.fits

end Refined

theorem Trimmed.extended (trimmed : Trimmed net net') : Extended net value net' value :=
  .of_bodies trimmed.frame trimmed.size trimmed.body trimmed.outputs

theorem Trimmed.refined (trimmed : Trimmed net net') (fits : net.Fits value) :
    Refined net value net' value :=
  trimmed.extended.refined (fits_iff.2 ((fits_iff.1 fits).of_bodies trimmed.body))

end Network

variable {net mid net' : Network} {value value' : Nat → Bool} {free : Nat → Prop}

theorem Created.extended {g : Gate Signal} {s : Signal} (created : Created net g s net')
    (tallied : net.Tallied) (fits : net.FitsOff free value) (inside : ∀ m ∈ g.nodes, m < net.size) :
    ∃ value', net'.FitsOff free value' ∧ Extended net value net' value' ∧
      (¬free s.node → signalUnder value' s = g.evalUnder value) := by
  cases created with
  | folded shape => exact ⟨value, fits, .refl net value, fun _ => fits.trivial shape⟩
  | shared shape entry =>
    exact ⟨value, fits, .refl net value, fits.normal shape (tallied.table _ _ entry).1⟩
  | @appended h negated net' shape absent change =>
    have perm := (Gate.normalize_gate shape).2.2
    let later (n : Nat) : Bool := if n = net.size then h.evalUnder value else value n
    have older (n : Nat) (below : n < net.size) : later n = value n :=
      if_neg (Nat.ne_of_lt below)
    have last : later net.size = h.evalUnder value := if_pos rfl
    have same (n : Nat) (k : Gate Signal) (below : ∀ m ∈ k.nodes, m < net.size) :
        k.evalUnder later = k.evalUnder value :=
      Gate.evalUnder_congr fun m member => older m (below m member)
    have fits' : net'.FitsOff free later := by
      refine ⟨by rw [older 0 tallied.inPlace.size_pos, fits.zero], fun n k slot bound => ?_⟩
      rw [change.gate?] at slot
      split at slot
      · rename_i here
        cases slot
        rw [here, last, same net.size h fun m member => inside m (perm.subset member)]
      · have below := lt_size_of_gate? slot
        rw [older n below, fits.gate n k slot bound, same n k fun m member =>
          tallied.lt_of_feeds (feeds_of_gate? slot member)]
    have sources := SameInputs.of_sources change.frame change.sources
    refine ⟨later, fits', ⟨older, by rw [change.size]; omega, sources, ?_⟩, fun _ => ?_⟩
    · rw [outputValues, outputValues, change.outputs]
      refine List.map_congr_left fun o member => ?_
      rw [signalUnder_congr (older _ (tallied.inPlace.output_lt o member))]
    · rw [signalUnder, last, ← Gate.value_normalize fits.zero g, shape, Normal.value]

theorem Created.refined {g : Gate Signal} {s : Signal} (created : Created net g s net')
    (tallied : net.Tallied) (fits : net.Fits value) (inside : ∀ m ∈ g.nodes, m < net.size) :
    ∃ value', Refined net value net' value' ∧ signalUnder value' s = g.evalUnder value := by
  obtain ⟨value', fits', extended, same⟩ := created.extended tallied (fits_iff.1 fits) inside
  exact ⟨value', extended.refined (fits_iff.2 fits'), same id⟩

/-- Every replacement is by a signal of the same value, if it does not aim at a free node; those have
    their own replacement. -/
structure Faithful (free : Nat → Prop) (net : Network) (value : Nat → Bool) (r : Replacements) :
    Prop where
  handled : ∀ n, free n → r.handles n = true
  queue : ∀ p ∈ r.queue, (p.1 < net.size ∧ p.2.node < net.size) ∧
    (¬free p.2.node → value p.1 = signalUnder value p.2)
  replaced : ∀ n s, r.replaced[n]? = some s → (n < net.size ∧ s.node < net.size) ∧
    value n = signalUnder value s

namespace Faithful

variable {r : Replacements} {old : Nat} {new s : Signal}

theorem extend (faithful : Faithful free net value r) (extended : Extended net value net' value') :
    Faithful free net' value' r where
  handled := faithful.handled
  queue := fun p member => by
    obtain ⟨⟨left, right⟩, same⟩ := faithful.queue p member
    have le := extended.size_le
    refine ⟨⟨by omega, by omega⟩, fun bound => ?_⟩
    rw [extended.kept p.1 left, extended.signal right, same bound]
  replaced := fun n s entry => by
    obtain ⟨⟨left, right⟩, same⟩ := faithful.replaced n s entry
    have le := extended.size_le
    exact ⟨⟨by omega, by omega⟩, by rw [extended.kept n left, extended.signal right, same]⟩

theorem enqueue (faithful : Faithful free net value r) {consumer : Nat} (left : consumer < net.size)
    (right : s.node < net.size) (same : ¬free s.node → value consumer = signalUnder value s) :
    Faithful free net value (r.enqueue consumer s) where
  handled := fun n loose => by
    rw [Replacements.handles_enqueue, faithful.handled n loose, Bool.or_true]
  queue := fun p member => by
    rcases List.mem_append.1 member with member | member
    · exact faithful.queue p member
    · rw [List.mem_singleton.1 member]
      exact ⟨⟨left, right⟩, same⟩
  replaced := faithful.replaced

theorem record (faithful : Faithful free net value r) (left : old < net.size)
    (right : new.node < net.size) (same : value old = signalUnder value new) :
    Faithful free net value (r.record old new) where
  handled := fun n loose => by
    rw [Replacements.handles_record, faithful.handled n loose, Bool.or_true]
  queue := faithful.queue
  replaced := fun n s entry => by
    rw [Replacements.getElem?_record] at entry
    split at entry
    · rename_i here
      cases entry
      exact here ▸ ⟨⟨left, right⟩, same⟩
    · exact faithful.replaced n s entry

theorem follow {replaced : Std.TreeMap Nat Signal} {hops : Nat} {answer : Signal}
    (known : ∀ n s, replaced[n]? = some s → (n < net.size ∧ s.node < net.size) ∧
      value n = signalUnder value s)
    (inside : s.node < net.size) (run : Replacements.follow replaced hops s = .ok answer) :
    answer.node < net.size ∧ signalUnder value answer = signalUnder value s := by
  induction hops generalizing s with
  | zero =>
    unfold Replacements.follow at run
    split at run
    · cases run
      exact ⟨inside, rfl⟩
    · cases run
  | succ hops ih =>
    unfold Replacements.follow at run
    split at run
    · cases run
      exact ⟨inside, rfl⟩
    · rename_i next entry
      obtain ⟨⟨-, below⟩, same⟩ := known s.node next entry
      obtain ⟨inside, value⟩ := ih (s := next.negateIf s.negated) below run
      exact ⟨inside, by rw [value, signalUnder_negateIf, ← same, signalUnder]⟩

theorem resolve (faithful : Faithful free net value r) {answer : Signal} (inside : s.node < net.size)
    (run : r.resolve s = .ok answer) :
    answer.node < net.size ∧ signalUnder value answer = signalUnder value s :=
  follow faithful.replaced inside run

theorem resolveAll (faithful : Faithful free net value r) {signals answers : List Signal}
    (inside : ∀ s ∈ signals, s.node < net.size) (run : signals.mapM r.resolve = .ok answers) :
    answers.map (signalUnder value) = signals.map (signalUnder value) := by
  induction signals generalizing answers with
  | nil =>
    cases run
    rfl
  | cons s rest ih =>
    simp only [List.mapM_cons, bind_eq_ok] at run
    obtain ⟨first, head, others, tail, same⟩ := run
    cases same
    rw [List.map_cons, List.map_cons, (faithful.resolve (inside s (by simp)) head).2,
      ih (fun s member => inside s (List.mem_cons_of_mem _ member)) tail]

end Faithful

theorem Network.Rewired.extended {n old new : Nat} {g h : Gate Signal}
    (change : Rewired net net' n g h old new) (slot : net.gate? n = some g)
    (fits : net.FitsOff free value) (same : h.evalUnder value = g.evalUnder value) :
    net'.FitsOff free value ∧ Extended net value net' value := by
  refine ⟨⟨fits.zero, fun m k there bound => ?_⟩, fun _ _ => rfl, Nat.le_of_eq change.size.symm,
    .of_sources change.frame (change.sources slot), ?_⟩
  · rw [change.gate?] at there
    split at there
    · rename_i here
      cases there
      rw [here, fits.gate n g slot (here ▸ bound), same]
    · exact fits.gate m k there bound
  · rw [outputValues, outputValues, change.outputs]

theorem Visited.extended {old consumer : Nat} {new : Signal} {r r' : Replacements}
    (visited : Visited old new r consumer net r' net') (tallied : net.Tallied)
    (inside : new.node < net.size) (fits : net.FitsOff free value)
    (same : value old = signalUnder value new) (faithful : Faithful free net value r) :
    ∃ value', net'.FitsOff free value' ∧ Extended net value net' value' ∧
      Faithful free net' value' r' := by
  have redirected (g : Gate Signal) : (g.redirect old new).evalUnder value = g.evalUnder value :=
    Gate.evalUnder_redirect same g
  have below {g : Gate Signal} (slot : net.gate? consumer = some g) :
      ∀ m ∈ (g.redirect old new).nodes, m < net.size := by
    intro m member
    rw [Gate.nodes_redirect] at member
    obtain ⟨k, source, rfl⟩ := List.mem_map.1 member
    split
    · exact inside
    · exact tallied.lt_of_feeds (feeds_of_gate? slot source)
  -- A free node has a replacement, so a consumer that is not passed over fits.
  have bound (unhandled : r.handles consumer = false) : ¬free consumer := fun loose => by
    rw [faithful.handled consumer loose] at unhandled
    cases unhandled
  cases visited with
  | passed => exact ⟨value, fits, .refl net value, faithful⟩
  | @queued g s net' slot awake unhandled was target =>
    have left := lt_size_of_gate? slot
    have whole : value consumer = (g.redirect old new).evalUnder value := by
      rw [redirected, fits.gate consumer g slot (bound unhandled)]
    cases target with
    | folded shape =>
      refine ⟨value, fits, .refl net value,
        faithful.enqueue left ?_ fun _ => by rw [whole, fits.trivial shape]⟩
      rcases Gate.normalize_trivial shape with zero | member
      · rw [zero]
        exact tallied.inPlace.size_pos
      · exact below slot _ member
    | held shape entry =>
      have there := (tallied.table _ _ entry).1
      exact ⟨value, fits, .refl net value, faithful.enqueue left (lt_size_of_gate? there)
        fun bound => by rw [whole, fits.normal shape there bound]⟩
    | @complemented h k s net' shape resolved kind alive created =>
      obtain ⟨value', fits', extended, equal⟩ :=
        created.extended tallied fits fun m member => (alive m member).1
      have perm := (Gate.normalize_gate shape).2.2
      have operands : ∀ f ∈ h.operands, f.node < net.size := fun f member =>
        below slot f.node (perm.subset (Gate.mem_nodes.2 ⟨f, member, rfl⟩))
      have values := faithful.resolveAll operands resolved
      have value_h : value consumer = !h.evalUnder value := by
        rw [whole, ← Gate.value_normalize fits.zero, shape, Normal.value, Bool.xor_true]
      have right : s.node < net'.size := by
        exact (created.live tallied (fun m member => (alive m member).1)
          fun m member => (alive m member).2).1
      refine ⟨value', fits', extended, (faithful.extend extended).enqueue
        (Nat.lt_of_lt_of_le left extended.size_le) right fun bound => ?_⟩
      rw [extended.kept consumer left, value_h, signalUnder_negate, equal bound,
        Gate.evalUnder_of_operands kind values]
  | @rewired g h net' slot awake unhandled was shape change =>
    have equal := Gate.value_normalize fits.zero (g.redirect old new)
    rw [shape, Normal.value, Bool.xor_false, redirected] at equal
    obtain ⟨fits', extended⟩ := change.extended slot fits equal
    exact ⟨value, fits', extended, faithful.extend extended⟩

theorem Awakened.extended {s new : Signal} (awakened : Awakened net s new net')
    (consistent : net.Consistent) (fits : net.FitsOff free value)
    (twins : ∀ n, net.isDead s.node = true → net.liveTwin? s.node = some n →
      ¬free s.node ∧ ¬free n) :
    net'.FitsOff free value ∧ Extended net value net' value ∧
      signalUnder value new = signalUnder value s := by
  refine ⟨fits.of_bodies (awakened.body consistent), .of_bodies (awakened.frame consistent)
    (awakened.size consistent) (awakened.body consistent) (awakened.outputs consistent), ?_⟩
  cases awakened with
  | live => rfl
  | twin dead found =>
    obtain ⟨bound, bound'⟩ := twins _ dead found
    obtain ⟨g, slot, entry, -⟩ := liveTwin?_eq_some found
    have there := (consistent.table g _ entry).1
    rw [signalUnder, signalUnder, fits.gate _ g slot bound, fits.gate _ g there bound']
  | revived => rfl

theorem Network.OutputsMoved.extended {old : Nat} {new : Signal}
    (change : OutputsMoved net net' old new) (same : value old = signalUnder value new) :
    Extended net value net' value where
  kept := fun _ _ => rfl
  size_le := Nat.le_of_eq change.size.symm
  sources := .of_sources change.frame fun m => .inl (change.body m)
  outputs := by
    rw [outputValues, outputValues, change.outputs, List.map_map]
    refine List.map_congr_left fun o _ => ?_
    simp only [Function.comp, redirectOutput]
    split
    · rename_i here
      rw [signalUnder_negateIf, ← same, ← here, signalUnder]
    · rfl

theorem Replaced.extended {r r' : Replacements} {old : Nat} {target : Signal}
    (replaced : Replaced r old target net r' net') (consistent : net.Consistent)
    (fits : net.FitsOff free value) (faithful : Faithful free net value r) (left : old < net.size)
    (below : target.node < net.size) (same : value old = signalUnder value target)
    (clear : ∀ n ∈ r.aims target net, ¬free n) :
    ∃ value', net'.FitsOff free value' ∧ Extended net value net' value' ∧
      Faithful free net' value' r' := by
  have known {s new : Signal} {mid : Network} (resolved : r.resolve target = .ok s)
      (awakened : Awakened net s new mid) :
      mid.FitsOff free value ∧ Extended net value mid value ∧ value old = signalUnder value new := by
    obtain ⟨fits', extended, equal⟩ := awakened.extended consistent fits fun n dead found => by
      simp only [Replacements.aims, resolved, dead, found, ↓reduceIte] at clear
      exact ⟨clear _ (by simp), clear _ (by simp)⟩
    exact ⟨fits', extended, by rw [equal, (faithful.resolve below resolved).2, same]⟩
  cases replaced with
  | dropped resolved inside awakened equal =>
    obtain ⟨fits', extended, -⟩ := known resolved awakened
    exact ⟨value, fits', extended, faithful.extend extended⟩
  | recorded resolved inside awakened differ dead =>
    obtain ⟨fits', extended, equal⟩ := known resolved awakened
    have right := (awakened.new_live consistent inside).1
    exact ⟨value, fits', extended, (faithful.extend extended).record
      (Nat.lt_of_lt_of_le left extended.size_le) right equal⟩
  | @moved s new mid swept r' resolved inside awakened differ present awake visits =>
    obtain ⟨fits', first, equal⟩ := known resolved awakened
    obtain ⟨right, live⟩ := awakened.new_live consistent inside
    obtain ⟨after, grown, dead, later, fits', second, faithful'⟩ := visits_invariant
      (fun _ r current => ∃ later, current.FitsOff free later ∧ Extended mid value current later ∧
        Faithful free current later r) differ
      (by
        rintro consumer rest r r' net net' consistent inside live ⟨later, fits, extended, faithful⟩
          visited
        have equal : later old = signalUnder later new := by
          rw [extended.kept old present, extended.signal right, equal]
        obtain ⟨last, fits, more, faithful⟩ :=
          visited.extended consistent.toTallied inside fits equal faithful
        exact ⟨last, fits, extended.trans more, faithful⟩)
      (awakened.consistent consistent) right live
      ⟨value, fits', .refl mid value, faithful.extend first⟩ visits
    have equal' : later old = signalUnder later new := by
      rw [second.kept old present, second.signal right, equal]
    obtain ⟨change, -, trimmed, -⟩ := moved_consistent after differ (by omega)
      (by rw [dead]; exact live) (by omega)
    have tail := (change.extended equal').trans trimmed.extended
    have whole := (first.trans second).trans tail
    refine ⟨later, (fits'.of_bodies change.body).of_bodies trimmed.body, whole,
      (faithful'.extend tail).record ?_ ?_ equal'⟩
    · exact Nat.lt_of_lt_of_le left whole.size_le
    · exact Nat.lt_of_lt_of_le right (Nat.le_trans grown tail.size_le)

/-- Values that fit all gates but `old`, for which the replacement has the same value, go over into
    values of the later network, if no replacement aims at `old` while its gate is free. -/
theorem Edit.substituteNode_extended {old : Nat} {new : Signal} (consistent : net.Consistent)
    (fits : net.FitsOff free value) (only : ∀ n, free n → n = old) (left : old < net.size)
    (right : new.node < net.size) (same : value old = signalUnder value new)
    (clear : ∀ n ∈ substitutionAims old new net, ¬free n)
    (run : Gives (substituteNode old new) net () net') :
    ∃ value', net'.FitsOff free value' ∧ Extended net value net' value' := by
  simp only [substituteNode, gives_bind, gives_get] at run
  obtain ⟨_, _, ⟨rfl, rfl⟩, run⟩ := run
  obtain ⟨steps, r, -, -, -, last, fits', extended, -⟩ := replaceAll_induct
    (fun steps r current => (∀ n ∈ aims steps r current, ¬free n) ∧ current.Consistent ∧
      ∃ later, current.FitsOff free later ∧ Extended net value current later ∧
        Faithful free current later r)
    (by
      rintro steps r old' target rest mid mid' r' queue ⟨clear, consistent, later, fits, extended,
        faithful⟩ ran
      rw [aims_of_step queue ran, List.forall_mem_append] at clear
      have bound : ¬free target.node := clear.1 _ (replace_gives ran).aims
      obtain ⟨⟨left, right⟩, same⟩ := faithful.queue (old', target) (by rw [queue]; simp)
      have popped : Faithful free mid later { r with queue := rest } := { faithful with
        queue := fun p member => faithful.queue p (by rw [queue]; simp [member]) }
      have replaced := replace_gives ran
      obtain ⟨last, fits, more, faithful⟩ :=
        replaced.extended consistent fits popped left right (same bound) clear.1
      exact ⟨clear.2, (replaced.consistent consistent).1, last, fits, extended.trans more,
        faithful⟩)
    ⟨clear, consistent, value, fits, .refl net value, by
      constructor
      · intro n loose
        simp [only n loose, Replacements.handles, Replacements.start]
      · intro p member
        rw [List.mem_singleton.1 member]
        exact ⟨⟨left, right⟩, fun _ => same⟩
      · intro n s entry
        simp [Replacements.start] at entry⟩
    run
  exact ⟨last, fits', extended⟩

theorem Edit.substituteNode_refined {old : Nat} {new : Signal} (consistent : net.Consistent)
    (fits : net.Fits value) (left : old < net.size) (right : new.node < net.size)
    (same : value old = signalUnder value new) (run : Gives (substituteNode old new) net () net') :
    ∃ value', Refined net value net' value' := by
  obtain ⟨value', fits', extended⟩ := substituteNode_extended consistent (fits_iff.1 fits)
    (fun _ none => none.elim) left right same (fun _ _ => id) run
  exact ⟨value', extended.refined (fits_iff.2 fits')⟩

/-- The signals read nodes below the bound, and the positions have their values. -/
structure Mirrors (bound : Nat) (value : Nat → Bool) (signals : Array Signal)
    (values : Array Bool) : Prop where
  inside : ∀ s ∈ signals, s.node < bound
  same : values = signals.map (signalUnder value)

namespace Mirrors

variable {bound bound' : Nat} {signals : Array Signal} {values : Array Bool}

theorem mono (mirrors : Mirrors bound value signals values) (le : bound ≤ bound')
    (kept : ∀ n < bound, value' n = value n) : Mirrors bound' value' signals values where
  inside := fun s member => Nat.lt_of_lt_of_le (mirrors.inside s member) le
  same := mirrors.same.trans <| Array.map_congr_left fun s member =>
    (signalUnder_congr (kept s.node (mirrors.inside s member))).symm

theorem push (mirrors : Mirrors bound value signals values) {s : Signal} (inside : s.node < bound) :
    Mirrors bound value (signals.push s) (values.push (signalUnder value s)) where
  inside := fun t member => by
    rcases Array.mem_push.1 member with old | rfl
    · exact mirrors.inside t old
    · exact inside
  same := by rw [Array.map_push, mirrors.same]

theorem position (mirrors : Mirrors bound value signals values) {f t : Signal}
    (run : Edit.readPosition signals f = .ok t) :
    t.node < bound ∧ Candidate.readSignal values f = .ok (signalUnder value t) := by
  unfold Edit.readPosition at run
  split at run
  · rename_i s entry
    cases run
    refine ⟨mirrors.inside s (Array.mem_of_getElem? entry), ?_⟩
    rw [Candidate.readSignal, mirrors.same, Array.getElem?_map, entry, signalUnder_negateIf]
    cases f.negated <;> simp [GateValue.complementIf, GateValue.complement]
  · cases run

theorem gate (mirrors : Mirrors bound value signals values) {g k : Gate Signal}
    (kind : k.kind = g.kind) (run : g.operands.mapM (Edit.readPosition signals) = .ok k.operands) :
    Candidate.evaluateGate values g = .ok (values.push (k.evalUnder value)) := by
  have whole : g.mapM (Candidate.readSignal values) = .ok (k.map (signalUnder value)) :=
    Gate.mapM_map (fun f t read => (mirrors.position read).2) (Gate.mapM_eq_ok.2 ⟨kind, run⟩)
  simp only [Candidate.evaluateGate, whole, bind_eq_ok]
  refine ⟨_, rfl, _, Gate.apply_of_alike (fun _ _ => rfl) _, ?_⟩
  rw [Gate.evalUnder_bool]
  rfl

end Mirrors

theorem Inserted.refined {signals signals' : Array Signal} {values : Array Bool}
    {gates : List (Gate Signal)} (inserted : Inserted net signals gates signals' net')
    (consistent : net.Consistent) (fits : net.Fits value)
    (mirrors : Mirrors net.size value signals values) :
    ∃ value' values', Refined net value net' value' ∧
      gates.foldlM Candidate.evaluateGate values = .ok values' ∧
      Mirrors net'.size value' signals' values' := by
  induction inserted generalizing value values with
  | nil => exact ⟨value, values, .refl fits, rfl, mirrors⟩
  | @cons net mid net' signals signals' g k s rest resolved kind alive created later ih =>
    obtain ⟨middle, first, same⟩ :=
      created.refined consistent.toTallied fits fun m member => (alive m member).1
    have inside := (created.live consistent.toTallied (fun m member => (alive m member).1)
      fun m member => (alive m member).2).1
    have after := created.consistent consistent (fun m member => (alive m member).1)
      fun m member => (alive m member).2
    obtain ⟨value', values', second, ran, mirrors'⟩ :=
      ih after first.fits ((mirrors.mono first.size_le first.kept).push inside)
    refine ⟨value', values', first.trans second, ?_, mirrors'⟩
    rw [List.foldlM_cons, mirrors.gate kind resolved]
    rw [same] at ran
    exact ran

theorem Mirrors.start {bound : Nat} {zero : Signal} {divisors : List Signal}
    (first : zero.node < bound) (off : signalUnder value zero = false)
    (inside : ∀ d ∈ divisors, d.node < bound) :
    Mirrors bound value (zero :: divisors).toArray
      (false :: divisors.map (signalUnder value)).toArray where
  inside := fun s member => by
    rcases List.mem_cons.1 (List.mem_toArray.1 member) with rfl | member
    · exact first
    · exact inside s member
  same := by rw [← off, List.map_toArray, List.map_cons]

theorem Inserted.output {c : Candidate} {divisors : List Signal} {s : Signal}
    {signals : Array Signal}
    (inserted : Inserted net (.constant false :: divisors).toArray c.gates signals net')
    (output : Edit.readPosition signals c.output = .ok s) (length : divisors.length = c.numDivisors)
    (consistent : net.Consistent) (fits : net.Fits value)
    (inside : ∀ d ∈ divisors, d.node < net.size) :
    ∃ value', Refined net value net' value' ∧ s.node < net'.size ∧
      c.evaluate false (divisors.map (signalUnder value)) = .ok (signalUnder value' s) := by
  have off : signalUnder value (.constant false) = false := by
    rw [signalUnder, Signal.constant, fits.zero]
    rfl
  obtain ⟨value', values', refined, ran, mirrors⟩ :=
    inserted.refined consistent fits (.start consistent.inPlace.size_pos off inside)
  obtain ⟨below, read⟩ := mirrors.position output
  refine ⟨value', refined, below, ?_⟩
  simp only [Candidate.evaluate, bind_eq_ok, ensure_eq_ok, beq_iff_eq]
  exact ⟨(), by rw [List.length_map, length], values', ran, read⟩

namespace Network

theorem Valuation.fits {input : Nat → Bool} (valuation : net.Valuation input value) :
    net.Fits value :=
  ⟨valuation.constant, valuation.gate⟩

theorem InPlace.isInput_iff (inPlace : net.InPlace) {n : Nat} :
    net.isInput n = true ↔ n ∈ net.inputs := by
  rw [inPlace.inputs_eq, List.mem_filter, List.mem_range]
  exact ⟨fun input => ⟨lt_size_of_isInput input, input⟩, And.right⟩

theorem InPlace.isInput_eq (before : net.InPlace) (after : net'.InPlace)
    (inputs : net'.inputs = net.inputs) (n : Nat) : net'.isInput n = net.isInput n := by
  rw [Bool.eq_iff_iff, after.isInput_iff, before.isInput_iff, inputs]

theorem InPlace.nodup_inputs (inPlace : net.InPlace) : net.inputs.Nodup := by
  rw [inPlace.inputs_eq]
  exact List.nodup_range.filter _

theorem Extended.input {input : Nat → Bool} (extended : Extended net value net' value')
    (before : net.InPlace) (after : net'.InPlace)
    (known : ∀ n, net.isInput n = true → value n = input n) :
    ∀ n, net'.isInput n = true → value' n = input n := by
  intro n here
  rw [before.isInput_eq after extended.sources.inputs] at here
  rw [extended.kept n (lt_size_of_isInput here), known n here]

theorem Refined.valuation {input : Nat → Bool} (refined : Refined net value net' value')
    (before : net.InPlace) (after : net'.InPlace) (valuation : net.Valuation input value) :
    net'.Valuation input value' where
  constant := refined.fits.zero
  input := refined.extended.input before after valuation.input
  gate := refined.fits.gate

def valueTo (net : Network) (input : Nat → Bool) : (layers : Nat) → Nat → Bool
  | 0, _ => false
  | layers + 1, n =>
    match net.gate? n with
    | some g => g.evalUnder (net.valueTo input layers)
    | none => net.isInput n && input n

theorem valueTo_stable {rank : Nat → Nat} (ranks : Ranks rank fun a b => net.Feeds b a)
    (input : Nat → Bool) {k l n : Nat} (left : rank n < k) (right : rank n < l) :
    net.valueTo input k n = net.valueTo input l n := by
  induction k generalizing l n with
  | zero => omega
  | succ k ih =>
    obtain ⟨l, rfl⟩ : ∃ l', l = l' + 1 := ⟨l - 1, by omega⟩
    cases slot : net.gate? n with
    | none => simp only [valueTo, slot]
    | some g =>
      simp only [valueTo, slot]
      refine Gate.evalUnder_congr fun m member => ih ?_ ?_
      · have := ranks n m (feeds_of_gate? slot member)
        omega
      · have := ranks n m (feeds_of_gate? slot member)
        omega

theorem exists_valuation_of_constant (acyclic : net.Acyclic)
    (constant : net.body? 0 = some .constant) (input : Nat → Bool) :
    ∃ value, net.Valuation input value := by
  obtain ⟨rank, ranks⟩ := exists_ranks acyclic
  have plain {n : Nat} (slot : net.gate? n = none) :
      net.valueTo input (rank n + 1) n = (net.isInput n && input n) := by
    simp only [valueTo, slot]
  refine ⟨fun n => net.valueTo input (rank n + 1) n, ?_, fun n here => ?_, fun n g slot => ?_⟩
  · rw [plain (by rw [gate?_eq_body?, constant]; rfl), isInput_eq_body?, constant]
    rfl
  · obtain ⟨name, body⟩ := isInput_eq_true.1 here
    rw [plain (by rw [gate?_eq_body?, body]; rfl), here, Bool.true_and]
  · simp only [valueTo, slot]
    refine Gate.evalUnder_congr fun m member => valueTo_stable ranks input ?_ (Nat.lt_succ_self _)
    exact ranks n m (feeds_of_gate? slot member)

theorem exists_valuation (acyclic : net.Acyclic) (inPlace : net.InPlace) (input : Nat → Bool) :
    ∃ value, net.Valuation input value :=
  exists_valuation_of_constant acyclic ((inPlace.constant_iff 0).2 rfl) input

end Network

end LogicOpt
