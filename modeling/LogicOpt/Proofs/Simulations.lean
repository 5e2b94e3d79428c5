import LogicOpt.Network.Simulation
import LogicOpt.Proofs.Tables

namespace LogicOpt

open Network

structure Pointwise {α : Type} [GateValue α] (h : α → Bool) : Prop where
  complement : ∀ x, h (GateValue.complement x) = !h x
  and2 : ∀ x y, h (GateValue.and2 x y) = (h x && h y)
  xor2 : ∀ x y, h (GateValue.xor2 x y) = (h x ^^ h y)
  maj3 : ∀ x y z, h (GateValue.maj3 x y z) = (h x && h y || h x && h z || h y && h z)

theorem pointwise_id : Pointwise (id : Bool → Bool) :=
  ⟨fun _ => rfl, fun _ _ => rfl, fun _ _ => rfl, fun _ _ _ => rfl⟩

theorem pointwise_getLsbD {w m : Nat} (inside : m < w) :
    Pointwise fun x : BitVec w => x.getLsbD m where
  complement := fun x => by simp [GateValue.complement, inside]
  and2 := fun x y => by simp [GateValue.and2]
  xor2 := fun x y => by simp [GateValue.xor2]
  maj3 := fun x y z => by simp [GateValue.maj3]

namespace Pointwise

variable {α : Type} [GateValue α] {h : α → Bool}

theorem complementIf (pointwise : Pointwise h) (x : α) (flip : Bool) :
    h (GateValue.complementIf x flip) = (h x ^^ flip) := by
  cases flip <;> simp [GateValue.complementIf, pointwise.complement]

theorem evalUnder (pointwise : Pointwise h) {values : Nat → α} {value : Nat → Bool}
    {g : Gate Signal} (same : ∀ m ∈ g.nodes, h (values m) = value m) :
    h (g.evalUnder values) = g.evalUnder value := by
  have operand : ∀ f ∈ g.operands,
      h (GateValue.complementIf (values f.node) f.negated) = signalUnder value f := by
    intro f member
    rw [pointwise.complementIf, same f.node (Gate.mem_nodes.2 ⟨f, member, rfl⟩), signalUnder]
  rw [Gate.evalUnder_bool]
  cases g <;> simp only [Gate.operands, List.forall_mem_cons] at operand
  · obtain ⟨left, right, -⟩ := operand
    rw [Gate.evalUnder, Gate.map, Gate.eval, pointwise.and2, left, right]
    rfl
  · obtain ⟨left, right, -⟩ := operand
    rw [Gate.evalUnder, Gate.map, Gate.eval, pointwise.xor2, left, right]
    rfl
  · obtain ⟨left, middle, right, -⟩ := operand
    rw [Gate.evalUnder, Gate.map, Gate.eval, pointwise.maj3, left, middle, right]
    rfl

end Pointwise

namespace Network

variable {net : Network} {α : Type} {h : α → Bool} {zero : α} {value : Nat → Bool}
  {values : Array α} {slots slots' : Nat → Prop}

/-- Looked at through `h`, some slots hold the values that a valuation gives them. -/
structure Shows (net : Network) (h : α → Bool) (zero : α) (value : Nat → Bool) (values : Array α)
    (slots : Nat → Prop) : Prop where
  size : values.size = net.size
  right : ∀ n, n < net.size → slots n → h (values[n]?.getD zero) = value n

namespace Shows

theorem mono (shows : Shows net h zero value values slots)
    (fewer : ∀ n, n < net.size → slots' n → slots n) : Shows net h zero value values slots' :=
  ⟨shows.size, fun n inside member => shows.right n inside (fewer n inside member)⟩

theorem replicate (off : h zero = false) :
    Shows net h zero value (Array.replicate net.size zero) fun n => value n = false := by
  refine ⟨Array.size_replicate, fun n inside none => ?_⟩
  simp [inside, off, none]

theorem set (shows : Shows net h zero value values slots) {n : Nat} {x : α}
    (right : h x = value n) :
    Shows net h zero value (values.setIfInBounds n x) fun m => slots m ∨ m = n := by
  refine ⟨by rw [Array.size_setIfInBounds, shows.size], fun m inside member => ?_⟩
  rw [Array.getElem?_setIfInBounds]
  by_cases same : n = m
  · subst same
    simpa [shows.size, inside] using right
  · rw [if_neg same]
    exact shows.right m inside (member.resolve_right fun other => same other.symm)

theorem setAll (shows : Shows net h zero value values slots) {entries : List (Nat × α)}
    (right : ∀ e ∈ entries, h e.2 = value e.1) :
    Shows net h zero value
      (entries.foldl (fun values e => values.setIfInBounds e.1 e.2) values)
      fun m => slots m ∨ m ∈ entries.map (·.1) := by
  induction entries generalizing values slots with
  | nil => exact shows.mono fun _ _ => by simp
  | cons e rest ih =>
    rw [List.forall_mem_cons] at right
    refine (ih (shows.set right.1) right.2).mono fun m _ => ?_
    simp [or_assoc]

theorem simulate [GateValue α] (fits : net.Fits value) (inPlace : net.InPlace)
    (pointwise : Pointwise h) {known : Nat → Prop} {order : List Nat}
    (ordered : net.InOrder known order)
    (shows : Shows net h zero value values fun n => known n ∨ net.gate? n = none) :
    Shows net h zero value (order.foldl (net.simulateNode zero) values)
      fun n => known n ∨ n ∈ order ∨ net.gate? n = none := by
  induction order generalizing known values with
  | nil => exact shows.mono fun _ _ => by simp
  | cons n rest ih =>
    have next : Shows net h zero value (net.simulateNode zero values n)
        fun m => (known m ∨ m = n) ∨ net.gate? m = none := by
      unfold simulateNode
      cases slot : net.gate? n with
      | none =>
        refine shows.mono fun m _ => ?_
        rintro ((earlier | rfl) | none)
        · exact .inl earlier
        · exact .inr slot
        · exact .inr none
      | some g =>
        have operands : ∀ m ∈ g.nodes, h (values[m]?.getD zero) = value m := by
          intro m member
          have feeds := feeds_of_gate? slot member
          obtain ⟨f, reads, rfl⟩ := feeds
          exact shows.right f.node (inPlace.fanin_lt n f reads)
            (.inl (ordered.1 f.node ⟨f, reads, rfl⟩))
        refine (shows.set ?_).mono fun m _ => by tauto
        rw [pointwise.evalUnder operands, fits.gate n g slot]
    refine (ih ordered.2 next).mono fun m _ => ?_
    simp only [List.mem_cons]
    tauto

end Shows

theorem InPlace.isSource_of_gate?_eq_none (inPlace : net.InPlace) {n : Nat} (inside : n < net.size)
    (slot : net.gate? n = none) : net.isSource n = true := by
  refine Bool.eq_true_of_not_eq_false fun other => ?_
  obtain ⟨g, there⟩ := inPlace.gate_of_not_source inside other
  rw [slot] at there
  cases there

theorem InPlace.not_feeds_source (inPlace : net.InPlace) {m n : Nat}
    (source : net.isSource n = true) : ¬net.Feeds m n := by
  intro feeds
  obtain ⟨g, slot, -⟩ := feeds_iff.1 feeds
  rw [inPlace.not_source_of_gate slot] at source
  cases source

theorem InPlace.inOrder_sources (inPlace : net.InPlace) (known : Nat → Prop) {order : List Nat}
    (sources : ∀ n ∈ order, net.isSource n = true) : net.InOrder known order := by
  induction order generalizing known with
  | nil => trivial
  | cons n rest ih =>
    rw [List.forall_mem_cons] at sources
    exact ⟨fun m feeds => absurd feeds (inPlace.not_feeds_source sources.1), ih _ sources.2⟩

theorem simulate_eq_ok [GateValue α] (inPlace : net.InPlace) (acyclic : net.Acyclic)
    (fits : net.Fits value) (pointwise : Pointwise h) (off : h zero = false) {inputs : List α}
    (same : inputs.map h = net.inputs.map value) :
    ∃ values, net.simulate zero inputs = .ok values ∧ ∀ n, n < net.size → net.isDead n = false →
      h (values[n]?.getD zero) = value n := by
  have length : inputs.length = net.inputs.length := by
    rw [← List.length_map (f := h), same, List.length_map]
  have entries : ∀ e ∈ net.inputs.zip inputs, h e.2 = value e.1 := by
    intro e member
    obtain ⟨i, inside, rfl⟩ := List.mem_iff_getElem.1 member
    simp only [List.length_zip, Nat.lt_min] at inside
    have at_i := congrArg (·[i]?) same
    simpa [inside] using at_i
  have sources : Shows net h zero value (net.sourceValues zero inputs)
      fun n => net.isSource n = true := by
    refine ((Shows.replicate off).setAll entries).mono fun n _ source => ?_
    simp only [isSource, Bool.or_eq_true, beq_iff_eq] at source
    rcases source with rfl | input
    · exact .inl fits.zero
    · rw [inPlace.isInput_iff] at input
      refine .inr ?_
      rwa [List.map_fst_zip (Nat.le_of_eq length.symm)]
  have listed := listed_postorder net net.isSource (net.outputSignals.map (·.node) ++ net.liveGates)
  have ordered : net.InOrder (fun n => net.isSource n = true) net.topoOrder := by
    refine (inPlace.inOrder_sources _ ?_).append ((listed.ordered acyclic).mono fun _ _ _ _ => .inl)
    intro n member
    rcases List.mem_cons.1 member with rfl | input
    · simp [isSource]
    · simp [isSource, inPlace.isInput_iff.2 input]
  have simulated := Shows.simulate fits inPlace pointwise ordered
    (sources.mono fun n inside known =>
      known.elim id fun slot => inPlace.isSource_of_gate?_eq_none inside slot)
  refine ⟨_, by simp [Network.simulate, length, ensure, bind, Except.bind, pure, Except.pure],
    fun n inside live => simulated.right n inside ?_⟩
  cases slot : net.gate? n with
  | none => exact .inr (.inr rfl)
  | some g =>
    have start : n ∈ net.liveGates := mem_liveGates.2 (isLiveGate_eq_true.2 ⟨⟨g, slot⟩, live⟩)
    refine .inr (.inl (List.mem_append_right _ ?_))
    refine (listed.reached n (List.mem_append_right _ start)).resolve_left ?_
    rw [inPlace.not_source_of_gate slot]
    exact Bool.false_ne_true

theorem simulateValues_of_fits (inPlace : net.InPlace) (acyclic : net.Acyclic)
    (fits : net.Fits value) :
    ∃ values, net.simulateValues (net.inputs.map value) = .ok values ∧
      ∀ n, n < net.size → net.isDead n = false → values[n]?.getD false = value n :=
  simulate_eq_ok inPlace acyclic fits pointwise_id rfl (List.map_id _)

end Network

end LogicOpt
