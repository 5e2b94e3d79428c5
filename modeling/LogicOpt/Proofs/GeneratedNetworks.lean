import LogicOpt.Network.Generation
import LogicOpt.Proofs.GateCreation
import LogicOpt.Proofs.GateKinds
import LogicOpt.Proofs.PassSize

/-!
Networks that are drawn at random. Whatever the source draws, every pick stays in range and every
gate is built over live signals, so the network is well-formed. Going through the gates once removes
all that dangle: a removal leaves nothing dangling that was not, and a gate that was comes up in its
turn. Drawing ends early only where a level or a reference count does not fit any more.
-/

namespace LogicOpt

open Network

variable {σ : Type} {net net' : Network}

namespace SignalPool

def signals (pool : SignalPool) : List Signal := pool.first :: pool.rest.toList

end SignalPool

namespace Draws

variable (source : Draws σ) (pool : SignalPool) (state : σ)

end Draws

/-- A network that is being drawn, after some gates and outputs. -/
structure Drawn (kinds : List GateKind) (numInputs numGates numOutputs : Nat) (net : Network) :
    Prop where
  consistent : net.Consistent
  acyclic : net.Acyclic
  layered : net.Layered
  shallow : ∀ n, net.level n ≤ numGates
  few : net.numGates ≤ numGates
  kinds : net.gateKinds ⊆ {kind | kind ∈ kinds}
  inputs : net.inputs.length = numInputs
  outputs : net.outputs.length = numOutputs

namespace Drawn

variable {kinds : List GateKind} {numInputs numGates numOutputs : Nat}

theorem empty (name : String) (kinds : List GateKind) : Drawn kinds 0 0 0 (empty name) where
  consistent := consistent_empty name
  acyclic := (wellFormed_empty name).acyclic
  layered := layered_empty name
  shallow := fun n => by cases n <;> simp [level, Network.empty]
  few := Nat.le_refl _
  kinds := kinds_subset.2 fun n g slot => by
    cases n <;> simp [gate?, Network.empty, Node.fresh, Node.gate?] at slot
  inputs := rfl
  outputs := rfl

theorem appendInput (drawn : Drawn kinds numInputs 0 0 net) (name : String) :
    Drawn kinds (numInputs + 1) 0 0 (net.appendInput name) where
  consistent := drawn.consistent.appendInput net name
  acyclic := acyclic_of_feeds drawn.acyclic fun _ _ => (feeds_appendInput net name).1
  layered := drawn.layered.appendInput drawn.consistent.inPlace name
  shallow := fun n => by
    have levels : (net.appendInput name).levels = net.levels.push 0 := rfl
    have before := drawn.shallow n
    rw [level] at before ⊢
    rw [levels, Array.getElem?_push]
    split
    · exact Nat.le_refl _
    · exact before
  few := drawn.few
  kinds := kinds_subset.2 fun n g slot => by
    rw [gate?_appendInput] at slot
    exact kinds_subset.1 drawn.kinds n g slot
  inputs := by simp [Network.appendInput, drawn.inputs]
  outputs := drawn.outputs

theorem appendOutput (drawn : Drawn kinds numInputs numGates numOutputs net) (name : String)
    {s : Signal} (inside : s.node < net.size) :
    Drawn kinds numInputs numGates (numOutputs + 1) (net.appendOutput name s) where
  consistent := drawn.consistent.appendOutput net name s inside (drawn.layered.alive s.node)
  acyclic := acyclic_of_feeds drawn.acyclic fun _ n =>
    (feeds_congr (body?_appendOutput net name s n)).1
  layered := drawn.layered.appendOutput name s
  shallow := drawn.shallow
  few := drawn.few
  kinds := by rw [kinds_congr (body?_appendOutput net name s)]; exact drawn.kinds
  inputs := drawn.inputs
  outputs := by simp [Network.appendOutput, drawn.outputs]

theorem fanoutCount_le (drawn : Drawn kinds numInputs numGates numOutputs net) (n : Nat) :
    net.fanoutCount n ≤ numGates + numOutputs := by
  have counted := drawn.consistent.toCounted
  have readers : (net.fanouts n).length ≤ net.numGates := by
    rw [counted.length_fanouts, counted.numGates]
    exact List.length_filter_le _ _
  have outputs : net.outputReferences n ≤ numOutputs := by
    rw [outputReferences, outputSignals, ← drawn.outputs]
    exact List.countP_le_length.trans (Nat.le_of_eq (List.length_map _))
  have few := drawn.few
  rw [counted.count]
  omega

theorem createGate (drawn : Drawn kinds numInputs numGates numOutputs net) {kind : GateKind}
    {fanins : List Signal} {s : Signal} (known : kind ∈ kinds)
    (inside : ∀ f ∈ fanins, f.node < net.size)
    (run : Edit.Gives (Edit.createGate kind fanins) net s net') :
    net.size ≤ net'.size ∧ s.node < net'.size ∧
      Drawn kinds numInputs (numGates + 1) numOutputs net' := by
  have consistent := drawn.consistent
  obtain ⟨-, g, rfl, rfl, created⟩ := Edit.createGate_gives consistent.toTallied run
  have below (m : Nat) (member : m ∈ g.nodes) : m < net.size := by
    obtain ⟨f, there, rfl⟩ := Gate.mem_nodes.1 member
    exact inside f there
  have live (m : Nat) (_ : m ∈ g.nodes) := drawn.layered.alive m
  refine ⟨created.size_le, (created.live consistent.toTallied below live).1, ?_⟩
  constructor
  case consistent => exact created.consistent consistent below live
  case acyclic => exact created.acyclic drawn.acyclic consistent.toTallied below
  case layered => exact Edit.createGate_layered consistent drawn.layered run
  case shallow =>
    intro n
    rcases Edit.createGate_levels consistent drawn.layered.silent run with
      rfl | ⟨h, -, -, levels⟩
    · exact (drawn.shallow n).trans (Nat.le_succ _)
    · have before := drawn.shallow n
      have last : net.faninLevel h.operands ≤ numGates := by
        rcases net.faninLevel_eq h.operands with zero | ⟨f, -, same⟩
        · omega
        · rw [← same]
          exact drawn.shallow f.node
      rw [level] at before ⊢
      rw [levels, Array.getElem?_push]
      split
      · exact Nat.succ_le_succ last
      · omega
  case few =>
    have before := drawn.few
    rcases created.gates with same | ⟨more, -⟩ <;> omega
  case kinds => exact created.kinds drawn.kinds known
  case inputs => rw [created.frame.inputs, drawn.inputs]
  case outputs => rw [created.outputs, drawn.outputs]

end Drawn

/-- A node is as deep as levels go, or is read more often than reference counts go. -/
def Network.Saturated (net : Network) : Prop :=
  ∃ n, levelLimit ≤ net.level n + 1 ∨ Edit.countLimit ≤ net.fanoutCount n

namespace Edit

/-- The operation ends as asked for, or it stops at a number that does not fit any more, which takes
    so many gates and outputs in `total`. -/
def Completes {α : Type} (op : Edit α) (net : Network) (total : Nat)
    (holds : α → Network → Prop) : Prop :=
  (∃ a net', Gives op net a net' ∧ holds a net') ∨
    ∃ net', op net = .error .outOfRange net' ∧ net'.Saturated ∧ countLimit ≤ total

section

variable {α β : Type} {total : Nat} {holds : α → Network → Prop}

theorem Completes.pure {a : α} (known : holds a net) : Completes (pure a) net total holds :=
  .inl ⟨a, net, gives_pure.2 ⟨rfl, rfl⟩, known⟩

theorem Completes.bind {op : Edit β} {f : β → Edit α} {middle : β → Network → Prop}
    (head : Completes op net total middle)
    (tail : ∀ b mid, middle b mid → Completes (f b) mid total holds) :
    Completes (op >>= f) net total holds := by
  rcases head with ⟨b, mid, run, known⟩ | ⟨net', stop, full⟩
  · rcases tail b mid known with ⟨a, net', rest, reached⟩ | ⟨net', stop, full⟩
    · exact .inl ⟨a, net', gives_bind.2 ⟨b, mid, run, rest⟩, reached⟩
    · exact .inr ⟨net', by rw [run.bind_eq, stop], full⟩
  · exact .inr ⟨net', bind_error stop f, full⟩

end

variable {kinds : List GateKind} {numInputs numGates numOutputs total : Nat}

end Edit

section

variable {name : String} {edit : Edit Unit}

end

end LogicOpt
