import LogicOpt.Gate.Normal
import LogicOpt.Network.Integrity

namespace LogicOpt

namespace Network

def Feeds (net : Network) (m n : Nat) : Prop := ∃ f ∈ net.fanins n, f.node = m

/-- No gate slot, live or dead, reaches itself along fanins. -/
def Acyclic (net : Network) : Prop := WellFounded net.Feeds

def CanonicalGates (net : Network) : Prop := ∀ n g, net.gate? n = some g → g.Canonical

def SoundTable (net : Network) : Prop :=
  ∀ g n, net.table[g]? = some n → net.gate? n = some g ∧ net.isDead n = false

structure InPlace (net : Network) : Prop where
  size_levels : net.levels.size = net.size
  constant_iff : ∀ n, net.body? n = some .constant ↔ n = 0
  inputs_eq : net.inputs = (List.range net.size).filter net.isInput
  gate_of_dead : ∀ n, net.isDead n = true → net.isGate n = true
  fanin_lt : ∀ n, ∀ f ∈ net.fanins n, f.node < net.size
  fanouts_nodup : ∀ n, (net.fanouts n).Nodup
  reader_of_fanout : ∀ n, ∀ m ∈ net.fanouts n, net.isLiveGate m = true ∧ net.Feeds n m
  output_lt : ∀ o ∈ net.outputs, o.signal.node < net.size
  subscription_lt : ∀ s ∈ net.subscriptions, s.id < net.nextSubscription

structure WellFormed (net : Network) : Prop where
  inPlace : net.InPlace
  integrity : net.integrityIssue? = none
  acyclic : net.Acyclic
  canonical : net.CanonicalGates
  table : net.SoundTable

/-- Whether `n` reaches `m` along fanins; every node reaches itself. -/
inductive Reaches (net : Network) : Nat → Nat → Prop where
  | refl (n : Nat) : Reaches net n n
  | step {n m k : Nat} : Reaches net n m → net.Feeds k m → Reaches net n k

def NoDangling (net : Network) : Prop := ∀ n, net.isLiveGate n = true → net.fanoutCount n ≠ 0

theorem gate?_eq_none_of_size_le {net : Network} {n : Nat} (h : net.size ≤ n) :
    net.gate? n = none := by
  have out : net.nodes[n]? = none := Array.getElem?_eq_none h
  simp [gate?, out]

theorem fanins_eq_operands {net : Network} {n : Nat} {g : Gate Signal} (h : net.gate? n = some g) :
    net.fanins n = g.operands := by
  unfold gate? at h
  unfold fanins
  cases slot : net.nodes[n]? with
  | none => simp [slot] at h
  | some node =>
    cases body : node.body <;> simp_all [Node.gate?, Node.fanins]

theorem wellFormed_empty (name : String) : (empty name).WellFormed where
  inPlace := by
    have slots (n : Nat) :
        (empty name).nodes[n]? = if n = 0 then some (.fresh .constant) else none := by
      cases n <;> simp [empty]
    constructor
    · rfl
    · intro n
      simp only [body?, slots]
      split <;> simp_all [Node.fresh]
    · rfl
    · intro n
      simp only [isDead, slots]
      split <;> simp [Node.fresh]
    · intro n
      simp only [fanins, slots]
      split <;> simp [Node.fresh, Node.fanins]
    · intro n
      simp only [fanouts, slots]
      split <;> simp [Node.fresh]
    · intro n
      simp only [fanouts, slots]
      split <;> simp [Node.fresh]
    · simp [empty]
    · simp [empty]
  integrity := rfl
  acyclic := by
    refine ⟨fun n => ⟨n, ?_⟩⟩
    rintro m ⟨f, member, -⟩
    cases n <;> simp [fanins, empty, Node.fresh, Node.fanins] at member
  canonical := by
    intro n g h
    cases n <;> simp [gate?, empty, Node.fresh, Node.gate?] at h
  table := by
    intro g n h
    simp [empty] at h

end Network

end LogicOpt
