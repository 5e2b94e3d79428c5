import LogicOpt.Proofs.Scheduling
import Mathlib.Algebra.Order.BigOperators.Group.Finset
import Mathlib.Tactic.Ring

/-!
What the nodes of a network cost while a substitution is under way. A node costs one more than all it
reads, and the node replaced first pays for its target besides. Every node is scheduled to be replaced
by a cheaper one, so the gates built for queued consumers cost less than the consumers.
-/

namespace LogicOpt

open Relation

variable {net net' : Network} {swap : Nat → Nat → Prop} {first target : Nat} {r : Replacements}
  {rank cost cost' : Nat → Nat}

def Network.load (net : Network) (cost : Nat → Nat) (n : Nat) : Nat :=
  ((net.fanins n).map fun f => cost f.node).sum

/-- A node costs one more than its fanins together, the first one also what its target costs. -/
def Costs (net : Network) (first target : Nat) (cost : Nat → Nat) : Prop :=
  ∀ n, cost n = 1 + net.load cost n + if n = first then cost target else 0

def lowerNodes (rank : Nat → Nat) (size n : Nat) : Finset Nat :=
  (Finset.range size).filter fun m => rank m < rank n

theorem mem_lowerNodes {size n m : Nat} :
    m ∈ lowerNodes rank size n ↔ m < size ∧ rank m < rank n := by
  simp [lowerNodes]

theorem card_lowerNodes_lt {size n : Nat} (below : n < size) :
    (lowerNodes rank size n).card < size := by
  calc (lowerNodes rank size n).card
      < (Finset.range size).card := Finset.card_lt_card <|
        Finset.filter_ssubset.2 ⟨n, Finset.mem_range.2 below, Nat.lt_irrefl _⟩
    _ = size := Finset.card_range size

namespace Ranks

variable {edge : Nat → Nat → Prop}

theorem card_lowerNodes (ranks : Ranks rank edge) {size : Nat} (inside : ∀ a b, edge a b → b < size) :
    Ranks (fun n => (lowerNodes rank size n).card) edge := by
  intro a b step
  have falls := ranks a b step
  refine Finset.card_lt_card ((Finset.ssubset_iff_of_subset fun m member => ?_).2 ⟨b, ?_, ?_⟩)
  · rw [mem_lowerNodes] at member ⊢
    exact ⟨member.1, member.2.trans falls⟩
  · exact mem_lowerNodes.2 ⟨inside a b step, falls⟩
  · exact fun member => Nat.lt_irrefl _ (mem_lowerNodes.1 member).2

theorem exists_splice (ranks : Ranks rank edge) {level most : Nat}
    (falls : ∀ a b, edge a b → rank a < level → cost b < cost a)
    (bounded : ∀ a b, edge a b → cost b ≤ most) :
    ∃ mixed, Ranks mixed edge ∧ ∀ n, rank n < level → mixed n = cost n := by
  refine ⟨fun n => if rank n < level then cost n else most + rank n, fun a b step => ?_,
    fun n low => if_pos low⟩
  have lower := ranks a b step
  have top := bounded a b step
  by_cases low : rank a < level
  · simp only [low, lower.trans low, ↓reduceIte]
    exact falls a b step low
  · simp only [low, ↓reduceIte]
    split <;> omega

end Ranks

namespace Network

theorem load_of_gate {n : Nat} {g : Gate Signal} (slot : net.gate? n = some g) :
    net.load cost n = g.weight cost := by
  rw [load, fanins_eq_operands slot, Gate.weight, Gate.nodes, List.map_map]
  rfl

theorem load_of_source {n : Nat} (source : net.gate? n = none) : net.load cost n = 0 := by
  have none : net.fanins n = [] := by
    refine List.eq_nil_iff_forall_not_mem.2 fun f member => ?_
    obtain ⟨g, slot, -⟩ := feeds_iff.1 ⟨f, member, rfl⟩
    rw [source] at slot
    cases slot
  rw [load, none]
  rfl

theorem load_congr {n : Nat} (same : net'.body? n = net.body? n) :
    net'.load cost n = net.load cost n := by
  have gates := gate?_congr same
  cases slot : net.gate? n with
  | none => rw [load_of_source slot, load_of_source (gates.trans slot)]
  | some g => rw [load_of_gate slot, load_of_gate (gates.trans slot)]

theorem le_load {m n : Nat} (feeds : net.Feeds m n) : cost m ≤ net.load cost n := by
  obtain ⟨f, member, rfl⟩ := feeds
  exact List.le_sum_of_mem (List.mem_map_of_mem (f := fun f => cost f.node) member)

theorem load_le {n : Nat} (less : ∀ m, net.Feeds m n → cost' m ≤ cost m) :
    net.load cost' n ≤ net.load cost n :=
  List.sum_le_sum fun f member => less f.node ⟨f, member, rfl⟩

theorem load_le_of_le {n top : Nat} (bound : ∀ m, net.Feeds m n → cost m ≤ top) :
    net.load cost n ≤ 3 * top := by
  cases slot : net.gate? n with
  | none =>
    rw [load_of_source slot]
    exact Nat.zero_le _
  | some g =>
    have short : (net.fanins n).length ≤ 3 := by
      rw [fanins_eq_operands slot, Gate.length_operands]
      cases g.kind <;> decide
    calc net.load cost n
        ≤ ((net.fanins n).map fun f => cost f.node).length • top :=
          List.sum_le_card_nsmul _ _ fun c member => by
            obtain ⟨f, there, rfl⟩ := List.mem_map.1 member
            exact bound f.node ⟨f, there, rfl⟩
      _ = (net.fanins n).length * top := by rw [List.length_map, Nat.nsmul_eq_mul]
      _ ≤ 3 * top := Nat.mul_le_mul_right top short

end Network

open Network

theorem exists_costs (ranks : Ranks rank (Leads net swap)) (begun : swap first target) :
    ∃ cost, Costs net first target cost := by
  let step (n : Nat) (below : ∀ m, rank m < rank n → Nat) : Nat :=
    1 + ((net.fanins n).attach.map fun f =>
        below f.1.node (ranks n f.1.node (.inl ⟨f.1, f.2, rfl⟩))).sum +
      if same : n = first then below target (ranks n target (.inr (same ▸ begun))) else 0
  have wf : WellFounded fun m n => rank m < rank n := InvImage.wf rank Nat.lt_wfRel.wf
  refine ⟨wf.fix step, fun n => ?_⟩
  rw [wf.fix_eq step n]
  simp only [step, load, List.map_attach_eq_pmap, List.pmap_eq_map]
  by_cases same : n = first <;> simp [same]

namespace Costs

theorem pos (costs : Costs net first target cost) (n : Nat) : 0 < cost n := by
  rw [costs n]
  omega

/-- The cost falls along fanins and from the first node to its target. -/
theorem ranks (costs : Costs net first target cost) :
    Ranks cost fun a b => net.Feeds b a ∨ (a = first ∧ b = target) := by
  rintro a b (feeds | ⟨rfl, rfl⟩)
  · have fanin : cost b ≤ net.load cost a := le_load feeds
    have := costs a
    omega
  · have := costs a
    simp only [↓reduceIte] at this
    omega

theorem of_bodies (costs : Costs net first target cost) (bodies : ∀ m, net'.body? m = net.body? m) :
    Costs net' first target cost := by
  intro n
  rw [load_congr (bodies n)]
  exact costs n

theorem le (costs : Costs net first target cost) (costs' : Costs net' first target cost') {size : Nat}
    (inside : target < size)
    (slots : ∀ n < size, (∀ m, net'.Feeds m n → m < size) ∧ net'.load cost n ≤ net.load cost n) :
    ∀ n < size, cost' n ≤ cost n := by
  intro n
  induction h : cost' n using Nat.strong_induction_on generalizing n with
  | _ height ih =>
    intro below
    obtain ⟨closed, less⟩ := slots n below
    have fanins : net'.load cost' n ≤ net'.load cost n :=
      load_le fun m feeds =>
        ih (cost' m) (h ▸ costs'.ranks n m (.inl feeds)) m rfl (closed m feeds)
    have here := costs n
    have here' := costs' n
    split at here'
    · rename_i same
      have step := ih (cost' target) (h ▸ costs'.ranks n target (.inr ⟨same, rfl⟩)) target rfl inside
      rw [if_pos same] at here
      omega
    · omega

theorem le_pow (costs : Costs net first target cost)
    (ranks : Ranks rank fun a b => net.Feeds b a ∨ (a = first ∧ b = target)) (n : Nat) :
    cost n ≤ 5 ^ rank n := by
  induction h : rank n using Nat.strong_induction_on generalizing n with
  | _ height ih =>
    have here := costs n
    cases height with
    | zero =>
      have load : net.load cost n ≤ 3 * 0 := load_le_of_le fun m feeds => by
        have := ranks n m (.inl feeds)
        omega
      have other : ¬n = first := fun same => by
        have := ranks n target (.inr ⟨same, rfl⟩)
        omega
      rw [if_neg other] at here
      simp only [pow_zero]
      omega
    | succ height =>
      have below {m : Nat} (lower : rank m < rank n) : cost m ≤ 5 ^ height :=
        (ih (rank m) (h ▸ lower) m rfl).trans (Nat.pow_le_pow_right (by decide) (by omega))
      have load : net.load cost n ≤ 3 * 5 ^ height :=
        load_le_of_le fun m feeds => below (ranks n m (.inl feeds))
      have extra : (if n = first then cost target else 0) ≤ 5 ^ height := by
        split
        · rename_i same
          exact below (ranks n target (.inr ⟨same, rfl⟩))
        · exact Nat.zero_le _
      have positive : 0 < 5 ^ height := Nat.pow_pos (by decide)
      rw [pow_succ]
      omega

end Costs

namespace Schedule

variable {q t : Nat}

theorem cost_first_le (schedule : Schedule first net r swap) (costs : Costs net first target cost)
    (swapped : swap q t) : cost first ≤ cost q :=
  (costs.ranks.mono fun _ _ => .inl).le (schedule.reads_first swapped)

theorem cost_first_lt (schedule : Schedule first net r swap) (costs : Costs net first target cost)
    (swapped : swap q t) (later : q ≠ first) : cost first < cost q := by
  obtain ⟨p, u, next, feeds⟩ := (schedule.chained q t swapped).resolve_left later
  exact (schedule.cost_first_le costs next).trans_lt (costs.ranks q p (.inl feeds))

theorem costs_fall (schedule : Schedule first net r swap) (constant : net.gate? 0 = none)
    (begun : swap first target) (costs : Costs net first target cost) : Ranks cost swap := by
  obtain ⟨rank, ranks⟩ := schedule.ranks
  intro q t swapped
  induction h : rank q using Nat.strong_induction_on generalizing q t with
  | _ height ih =>
    subst h
    by_cases start : q = first
    · subst start
      rw [schedule.once q t target swapped begun]
      exact costs.ranks q target (.inr ⟨rfl, rfl⟩)
    have top := schedule.cost_first_lt costs swapped start
    -- The gates are compared by ranks, and below the rank of `q` the cost is one already.
    obtain ⟨mixed, mixedRanks, same⟩ := (ranks.mono fun _ _ => .inr).exists_splice
      (fun a b step low => ih (rank a) low a b step rfl) fun a b step =>
        List.le_sum_of_mem (List.mem_map_of_mem (f := cost)
          (List.mem_range.2 (schedule.inside a b step).2))
    have agree {m : Nat} (within : Within net swap q m) : mixed m = cost m :=
      same m (ranks.lt (leads_of_within within))
    have weights {k : Gate Signal} (within : ∀ m ∈ k.nodes, Within net swap q m) :
        k.weight mixed = k.weight cost := by
      rw [Gate.weight, Gate.weight, List.map_congr_left fun m member => agree (within m member)]
    rcases (schedule.backed q t swapped).resolve_left start with constant' | within | @⟨k, slot, light⟩
    · have here := costs t
      rw [constant', load_of_source constant] at here
      split at here
      · rename_i same
        rwa [constant', same]
      · have := costs.pos first
        rw [constant']
        omega
    · obtain ⟨f, feeds, path⟩ := id within
      have below := mixedRanks.le path
      rw [agree within, agree ⟨f, feeds, .refl⟩] at below
      exact below.trans_lt (costs.ranks q f (.inl feeds))
    · obtain ⟨below, g, source, lighter⟩ := light
      have less := lighter mixed mixedRanks
      rw [weights below, weights fun m member => ⟨m, feeds_of_gate? source member, .refl⟩] at less
      have here := costs t
      have there := costs q
      rw [load_of_gate slot] at here
      rw [load_of_gate source, if_neg start] at there
      split at here
      · rename_i same
        rwa [same]
      · omega

end Schedule

end LogicOpt
