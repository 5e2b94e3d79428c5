import LogicOpt.Proofs.Traversal
import Mathlib.Algebra.Order.BigOperators.Group.List
import Mathlib.Algebra.Order.Group.Nat
import Mathlib.Algebra.Ring.Nat
import Mathlib.Logic.Relation

namespace LogicOpt

open Relation

def Ranks (rank : Nat → Nat) (edge : Nat → Nat → Prop) : Prop := ∀ a b, edge a b → rank b < rank a

variable {rank : Nat → Nat} {edge : Nat → Nat → Prop}

theorem Ranks.le (ranks : Ranks rank edge) {a b : Nat} (path : ReflTransGen edge a b) :
    rank b ≤ rank a := by
  induction path with
  | refl => exact Nat.le_refl _
  | tail _ last ih => exact Nat.le_trans (Nat.le_of_lt (ranks _ _ last)) ih

theorem Ranks.lt (ranks : Ranks rank edge) {a b : Nat} (path : TransGen edge a b) :
    rank b < rank a := by
  induction path with
  | single step => exact ranks _ _ step
  | tail _ last ih => exact Nat.lt_trans (ranks _ _ last) ih

theorem Ranks.mono {sub : Nat → Nat → Prop} (ranks : Ranks rank edge)
    (included : ∀ a b, sub a b → edge a b) : Ranks rank sub :=
  fun a b step => ranks a b (included a b step)

theorem Ranks.insert (ranks : Ranks rank edge) {start stop : Nat}
    (apart : ¬ReflTransGen edge stop start) :
    ∃ raised, Ranks raised fun a b => edge a b ∨ (a = start ∧ b = stop) := by
  classical
  refine ⟨fun a => if ReflTransGen edge a start then rank a + rank stop + 1 else rank a, ?_⟩
  rintro a b (step | ⟨rfl, rfl⟩)
  · have below := ranks a b step
    by_cases leads : ReflTransGen edge b start
    · have behind : ReflTransGen edge a start := .head step leads
      simp only [leads, behind, ↓reduceIte]
      omega
    · simp only [leads, ↓reduceIte]
      split <;> omega
  · have self : ReflTransGen edge a a := .refl
    simp only [apart, self, ↓reduceIte]
    omega

/-- A way over one more edge uses it, if at all, after a way to its start and before a way from its
    end. -/
theorem transGen_insert {edge : Nat → Nat → Prop} {start stop a b : Nat} :
    TransGen (fun a b => edge a b ∨ (a = start ∧ b = stop)) a b ↔
      TransGen edge a b ∨ (ReflTransGen edge a start ∧ ReflTransGen edge stop b) := by
  have more (a b : Nat) (step : edge a b) : edge a b ∨ (a = start ∧ b = stop) := .inl step
  constructor
  · intro path
    induction path with
    | single step =>
      rcases step with step | ⟨rfl, rfl⟩
      · exact .inl (.single step)
      · exact .inr ⟨.refl, .refl⟩
    | tail _ step ih =>
      rcases ih with before | ⟨before, after⟩ <;> rcases step with step | ⟨rfl, rfl⟩
      · exact .inl (before.tail step)
      · exact .inr ⟨before.to_reflTransGen, .refl⟩
      · exact .inr ⟨before, after.tail step⟩
      · exact .inr ⟨before, .refl⟩
  · rintro (path | ⟨before, after⟩)
    · exact TransGen.mono more a b path
    · exact TransGen.trans_right (ReflTransGen.mono more a start before)
        (.head' (.inr ⟨rfl, rfl⟩) (ReflTransGen.mono more stop b after))

namespace Network

variable {net : Network}

theorem acyclic_of_ranks (rank : Nat → Nat) (ranks : Ranks rank fun a b => net.Feeds b a) :
    net.Acyclic :=
  Subrelation.wf (fun {b a} feeds => ranks a b feeds) (InvImage.wf rank Nat.lt_wfRel.wf)

theorem exists_ranks (acyclic : net.Acyclic) : ∃ rank, Ranks rank fun a b => net.Feeds b a := by
  let step (n : Nat) (below : ∀ m, net.Feeds m n → Nat) : Nat :=
    ((net.fanins n).attach.map fun f => below f.1.node ⟨f.1, f.2, rfl⟩ + 1).sum
  refine ⟨acyclic.fix step, fun n m feeds => ?_⟩
  obtain ⟨f, member, rfl⟩ := feeds
  rw [acyclic.fix_eq step n]
  have term : acyclic.fix step f.node + 1 ∈
      (net.fanins n).attach.map fun f => acyclic.fix step f.1.node + 1 :=
    List.mem_map.2 ⟨⟨f, member⟩, List.mem_attach .., rfl⟩
  exact List.le_sum_of_mem term

theorem reaches_iff {a b : Nat} :
    net.Reaches a b ↔ ReflTransGen (fun a b => net.Feeds b a) a b := by
  constructor
  · intro reaches
    induction reaches with
    | refl => exact .refl
    | step _ feeds ih => exact ih.tail feeds
  · intro path
    induction path with
    | refl => exact .refl a
    | tail _ feeds ih => exact ih.step feeds

theorem Reaches.cases_head {a b : Nat} (path : net.Reaches a b) :
    a = b ∨ ∃ m, net.Feeds m a ∧ net.Reaches m b := by
  rcases (reaches_iff.1 path).cases_head with same | ⟨m, feeds, rest⟩
  · exact .inl same
  · exact .inr ⟨m, feeds, reaches_iff.2 rest⟩

theorem Reaches.antisymm {a b : Nat} (acyclic : net.Acyclic) (there : net.Reaches a b)
    (back : net.Reaches b a) : a = b := by
  obtain ⟨rank, ranks⟩ := exists_ranks acyclic
  rcases ReflTransGen.cases_head (reaches_iff.1 there) with same | ⟨m, feeds, rest⟩
  · exact same
  · have below := ranks a m feeds
    have above := ranks.le (rest.trans (reaches_iff.1 back))
    omega

theorem not_of_readers (acyclic : net.Acyclic) {holds : Nat → Prop}
    (step : ∀ n, holds n → ∃ m, net.Feeds n m ∧ holds m) (n : Nat) : ¬holds n := by
  obtain ⟨rank, ranks⟩ := exists_ranks acyclic
  -- The sum of all ranks bounds the rank of every reader.
  have bounded {m k : Nat} (feeds : net.Feeds m k) : rank k ≤ ((List.range net.size).map rank).sum := by
    have inside : k < net.size := Nat.lt_of_not_le fun outside => by
      obtain ⟨f, member, -⟩ := feeds
      rw [fanins_eq_nil_of_size_le outside] at member
      cases member
    exact List.le_sum_of_mem (List.mem_map_of_mem (List.mem_range.2 inside))
  induction h : ((List.range net.size).map rank).sum - rank n using Nat.strong_induction_on
    generalizing n with
  | _ room ih =>
    intro held
    obtain ⟨m, feeds, next⟩ := step n held
    have above := ranks m n feeds
    have top := bounded feeds
    exact ih _ (by omega) m rfl next

theorem induct_of_source (acyclic : net.Acyclic) (starts : List Nat) {found : List Nat}
    (source : ∀ m ∈ found, m ∈ starts ∨ ∃ k ∈ found, net.Feeds m k) {holds : Nat → Prop}
    (first : ∀ m ∈ found, m ∈ starts → holds m)
    (next : ∀ k ∈ found, holds k → ∀ m ∈ found, net.Feeds m k → holds m) :
    ∀ m ∈ found, holds m := by
  intro m member
  by_contra missing
  have reader : ∀ n, n ∈ found ∧ ¬holds n → ∃ k, net.Feeds n k ∧ k ∈ found ∧ ¬holds k := by
    rintro n ⟨there, fails⟩
    rcases source n there with start | ⟨k, above, feeds⟩
    · exact absurd (first n there start) fails
    · exact ⟨k, feeds, above, fun held => fails (next k above held n there feeds)⟩
  exact not_of_readers acyclic reader m ⟨member, missing⟩

/-- The number of nodes that a node is computed from ranks the nodes if none is computed from
    itself. -/
theorem acyclic_iff :
    net.Acyclic ↔ ∀ n < net.size, ∀ f ∈ net.fanins n, ¬net.Reaches f.node n := by
  constructor
  · intro acyclic n _ f member path
    obtain ⟨rank, ranks⟩ := exists_ranks acyclic
    have below := ranks n f.node ⟨f, member, rfl⟩
    have above := ranks.le (reaches_iff.1 path)
    omega
  · intro simple
    refine acyclic_of_ranks (fun n => (net.postorder [n] fun _ => false).length) ?_
    rintro n m ⟨f, member, rfl⟩
    have inside : n < net.size := Nat.lt_of_not_le fun outside => by
      rw [fanins_eq_nil_of_size_le outside] at member
      cases member
    have apart := simple n inside f member
    have listed := listed_postorder net (fun _ => false) [f.node]
    have nodup : (n :: net.postorder [f.node] fun _ => false).Nodup :=
      List.nodup_cons.2 ⟨fun there => apart (reaches_iff_mem_postorder.2 there), listed.nodup⟩
    have subset : n :: (net.postorder [f.node] fun _ => false) ⊆
        net.postorder [n] fun _ => false := by
      intro k there
      rw [← reaches_iff_mem_postorder]
      rcases List.mem_cons.1 there with rfl | there
      · exact .refl k
      · exact .head ⟨f, member, rfl⟩ (reaches_iff_mem_postorder.2 there)
    exact (nodup.subperm subset).length_le

instance : Decidable net.Acyclic := decidable_of_iff _ acyclic_iff.symm

end Network

end LogicOpt
