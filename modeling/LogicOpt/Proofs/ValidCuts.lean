import LogicOpt.Proofs.Cuts
import LogicOpt.Proofs.GreatestCones

namespace LogicOpt

open Network

variable {net : Network} {pivots : List Nat}

/-- A cut of some pivots: it holds them all and whatever its inner nodes read, the constant apart,
    and nothing that is neither a pivot nor read by an inner node. -/
structure Cut.Valid (net : Network) (pivots : List Nat) (maxLeaves maxFanout : Nat) (cut : Cut) :
    Prop where
  nodup_leaves : cut.leaves.Nodup
  nodup_interior : cut.interior.Nodup
  apart : ∀ n ∈ cut.leaves, n ∉ cut.interior
  covers : ∀ p ∈ pivots, p ∈ cut.leaves ∨ p ∈ cut.interior
  length_le : cut.leaves.length ≤ maxLeaves
  inner : ∀ n ∈ cut.interior, net.isGate n = true ∧ net.fanoutCount n ≤ maxFanout
  closed : ∀ n ∈ cut.interior, ∀ m, net.Feeds m n → m = 0 ∨ m ∈ cut.leaves ∨ m ∈ cut.interior
  origin : ∀ n, n ∈ cut.leaves ∨ n ∈ cut.interior → n ∈ pivots ∨ ∃ k ∈ cut.interior, net.Feeds n k

theorem Cutter.Growth.Sound.valid {s : Growth} {maxLeaves maxFanout : Nat}
    (sound : s.Sound net maxFanout pivots) (inPlace : net.InPlace)
    (le : s.leaves.length ≤ maxLeaves) :
    Cut.Valid net pivots maxLeaves maxFanout ⟨s.leaves, s.interior⟩ := by
  obtain ⟨leaves, interior, apart⟩ := List.nodup_append.1 sound.nodup
  have separates := sound.separates
  refine ⟨leaves, interior, fun n leaf inner => apart n leaf n inner rfl, separates.covers, le,
    fun n member => ?_, separates.closed, fun n member => sound.origin n (List.mem_append.2 member)⟩
  obtain ⟨inner, few⟩ := sound.inner n member
  obtain ⟨g, slot⟩ := inPlace.gate_of_not_source
    (sound.below n (List.mem_append_right _ member)).1 inner
  exact ⟨by simp [isGate, slot], few⟩

/-- Whoever follows fanins from a node of the cut to a source meets a leaf or the constant. -/
theorem Cut.Valid.meets {maxLeaves maxFanout : Nat} {cut : Cut}
    (valid : cut.Valid net pivots maxLeaves maxFanout) (inPlace : net.InPlace) {n q : Nat}
    {path : List Nat} (start : n = 0 ∨ n ∈ cut.leaves ∨ n ∈ cut.interior)
    (chain : (n :: path).IsChain fun k m => net.Feeds m k) (last : (n :: path).getLast? = some q)
    (source : net.isSource q = true) : ∃ m ∈ n :: path, m = 0 ∨ m ∈ cut.leaves := by
  induction path generalizing n with
  | nil =>
    obtain rfl : n = q := by simpa using last
    rcases start with zero | leaf | inner
    · exact ⟨n, by simp, .inl zero⟩
    · exact ⟨n, by simp, .inr leaf⟩
    · obtain ⟨g, slot⟩ := Option.isSome_iff_exists.1 (valid.inner n inner).1
      rw [inPlace.not_source_of_gate slot] at source
      cases source
  | cons m path ih =>
    obtain ⟨feeds, chain⟩ := List.isChain_cons_cons.1 chain
    rcases start with zero | leaf | inner
    · exact ⟨n, by simp, .inl zero⟩
    · exact ⟨n, by simp, .inr leaf⟩
    · obtain ⟨k, member, met⟩ := ih (valid.closed n inner m feeds) chain (by simpa using last)
      exact ⟨k, List.mem_cons_of_mem _ member, met⟩

/-- Whatever the cutter was used for before, a run on slots either finds that there are more distinct
    pivots than leaves are allowed, or its loop ends by itself with a valid cut, and every path from a
    pivot to a source meets a leaf or the constant. -/
theorem valid_run (c : Cutter) (inPlace : net.InPlace) (room : c.maxLeaves < Cutter.capacityLimit)
    (inside : ∀ p ∈ pivots, p < net.size) :
    ∃ result marks, c.run net pivots = .ok (result, { c with marks }) ∧
      (result = .error (.cutOverflow pivots.eraseDups.length c.maxLeaves) ↔
        c.maxLeaves < pivots.eraseDups.length) ∧
      (pivots.eraseDups.length ≤ c.maxLeaves → ∃ cut first, result = .ok cut ∧
        Cutter.Ends net c.maxLeaves c.maxFanout ⟨first, pivots.eraseDups, []⟩
          ⟨marks, cut.leaves, cut.interior⟩ ∧
        cut.Valid net pivots c.maxLeaves c.maxFanout ∧
        ∀ p ∈ pivots, ∀ path q, (p :: path).IsChain (fun k m => net.Feeds m k) →
          (p :: path).getLast? = some q → net.isSource q = true →
          ∃ m ∈ p :: path, m = 0 ∨ m ∈ cut.leaves) := by
  obtain ⟨⟨marks, _, _⟩, sound, rfl, rfl, outcome⟩ := Cutter.exists_growth c inPlace room inside
  split at outcome
  · rename_i many
    exact ⟨_, marks, outcome, by simp [many], fun few => absurd many (Nat.not_lt_of_le few)⟩
  · rename_i few
    obtain ⟨last, ends, run⟩ := outcome
    obtain ⟨grown, le⟩ := sound.of_ends inPlace (Nat.le_of_not_lt few) ends
    have valid := grown.valid inPlace le
    refine ⟨_, last.marks, run, by simp [few], fun _ => ⟨_, marks, rfl, ends, valid, ?_⟩⟩
    intro p member path q chain ended source
    exact valid.meets inPlace (.inr (valid.covers p member)) chain ended source

/-- Pivot 8 is a fanin of pivot 10, which is one twice; gate 5 and inputs 3 and 4 are each read by two
    gates. The cutter was used before. -/
theorem valid_of_reconvergence : ∃ stages net c cut c',
    Completed (empty "cuts") (reconvergent [20]) stages net ∧
    (∃ first, (Cutter.ofLimits 4 2).run net [9, 7] = .ok (.ok first, c)) ∧
    c.run net [10, 8, 10] = .ok (.ok cut, c') ∧ cut = ⟨[3, 4, 1, 2], [10, 8, 6, 7, 9, 5]⟩ ∧
    cut.Valid net [10, 8, 10] 4 2 := by
  obtain ⟨stages, net, history, checks⟩ := Command.exists_completed (reconvergent [20]) (empty "cuts")
    (fun _ net => net.size == 11 && match (Cutter.ofLimits 4 2).run net [9, 7] with
      | .ok (.ok _, c) => c.maxLeaves == 4 && c.maxFanout == 2 && match c.run net [10, 8, 10] with
        | .ok (.ok cut, _) => cut == ⟨[3, 4, 1, 2], [10, 8, 6, 7, 9, 5]⟩
        | _ => false
      | _ => false)
    (by decide +kernel)
  have inPlace := (history.consistent (consistent_empty "cuts")).1.inPlace
  simp only [Bool.and_eq_true, beq_iff_eq] at checks
  obtain ⟨size, checks⟩ := checks
  split at checks
  · rename_i first c before
    simp only [Bool.and_eq_true, beq_iff_eq] at checks
    obtain ⟨⟨maxLeaves, maxFanout⟩, checks⟩ := checks
    split at checks
    · rename_i cut c' run
      have room : c.maxLeaves < Cutter.capacityLimit := by
        rw [maxLeaves]
        decide
      have inside : ∀ p ∈ [10, 8, 10], p < net.size := by simp [size]
      obtain ⟨_, _, again, -, grown⟩ := valid_run c inPlace room inside
      obtain ⟨cut', -, rfl, -, valid, -⟩ := grown (by rw [maxLeaves]; decide)
      rw [run] at again
      cases again
      rw [maxLeaves, maxFanout] at valid
      exact ⟨stages, net, c, cut, _, history, ⟨first, before⟩, run, beq_iff_eq.1 checks, valid⟩
    · cases checks
  · cases checks

end LogicOpt
