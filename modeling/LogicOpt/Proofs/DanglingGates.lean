import LogicOpt.Proofs.Histories
import LogicOpt.Proofs.PassRuns

namespace LogicOpt

open Network

variable {net net' : Network} {solve : Solver}

theorem Installed.dangling {a : Accepted} {met : List Encounter}
    (installed : Installed a net met net') (before : net.Consistent) {m : Nat}
    (dangling : net'.Dangling m) : net.Dangling m ∨ ∃ e ∈ met, m ∈ e.revives := by
  cases installed with
  | kept length inserted output same =>
    obtain ⟨early, old⟩ := (removeUnusedFrom_spec (inserted.consistent before) _).2 m dangling
    exact .inl ((inserted.dangling early).resolve_right (Nat.not_le_of_lt old))
  | replaced length inserted output differ substituted =>
    have consistent := inserted.consistent before
    obtain ⟨after, -⟩ := Edit.substituteNode_consistent consistent substituted
    obtain ⟨early, old⟩ := (removeUnusedFrom_spec after _).2 m dangling
    rcases Edit.substituteNode_dangling consistent substituted early with early | fresh | back
    · exact .inl ((inserted.dangling early).resolve_right (Nat.not_le_of_lt old))
    · have := inserted.size_le
      omega
    · exact .inr back

theorem Worked.dangling {params : Params} {f : Resynthesizer} {callback : Callback} {root : Nat}
    {met : List Encounter} (worked : Worked params f callback root net met net')
    (before : net.Consistent) {m : Nat} (dangling : net'.Dangling m) :
    net.Dangling m ∨ ∃ e ∈ met, m ∈ e.revives := by
  cases worked with
  | passed => exact .inl dangling
  | installed substituting live same window chosen change => exact change.dangling before dangling

/-- A pass leaves no gate without readers exactly if it leaves none among those that came back for
    a dead target. -/
theorem noDangling_resubstitute {params : Params} {f : Resynthesizer} {callback : Callback}
    {resyn : ResynStats} {stats : PassStats} (valid : net.WellFormed) (full : net.NoDangling)
    (run : Edit.Gives (Edit.resubstituteWith solve params f callback resyn) net (.ok stats) net') :
    net'.NoDangling ↔
      ∀ e ∈ Edit.passEncounters solve params f callback resyn net,
        ∀ n ∈ e.revives, ¬net'.Dangling n := by
  have start := noDangling_iff.1 full
  obtain ⟨-, known⟩ := Edit.resubstitute_invariant
    (fun current => ∀ m, current.Dangling m →
      ∃ e ∈ Edit.passEncounters solve params f callback resyn net, m ∈ e.revives)
    (· ∈ Edit.passVisits solve params f callback resyn net)
    (fun _ _ _ known => known)
    (fun consistent known worked visited m dangling => by
      rcases worked.dangling consistent dangling with before | ⟨e, member, back⟩
      · exact known m before
      · exact ⟨e, List.mem_flatMap.2 ⟨_, visited, member⟩, back⟩)
    (wellFormed_iff.1 valid).1 (fun m dangling => absurd dangling (start m))
    (fun v member => member) run
  rw [noDangling_iff]
  constructor
  · exact fun none e _ n _ => none n
  · intro none m dangling
    obtain ⟨e, member, back⟩ := known m dangling
    exact none e member m back dangling

/-- The second gate repeats the first, and the pass replaces it. -/
theorem noDangling_of_repeated : ∃ stages net stats net',
    Completed (empty "repeated") (Command.load 2 [(.and2, [2, 4]), (.and2, [2, 6])] [6, 8]) stages net ∧
      net.WellFormed ∧ net.NoDangling ∧
      Edit.Gives (Edit.resubstituteWith .search .default Basis.div0.resynthesizer .substitute .zero) net
        (.ok stats) net' ∧
      stats.numResub = 1 ∧ net'.NoDangling := by
  obtain ⟨stages, net, history, checks⟩ := Command.exists_completed
    (Command.load 2 [(.and2, [2, 4]), (.and2, [2, 6])] [6, 8]) (empty "repeated")
    (fun _ net => decide net.Acyclic && decide net.NoDangling &&
      (Edit.passEncounters .search .default Basis.div0.resynthesizer .substitute .zero net).all
        (·.revives.isEmpty) &&
      Edit.passes .search .default Basis.div0.resynthesizer .substitute
        (fun stats _ => stats.numResub == 1) net) (by decide +kernel)
  simp only [Bool.and_eq_true, decide_eq_true_eq, List.all_eq_true, List.isEmpty_iff] at checks
  obtain ⟨⟨⟨acyclic, full⟩, none⟩, passed⟩ := checks
  obtain ⟨stats, net', run, replaced⟩ := Edit.exists_run passed
  have valid : net.WellFormed :=
    wellFormed_iff.2 ⟨(history.consistent (consistent_empty _)).1, acyclic⟩
  refine ⟨stages, net, stats, net', history, valid, full, run, by simpa using replaced,
    (noDangling_resubstitute valid full run).2 fun e member n back => ?_⟩
  rw [none e member] at back
  cases back

/-- Five inputs, six gates and two substitutions, which leave a dead cone behind. -/
def abandoned : List Command :=
  Command.load 5
    [(.and2, [2, 4]), (.and2, [10, 4]), (.and2, [14, 12]), (.maj3, [8, 16, 2]), (.and2, [3, 7]),
     (.and2, [2, 21])]
    [18] ++
  [.substitute 4 (.ofLiteral 22), .substitute 5 (.ofLiteral 22)]

/-- Gate 6 comes back for a dead target, and is still there at the end. -/
theorem dangling_of_abandoned : ∃ stages net stats net',
    Completed (empty "abandoned") abandoned stages net ∧ net.WellFormed ∧ net.NoDangling ∧
      Edit.Gives
        (Edit.resubstituteWith .search { Params.default with maxPis := 2 } Basis.div0.resynthesizer
          .substitute .zero) net (.ok stats) net' ∧ net'.Dangling 6 := by
  obtain ⟨stages, net, history, checks⟩ := Command.exists_completed abandoned (empty "abandoned")
    (fun _ net => decide net.Acyclic && decide net.NoDangling &&
      Edit.passes .search { Params.default with maxPis := 2 } Basis.div0.resynthesizer .substitute
        (fun _ net' => net'.isLiveGate 6 && net'.fanoutCount 6 == 0) net) (by decide +kernel)
  simp only [Bool.and_eq_true, decide_eq_true_eq] at checks
  obtain ⟨⟨acyclic, full⟩, passed⟩ := checks
  obtain ⟨stats, net', run, left⟩ := Edit.exists_run passed
  have valid : net.WellFormed :=
    wellFormed_iff.2 ⟨(history.consistent (consistent_empty _)).1, acyclic⟩
  exact ⟨stages, net, stats, net', history, valid, full, run, by simpa [Dangling] using left⟩

end LogicOpt
