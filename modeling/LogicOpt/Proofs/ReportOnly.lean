import LogicOpt.Proofs.AcceptedCandidates
import LogicOpt.Proofs.Searches
import LogicOpt.Proofs.Validation
import LogicOpt.Proofs.WindowRuns

namespace LogicOpt

open Network

variable {net : Network} {params : Params}

/-- The search in a window comes to an end whatever the solver answers: what it finds has few gates,
    and a refuted candidate leads to an attempt on a larger care set or to none. -/
theorem RootWindow.exists_search {w : RootWindow} {cone : List Nat} (solve : Solver) (basis : Basis)
    (trials : Nat) (care : Table w.leaves.length) (s : PassState) (counted : net.Counted)
    (acyclic : net.Acyclic) (slot : w.root < net.size) (window : Windowed params net w cone) :
    ∃ answer s', w.search solve net params basis.resynthesizer trials care s = .ok (answer, s') ∧
      s'.cutter = s.cutter := by
  induction trials generalizing care s with
  | zero => exact ⟨none, s, rfl, rfl⟩
  | succ trials ih =>
    obtain ⟨found, stats, searched, -, solved⟩ :=
      (w.problem care).exists_resynthesize basis (w.maxInserts params) s.resyn
    have answered : basis.resynthesizer.search (w.problem care) (w.maxInserts params) s.resyn =
        .ok (found, stats) := searched
    rw [search, answered]
    cases found with
    | none => exact ⟨none, _, rfl, rfl⟩
    | some c =>
      have solved := solved c rfl
      have small := solved.numGates
      by_cases validated : params.validateCandidates = true
      · have inside : ∀ n ∈ w.root :: w.divisors, n < net.size := by
          rw [List.forall_mem_cons]
          exact ⟨slot, window.divisors_inside counted acyclic⟩
        have length : w.divisors.length = c.numDivisors := by
          obtain ⟨_, -, -, -, length⟩ := window.simulated
          rw [solved.numDivisors]
          exact length.symm
        obtain ⟨verdict, checked⟩ :=
          exists_validateWith solve params.maxClauses acyclic inside length solved.closed
        cases verdict with
        | equivalent =>
          exact ⟨some (w.accept c), { s with resyn := stats },
            by simp [bind, Except.bind, ensure, small, validated, checked, pure, Except.pure], rfl⟩
        | unknown =>
          exact ⟨none, { s with resyn := stats }.count .undecided,
            by simp [bind, Except.bind, ensure, small, validated, checked, pure, Except.pure], rfl⟩
        | counterexample inputs =>
          obtain ⟨value, fits, same⟩ := exists_valuation_of_inputs counted.inPlace acyclic
            (length_of_counterexample checked)
          obtain ⟨values, simulated, -⟩ := simulateValues_of_fits counted.inPlace acyclic fits
          rw [same] at simulated
          let rejected := { s with resyn := stats }.count .reject
          let grown := care ||| BitVec.twoPow _ (w.minterm values)
          by_cases known : care.getLsbD (w.minterm values) = true
          · exact ⟨none, rejected, by simp [bind, Except.bind, ensure, small, validated, checked,
              simulated, known, pure, Except.pure, rejected], rfl⟩
          · obtain ⟨answer, s', run, kept⟩ := ih grown rejected
            exact ⟨answer, s', by simpa [bind, Except.bind, ensure, small, validated, checked,
              simulated, known, rejected, grown] using run, kept⟩
      · exact ⟨some (w.accept c), { s with resyn := stats },
          by simp [bind, Except.bind, ensure, small, validated, pure, Except.pure], rfl⟩

namespace Edit

theorem exists_evaluateRoot (solve : Solver) (basis : Basis) (s : PassState) {root : Nat}
    (orderly : net.Orderly) (acyclic : net.Acyclic) (live : net.isLiveGate root = true)
    (valid : params.validate = .ok ()) (limit : s.cutter.maxLeaves = params.maxPis) :
    ∃ answer s', Gives (evaluateRoot solve params basis.resynthesizer s root) net (answer, s') net ∧
      s'.cutter.maxLeaves = params.maxPis := by
  obtain ⟨found, middle, built, kept⟩ := exists_buildWindow orderly acyclic live valid limit
  obtain ⟨-, known⟩ := buildWindow_gives orderly live built
  simp only [evaluateRoot, gives_bind]
  cases found with
  | none => exact ⟨none, middle, ⟨_, _, built, gives_pure.2 ⟨rfl, rfl⟩⟩, kept⟩
  | some w =>
    obtain ⟨rfl, cone, window⟩ := known w rfl
    obtain ⟨answer, s', searched, same⟩ := w.exists_search solve basis (RootWindow.trials params)
      w.care middle orderly.toCounted acyclic (lt_of_isLiveGate live) window
    exact ⟨answer, s', ⟨_, _, built, gives_check.2 ⟨searched, rfl⟩⟩, by rw [same, kept]⟩

theorem exists_visitRoot (solve : Solver) (basis : Basis) (s : PassState) (root : Nat)
    (orderly : net.Orderly) (acyclic : net.Acyclic) (valid : params.validate = .ok ())
    (limit : s.cutter.maxLeaves = params.maxPis) :
    ∃ s', Gives (visitRoot solve params basis.resynthesizer .reportOnly s root) net s' net ∧
      s'.cutter.maxLeaves = params.maxPis := by
  simp only [visitRoot, gives_get_bind, gives_ite, gives_pure]
  by_cases live : net.isLiveGate root = true
  · by_cases busy : net.fanoutCount root > params.skipFanoutLimitForRoots
    · exact ⟨_, .inr ⟨by simp [live], .inl ⟨busy, rfl, trivial⟩⟩, limit⟩
    · obtain ⟨answer, middle, evaluated, kept⟩ := exists_evaluateRoot solve basis
        (s.count .visit) orderly acyclic live valid limit
      cases answer with
      | none =>
        refine ⟨middle, .inr ⟨by simp [live], .inr ⟨busy, ?_⟩⟩, kept⟩
        exact gives_bind.2 ⟨_, _, evaluated, gives_pure.2 ⟨rfl, rfl⟩⟩
      | some a =>
        refine ⟨middle.count (·.resub (a.gain - a.candidate.numGates)),
          .inr ⟨by simp [live], .inr ⟨busy, ?_⟩⟩, kept⟩
        exact gives_bind.2 ⟨_, _, evaluated, gives_pure.2 ⟨rfl, rfl⟩⟩
  · exact ⟨s, .inl ⟨by simp [live], rfl, trivial⟩, limit⟩

theorem exists_visits (solve : Solver) (basis : Basis) (s : PassState) (roots : List Nat)
    (orderly : net.Orderly) (acyclic : net.Acyclic) (valid : params.validate = .ok ())
    (limit : s.cutter.maxLeaves = params.maxPis) :
    ∃ s', Gives (roots.foldlM (visitRoot solve params basis.resynthesizer .reportOnly) s)
      net s' net := by
  induction roots generalizing s with
  | nil => exact ⟨s, gives_pure.2 ⟨rfl, rfl⟩⟩
  | cons root rest ih =>
    obtain ⟨middle, head, kept⟩ := exists_visitRoot solve basis s root orderly acyclic valid limit
    obtain ⟨s', tail⟩ := ih middle kept
    exact ⟨s', gives_bind.2 ⟨_, _, head, tail⟩⟩

theorem withSubscription_unchanged {α : Type} {reaction : Reaction} {body : Edit α} {a : α}
    {id : Nat} {start : Network} (inPlace : net.InPlace)
    (opened : Gives (subscribe reaction false) net id start) (ran : Gives body start a start) :
    Gives (withSubscription reaction body) net a
      { net with nextSubscription := net.nextSubscription + 1 } := by
  refine withSubscription_gives.2 ⟨id, start, start, opened, ran, ?_⟩
  obtain ⟨rfl, rfl⟩ := subscribe_gives.1 opened
  refine ⟨by simp, ?_⟩
  have older : net.subscriptions.filter (·.id != net.nextSubscription) = net.subscriptions :=
    List.filter_eq_self.2 fun s member => by
      have := inPlace.subscription_lt s member
      simp only [bne_iff_ne]
      omega
  simp [older]

end Edit

/-- On a network built by the operations that passes the check, has no cycles and stores its gates in
    canonical form, a pass that only reports completes under all options that fit together and
    leaves everything as it is but the number of the next subscription. Options that do not fit
    together are refused, and nothing changes. -/
theorem unchanged_resubstitute (solve : Solver) (params : Params) (basis : Basis) (resyn : ResynStats)
    (inPlace : net.InPlace) (integrity : net.integrityIssue? = none) (acyclic : net.Acyclic)
    (canonical : net.CanonicalGates) :
    (params.validate = .ok () → ∃ stats,
      Edit.Gives (Edit.resubstituteWith solve params basis.resynthesizer .reportOnly resyn) net
        (.ok stats) { net with nextSubscription := net.nextSubscription + 1 }) ∧
    ∀ e, params.validate = .error e →
      (∃ issue, params.issue? = some issue ∧ e = .invalidParams issue.text) ∧
      ∀ callback,
        Edit.Gives (Edit.resubstituteWith solve params basis.resynthesizer callback resyn) net
          (.error e) net := by
  constructor
  · intro valid
    have orderly := orderly_of_integrity inPlace canonical integrity
    -- The roots are visited with one subscription more, which no event ever reaches.
    obtain ⟨id, start, opened⟩ : ∃ id start,
        Edit.Gives (Edit.subscribe passReaction false) net id start :=
      ⟨_, _, Edit.subscribe_gives.2 ⟨rfl, rfl⟩⟩
    have cycleFree : start.Acyclic := by
      rw [(Edit.subscribe_gives.1 opened).2]
      exact acyclic
    obtain ⟨s, visited⟩ := Edit.exists_visits solve basis (.start params resyn) (List.range net.size)
      (Edit.subscribe_orderly orderly opened) cycleFree valid rfl
    exact ⟨_, Edit.resubstitute_gives_iff.2
      ⟨valid, s, Edit.withSubscription_unchanged inPlace opened visited, rfl⟩⟩
  · intro e refused
    refine ⟨?_, fun callback => ?_⟩
    · unfold Params.validate at refused
      split at refused
      · rename_i issue found
        cases refused
        exact ⟨issue, found, rfl⟩
      · cases refused
    · unfold Edit.resubstituteWith
      rw [refused]
      exact Edit.gives_pure.2 ⟨rfl, rfl⟩

/-- Among three conjunctions a candidate is reported, and nothing is replaced; no leaf at all is too
    few. -/
theorem unchanged_of_conjunctions : ∃ stages net stats,
    Completed (empty "conjunctions")
        (Command.load 2 [(.and2, [2, 5]), (.and2, [3, 4]), (.and2, [7, 9])] [11]) stages net ∧
      net.WellFormed ∧ stats.numResub = 1 ∧
      Edit.Gives (Edit.resubstituteWith .search .default Basis.xag.resynthesizer .reportOnly .zero) net
        (.ok stats) { net with nextSubscription := net.nextSubscription + 1 } ∧
      ∀ callback, Edit.Gives (Edit.resubstituteWith .search { Params.default with maxPis := 0 }
        Basis.xag.resynthesizer callback .zero) net
          (.error (.invalidParams "max_pis must be at least 1")) net := by
  obtain ⟨stages, net, history, checks⟩ := Command.exists_completed
    (Command.load 2 [(.and2, [2, 5]), (.and2, [3, 4]), (.and2, [7, 9])] [11])
    (empty "conjunctions")
    (fun _ net => decide net.Acyclic &&
      Edit.passes .search .default Basis.xag.resynthesizer .reportOnly
        (fun stats _ => stats.numResub == 1)
        net)
    (by decide +kernel)
  simp only [Bool.and_eq_true, decide_eq_true_eq] at checks
  obtain ⟨acyclic, passed⟩ := checks
  obtain ⟨stats, net', run, counted⟩ := Edit.exists_run passed
  have valid := history.wellFormed acyclic
  have unchanged (params : Params) := unchanged_resubstitute .search params .xag .zero valid.inPlace
    valid.integrity valid.acyclic valid.canonical
  obtain ⟨again, reported⟩ := (unchanged .default).1 rfl
  obtain ⟨same, rfl⟩ := run.unique reported
  cases same
  refine ⟨stages, net, stats, history, valid, beq_iff_eq.1 counted, reported, ?_⟩
  exact ((unchanged { Params.default with maxPis := 0 }).2 _ rfl).2

end LogicOpt
