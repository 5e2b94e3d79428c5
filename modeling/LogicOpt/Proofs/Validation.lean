import LogicOpt.Proofs.Histories
import LogicOpt.Proofs.PassFunction
import LogicOpt.Proofs.Verdicts

namespace LogicOpt

open Network

/-- The same options without proofs of candidates. -/
def Params.unvalidated (params : Params) : Params := { params with validateCandidates := false }

/-- From `before` to `after` nothing was refuted, and if nothing was left undecided either, the
    computation without validation is the same. -/
structure Unnoticed (before after : PassStats) (same : Prop) : Prop where
  rejected : after.numRejectedByValidator = before.numRejectedByValidator
  unknown : before.numValidatorUnknown ≤ after.numValidatorUnknown
  same : after.numValidatorUnknown = before.numValidatorUnknown → same

namespace Unnoticed

variable {before mid after : PassStats} {first second both : Prop}

theorem of_eq (rejected : after.numRejectedByValidator = before.numRejectedByValidator)
    (unknown : after.numValidatorUnknown = before.numValidatorUnknown) (holds : both) :
    Unnoticed before after both :=
  ⟨rejected, Nat.le_of_eq unknown.symm, fun _ => holds⟩

theorem trans (head : Unnoticed before mid first) (tail : Unnoticed mid after second)
    (compose : first → second → both) : Unnoticed before after both where
  rejected := tail.rejected.trans head.rejected
  unknown := Nat.le_trans head.unknown tail.unknown
  same := fun none => by
    have left := head.unknown
    have right := tail.unknown
    exact compose (head.same (by omega)) (tail.same (by omega))

end Unnoticed

variable {net net' : Network} {solve : Solver} {params : Params} {basis : Basis}

theorem RootWindow.validateWith_eq_ok {w : RootWindow} {cone : List Nat} {c : Candidate}
    {stats stats' : ResynStats} {verdict : Verdict} (decides : solve.Decides)
    (counted : net.Counted)
    (evaluable : net.Evaluable) (window : Windowed params net w cone)
    (small : c.numGates ≤ w.maxInserts params)
    (answered : basis.resynthesizer.search (w.problem w.care) (w.maxInserts params) stats =
      .ok (some c, stats'))
    (checked : net.validateWith solve params.maxClauses w.root w.divisors c = .ok verdict) :
    verdict = .equivalent ∨ verdict = .unknown := by
  have chosen : Chosen params basis.resynthesizer w (w.accept c) :=
    .found rfl small (fun _ => id) answered
  have sound : ∀ value, net.Fits value →
      c.evaluate false (w.divisors.map value) = .ok (value w.root) :=
    fun value fits => chosen.sound window counted fits
  exact Network.validateWith_eq_ok counted.inPlace evaluable decides sound checked

theorem RootWindow.search_unnoticed {w : RootWindow} {cone : List Nat} {s s' : PassState}
    {answer : Option Accepted} (decides : solve.Decides)
    (validated : params.validateCandidates = true) (consistent : net.Consistent)
    (evaluable : net.Evaluable) (window : Windowed params net w cone)
    (run : w.search solve net params basis.resynthesizer (trials params) w.care s = .ok (answer, s')) :
    Unnoticed s.stats s'.stats (w.search solve net params.unvalidated basis.resynthesizer
      (trials params.unvalidated) w.care s = .ok (answer, s')) := by
  obtain ⟨more, positive⟩ := exists_trials params
  have once : trials params.unvalidated = 1 := rfl
  rw [positive] at run
  rw [once]
  simp only [search, bind_eq_ok] at run ⊢
  obtain ⟨⟨found, stats⟩, answered, run⟩ := run
  cases found with
  | none =>
    cases run
    exact .of_eq rfl rfl ⟨_, answered, rfl⟩
  | some c =>
    simp only [bind_eq_ok, ensure_eq_ok, decide_eq_true_eq, validated, Bool.not_true,
      Bool.false_eq_true, ↓reduceIte] at run
    obtain ⟨_, small, verdict, checked, run⟩ := run
    rcases validateWith_eq_ok decides consistent.toCounted evaluable window small answered checked
      with rfl | rfl
    · cases run
      refine .of_eq rfl rfl ⟨_, answered, ?_⟩
      simp only [bind_eq_ok, ensure_eq_ok, decide_eq_true_eq]
      exact ⟨(), small, rfl⟩
    · cases run
      exact ⟨rfl, Nat.le_succ _, fun same => absurd same (Nat.succ_ne_self _)⟩

theorem Worked.evaluable {callback : Callback} {root : Nat} {met : List Encounter}
    (worked : Worked params basis.resynthesizer callback root net met net')
    (consistent : net.Consistent) (evaluable : net.Evaluable) : net'.Evaluable := by
  intro input
  obtain ⟨value, valuation⟩ := evaluable input
  obtain ⟨value', refined⟩ := worked.refined consistent valuation.fits
  have after := worked.consistent consistent
  exact ⟨value', refined.valuation consistent.inPlace after.inPlace valuation⟩

namespace Edit

theorem applyCandidate_unproved {callback : Callback} {a : Accepted} {s s' : PassState}
    (run : Gives (applyCandidate callback a s) net s' net') :
    s'.stats.numRejectedByValidator = s.stats.numRejectedByValidator ∧
      s'.stats.numValidatorUnknown = s.stats.numValidatorUnknown := by
  cases callback with
  | reportOnly =>
    cases (gives_pure.1 run).1
    exact ⟨rfl, rfl⟩
  | substitute =>
    simp only [applyCandidate, install, gives_bind, gives_get, gives_ite, gives_update,
      gives_pure] at run
    obtain ⟨_, _, -, _, _, -, ⟨-, _, _, -, rfl, -⟩ | ⟨-, _, _, -, _, _, -, rfl, -⟩⟩ := run
    · exact ⟨rfl, rfl⟩
    · exact ⟨rfl, rfl⟩

theorem buildWindow_unproved {s s' : PassState} {root : Nat} {answer : Option RootWindow}
    (run : Gives (buildWindow params s root) net (answer, s') net') :
    s'.stats.numRejectedByValidator = s.stats.numRejectedByValidator ∧
      s'.stats.numValidatorUnknown = s.stats.numValidatorUnknown := by
  simp only [buildWindow, findDivisors, gives_bind, gives_check] at run
  obtain ⟨⟨found, middle⟩, _, ⟨⟨cut, cutter⟩, _, ⟨-, rfl⟩, searched⟩, run⟩ := run
  have kept : middle.stats.numRejectedByValidator = s.stats.numRejectedByValidator ∧
      middle.stats.numValidatorUnknown = s.stats.numValidatorUnknown := by
    cases cut with
    | error cause =>
      cases (gives_pure.1 searched).1
      exact ⟨rfl, rfl⟩
    | ok cut =>
      simp only [gives_ite, gives_pure, gives_bind, gives_check] at searched
      obtain ⟨-, same, -⟩ | ⟨-, _, _, -, ⟨-, same, -⟩ | ⟨-, ⟨pool, finder⟩, _, -, searched⟩⟩ :=
        searched
      · cases same
        exact ⟨rfl, rfl⟩
      · cases same
        exact ⟨rfl, rfl⟩
      · cases pool <;> cases (gives_pure.1 searched).1 <;> exact ⟨rfl, rfl⟩
  cases found with
  | none =>
    cases (gives_pure.1 run).1
    exact kept
  | some found =>
    obtain ⟨window, _, -, run⟩ := gives_bind.1 run
    cases (gives_pure.1 run).1
    exact kept

theorem evaluateRoot_unnoticed {s s' : PassState} {root : Nat} {answer : Option Accepted}
    (decides : solve.Decides) (validated : params.validateCandidates = true)
    (consistent : net.Consistent) (evaluable : net.Evaluable) (live : net.isLiveGate root = true)
    (run : Gives (evaluateRoot solve params basis.resynthesizer s root) net (answer, s') net') :
    Unnoticed s.stats s'.stats
      (Gives (evaluateRoot solve params.unvalidated basis.resynthesizer s root) net
        (answer, s') net') := by
  simp only [evaluateRoot, gives_bind] at run ⊢
  obtain ⟨⟨found, middle⟩, mid, built, run⟩ := run
  obtain ⟨rejected, unknown⟩ := buildWindow_unproved built
  have again : Gives (buildWindow params.unvalidated s root) net (found, middle) mid := built
  obtain ⟨rfl, known⟩ := buildWindow_gives consistent.toOrderly live built
  cases found with
  | none =>
    cases (gives_pure.1 run).1
    exact .of_eq rejected unknown ⟨_, _, again, run⟩
  | some w =>
    simp only [gives_check] at run
    obtain ⟨searched, rfl⟩ := run
    obtain ⟨-, cone, window⟩ := known w rfl
    have step := w.search_unnoticed decides validated consistent evaluable window searched
    refine Unnoticed.trans (.of_eq rejected unknown again) step fun built alike => ?_
    exact ⟨_, _, built, gives_check.2 ⟨alike, rfl⟩⟩

theorem visitRoot_unnoticed {callback : Callback} {s s' : PassState} {root : Nat}
    (decides : solve.Decides) (validated : params.validateCandidates = true)
    (consistent : net.Consistent) (evaluable : net.Evaluable)
    (run : Gives (visitRoot solve params basis.resynthesizer callback s root) net s' net') :
    Unnoticed s.stats s'.stats
      (Gives (visitRoot solve params.unvalidated basis.resynthesizer callback s root) net s' net') := by
  simp only [visitRoot, gives_bind, gives_get, gives_ite, gives_pure] at run ⊢
  obtain ⟨_, _, ⟨rfl, rfl⟩, run⟩ := run
  rcases run with ⟨idle, rfl, rfl⟩ |
    ⟨live, ⟨busy, rfl, rfl⟩ | ⟨calm, ⟨answer, middle⟩, mid, evaluated, run⟩⟩
  · exact .of_eq rfl rfl ⟨_, _, ⟨rfl, rfl⟩, .inl ⟨idle, rfl, rfl⟩⟩
  · exact .of_eq rfl rfl ⟨_, _, ⟨rfl, rfl⟩, .inr ⟨live, .inl ⟨busy, rfl, rfl⟩⟩⟩
  · have counted : Unnoticed s.stats (s.count .visit).stats True := .of_eq rfl rfl trivial
    have step := evaluateRoot_unnoticed decides validated consistent evaluable
      (by simpa using live) evaluated
    have kept : s'.stats.numRejectedByValidator = middle.stats.numRejectedByValidator ∧
        s'.stats.numValidatorUnknown = middle.stats.numValidatorUnknown := by
      cases answer with
      | none =>
        cases (gives_pure.1 run).1
        exact ⟨rfl, rfl⟩
      | some a => exact applyCandidate_unproved run
    refine (counted.trans step fun _ => id).trans (.of_eq kept.1 kept.2 run) fun evaluated run => ?_
    exact ⟨_, _, ⟨rfl, rfl⟩, .inr ⟨live, .inr ⟨calm, _, _, evaluated, run⟩⟩⟩

theorem visits_unnoticed {callback : Callback} {roots : List Nat} {s s' : PassState}
    (decides : solve.Decides) (validated : params.validateCandidates = true)
    (consistent : net.Consistent) (evaluable : net.Evaluable)
    (run : Gives (roots.foldlM (visitRoot solve params basis.resynthesizer callback) s) net s' net') :
    Unnoticed s.stats s'.stats
      (Gives (roots.foldlM (visitRoot solve params.unvalidated basis.resynthesizer callback) s) net s'
        net') := by
  induction roots generalizing s net with
  | nil =>
    obtain ⟨rfl, rfl⟩ := gives_pure.1 run
    exact .of_eq rfl rfl run
  | cons root rest ih =>
    simp only [List.foldlM_cons, gives_bind] at run ⊢
    obtain ⟨mid, middle, head, tail⟩ := run
    have worked := visitRoot_gives consistent head
    have first := visitRoot_unnoticed decides validated consistent evaluable head
    have rest := ih (worked.consistent consistent) (worked.evaluable consistent evaluable) tail
    exact first.trans rest fun head tail => ⟨_, _, head, tail⟩

end Edit

/-- A pass that asks a sound and complete solver refutes nothing. If it leaves nothing undecided
    either, the pass without validation leaves the same network and the same statistics. -/
theorem unnoticed_resubstitute {callback : Callback} {resyn : ResynStats} {stats : PassStats}
    (decides : solve.Decides) (valid : net.WellFormed)
    (validated : params.validateCandidates = true)
    (run : Edit.Gives (Edit.resubstituteWith solve params basis.resynthesizer callback resyn) net
      (.ok stats) net') :
    stats.numRejectedByValidator = 0 ∧
      (stats.numValidatorUnknown = 0 →
        Edit.Gives (Edit.resubstituteWith solve { params with validateCandidates := false }
          basis.resynthesizer callback resyn) net (.ok stats) net') := by
  obtain ⟨consistent, acyclic⟩ := wellFormed_iff.1 valid
  obtain ⟨accepted, s, ran, rfl⟩ := Edit.resubstitute_gives_iff.1 run
  obtain ⟨id, start, last, opened, visited, known, rfl⟩ := Edit.withSubscription_gives.1 ran
  have subscribed := Edit.subscribe_consistent consistent opened
  have evaluable : start.Evaluable := by
    rw [(Edit.subscribe_gives.1 opened).2]
    intro input
    obtain ⟨value, valuation⟩ := exists_valuation acyclic consistent.inPlace input
    exact ⟨value, valuation.constant, valuation.input, valuation.gate⟩
  have unnoticed := Edit.visits_unnoticed decides validated subscribed evaluable visited
  refine ⟨unnoticed.rejected, fun none => Edit.resubstitute_gives_iff.2 ⟨accepted, s, ?_, rfl⟩⟩
  exact Edit.withSubscription_gives.2 ⟨id, start, last, opened, unnoticed.same none, known, rfl⟩

/-- Three conjunctions give way to one exclusive disjunction, with a proof and without one. -/
theorem unnoticed_of_conjunctions : Solver.search.Decides ∧ ∃ stages net stats net',
    Completed (empty "conjunctions")
        (Command.load 2 [(.and2, [2, 5]), (.and2, [3, 4]), (.and2, [7, 9])] [11]) stages net ∧
      net.WellFormed ∧
      Edit.Gives (Edit.resubstituteWith .search { Params.default with validateCandidates := true }
        Basis.xag.resynthesizer .substitute .zero) net (.ok stats) net' ∧
      stats.numResub = 1 ∧ stats.numRejectedByValidator = 0 ∧
      Edit.Gives (Edit.resubstituteWith .search .default Basis.xag.resynthesizer .substitute .zero) net
        (.ok stats) net' := by
  obtain ⟨stages, net, history, checks⟩ := Command.exists_completed
    (Command.load 2 [(.and2, [2, 5]), (.and2, [3, 4]), (.and2, [7, 9])] [11])
    (empty "conjunctions")
    (fun _ net => decide net.Acyclic &&
      Edit.passes .search { Params.default with validateCandidates := true } Basis.xag.resynthesizer
        .substitute (fun stats _ => stats.numResub == 1 && stats.numValidatorUnknown == 0) net)
    (by decide +kernel)
  simp only [Bool.and_eq_true, decide_eq_true_eq] at checks
  obtain ⟨acyclic, passed⟩ := checks
  obtain ⟨stats, net', run, counted⟩ := Edit.exists_run passed
  simp only [Bool.and_eq_true, beq_iff_eq] at counted
  have valid := history.wellFormed acyclic
  obtain ⟨rejected, same⟩ := unnoticed_resubstitute Solver.search_decides valid rfl run
  exact ⟨Solver.search_decides, stages, net, stats, net', history, valid, run, counted.1, rejected,
    same counted.2⟩

end LogicOpt
