import LogicOpt.Pass
import LogicOpt.Proofs.Cones

namespace LogicOpt

open Network

structure Windowed (params : Params) (net : Network) (w : RootWindow) (cone : List Nat) : Prop where
  cut : ∃ c c' : Cutter, ∃ interior, c.run net [w.root] = .ok (.ok ⟨w.leaves, interior⟩, c')
  apart : w.root ∉ w.leaves
  free : FanoutFree net w.root w.leaves cone
  gain : cone.length = w.gain
  divisors : ∃ c c' : DivisorFinder,
    c.run net w.root w.leaves cone params = .ok (.ok w.divisors, c')
  simulated : ∃ window,
    Window.simulate net w.leaves (w.divisors.drop w.leaves.length ++ cone) true = .ok (.ok window) ∧
      window.nodeFunction? w.root = some w.target ∧
      w.functions = w.divisors.filterMap window.nodeFunction? ∧
      w.functions.length = w.divisors.length
  care : ∃ unreachable, w.care = ~~~unreachable ∧
    (unreachable = 0 ∨
      dontCares net w.leaves params.windowSize params.maxFanoutToExpand = .ok unreachable)

/-- An accepted candidate of a window. -/
inductive Chosen (params : Params) (f : Resynthesizer) (w : RootWindow) (a : Accepted) : Prop where
  | found {care : Table w.leaves.length} {c : Candidate} {stats stats' : ResynStats}
      (same : a = w.accept c) (small : c.numGates ≤ w.maxInserts params)
      (grown : ∀ m, w.care.getLsbD m = true → care.getLsbD m = true)
      (search : f.search (w.problem care) (w.maxInserts params) stats = .ok (some c, stats'))

theorem RootWindow.exists_trials (params : Params) : ∃ more, trials params = more + 1 := by
  rw [trials]
  split
  · exact ⟨max params.maxTrials 1 - 1, by omega⟩
  · exact ⟨0, rfl⟩

theorem RootWindow.search_eq_ok {solve : Solver} {w : RootWindow} {net : Network}
    {params : Params} {f : Resynthesizer} {trials : Nat} {care : Table w.leaves.length}
    {s s' : PassState} {a : Accepted} (grown : ∀ m, w.care.getLsbD m = true → care.getLsbD m = true)
    (run : w.search solve net params f trials care s = .ok (some a, s')) : Chosen params f w a := by
  induction trials generalizing care s with
  | zero => cases run
  | succ trials ih =>
    simp only [search, bind_eq_ok] at run
    obtain ⟨⟨found, stats⟩, answered, run⟩ := run
    cases found with
    | none => cases run
    | some c =>
      simp only [bind_eq_ok, ensure_eq_ok, decide_eq_true_eq] at run
      obtain ⟨⟨⟩, small, run⟩ := run
      split at run
      · cases run
        exact .found rfl small grown answered
      · obtain ⟨verdict, -, run⟩ := bind_eq_ok.1 run
        cases verdict with
        | equivalent =>
          cases run
          exact .found rfl small grown answered
        | unknown => cases run
        | counterexample inputs =>
          simp only [bind_eq_ok] at run
          obtain ⟨values, -, run⟩ := run
          split at run
          · cases run
          · refine ih (fun m inside => ?_) run
            rw [BitVec.getLsbD_or, grown m inside, Bool.true_or]

namespace Edit

variable {net net' : Network}

theorem findDivisors_gives {params : Params} {s s' : PassState} {root : Nat}
    {answer : Option (List Nat × Cone × List Nat)} (orderly : net.Orderly)
    (live : net.isLiveGate root = true)
    (run : Gives (findDivisors params s root) net (answer, s') net') :
    net' = net ∧ ∀ leaves cone divisors, answer = some (leaves, cone, divisors) →
      (∃ c c' : Cutter, ∃ interior, c.run net [root] = .ok (.ok ⟨leaves, interior⟩, c')) ∧
      root ∉ leaves ∧ FanoutFree net root leaves cone.nodes ∧ cone.nodes.length = cone.gain ∧
      ∃ c c' : DivisorFinder, c.run net root leaves cone.nodes params = .ok (.ok divisors, c') := by
  simp only [findDivisors, gives_bind, gives_check] at run
  obtain ⟨⟨cut, cutter⟩, _, ⟨grown, rfl⟩, run⟩ := run
  cases cut with
  | error cause =>
    simp only [gives_pure] at run
    obtain ⟨same, rfl⟩ := run
    cases same
    exact ⟨rfl, by simp⟩
  | ok cut =>
    simp only [gives_ite, gives_pure] at run
    rcases run with ⟨-, same, rfl⟩ | ⟨apart, run⟩
    · cases same
      exact ⟨rfl, by simp⟩
    · simp only [gives_bind, gives_ite, gives_pure, gives_check] at run
      obtain ⟨⟨cone, cones⟩, _, found, run⟩ := run
      obtain ⟨rfl, free, length⟩ := runCone_gives orderly.balanced live found
      rcases run with ⟨-, same, rfl⟩ | ⟨-, ⟨found, finder⟩, _, ⟨collected, rfl⟩, run⟩
      · cases same
        exact ⟨rfl, by simp⟩
      · cases found with
        | error cause =>
          simp only [gives_pure] at run
          obtain ⟨same, rfl⟩ := run
          cases same
          exact ⟨rfl, by simp⟩
        | ok found =>
          simp only [gives_pure] at run
          obtain ⟨same, rfl⟩ := run
          cases same
          refine ⟨rfl, fun leaves cone divisors same => ?_⟩
          cases same
          exact ⟨⟨_, _, _, grown⟩, by simpa using apart, free, length, _, _, collected⟩

theorem simulateRoot_gives {params : Params} {root : Nat} {leaves divisors : List Nat} {cone : Cone}
    {answer : Option RootWindow}
    (run : Gives (simulateRoot params root leaves cone divisors) net answer net') :
    net' = net ∧ ∀ w, answer = some w →
      w.root = root ∧ w.gain = cone.gain ∧ w.divisors = divisors ∧
      w.leaves = leaves ∧ ∃ window unreachable,
        Window.simulate net w.leaves (divisors.drop leaves.length ++ cone.nodes) true =
            .ok (.ok window) ∧
          window.nodeFunction? root = some w.target ∧
          w.functions = divisors.filterMap window.nodeFunction? ∧
          w.functions.length = divisors.length ∧ w.care = ~~~unreachable ∧
          (unreachable = 0 ∨
            dontCares net w.leaves params.windowSize params.maxFanoutToExpand = .ok unreachable) := by
  simp only [simulateRoot, gives_bind, gives_check] at run
  obtain ⟨outcome, _, ⟨simulated, rfl⟩, run⟩ := run
  cases outcome with
  | error cause => exact absurd run gives_throw
  | ok window =>
    cases target : window.nodeFunction? root with
    | none =>
      simp only [target, gives_bind, gives_ite, gives_check, gives_pure] at run
      rcases run with ⟨-, _, _, ⟨-, rfl⟩, rfl, rfl⟩ | ⟨-, _, _, ⟨-, rfl⟩, rfl, rfl⟩
      · exact ⟨rfl, by simp⟩
      · exact ⟨rfl, by simp⟩
    | some function =>
      simp only [target, gives_bind, gives_ite, gives_check, gives_pure, gives_ofExcept,
        ensure_eq_ok, beq_iff_eq] at run
      have known : ∃ unreachable : Table leaves.length, (unreachable = 0 ∨
          dontCares net leaves params.windowSize params.maxFanoutToExpand = .ok unreachable) ∧
          (divisors.filterMap window.nodeFunction?).length = divisors.length ∧
          some (RootWindow.mk root leaves divisors cone.gain function (~~~unreachable)
            (divisors.filterMap window.nodeFunction?)) = answer ∧ net = net' := by
        rcases run with ⟨-, unreachable, _, ⟨mask, rfl⟩, _, _, ⟨length, rfl⟩, same, rfl⟩ |
          ⟨-, unreachable, _, ⟨zero, rfl⟩, _, _, ⟨length, rfl⟩, same, rfl⟩
        · exact ⟨unreachable, .inr mask, length, same, rfl⟩
        · exact ⟨unreachable, .inl zero.symm, length, same, rfl⟩
      obtain ⟨unreachable, mask, length, rfl, rfl⟩ := known
      refine ⟨rfl, fun w same => ?_⟩
      cases same
      exact ⟨rfl, rfl, rfl, rfl, window, unreachable, simulated, target, rfl, length, rfl, mask⟩

theorem buildWindow_gives {params : Params} {s s' : PassState} {root : Nat}
    {answer : Option RootWindow} (orderly : net.Orderly) (live : net.isLiveGate root = true)
    (run : Gives (buildWindow params s root) net (answer, s') net') :
    net' = net ∧ ∀ w, answer = some w → w.root = root ∧ ∃ cone, Windowed params net w cone := by
  simp only [buildWindow, gives_bind] at run
  obtain ⟨⟨found, middle⟩, _, searched, run⟩ := run
  obtain ⟨rfl, parts⟩ := findDivisors_gives orderly live searched
  cases found with
  | none =>
    simp only [gives_pure] at run
    obtain ⟨same, rfl⟩ := run
    cases same
    exact ⟨rfl, by simp⟩
  | some found =>
    obtain ⟨leaves, cone, divisors⟩ := found
    simp only [gives_bind, gives_pure] at run
    obtain ⟨window, _, simulated, same, rfl⟩ := run
    cases same
    obtain ⟨rfl, known⟩ := simulateRoot_gives simulated
    refine ⟨rfl, fun w same => ?_⟩
    obtain ⟨cut, apart, free, length, pool⟩ := parts leaves cone divisors rfl
    obtain ⟨rfl, gain, rfl, rfl, table, unreachable, tables, target, functions, size, care, mask⟩ :=
      known w same
    refine ⟨rfl, cone.nodes, ?_⟩
    exact ⟨cut, apart, free, length.trans gain.symm, pool, ⟨table, tables, target, functions, size⟩,
      unreachable, care, mask⟩

theorem evaluateRoot_gives {solve : Solver} {params : Params} {f : Resynthesizer}
    {s s' : PassState} {root : Nat} {answer : Option Accepted} (orderly : net.Orderly)
    (live : net.isLiveGate root = true)
    (run : Gives (evaluateRoot solve params f s root) net (answer, s') net') :
    net' = net ∧ ∀ a, answer = some a →
      ∃ w cone, w.root = root ∧ Windowed params net w cone ∧ Chosen params f w a := by
  simp only [evaluateRoot, gives_bind] at run
  obtain ⟨⟨window, middle⟩, _, built, run⟩ := run
  obtain ⟨rfl, known⟩ := buildWindow_gives orderly live built
  cases window with
  | none =>
    simp only [gives_pure] at run
    obtain ⟨same, rfl⟩ := run
    cases same
    exact ⟨rfl, by simp⟩
  | some w =>
    simp only [gives_check] at run
    obtain ⟨chosen, rfl⟩ := run
    obtain ⟨same, cone, window⟩ := known w rfl
    refine ⟨rfl, fun a found => ?_⟩
    subst found
    exact ⟨w, cone, same, window, RootWindow.search_eq_ok (fun _ => id) chosen⟩

end Edit

end LogicOpt
