import LogicOpt.Candidate.Insertion
import LogicOpt.Equivalence
import LogicOpt.Network.Simulation
import LogicOpt.Network.Substitution
import LogicOpt.Resynthesis.Basis
import LogicOpt.Window.Cone
import LogicOpt.Window.Divisors
import LogicOpt.Window.DontCare

/-!
The resubstitution pass. Every gate that is live when its turn comes, among those present at the
start, is a root once, in increasing order. A window is built around it and simulated, and a search
looks for a candidate over the divisors with fewer gates than would go away with the root. An
accepted candidate is inserted and takes the root's place.
-/

namespace LogicOpt

inductive Callback where
  | substitute
  | reportOnly
deriving DecidableEq

/-- A search for candidates. It may use its counters, but not the network. -/
structure Resynthesizer where
  search : {w : Nat} → Problem w → (maxInserts : Nat) → ResynStats →
    Except Fault (Option Candidate × ResynStats)

def Basis.resynthesizer (basis : Basis) : Resynthesizer :=
  ⟨fun p maxInserts stats => p.resynthesize basis maxInserts stats⟩

structure PassStats where
  initialSize : Nat
  finalSize : Nat
  numRootsVisited : Nat
  numSkippedFanout : Nat
  numSkippedBudget : Nat
  numTotalLeaves : Nat
  numTotalDivisors : Nat
  numResub : Nat
  numRejectedByValidator : Nat
  numValidatorUnknown : Nat
  estimatedGain : Nat
  resyn : ResynStats
deriving DecidableEq

def PassStats.zero : PassStats := ⟨0, 0, 0, 0, 0, 0, 0, 0, 0, 0, 0, .zero⟩

def passLevel (nodes : Array Node) (levels : Array Nat) (n : Nat) : Nat :=
  let fanins := (nodes[n]?.map (·.fanins)).getD []
  let live := fanins.filter fun f => !nodes[f.node]?.any (·.dead)
  min ((live.map fun f => levels[f.node]?.getD 0).foldl max 0 + 1) (levelLimit - 1)

def passRelevel (nodes : Array Node) (levels : Array Nat) (n : Nat) : Array Nat :=
  levels.setIfInBounds n (passLevel nodes levels n)

/-- Relevels a node and its live fanouts, but not what lies behind them. -/
def passRelevelAround (nodes : Array Node) (levels : Array Nat) (n : Nat) : Array Nat :=
  let fanouts := (nodes[n]?.map (·.fanouts)).getD []
  (fanouts.filter fun m => !nodes[m]?.any (·.dead)).foldl (passRelevel nodes)
    (passRelevel nodes levels n)

theorem size_passRelevelAround (nodes : Array Node) (levels : Array Nat) (n : Nat) :
    (passRelevelAround nodes levels n).size = levels.size := by
  have kept (order : List Nat) (levels : Array Nat) :
      (order.foldl (passRelevel nodes) levels).size = levels.size := by
    induction order generalizing levels with
    | nil => rfl
    | cons n rest ih => rw [List.foldl_cons, ih]; simp [passRelevel]
  rw [passRelevelAround, kept]
  simp [passRelevel]

/-- Relevels what lies next to a change; a removed node goes to the largest level. -/
def passReaction : Reaction where
  relevel event nodes levels :=
    match event with
    | .added n => passRelevelAround nodes levels n
    | .modified n _ => passRelevelAround nodes levels n
    | .removed n => levels.setIfInBounds n (levelLimit - 1)
  size_relevel := by
    intro event nodes levels
    cases event <;> simp [size_passRelevelAround]

structure PassState where
  cutter : Cutter
  cones : ConeFinder
  divisors : DivisorFinder
  stats : PassStats
  resyn : ResynStats

structure Accepted where
  root : Nat
  divisors : List Nat
  candidate : Candidate
  gain : Nat
deriving DecidableEq

structure RootWindow where
  root : Nat
  leaves : List Nat
  divisors : List Nat
  gain : Nat
  target : Table leaves.length
  care : Table leaves.length
  functions : List (Table leaves.length)

namespace PassState

def start (params : Params) (resyn : ResynStats) : PassState where
  cutter := .ofLimits params.maxPis params.maxFanoutToExpand
  cones := .empty
  divisors := .empty
  stats := .zero
  resyn := resyn

def count (s : PassState) (f : PassStats → PassStats) : PassState := { s with stats := f s.stats }

end PassState

namespace PassStats

def skipFanout (s : PassStats) : PassStats := { s with numSkippedFanout := s.numSkippedFanout + 1 }

def skipBudget (s : PassStats) : PassStats := { s with numSkippedBudget := s.numSkippedBudget + 1 }

def visit (s : PassStats) : PassStats := { s with numRootsVisited := s.numRootsVisited + 1 }

def window (s : PassStats) (leaves divisors : Nat) : PassStats :=
  { s with
    numTotalLeaves := s.numTotalLeaves + leaves
    numTotalDivisors := s.numTotalDivisors + divisors }

def reject (s : PassStats) : PassStats :=
  { s with numRejectedByValidator := s.numRejectedByValidator + 1 }

def undecided (s : PassStats) : PassStats :=
  { s with numValidatorUnknown := s.numValidatorUnknown + 1 }

def resub (s : PassStats) (gain : Nat) : PassStats :=
  { s with numResub := s.numResub + 1, estimatedGain := s.estimatedGain + gain }

end PassStats

namespace Edit

/-- The divisors of a root from the leaves of its cut, and its cone; nothing if the root cannot be
    improved or its window does not fit the limits. -/
def findDivisors (params : Params) (s : PassState) (root : Nat) :
    Edit (Option (List Nat × Cone × List Nat) × PassState) := do
  let (cut, cutter) ← check fun net => s.cutter.run net [root]
  let s := { s with cutter }
  match cut with
  | .error _ => return (none, s.count .skipBudget)
  | .ok cut =>
    if cut.leaves.contains root then return (none, s)
    else
      let (cone, cones) ← s.cones.run root cut.leaves
      let s := { s with cones }
      if cone.gain = 0 then return (none, s)
      else
        let (found, divisors) ← check fun net =>
          s.divisors.run net root cut.leaves cone.nodes params
        let s := { s with divisors }
        match found with
        | .error _ => return (none, s.count .skipBudget)
        | .ok found =>
          return (some (cut.leaves, cone, found),
            s.count (·.window cut.leaves.length found.length))

def simulateRoot (params : Params) (root : Nat) (leaves : List Nat) (cone : Cone)
    (divisors : List Nat) : Edit (Option RootWindow) := do
  let nodes := divisors.drop leaves.length ++ cone.nodes
  match ← check fun net => Window.simulate net leaves nodes true with
  | .error cause => throw (.incompleteWindow root cause)
  | .ok window =>
    let unreachable ←
      if params.useDontCares then
        check fun net => dontCares net leaves params.windowSize params.maxFanoutToExpand
      else pure 0
    match window.nodeFunction? root with
    | none => return none
    | some target =>
      let functions := divisors.filterMap window.nodeFunction?
      ofExcept (ensure (functions.length == divisors.length) .outOfRange)
      return some ⟨root, leaves, divisors, cone.gain, target, ~~~unreachable, functions⟩

end Edit

namespace RootWindow

def problem (w : RootWindow) (care : Table w.leaves.length) :
    Problem (tableWidth w.leaves.length) :=
  ⟨w.target, care, w.functions⟩

def maxInserts (w : RootWindow) (params : Params) : Nat := min params.maxInserts (w.gain - 1)

def accept (w : RootWindow) (candidate : Candidate) : Accepted :=
  ⟨w.root, w.divisors, candidate, w.gain⟩

def minterm (w : RootWindow) (values : Array Bool) : Nat :=
  w.leaves.zipIdx.foldl (fun m (n, j) => if values[n]?.getD false then m ||| 1 <<< j else m) 0

/-- Searches for a candidate, up to `trials` times. With validation, a counterexample joins the care
    set before the next attempt; one that is in it already ends the search. -/
def search (solve : Solver) (w : RootWindow) (net : Network) (params : Params)
    (f : Resynthesizer) : (trials : Nat) → Table w.leaves.length → PassState →
      Except Fault (Option Accepted × PassState)
  | 0, _, s => .ok (none, s)
  | trials + 1, care, s => do
    let (found, resyn) ← f.search (w.problem care) (w.maxInserts params) s.resyn
    let s := { s with resyn }
    match found with
    | none => return (none, s)
    | some c =>
      ensure (c.numGates ≤ w.maxInserts params) .outOfRange
      if !params.validateCandidates then return (some (w.accept c), s)
      else
        match ← net.validateWith solve params.maxClauses w.root w.divisors c with
        | .equivalent => return (some (w.accept c), s)
        | .unknown => return (none, s.count .undecided)
        | .counterexample inputs =>
          let s := s.count .reject
          let m := w.minterm (← net.simulateValues inputs)
          if care.getLsbD m then return (none, s)
          else search solve w net params f trials (care ||| BitVec.twoPow _ m) s

def trials (params : Params) : Nat :=
  if params.validateCandidates then max params.maxTrials 1 else 1

end RootWindow

namespace Edit

def buildWindow (params : Params) (s : PassState) (root : Nat) :
    Edit (Option RootWindow × PassState) := do
  match ← findDivisors params s root with
  | (none, s) => return (none, s)
  | (some (leaves, cone, divisors), s) =>
    return (← simulateRoot params root leaves cone divisors, s)

def evaluateRoot (solve : Solver) (params : Params) (f : Resynthesizer) (s : PassState)
    (root : Nat) : Edit (Option Accepted × PassState) := do
  match ← buildWindow params s root with
  | (none, s) => return (none, s)
  | (some w, s) =>
    check fun net => w.search solve net params f (RootWindow.trials params) w.care s

def removeUnusedFrom (first : Nat) (net : Network) : Network :=
  (List.range' first (net.size - first)).reverse.foldl Network.removeDangling net

def install (a : Accepted) (s : PassState) : Edit PassState := do
  let first := (← get).size
  let replacement ← insert a.candidate (a.divisors.map .ofNode)
  if replacement.node = a.root then
    update (removeUnusedFrom first)
    return s
  else
    substituteNode a.root replacement
    update (removeUnusedFrom first)
    return s.count (·.resub (a.gain - a.candidate.numGates))

def applyCandidate (callback : Callback) (a : Accepted) (s : PassState) : Edit PassState :=
  match callback with
  | .reportOnly => return s.count (·.resub (a.gain - a.candidate.numGates))
  | .substitute => install a s

def visitRoot (solve : Solver) (params : Params) (f : Resynthesizer) (callback : Callback)
    (s : PassState) (root : Nat) : Edit PassState := do
  let net ← get
  if !net.isLiveGate root then return s
  else if net.fanoutCount root > params.skipFanoutLimitForRoots then
    return s.count .skipFanout
  else
    match ← evaluateRoot solve params f (s.count .visit) root with
    | (none, s) => return s
    | (some a, s) => applyCandidate callback a s

/-- One pass over the gates present now. Options that do not fit together are refused before
    anything happens. -/
def resubstituteWith (solve : Solver) (params : Params) (f : Resynthesizer) (callback : Callback)
    (resyn : ResynStats) : Edit (Except PassError PassStats) := do
  match params.validate with
  | .error e => return .error e
  | .ok () =>
    let net ← get
    let roots := List.range net.size
    let s ← withSubscription passReaction
      (roots.foldlM (visitRoot solve params f callback) (.start params resyn))
    return .ok { s.stats with
      initialSize := net.numGates
      finalSize := (← get).numGates
      resyn := s.resyn }

/-- A pass whose solver tries all assignments. -/
def resubstitute (params : Params) (f : Resynthesizer) (callback : Callback)
    (resyn : ResynStats) : Edit (Except PassError PassStats) :=
  resubstituteWith .search params f callback resyn

end Edit

end LogicOpt
