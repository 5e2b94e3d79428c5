import LogicOpt.PassError

namespace LogicOpt

structure Params where
  /-- The largest number of window leaves. -/
  maxPis : Nat
  /-- The largest number of divisors, leaves included. -/
  maxDivisors : Nat
  maxInserts : Nat
  skipFanoutLimitForRoots : Nat
  /-- Side nodes with more fanouts than this are not admitted as divisors. -/
  skipFanoutLimitForDivisors : Nat
  /-- Leaves with more fanouts than this are not expanded. -/
  maxFanoutToExpand : Nat
  useDontCares : Bool
  /-- The largest number of leaves of the window grown for don't-cares. -/
  windowSize : Nat
  preserveDepth : Bool
  validateCandidates : Bool
  maxClauses : Nat
  /-- Attempts per root while candidates are refuted. -/
  maxTrials : Nat
deriving DecidableEq

inductive ParamsIssue where
  | noLeaves
  | tooManyLeaves (maxPis : Nat)
  | tooFewDivisors (maxDivisors maxPis : Nat)
  | windowBelowCut (windowSize maxPis : Nat)
  | windowTooLarge (windowSize : Nat)
deriving DecidableEq

namespace Params

def default : Params where
  maxPis := 8
  maxDivisors := 150
  maxInserts := 2
  skipFanoutLimitForRoots := 1000
  skipFanoutLimitForDivisors := 100
  maxFanoutToExpand := 1000
  useDontCares := false
  windowSize := 12
  preserveDepth := false
  validateCandidates := false
  maxClauses := 1000
  maxTrials := 100

/-- Windows are simulated with complete tables over at most this many leaves. -/
def maxWindowVars : Nat := 16

def issue? (p : Params) : Option ParamsIssue :=
  if p.maxPis = 0 then some .noLeaves
  else if p.maxPis > maxWindowVars then some (.tooManyLeaves p.maxPis)
  else if p.maxDivisors < p.maxPis then some (.tooFewDivisors p.maxDivisors p.maxPis)
  else if p.useDontCares && p.windowSize < p.maxPis then
    some (.windowBelowCut p.windowSize p.maxPis)
  else if p.useDontCares && p.windowSize > maxWindowVars then
    some (.windowTooLarge p.windowSize)
  else none

end Params

def ParamsIssue.text : ParamsIssue → String
  | noLeaves => "max_pis must be at least 1"
  | tooManyLeaves maxPis =>
    "max_pis=" ++ toString maxPis ++ " exceeds the simulation limit of "
      ++ toString Params.maxWindowVars ++ " variables"
  | tooFewDivisors maxDivisors maxPis =>
    "max_divisors=" ++ toString maxDivisors ++ " must be at least max_pis=" ++ toString maxPis
  | windowBelowCut windowSize maxPis =>
    "window_size=" ++ toString windowSize ++ " must be at least max_pis=" ++ toString maxPis
      ++ " when use_dont_cares is set"
  | windowTooLarge windowSize =>
    "window_size=" ++ toString windowSize ++ " exceeds the simulation limit of "
      ++ toString Params.maxWindowVars ++ " variables"

namespace Params

def validate (p : Params) : Except PassError Unit :=
  match p.issue? with
  | some issue => .error (.invalidParams issue.text)
  | none => .ok ()

end Params

end LogicOpt
