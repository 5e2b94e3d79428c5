import LogicOpt.Json
import LogicOpt.Params.Basic

namespace LogicOpt

namespace Params

def valueLimit : Nat := 0x100000000

structure Field where
  name : String
  store : Json → Params → Option Params

def numberField (name : String) (store : Nat → Params → Params) : Field :=
  ⟨name, fun x p => (x.natBelow? valueLimit).map (store · p)⟩

def flagField (name : String) (store : Bool → Params → Params) : Field :=
  ⟨name, fun x p => x.bool?.map (store · p)⟩

def fields : List Field := [
  numberField "max_pis" fun x p => { p with maxPis := x },
  numberField "max_divisors" fun x p => { p with maxDivisors := x },
  numberField "max_inserts" fun x p => { p with maxInserts := x },
  numberField "skip_fanout_limit_for_roots" fun x p => { p with skipFanoutLimitForRoots := x },
  numberField "skip_fanout_limit_for_divisors" fun x p =>
    { p with skipFanoutLimitForDivisors := x },
  numberField "max_fanout_to_expand" fun x p => { p with maxFanoutToExpand := x },
  flagField "use_dont_cares" fun x p => { p with useDontCares := x },
  numberField "window_size" fun x p => { p with windowSize := x },
  flagField "preserve_depth" fun x p => { p with preserveDepth := x },
  flagField "validate_candidates" fun x p => { p with validateCandidates := x },
  numberField "max_clauses" fun x p => { p with maxClauses := x },
  numberField "max_trials" fun x p => { p with maxTrials := x }]

def storeAll : List Field → List Json → Params → Option Params
  | _, [], p => some p
  | [], _ :: _, _ => none
  | field :: rest, x :: xs, p => (field.store x p).bind (storeAll rest xs)

/-- Stores named values. A field may be named once; other names are passed over. -/
def storeNamed : (seen : List String) → List (Option String × Json) → Params → Option Params
  | _, [], p => some p
  | _, (none, _) :: _, _ => none
  | seen, (some key, x) :: rest, p =>
    match fields.find? (·.name == key) with
    | none => storeNamed seen rest p
    | some field =>
      if seen.contains key then none
      else (field.store x p).bind (storeNamed (key :: seen) rest)

def ofJson? : Json → Option Params
  | .object named => storeNamed [] named default
  | .array values => storeAll fields values default
  | _ => none

/-- Reads options with a parser of JSON texts, and checks them. -/
def ofTextWith (parse : String → Option Json) (text : String) : Except PassError Params := do
  match (parse text).bind ofJson? with
  | none => throw (.config "not an options record")
  | some p =>
    p.validate
    return p

def ofText : String → Except PassError Params := ofTextWith Json.ofText?

end Params

end LogicOpt
