import LogicOpt.Candidate.Basic
import LogicOpt.PassError

namespace LogicOpt

inductive Fault where
  /-- An index outside its array, a number outside its range, or two lists of different length. -/
  | outOfRange
  /-- A traversal that does not come to an end. -/
  | endless
  | tableMismatch
  | variableOutOfRange (index numVars : Nat)
  | arity (kind : GateKind) (given : Nat)
  | forwardFanin (signal : Signal)
  | notGate (node : Nat)
  | inputCount (expected given : Nat)
  | tooManyInputs (inputs limit : Nat)
  | outputOutOfRange (node size : Nat)
  | countUnderflow (node : Nat)
  | deadFanin (node : Nat)
  | staleEntry (node : Nat)
  | cyclicReplacement (node : Nat)
  | coneCounts (root released retained : Nat)
  | coneSize (root collected released : Nat)
  | cutSize (leaves bound : Nat)
  | incompleteWindow (root : Nat) (cause : PassError)
  | wrongCandidate (candidate : Candidate)
  | releasedTwice (subscription : Nat)
deriving DecidableEq

namespace Fault

def message : Fault → Option String
  | outOfRange => none
  | endless => none
  | tableMismatch => some "truth table variable count mismatch"
  | variableOutOfRange v n =>
    some ("TruthTable::nth_var: variable " ++ toString v ++ " out of range for " ++ toString n
      ++ " variables")
  | arity kind given =>
    some ("normalize: " ++ kind.text ++ " expects " ++ toString kind.arity ++ " fanins, got "
      ++ toString given)
  | forwardFanin s => some ("gate fanin literal " ++ toString s.literal ++ " refers forward")
  | notGate n => some ("compute: " ++ nodeText n ++ " is not a gate")
  | inputCount expected given =>
    some ("simulate: expected " ++ toString expected ++ " input values, got " ++ toString given)
  | tooManyInputs inputs limit =>
    some ("simulate_truth_tables: " ++ toString inputs ++ " inputs exceed the limit of "
      ++ toString limit)
  | outputOutOfRange n size =>
    some ("add_output: node index out of bounds: " ++ toString n ++ " (nodes.len() = "
      ++ toString size ++ ")")
  | countUnderflow n =>
    some ("decr_fanout_size: fanout count of " ++ nodeText n ++ " would underflow")
  | deadFanin n => some ("create_gate: fanin " ++ nodeText n ++ " is dead")
  | staleEntry n => some ("structural hash table refers to dead node " ++ nodeText n)
  | cyclicReplacement n =>
    some ("substitute_node: cyclic replacement chain at " ++ nodeText n)
  | coneCounts root released retained =>
    some ("MFFC of " ++ nodeText root ++ ": dereferenced " ++ toString released
      ++ " nodes but re-referenced " ++ toString retained)
  | coneSize root collected released =>
    some ("MFFC of " ++ nodeText root ++ ": collected " ++ toString collected
      ++ " nodes, released " ++ toString released)
  | cutSize leaves bound =>
    some ("cut has " ++ toString leaves ++ " leaves, bound is " ++ toString bound)
  | incompleteWindow root cause =>
    some ("window of " ++ nodeText root ++ " is incomplete: " ++ cause.text)
  | wrongCandidate c => some ("resynthesis produced a wrong candidate: " ++ c.text)
  | releasedTwice id =>
    some ("subscription SubscriptionId(" ++ toString id ++ ") was already released")

end Fault

def ensure (condition : Bool) (fault : Fault) : Except Fault Unit :=
  if condition then .ok () else .error fault

end LogicOpt
