import LogicOpt.Network.Basic
import LogicOpt.TruthTable.Basic

/-!
Complete simulation of a window: the function of every window node over the leaves. Slot 0 holds
the constant false, the leaves' projections follow, then the nodes in the order given. A table may
be stored complemented, so that all stored tables are false at the first assignment.
-/

namespace LogicOpt

structure WindowSlot (numVars : Nat) where
  stored : Table numVars
  phase : Bool
deriving DecidableEq

namespace WindowSlot

variable {numVars : Nat}

def function (s : WindowSlot numVars) : Table numVars :=
  if s.phase then ~~~s.stored else s.stored

/-- Stores a function; with `normalize`, complemented if it is true at the first assignment. -/
def ofFunction (normalize : Bool) (f : Table numVars) : WindowSlot numVars :=
  let phase := normalize && f.getLsbD 0
  ⟨if phase then ~~~f else f, phase⟩

@[simp]
theorem function_ofFunction (normalize : Bool) (f : Table numVars) :
    (ofFunction normalize f).function = f := by
  by_cases h : (normalize && f.getLsbD 0) = true
  · simp only [ofFunction, function, h, ↓reduceIte, BitVec.not_not]
  · simp only [ofFunction, function, h, Bool.false_eq_true, ↓reduceIte]

end WindowSlot

structure Window (numVars : Nat) where
  slots : Array (WindowSlot numVars)
  slotOf : Std.TreeMap Nat Nat

namespace Window

variable {numVars : Nat}

def slot? (w : Window numVars) (n : Nat) : Option Nat := w.slotOf[n]?

def function? (w : Window numVars) (slot : Nat) : Option (Table numVars) :=
  w.slots[slot]?.map (·.function)

def nodeFunction? (w : Window numVars) (n : Nat) : Option (Table numVars) :=
  (w.slot? n).bind w.function?

def push (w : Window numVars) (n : Nat) (slot : WindowSlot numVars) : Window numVars :=
  ⟨w.slots.push slot, w.slotOf.insert n w.slots.size⟩

def ofLeaves (leaves : List Nat) : Window leaves.length :=
  leaves.zipIdx.foldl (fun w (n, i) => w.push n ⟨projection leaves.length i, false⟩)
    ((⟨#[], ∅⟩ : Window leaves.length).push 0 ⟨0, false⟩)

/-- Adds nodes in the order given; a node that has a slot is passed over. -/
def addNodes (net : Network) (normalize : Bool) :
    Window numVars → List Nat → Except Fault (Except PassError (Window numVars))
  | w, [] => .ok (.ok w)
  | w, n :: rest =>
    if (w.slot? n).isSome then addNodes net normalize w rest
    else if n < net.size then
      match net.gate? n with
      | none => .error (.notGate n)
      | some g =>
        match g.mapM fun f => (w.nodeFunction? f.node).map (GateValue.complementIf · f.negated) with
        | none => .ok (.error (.windowIncomplete n))
        | some values =>
          addNodes net normalize (w.push n (.ofFunction normalize values.eval)) rest
    else .error .outOfRange

def simulate (net : Network) (leaves nodes : List Nat) (normalize : Bool) :
    Except Fault (Except PassError (Window leaves.length)) := do
  TruthTable.checkVars leaves.length
  addNodes net normalize (ofLeaves leaves) nodes

end Window

end LogicOpt
