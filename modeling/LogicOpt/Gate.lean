import LogicOpt.Signal
import Std.Data.TreeMap

namespace LogicOpt

/-- The primitive gates: AIGs are built from `and2`, XAGs add `xor2`, MIGs use `maj3`. -/
inductive GateKind where
  | and2
  | xor2
  | maj3
deriving DecidableEq

namespace GateKind

def arity : GateKind → Nat
  | and2 => 2
  | xor2 => 2
  | maj3 => 3

def text : GateKind → String
  | and2 => "and"
  | xor2 => "xor"
  | maj3 => "maj"

end GateKind

inductive Gate (α : Type) where
  | and2 (a b : α)
  | xor2 (a b : α)
  | maj3 (a b c : α)
deriving DecidableEq

namespace Gate

variable {α β : Type}

def kind : Gate α → GateKind
  | and2 .. => .and2
  | xor2 .. => .xor2
  | maj3 .. => .maj3

def operands : Gate α → List α
  | and2 a b => [a, b]
  | xor2 a b => [a, b]
  | maj3 a b c => [a, b, c]

def map (f : α → β) : Gate α → Gate β
  | and2 a b => and2 (f a) (f b)
  | xor2 a b => xor2 (f a) (f b)
  | maj3 a b c => maj3 (f a) (f b) (f c)

def mapM {m : Type → Type} [Monad m] (f : α → m β) : Gate α → m (Gate β)
  | and2 a b => do
    let a ← f a
    let b ← f b
    return and2 a b
  | xor2 a b => do
    let a ← f a
    let b ← f b
    return xor2 a b
  | maj3 a b c => do
    let a ← f a
    let b ← f b
    let c ← f c
    return maj3 a b c

def ofOperands? : GateKind → List α → Option (Gate α)
  | .and2, [a, b] => some (and2 a b)
  | .xor2, [a, b] => some (xor2 a b)
  | .maj3, [a, b, c] => some (maj3 a b c)
  | _, _ => none

theorem length_operands (g : Gate α) : g.operands.length = g.kind.arity := by
  cases g <;> rfl

theorem ofOperands?_operands (g : Gate α) : ofOperands? g.kind g.operands = some g := by
  cases g <;> rfl

@[simp]
theorem operands_map (f : α → β) (g : Gate α) : (g.map f).operands = g.operands.map f := by
  cases g <;> rfl

@[simp]
theorem kind_map (f : α → β) (g : Gate α) : (g.map f).kind = g.kind := by
  cases g <;> rfl

def code : Gate Signal → List Nat
  | and2 a b => [0, a.literal, b.literal]
  | xor2 a b => [1, a.literal, b.literal]
  | maj3 a b c => [2, a.literal, b.literal, c.literal]

theorem code_injective {g h : Gate Signal} (same : g.code = h.code) : g = h := by
  cases g <;> cases h <;> simp [code] at same ⊢ <;> grind [Signal.literal_injective]

instance : Ord (Gate Signal) := ⟨compareOn code⟩

instance : Std.TransOrd (Gate Signal) :=
  inferInstanceAs (Std.TransCmp (compareOn code))

instance : Std.LawfulEqOrd (Gate Signal) where
  eq_of_compare {g h} same :=
    code_injective (Std.LawfulEqCmp.eq_of_compare (show compare g.code h.code = .eq from same))

end Gate

end LogicOpt
