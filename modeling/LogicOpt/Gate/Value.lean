import LogicOpt.Fault

namespace LogicOpt

class GateValue (α : Type) where
  complement : α → α
  and2 : α → α → α
  xor2 : α → α → α
  maj3 : α → α → α → α
  /-- Whether two values may be operands of the same gate. -/
  alike : α → α → Bool

namespace GateValue

variable {α : Type} [GateValue α]

def complementIf (value : α) (flip : Bool) : α := if flip then complement value else value

instance : GateValue Bool where
  complement := not
  and2 a b := a && b
  xor2 a b := a ^^ b
  maj3 a b c := (a && b) || (a && c) || (b && c)
  alike _ _ := true

instance : GateValue UInt64 where
  complement a := ~~~a
  and2 a b := a &&& b
  xor2 a b := a ^^^ b
  maj3 a b c := (a &&& b) ||| (a &&& c) ||| (b &&& c)
  alike _ _ := true

instance {w : Nat} : GateValue (BitVec w) where
  complement a := ~~~a
  and2 a b := a &&& b
  xor2 a b := a ^^^ b
  maj3 a b c := (a &&& b) ||| (a &&& c) ||| (b &&& c)
  alike _ _ := true

end GateValue

namespace Gate

variable {α : Type} [GateValue α]

def eval : Gate α → α
  | and2 a b => GateValue.and2 a b
  | xor2 a b => GateValue.xor2 a b
  | maj3 a b c => GateValue.maj3 a b c

/-- Evaluation that first checks that the operands may meet in one gate. -/
def apply : Gate α → Except Fault α
  | and2 a b =>
    if GateValue.alike a b then .ok (GateValue.and2 a b) else .error .tableMismatch
  | xor2 a b =>
    if GateValue.alike a b then .ok (GateValue.xor2 a b) else .error .tableMismatch
  | maj3 a b c =>
    if GateValue.alike a b && GateValue.alike a c then .ok (GateValue.maj3 a b c)
    else .error .outOfRange

def evalUnder (value : Nat → α) (g : Gate Signal) : α :=
  (g.map fun s => GateValue.complementIf (value s.node) s.negated).eval

end Gate

def GateKind.apply {α : Type} [GateValue α] (kind : GateKind) (values : List α) :
    Except Fault α :=
  match Gate.ofOperands? kind values with
  | some g => g.apply
  | none => .error .outOfRange

end LogicOpt
