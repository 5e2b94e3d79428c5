import LogicOpt.Gate.Value

/-!
Normal forms of gates over signals. Operands are sorted, complements are pushed to the output
where the kind allows it, and gates that equal one of their operands or a constant are folded, so
gates with the same function meet in the same key.
-/

namespace LogicOpt

inductive Normal where
  /-- The gate equals an existing signal. -/
  | trivial (s : Signal)
  /-- The gate is genuine; its output is complemented exactly when `negated` holds. -/
  | gate (g : Gate Signal) (negated : Bool)
deriving DecidableEq

namespace Gate

def sortPair (a b : Signal) : Signal × Signal :=
  if b.literal < a.literal then (b, a) else (a, b)

def sortTriple (a b c : Signal) : Signal × Signal × Signal :=
  let (a, b) := sortPair a b
  let (b, c) := sortPair b c
  let (a, b) := sortPair a b
  (a, b, c)

def normalizeAnd (a b : Signal) : Normal :=
  let (a, b) := sortPair a b
  if a.node = b.node then
    .trivial (if a.negated = b.negated then a else .constant false)
  else if a.node = 0 then
    .trivial (if a.negated then b else .constant false)
  else .gate (.and2 a b) false

def normalizeXor (a b : Signal) : Normal :=
  let negated := a.negated ^^ b.negated
  let (a, b) := sortPair (.ofNode a.node) (.ofNode b.node)
  if a.node = b.node then .trivial (.constant negated)
  else if a.node = 0 then .trivial (b.negateIf negated)
  else .gate (.xor2 a b) negated

/-- Two equal operands decide a majority, and two complementary ones leave it to the third. The
    majority of the complements is itself the majority's complement, so at most one of the stored
    operands is complemented. -/
def normalizeMaj (a b c : Signal) : Normal :=
  let (a, b, c) := sortTriple a b c
  if a.node = b.node then .trivial (if a.negated = b.negated then a else c)
  else if b.node = c.node then .trivial (if b.negated = c.negated then b else a)
  else
    let negated := GateValue.maj3 a.negated b.negated c.negated
    .gate (.maj3 (a.negateIf negated) (b.negateIf negated) (c.negateIf negated)) negated

def normalize : Gate Signal → Normal
  | and2 a b => normalizeAnd a b
  | xor2 a b => normalizeXor a b
  | maj3 a b c => normalizeMaj a b c

def Canonical (g : Gate Signal) : Prop := g.normalize = .gate g false

instance (g : Gate Signal) : Decidable g.Canonical :=
  inferInstanceAs (Decidable (g.normalize = .gate g false))

def ofFanins (kind : GateKind) (fanins : List Signal) : Except Fault (Gate Signal) :=
  match ofOperands? kind fanins with
  | some g => .ok g
  | none => .error (.arity kind fanins.length)

end Gate

def GateKind.normalize (kind : GateKind) (fanins : List Signal) : Except Fault Normal :=
  (Gate.ofFanins kind fanins).map Gate.normalize

end LogicOpt
