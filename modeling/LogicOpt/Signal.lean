/-!
Nodes and signals. A network is a row of slots; a node is named by the number of its slot, and a
signal is a node together with a polarity. Slot 0 always holds the constant false, so the two
constants are the two signals of slot 0.
-/

namespace LogicOpt

def nodeText (n : Nat) : String := "%" ++ toString n

structure Signal where
  node : Nat
  negated : Bool
deriving DecidableEq

namespace Signal

def ofNode (n : Nat) : Signal := ⟨n, false⟩

def constant (value : Bool) : Signal := ⟨0, value⟩

def isConstant (s : Signal) : Bool := s.node == 0

def negate (s : Signal) : Signal := ⟨s.node, !s.negated⟩

def negateIf (s : Signal) (flip : Bool) : Signal := ⟨s.node, s.negated ^^ flip⟩

/-- Signals are numbered with the polarity as the lowest bit, so the two signals of a node are
    neighbours in the order. -/
def literal (s : Signal) : Nat := 2 * s.node + s.negated.toNat

def ofLiteral (l : Nat) : Signal := ⟨l / 2, l % 2 == 1⟩

def text (s : Signal) : String :=
  if s.negated then "not(" ++ nodeText s.node ++ ")" else nodeText s.node

@[simp]
theorem node_negateIf (s : Signal) (flip : Bool) : (s.negateIf flip).node = s.node := rfl

@[simp]
theorem negated_negateIf (s : Signal) (flip : Bool) :
    (s.negateIf flip).negated = (s.negated ^^ flip) := rfl

@[simp]
theorem negateIf_false (s : Signal) : s.negateIf false = s := by
  simp [negateIf]

theorem ofLiteral_literal (s : Signal) : ofLiteral s.literal = s := by
  rcases s with ⟨n, b⟩
  cases b
  · simp [ofLiteral, literal]
  · have half : (2 * n + 1) / 2 = n := by omega
    simp [ofLiteral, literal, half]

theorem literal_injective {a b : Signal} (h : a.literal = b.literal) : a = b := by
  rw [← ofLiteral_literal a, ← ofLiteral_literal b, h]

end Signal

end LogicOpt
