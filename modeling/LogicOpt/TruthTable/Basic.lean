import LogicOpt.Gate.Value

namespace LogicOpt

def tableWidth (n : Nat) : Nat := 1 <<< n

theorem tableWidth_succ (n : Nat) : tableWidth (n + 1) = tableWidth n + tableWidth n := by
  simp only [tableWidth, Nat.shiftLeft_eq, Nat.pow_succ]
  omega

abbrev Table (n : Nat) : Type := BitVec (tableWidth n)

/-- The table of variable `v` among `n`: the table repeats for every variable above `v`. -/
def projection : (n v : Nat) → Table n
  | 0, _ => 0
  | n + 1, v =>
    if v = n then
      (BitVec.allOnes (tableWidth n) ++ 0#(tableWidth n)).cast (tableWidth_succ n).symm
    else (projection n v ++ projection n v).cast (tableWidth_succ n).symm

theorem getLsbD_projection {n v i : Nat} (hv : v < n) (hi : i < tableWidth n) :
    (projection n v).getLsbD i = i.testBit v := by
  induction n generalizing i with
  | zero => omega
  | succ n ih =>
    have width : tableWidth n = 2 ^ n := by simp [tableWidth, Nat.shiftLeft_eq]
    rw [tableWidth_succ] at hi
    by_cases low : i < tableWidth n
    · have high : i.testBit n = false := Nat.testBit_lt_two_pow (width ▸ low)
      by_cases same : v = n
      · subst same
        simp [projection, BitVec.getLsbD_append, low, high]
      · simp only [projection, same, ↓reduceIte, BitVec.getLsbD_cast, BitVec.getLsbD_append, low]
        exact ih (by omega) low
    · obtain ⟨j, rfl⟩ := Nat.le.dest (Nat.le_of_not_lt low)
      have bound : j < tableWidth n := by omega
      by_cases same : v = n
      · subst same
        have top : (tableWidth v + j).testBit v = true := by
          rw [width]
          have none : j.testBit v = false := Nat.testBit_lt_two_pow (width ▸ bound)
          exact (Nat.testBit_two_pow_add_eq j v).trans (by simp [none])
        simp [projection, BitVec.getLsbD_append, top, bound]
      · simp only [projection, same, ↓reduceIte, BitVec.getLsbD_cast, BitVec.getLsbD_append, low,
          Nat.add_sub_cancel_left]
        rw [ih (by omega) bound, width]
        exact (Nat.testBit_two_pow_add_gt (by omega) j).symm

def entails {w : Nat} (a b : BitVec w) : Bool := a &&& ~~~b == 0

def agreeOn {w : Nat} (a b care : BitVec w) : Bool := (a ^^^ b) &&& care == 0

theorem entails_iff {w : Nat} {a b : BitVec w} :
    entails a b = true ↔ ∀ i < w, a.getLsbD i = true → b.getLsbD i = true := by
  simp only [entails, beq_iff_eq]
  constructor
  · intro none i bound set
    have bit := congrArg (·.getLsbD i) none
    simpa [bound, set] using bit
  · intro all
    apply BitVec.eq_of_getLsbD_eq
    intro i bound
    cases set : a.getLsbD i
    · simp [set]
    · simp [set, all i bound set]

theorem agreeOn_iff {w : Nat} {a b care : BitVec w} :
    agreeOn a b care = true ↔
      ∀ i < w, care.getLsbD i = true → a.getLsbD i = b.getLsbD i := by
  simp only [agreeOn, beq_iff_eq]
  constructor
  · intro none i bound set
    have bit := congrArg (·.getLsbD i) none
    simp only [BitVec.getLsbD_and, BitVec.getLsbD_xor, set, Bool.and_true] at bit
    grind
  · intro all
    apply BitVec.eq_of_getLsbD_eq
    intro i bound
    cases set : care.getLsbD i
    · simp [set]
    · simp [set, all i bound set]

/-- The number of bits of a table has to fit a machine word. -/
def TruthTable.checkVars (n : Nat) : Except Fault Unit := ensure (n < 64) .outOfRange

end LogicOpt
