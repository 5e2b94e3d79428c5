import LogicOpt.Fault

/-!
Reusable node marks. Every traversal has a number, and a node is marked when it carries the number
of the current one, so nothing is cleared between traversals. No stamp ever exceeds the current
number; when the numbers run out, all stamps are cleared and counting starts again at 1.
-/

namespace LogicOpt

structure Marks where
  current : UInt32
  stamps : Array UInt32
  stamp_le : ∀ s ∈ stamps, s ≤ current

namespace Marks

def empty : Marks := ⟨0, #[], by simp⟩

/-- The stamp of a node; nodes past the end were never marked. -/
def stamp (m : Marks) (n : Nat) : UInt32 := m.stamps[n]?.getD 0

def newTraversal (m : Marks) : Marks :=
  if h : m.current + 1 = 0 then
    ⟨1, Array.replicate m.stamps.size 0, by simp⟩
  else
    ⟨m.current + 1, m.stamps, by
      intro s hs
      have bound := m.stamp_le s hs
      rw [UInt32.le_iff_toNat_le] at bound ⊢
      have nonzero : (m.current + 1).toNat ≠ 0 :=
        fun hz => h (UInt32.toNat_inj.1 (by simpa using hz))
      rw [UInt32.toNat_add] at nonzero ⊢
      have := m.current.toNat_lt
      simp only [UInt32.reduceToNat] at nonzero ⊢
      omega⟩

def grown (m : Marks) (n : Nat) : Array UInt32 :=
  m.stamps ++ Array.replicate (n + 1 - m.stamps.size) 0

theorem grown_le (m : Marks) (n : Nat) : ∀ s ∈ m.grown n, s ≤ m.current := by
  intro s hs
  rcases Array.mem_append.1 hs with hs | hs
  · exact m.stamp_le s hs
  · have zero : s = 0 := (Array.mem_replicate.1 hs).2
    simp [zero]

def isFresh (m : Marks) (n : Nat) : Bool := m.stamp n != m.current

def mark (m : Marks) (n : Nat) : Marks :=
  ⟨m.current, (m.grown n).setIfInBounds n m.current, by
    intro s hs
    rcases Array.mem_or_eq_of_mem_setIfInBounds hs with hs | rfl
    · exact m.grown_le n s hs
    · exact UInt32.le_refl _⟩

def unmark (m : Marks) (n : Nat) : Marks :=
  ⟨m.current, m.stamps.setIfInBounds n 0, by
    intro s hs
    rcases Array.mem_or_eq_of_mem_setIfInBounds hs with hs | rfl
    · exact m.stamp_le s hs
    · simp⟩

def isMarked (m : Marks) (n : Nat) : Bool := m.current != 0 && m.stamps[n]? == some m.current

theorem current_newTraversal_ne_zero (m : Marks) : m.newTraversal.current ≠ 0 := by
  unfold newTraversal
  split
  · simp
  · assumption

theorem isMarked_newTraversal (m : Marks) (n : Nat) : m.newTraversal.isMarked n = false := by
  unfold newTraversal
  split
  · simp only [isMarked, Array.getElem?_replicate]
    split <;> simp
  · rename_i h
    simp only [isMarked]
    cases slot : m.stamps[n]? with
    | none => simp
    | some s =>
      have bound := UInt32.le_iff_toNat_le.1 (m.stamp_le s (Array.mem_of_getElem? slot))
      have differ : s ≠ m.current + 1 := by
        intro same
        have nonzero : (m.current + 1).toNat ≠ 0 :=
          fun hz => h (UInt32.toNat_inj.1 (by simpa using hz))
        rw [same, UInt32.toNat_add] at bound
        rw [UInt32.toNat_add] at nonzero
        have := m.current.toNat_lt
        simp only [UInt32.reduceToNat] at bound nonzero
        omega
      simp [differ]

theorem isFresh_eq_not_isMarked {m : Marks} (started : m.current ≠ 0) (n : Nat) :
    m.isFresh n = !m.isMarked n := by
  cases slot : m.stamps[n]? <;> simp [isFresh, isMarked, stamp, slot, started, bne]
  exact fun h => started h.symm

theorem isMarked_mark {m : Marks} (started : m.current ≠ 0) (a n : Nat) :
    (m.mark a).isMarked n = (n == a || m.isMarked n) := by
  have size : a < (m.grown a).size := by simp [grown]; omega
  by_cases same : n = a
  · subst same
    simp [isMarked, mark, started, size]
  · have apart : a ≠ n := fun h => same h.symm
    simp only [isMarked, mark, Array.getElem?_setIfInBounds, apart, ↓reduceIte]
    by_cases inside : n < m.stamps.size
    · simp [grown, Array.getElem?_append, inside, same]
    · simp only [grown, Array.getElem?_append, inside, ↓reduceIte, Array.getElem?_replicate]
      have zero : ((0 : UInt32) == m.current) = false := beq_eq_false_iff_ne.2 started.symm
      split <;> simp [same, inside, zero]

theorem isMarked_unmark {m : Marks} (started : m.current ≠ 0) (a n : Nat) :
    (m.unmark a).isMarked n = (n != a && m.isMarked n) := by
  by_cases same : n = a
  · subst same
    simp only [isMarked, unmark, Array.getElem?_setIfInBounds, ↓reduceIte]
    split <;> simp [started.symm]
  · have apart : a ≠ n := fun h => same h.symm
    simp [isMarked, unmark, apart, same]

def markAll (m : Marks) (nodes : List Nat) : Marks := nodes.foldl mark m

/-- Nodes from here on are refused: their stamps, four bytes each, would fill `2 ^ 63` bytes. -/
def nodeLimit : Nat := 0x1fffffffffffffff

def requireRoom (nodes : List Nat) : Except Fault Unit :=
  ensure (nodes.all (· < nodeLimit)) .outOfRange

/-- Marks a node that a caller names, and tells whether it was fresh. -/
def visit (m : Marks) (n : Nat) : Except Fault (Bool × Marks) := do
  requireRoom [n]
  return (m.isFresh n, m.mark n)

theorem requireRoom_eq_ok_iff (nodes : List Nat) :
    requireRoom nodes = .ok () ↔ ∀ n ∈ nodes, n < nodeLimit := by
  unfold requireRoom ensure
  split
  · rename_i room
    simpa using room
  · rename_i room
    simpa using room

theorem visit_eq_ok {m : Marks} {n : Nat} (room : n < nodeLimit) :
    m.visit n = .ok (m.isFresh n, m.mark n) := by
  have passed : requireRoom [n] = .ok () := (requireRoom_eq_ok_iff [n]).2 (by simpa using room)
  rw [visit, passed]
  rfl

end Marks

end LogicOpt
