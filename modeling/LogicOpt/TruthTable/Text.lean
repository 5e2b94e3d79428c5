import LogicOpt.TruthTable.Words

namespace LogicOpt

def hexDigits : (count : Nat) → Nat → List Char
  | 0, _ => []
  | count + 1, value => hexDigits count (value / 16) ++ [Nat.digitChar (value % 16)]

theorem length_hexDigits (count value : Nat) : (hexDigits count value).length = count := by
  induction count generalizing value with
  | zero => rfl
  | succ count ih => simp [hexDigits, ih]

def hexWord (w : UInt64) : String := "0x" ++ String.ofList (Nat.toDigits 16 w.toNat)

namespace TruthTable

def digitsPerWord (n : Nat) : Nat := min 16 (max 1 (tableWidth n / 4))

def digits (t : TruthTable) : List Char :=
  t.words.reverse.flatMap fun w => hexDigits (digitsPerWord t.numVars) w.toNat

def text (t : TruthTable) : String :=
  "TruthTable(" ++ toString t.numVars ++ ": 0x" ++ String.ofList t.digits ++ ")"

def hexValue? (c : Char) : Option Nat :=
  if '0' ≤ c ∧ c ≤ '9' then some (c.toNat - '0'.toNat)
  else if 'a' ≤ c ∧ c ≤ 'f' then some (c.toNat - 'a'.toNat + 10)
  else if 'A' ≤ c ∧ c ≤ 'F' then some (c.toNat - 'A'.toNat + 10)
  else none

def hexNumber? (digits : List Char) : Option Nat :=
  digits.foldlM (fun value c => (hexValue? c).map (16 * value + ·)) 0

def ofNat (n value : Nat) : TruthTable := ofTable (BitVec.ofNat (tableWidth n) value)

end TruthTable

end LogicOpt
