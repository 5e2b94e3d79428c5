import LogicOpt.TruthTable.Basic

/-!
Truth tables as words. The values of a function are packed into 64-bit words, the lowest bits first.
A table over fewer than six variables is a single word whose unused high bits are kept at zero, so
that equality of tables is equality of their words.
-/

namespace LogicOpt

def wordBit (w : UInt64) (k : Nat) : Bool := (w >>> k.toUInt64) &&& 1 != 0

def wordOnes (w : UInt64) : Nat := (List.range 64).countP (wordBit w)

def fullWord : UInt64 := 0xFFFFFFFFFFFFFFFF

/-- A function of `numVars` variables, packed into words. -/
structure TruthTable where
  numVars : Nat
  words : List UInt64
deriving DecidableEq

namespace TruthTable

def wordCount (n : Nat) : Nat := if n ≤ 6 then 1 else 1 <<< (n - 6)

def tailMask (n : Nat) : UInt64 :=
  if 6 ≤ n then fullWord else ((1 : UInt64) <<< (1 <<< n : Nat).toUInt64) - 1

def maskTail (t : TruthTable) : TruthTable :=
  ⟨t.numVars, t.words.modify (t.words.length - 1) (· &&& tailMask t.numVars)⟩

def const0 (n : Nat) : TruthTable := ⟨n, List.replicate (wordCount n) 0⟩

def const1 (n : Nat) : TruthTable := maskTail ⟨n, List.replicate (wordCount n) fullWord⟩

/-- The words of the first six variables, each of them over all of the word. -/
def variableMasks : List UInt64 :=
  [0xAAAAAAAAAAAAAAAA, 0xCCCCCCCCCCCCCCCC, 0xF0F0F0F0F0F0F0F0, 0xFF00FF00FF00FF00,
    0xFFFF0000FFFF0000, 0xFFFFFFFF00000000]

/-- Word `k` of variable `v`: the first six variables change within a word, a later one from one
    block of words to the next. -/
def variableWord (v k : Nat) : UInt64 :=
  if v < 6 then variableMasks[v]?.getD 0
  else if k / (1 <<< (v - 6)) % 2 = 1 then fullWord else 0

def nthVar (n v : Nat) : TruthTable :=
  maskTail ⟨n, (List.range (wordCount n)).map (variableWord v)⟩

def numBits (t : TruthTable) : Nat := tableWidth t.numVars

def bit (t : TruthTable) (i : Nat) : Bool := wordBit (t.words[i / 64]?.getD 0) (i % 64)

def setBit (t : TruthTable) (i : Nat) (value : Bool) : TruthTable :=
  let mask : UInt64 := 1 <<< (i % 64).toUInt64
  ⟨t.numVars, t.words.modify (i / 64) fun w => if value then w ||| mask else w &&& ~~~mask⟩

def complement (t : TruthTable) : TruthTable := maskTail ⟨t.numVars, t.words.map (~~~·)⟩

def zip (op : UInt64 → UInt64 → UInt64) (a b : TruthTable) : TruthTable :=
  ⟨a.numVars, List.zipWith op a.words b.words⟩

def maj (a b c : TruthTable) : TruthTable :=
  ⟨a.numVars,
    List.zipWith (fun (x, y) z => (x &&& y) ||| (x &&& z) ||| (y &&& z)) (a.words.zip b.words)
      c.words⟩

def alike (a b : TruthTable) : Bool := a.numVars == b.numVars

instance : GateValue TruthTable where
  complement := complement
  and2 := zip (· &&& ·)
  xor2 := zip (· ^^^ ·)
  maj3 := maj
  alike := alike

def isConst0 (t : TruthTable) : Bool := t.words.all (· == 0)

def isConst1 (t : TruthTable) : Bool := t == const1 t.numVars

def implies (a b : TruthTable) : Bool := (a.words.zip b.words).all fun (x, y) => x &&& ~~~y == 0

def equalOn (a b care : TruthTable) : Bool :=
  ((a.words.zip b.words).zip care.words).all fun ((x, y), z) => (x ^^^ y) &&& z == 0

def constant? (n : Nat) (value : Bool) : Except Fault TruthTable := do
  checkVars n
  return if value then const1 n else const0 n

def nthVar? (n v : Nat) : Except Fault TruthTable := do
  ensure (v < n) (.variableOutOfRange v n)
  checkVars n
  return nthVar n v

def or? (a b : TruthTable) : Except Fault TruthTable :=
  if a.alike b then .ok (a.zip (· ||| ·) b) else .error .tableMismatch

def implies? (a b : TruthTable) : Except Fault Bool :=
  if a.alike b then .ok (a.implies b) else .error .outOfRange

def equalOn? (a b care : TruthTable) : Except Fault Bool :=
  if a.alike b && a.alike care then .ok (a.equalOn b care) else .error .outOfRange

def bit? (t : TruthTable) (i : Nat) : Except Fault Bool :=
  if i < t.numBits then .ok (t.bit i) else .error .outOfRange

def setBit? (t : TruthTable) (i : Nat) (value : Bool) : Except Fault TruthTable :=
  if i < t.numBits then .ok (t.setBit i value) else .error .outOfRange

/-- The set bits are counted in 32 bits; a count that does not fit is refused. -/
def countOnes? (t : TruthTable) : Except Fault Nat :=
  t.words.foldlM (fun count w => do
    ensure (count + wordOnes w < 0x100000000) .outOfRange
    return count + wordOnes w) 0

def ofTable {n : Nat} (f : Table n) : TruthTable :=
  ⟨n, (List.range (wordCount n)).map fun k => UInt64.ofBitVec (f.extractLsb' (64 * k) 64)⟩

def value (t : TruthTable) : Nat := t.words.foldr (fun w rest => rest <<< 64 ||| w.toNat) 0

def bitsOver (t : TruthTable) (n : Nat) : Table n := BitVec.ofNat _ t.value

end TruthTable

end LogicOpt
