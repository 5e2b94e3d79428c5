import LogicOpt.Proofs.TableAlgebra
import LogicOpt.TruthTable.Text
import Mathlib.Algebra.BigOperators.Ring.Finset
import Mathlib.Tactic.Ring

namespace LogicOpt

theorem eq_sum_testBit {value width : Nat} (below : value < 2 ^ width) :
    value = ∑ i ∈ Finset.range width, if value.testBit i then 2 ^ i else 0 := by
  induction width generalizing value with
  | zero => simpa using below
  | succ width ih =>
    have half : value / 2 =
        ∑ i ∈ Finset.range width, if value.testBit (i + 1) then 2 ^ i else 0 := by
      have smaller : value / 2 < 2 ^ width := by
        rw [Nat.pow_succ] at below
        omega
      simpa only [Nat.testBit_succ] using ih smaller
    have lowest : (if value.testBit 0 then 2 ^ 0 else 0) = value % 2 := by
      rw [Nat.testBit_zero]
      rcases Nat.mod_two_eq_zero_or_one value with even | odd
      · simp [even]
      · simp [odd]
    have doubled : ∑ i ∈ Finset.range width, (if value.testBit (i + 1) then 2 ^ (i + 1) else 0) =
        2 * (value / 2) := by
      rw [half, Finset.mul_sum]
      exact Finset.sum_congr rfl fun i _ => by split <;> ring
    rw [Finset.sum_range_succ', doubled, lowest]
    omega

theorem hexDigits_lower {c : Char} {count value : Nat} (digit : c ∈ hexDigits count value) :
    c ∈ "0123456789abcdef".toList := by
  have each : ∀ d < 16, Nat.digitChar d ∈ "0123456789abcdef".toList := by decide
  induction count generalizing value with
  | zero => simp [hexDigits] at digit
  | succ count ih =>
    rcases List.mem_append.1 digit with before | last
    · exact ih before
    · rw [List.mem_singleton.1 last]
      exact each _ (Nat.mod_lt _ (by decide))

namespace TruthTable

variable {t u : TruthTable} {n m : Nat}

theorem hexValue?_digitChar : ∀ d < 16, hexValue? (Nat.digitChar d) = some d := by
  decide

/-- One more digit of a numeral, after the number that the digits before it denote. -/
def extend? (value : Nat) (c : Char) : Option Nat := (hexValue? c).map (16 * value + ·)

theorem foldlM_hexDigits (count value before : Nat) :
    (hexDigits count value).foldlM extend? before =
      some (16 ^ count * before + value % 16 ^ count) := by
  induction count generalizing value with
  | zero => simp [hexDigits, Nat.mod_one]
  | succ count ih =>
    have last := hexValue?_digitChar (value % 16) (Nat.mod_lt _ (by decide))
    have split : value % 16 ^ (count + 1) = value % 16 + 16 * (value / 16 % 16 ^ count) := by
      rw [Nat.pow_succ, Nat.mul_comm, Nat.mod_mul]
    simp only [hexDigits, List.foldlM_append, ih, Option.bind_eq_bind, Option.bind_some,
      List.foldlM_cons, List.foldlM_nil, extend?, last, Option.map_some, Option.pure_def,
      Option.some.injEq, split]
    ring

theorem foldlM_words (count : Nat) (words : List UInt64) :
    (words.reverse.flatMap fun w => hexDigits count w.toNat).foldlM extend? 0 =
      some (words.foldr (fun w rest => 16 ^ count * rest + w.toNat % 16 ^ count) 0) := by
  induction words with
  | nil => rfl
  | cons w words ih =>
    simp [List.flatMap_append, List.foldlM_append, ih, foldlM_hexDigits]

theorem value_cons (w : UInt64) (words : List UInt64) :
    value ⟨n, w :: words⟩ = 2 ^ 64 * value ⟨m, words⟩ + w.toNat := by
  rw [Nat.mul_comm, ← Nat.shiftLeft_eq, Nat.shiftLeft_add_eq_or_of_lt w.toNat_lt]
  rfl

theorem testBit_value (t : TruthTable) (i : Nat) : t.value.testBit i = t.bit i := by
  obtain ⟨n, words⟩ := t
  induction words generalizing i with
  | nil => simp [value, bit]
  | cons w words ih =>
    rw [value_cons (m := n), Nat.testBit_two_pow_mul_add _ w.toNat_lt]
    by_cases low : i < 64
    · rw [if_pos low, bit, Nat.div_eq_of_lt low, Nat.mod_eq_of_lt low, wordBit_eq _ low]
      rfl
    · rw [if_neg low, ih, bit, bit, show i / 64 = (i - 64) / 64 + 1 by omega,
        show i % 64 = (i - 64) % 64 by omega, List.getElem?_cons_succ]

theorem Packed.value_lt (packed : t.Packed) : t.value < 2 ^ 2 ^ t.numVars :=
  Nat.lt_pow_two_of_testBit _ fun i outside => by rw [testBit_value, packed.clear i outside]

theorem Packed.value_eq (packed : t.Packed) :
    t.value = ∑ i ∈ Finset.range (2 ^ t.numVars), if t.bit i then 2 ^ i else 0 := by
  simpa only [testBit_value] using eq_sum_testBit packed.value_lt

theorem Packed.length_digits (packed : t.Packed) :
    t.digits.length = max 1 (2 ^ t.numVars / 4) := by
  have length : t.digits.length = wordCount t.numVars * digitsPerWord t.numVars := by
    simp [digits, length_hexDigits, packed.length]
  rw [length, digitsPerWord, tableWidth_eq]
  rcases Nat.le_total 6 t.numVars with wide | narrow
  · have whole := wordCount_of_le wide
    have room : 2 ^ 6 ≤ 2 ^ t.numVars := Nat.pow_le_pow_right (by decide) wide
    rw [Nat.min_eq_left (by omega), ← whole]
    omega
  · have room : 2 ^ t.numVars ≤ 2 ^ 6 := Nat.pow_le_pow_right (by decide) narrow
    rw [wordCount_eq, if_pos narrow]
    omega

theorem Packed.hexNumber?_digits (packed : t.Packed) : hexNumber? t.digits = some t.value := by
  refine (foldlM_words _ t.words).trans (congrArg some ?_)
  rcases Nat.lt_or_ge t.numVars 6 with narrow | wide
  · -- A table below one word has one word, and its number fits the digits of that word.
    have single : t.words.length = 1 := by
      rw [packed.length, wordCount_eq, if_pos narrow.le]
    obtain ⟨w, only⟩ := List.length_eq_one_iff.1 single
    have number : t.value = w.toNat := by simp [value, only]
    have fits : ∀ n < 6, 2 ^ 2 ^ n ≤ 16 ^ digitsPerWord n := by decide
    have below : w.toNat < 16 ^ digitsPerWord t.numVars :=
      number ▸ packed.value_lt.trans_le (fits _ narrow)
    rw [number, only, List.foldr_cons, List.foldr_nil, Nat.mul_zero, Nat.zero_add,
      Nat.mod_eq_of_lt below]
  · have room : 2 ^ 6 ≤ 2 ^ t.numVars := Nat.pow_le_pow_right (by decide) wide
    have full : digitsPerWord t.numVars = 16 := by
      rw [digitsPerWord, tableWidth_eq]
      omega
    rw [full, value]
    refine congrArg (fun step => t.words.foldr step 0) (funext₂ fun w rest => ?_)
    rw [show 16 ^ 16 = 2 ^ 64 from rfl, Nat.mod_eq_of_lt w.toNat_lt,
      ← Nat.shiftLeft_add_eq_or_of_lt w.toNat_lt, Nat.shiftLeft_eq, Nat.mul_comm]

theorem takeWhile_digits (n : Nat) (rest : List Char) :
    (Nat.toDigits 10 n ++ ':' :: rest).takeWhile Char.isDigit = Nat.toDigits 10 n := by
  rw [List.takeWhile_append_of_pos fun c digit =>
    Nat.isDigit_of_mem_toDigits (by decide) (by decide) digit]
  simp [Char.isDigit]

theorem text_inj (same : t.text = u.text) : t.numVars = u.numVars ∧ t.digits = u.digits := by
  have chars : Nat.toDigits 10 t.numVars ++ ':' :: ' ' :: '0' :: 'x' :: (t.digits ++ [')']) =
      Nat.toDigits 10 u.numVars ++ ':' :: ' ' :: '0' :: 'x' :: (u.digits ++ [')']) := by
    simpa [text, Nat.toString_eq_repr, Nat.repr_eq_ofList_toDigits] using congrArg String.toList same
  have vars : Nat.toDigits 10 t.numVars = Nat.toDigits 10 u.numVars := by
    simpa only [takeWhile_digits] using congrArg (List.takeWhile Char.isDigit) chars
  constructor
  · rw [← Nat.ofDigitChars_toDigits (by decide) (by decide) (n := t.numVars) (b := 10), vars,
      Nat.ofDigitChars_toDigits (by decide) (by decide)]
  · simpa [vars] using chars

theorem Packed.eq_of_text (packed : t.Packed) (packed' : u.Packed) (same : t.text = u.text) :
    t = u := by
  obtain ⟨vars, digits⟩ := text_inj same
  have number : t.value = u.value := Option.some.inj <| by
    rw [← packed.hexNumber?_digits, ← packed'.hexNumber?_digits, digits]
  exact packed.eq packed' vars fun i _ => by rw [← testBit_value, ← testBit_value, number]

/-- The text of a table: its variables, and the numeral of its bits. No other table has it. -/
theorem text_numeral (made : BuiltOver n t) :
    ∃ digits : List Char,
      t.text = "TruthTable(" ++ toString n ++ ": 0x" ++ String.ofList digits ++ ")" ∧
      digits.length = max 1 (2 ^ n / 4) ∧
      (∀ c ∈ digits, c ∈ "0123456789abcdef".toList) ∧
      hexNumber? digits = some (∑ i ∈ Finset.range (2 ^ n), if t.bit i then 2 ^ i else 0) ∧
      ∀ m u, BuiltOver m u → (t.text = u.text ↔ t = u) := by
  obtain ⟨built, rfl⟩ := made
  have packed := built.packed
  refine ⟨t.digits, rfl, packed.length_digits, fun c digit => ?_, ?_, fun m u made' => ?_⟩
  · obtain ⟨w, -, inside⟩ := List.mem_flatMap.1 digit
    exact hexDigits_lower inside
  · rw [packed.hexNumber?_digits, packed.value_eq]
  · exact ⟨packed.eq_of_text made'.built.packed, congrArg text⟩

/-- Two words are written with the higher one first. -/
theorem text_of_two_words :
    BuiltOver 7 (nthVar 7 6) ∧
      (nthVar 7 6).text = "TruthTable(7: 0xffffffffffffffff0000000000000000)" ∧
      ∃ digits : List Char,
        (nthVar 7 6).text = "TruthTable(" ++ toString 7 ++ ": 0x" ++ String.ofList digits ++ ")" ∧
        digits.length = 32 :=
  have made : BuiltOver 7 (nthVar 7 6) :=
    ⟨.nthVar (nthVar?_eq_ok.2 ⟨by decide, by decide, rfl⟩), rfl⟩
  have ⟨digits, shape, length, _⟩ := text_numeral made
  ⟨made, by decide +kernel, digits, shape, length⟩

end TruthTable

end LogicOpt
