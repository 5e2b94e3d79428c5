import LogicOpt.Proofs.Runs
import LogicOpt.Proofs.Tables
import LogicOpt.TruthTable.Words

namespace LogicOpt

theorem wordBit_eq (w : UInt64) {k : Nat} (inside : k < 64) :
    wordBit w k = w.toBitVec.getLsbD k := by
  have bit : ((w >>> k.toUInt64) &&& 1).toNat = (w.toNat >>> k) &&& 1 := by
    have index : k.toUInt64.toNat = k := by
      simp only [Nat.toUInt64_eq, UInt64.toNat_ofNat']
      omega
    simp [index, Nat.mod_eq_of_lt inside]
  have test : w.toBitVec.getLsbD k = ((w.toNat >>> k) &&& 1 != 0) := by
    rw [BitVec.getLsbD, Nat.testBit, Nat.and_comm]
    rfl
  rw [test, ← bit, wordBit, Bool.eq_iff_iff, bne_iff_ne, bne_iff_ne, ne_eq, ne_eq,
    ← UInt64.toNat_inj]
  rfl

theorem eq_of_wordBit {v w : UInt64} (same : ∀ k < 64, wordBit v k = wordBit w k) : v = w := by
  apply UInt64.toBitVec_inj.1
  apply BitVec.eq_of_getLsbD_eq
  intro k inside
  rw [← wordBit_eq v inside, ← wordBit_eq w inside, same k inside]

@[simp]
theorem wordBit_zero (k : Nat) : wordBit 0 k = false := by
  simp [wordBit]

section

variable {k : Nat} (inside : k < 64)
include inside

theorem wordBit_and (v w : UInt64) : wordBit (v &&& w) k = (wordBit v k && wordBit w k) := by
  simp [wordBit_eq _ inside]

theorem wordBit_or (v w : UInt64) : wordBit (v ||| w) k = (wordBit v k || wordBit w k) := by
  simp [wordBit_eq _ inside]

theorem wordBit_xor (v w : UInt64) : wordBit (v ^^^ w) k = (wordBit v k ^^ wordBit w k) := by
  simp [wordBit_eq _ inside]

theorem wordBit_not (w : UInt64) : wordBit (~~~w) k = !wordBit w k := by
  simp [wordBit_eq _ inside, inside]

theorem wordBit_fullWord : wordBit fullWord k = true := by
  have full : fullWord.toBitVec = BitVec.allOnes 64 := by decide
  rw [wordBit_eq _ inside, full, BitVec.getLsbD_allOnes, decide_eq_true inside]

theorem wordBit_shifted {j : Nat} (inside' : j < 64) :
    wordBit ((1 : UInt64) <<< j.toUInt64) k = decide (k = j) := by
  have index : (j.toUInt64.toBitVec % 64).toNat = j := by
    simp only [BitVec.toNat_umod, UInt64.toNat_toBitVec, Nat.toUInt64_eq, UInt64.toNat_ofNat']
    change j % 2 ^ 64 % 64 = j
    omega
  rw [wordBit_eq _ inside, UInt64.toBitVec_shiftLeft, BitVec.shiftLeft_eq', index,
    BitVec.getLsbD_shiftLeft, UInt64.toBitVec_one, BitVec.getLsbD_one]
  simp only [inside, decide_true, Bool.true_and, Nat.reduceLT]
  by_cases same : k = j
  · simp [same]
  · simp only [same, decide_false, Bool.and_eq_false_iff, Bool.not_eq_false', decide_eq_true_eq,
      decide_eq_false_iff_not]
    omega

end

/-- An operation on words that does `f` on every bit, and keeps two zeros. -/
structure Bitwise (op : UInt64 → UInt64 → UInt64) (f : Bool → Bool → Bool) : Prop where
  bits : ∀ x y, ∀ k < 64, wordBit (op x y) k = f (wordBit x k) (wordBit y k)
  off : f false false = false

theorem bitwise_and : Bitwise (· &&& ·) (· && ·) :=
  ⟨fun x y _ inside => wordBit_and inside x y, rfl⟩

theorem bitwise_or : Bitwise (· ||| ·) (· || ·) :=
  ⟨fun x y _ inside => wordBit_or inside x y, rfl⟩

theorem bitwise_xor : Bitwise (· ^^^ ·) (· ^^ ·) :=
  ⟨fun x y _ inside => wordBit_xor inside x y, rfl⟩

theorem bitwise_andNot : Bitwise (fun x y => x &&& ~~~y) fun p q => p && !q where
  bits := fun x y k inside => by rw [wordBit_and inside, wordBit_not inside]
  off := rfl

namespace TruthTable

variable {t u : TruthTable} {n i : Nat}

theorem wordBit_tailMask {k : Nat} (inside : k < 64) :
    wordBit (tailMask n) k = decide (k < 2 ^ n) := by
  -- From six variables on the mask is full; below, the few cases are computed.
  by_cases wide : 6 ≤ n
  · have room : 2 ^ 6 ≤ 2 ^ n := Nat.pow_le_pow_right (by decide) wide
    rw [tailMask, if_pos wide, wordBit_fullWord inside, decide_eq_true (by omega)]
  · have small : ∀ n < 6, ∀ k < 64, wordBit (tailMask n) k = decide (k < 2 ^ n) := by
      decide +kernel
    exact small n (by omega) k inside

/-- A variable changes within a word or from one word to another. -/
theorem wordBit_variableWord (v k : Nat) {j : Nat} (inside : j < 64) :
    wordBit (variableWord v k) j = (64 * k + j).testBit v := by
  rw [show 64 * k + j = 2 ^ 6 * k + j from rfl, Nat.testBit_two_pow_mul_add k inside]
  by_cases early : v < 6
  · have masks : ∀ v < 6, ∀ j < 64, wordBit (variableMasks[v]?.getD 0) j = j.testBit v := by
      decide +kernel
    rw [variableWord, if_pos early, if_pos early, masks v early j inside]
  · rw [variableWord, if_neg early, if_neg early, Nat.testBit_eq_decide_div_mod_eq,
      Nat.shiftLeft_eq, Nat.one_mul]
    by_cases block : k / 2 ^ (v - 6) % 2 = 1
    · rw [if_pos block, wordBit_fullWord inside, decide_eq_true block]
    · rw [if_neg block, wordBit_zero, decide_eq_false block]

theorem wordCount_eq (n : Nat) : wordCount n = if n ≤ 6 then 1 else 2 ^ (n - 6) := by
  rw [wordCount, Nat.shiftLeft_eq, Nat.one_mul]

theorem wordCount_of_le (wide : 6 ≤ n) : 64 * wordCount n = 2 ^ n := by
  obtain ⟨m, rfl⟩ := Nat.exists_eq_add_of_le wide
  rw [wordCount_eq, Nat.pow_add]
  split
  · obtain rfl : m = 0 := by omega
    rfl
  · rw [Nat.add_sub_cancel_left]

theorem two_pow_le_bits (n : Nat) : 2 ^ n ≤ 64 * wordCount n := by
  rcases Nat.le_total 6 n with wide | narrow
  · exact (wordCount_of_le wide).ge
  · rw [wordCount_eq, if_pos narrow]
    exact Nat.pow_le_pow_right (by decide) narrow

/-- As many words as the variables need, and no bit set outside the table. -/
structure Packed (t : TruthTable) : Prop where
  length : t.words.length = wordCount t.numVars
  clear : ∀ i, 2 ^ t.numVars ≤ i → t.bit i = false

theorem bit_eq_false_of_le (outside : 64 * t.words.length ≤ i) : t.bit i = false := by
  rw [bit, List.getElem?_eq_none (by omega), Option.getD_none, wordBit_zero]

theorem bit_word (t : TruthTable) (k : Nat) {j : Nat} (inside : j < 64) :
    t.bit (64 * k + j) = wordBit (t.words[k]?.getD 0) j := by
  rw [bit, show (64 * k + j) / 64 = k by omega, show (64 * k + j) % 64 = j by omega]

theorem Packed.length_eq (packed : t.Packed) (packed' : u.Packed) (vars : t.numVars = u.numVars) :
    t.words.length = u.words.length := by
  rw [packed.length, packed'.length, vars]

theorem Packed.eq (packed : t.Packed) (packed' : u.Packed) (vars : t.numVars = u.numVars)
    (same : ∀ i < 2 ^ t.numVars, t.bit i = u.bit i) : t = u := by
  have everywhere : ∀ i, t.bit i = u.bit i := by
    intro i
    by_cases inside : i < 2 ^ t.numVars
    · exact same i inside
    · rw [packed.clear i (by omega), packed'.clear i (by rw [← vars]; omega)]
  have length := packed.length_eq packed' vars
  have words : t.words = u.words := by
    refine List.ext_getElem length fun k inside inside' => eq_of_wordBit fun j small => ?_
    simpa [bit_word _ _ small, inside, inside'] using everywhere (64 * k + j)
  cases t
  cases u
  simp_all

theorem bit_maskTail (length : t.words.length = wordCount t.numVars) (i : Nat) :
    t.maskTail.bit i = (decide (i < 2 ^ t.numVars) && t.bit i) := by
  have small : i % 64 < 64 := Nat.mod_lt i (by decide)
  by_cases outside : 64 * t.words.length ≤ i
  · rw [bit_eq_false_of_le outside, Bool.and_false, bit_eq_false_of_le]
    simpa [maskTail] using outside
  obtain ⟨w, there⟩ : ∃ w, t.words[i / 64]? = some w :=
    ⟨_, List.getElem?_eq_getElem (by omega)⟩
  simp only [bit, maskTail, List.getElem?_modify, there, Option.map_eq_map, Option.map_some,
    Option.getD_some]
  -- Whole words are used or there is a single one, so only the last word can lose bits.
  rcases Nat.le_total 6 t.numVars with wide | narrow
  · have inside : i < 2 ^ t.numVars := by
      rw [← wordCount_of_le wide]
      omega
    rw [decide_eq_true inside, Bool.true_and]
    split
    · rw [tailMask, if_pos wide, wordBit_and small, wordBit_fullWord small, Bool.and_true]
    · rfl
  · have single : t.words.length = 1 := by rw [length, wordCount_eq, if_pos narrow]
    rw [if_pos (by omega), wordBit_and small, wordBit_tailMask small, Bool.and_comm,
      Nat.mod_eq_of_lt (by omega)]

theorem packed_maskTail (length : t.words.length = wordCount t.numVars) : t.maskTail.Packed where
  length := by rw [maskTail, List.length_modify, length]
  clear := fun i outside => by
    have beyond : ¬i < 2 ^ t.numVars := Nat.not_lt.2 outside
    rw [bit_maskTail length, decide_eq_false beyond, Bool.false_and]

section

variable {a b c : TruthTable} {op : UInt64 → UInt64 → UInt64} {f : Bool → Bool → Bool}

theorem packed_const0 (n : Nat) : (const0 n).Packed where
  length := List.length_replicate
  clear := fun i _ => by simp [bit, const0, List.getElem?_replicate]; split <;> simp

@[simp]
theorem bit_const0 (n i : Nat) : (const0 n).bit i = false := by
  rw [bit, const0, List.getElem?_replicate]
  split <;> simp

theorem packed_const1 (n : Nat) : (const1 n).Packed := packed_maskTail List.length_replicate

theorem bit_const1 (inside : i < 2 ^ n) : (const1 n).bit i = true := by
  have room := two_pow_le_bits n
  rw [const1, bit_maskTail List.length_replicate, decide_eq_true inside, Bool.true_and, bit,
    List.getElem?_replicate, if_pos (by omega), Option.getD_some,
    wordBit_fullWord (Nat.mod_lt i (by decide))]

theorem packed_nthVar (n v : Nat) : (nthVar n v).Packed := packed_maskTail (by simp)

theorem bit_nthVar (v : Nat) (inside : i < 2 ^ n) : (nthVar n v).bit i = i.testBit v := by
  have room := two_pow_le_bits n
  rw [nthVar, bit_maskTail (by simp), decide_eq_true inside, Bool.true_and, bit,
    List.getElem?_map, List.getElem?_range (by omega), Option.map_some, Option.getD_some,
    wordBit_variableWord v _ (Nat.mod_lt i (by decide)), Nat.div_add_mod]

theorem bit_setBit (packed : t.Packed) (inside : i < 2 ^ t.numVars) (value : Bool) (j : Nat) :
    (t.setBit i value).bit j = if j = i then value else t.bit j := by
  have room := two_pow_le_bits t.numVars
  have small : j % 64 < 64 := Nat.mod_lt j (by decide)
  have shifted := wordBit_shifted small (Nat.mod_lt i (y := 64) (by decide))
  have length := packed.length
  simp only [bit, setBit, List.getElem?_modify]
  by_cases block : i / 64 = j / 64
  · obtain ⟨w, there⟩ : ∃ w, t.words[j / 64]? = some w :=
      ⟨_, List.getElem?_eq_getElem (by omega)⟩
    have same : j % 64 = i % 64 ↔ j = i := by omega
    simp only [there, block, if_true, Option.map_eq_map, Option.map_some, Option.getD_some]
    cases value
    · simp only [Bool.false_eq_true, if_false, wordBit_and small, wordBit_not small, shifted, same]
      by_cases eq : j = i <;> simp [eq]
    · simp only [if_true, wordBit_or small, shifted, same]
      by_cases eq : j = i <;> simp [eq]
  · rw [if_neg (by rintro rfl; exact block rfl)]
    simp [block]

theorem packed_setBit (packed : t.Packed) (inside : i < 2 ^ t.numVars) (value : Bool) :
    (t.setBit i value).Packed where
  length := by rw [setBit, List.length_modify, packed.length]
  clear := fun j outside => by
    have apart : j ≠ i := by
      rintro rfl
      exact absurd inside (Nat.not_lt.2 outside)
    rw [bit_setBit packed inside, if_neg apart, packed.clear j outside]

theorem bit_complement (packed : t.Packed) (inside : i < 2 ^ t.numVars) :
    t.complement.bit i = !t.bit i := by
  have room := two_pow_le_bits t.numVars
  have length := packed.length
  rw [complement, bit_maskTail (by simpa using length), decide_eq_true inside, Bool.true_and, bit,
    List.getElem?_map, List.getElem?_eq_getElem (by omega), Option.map_some, Option.getD_some,
    wordBit_not (Nat.mod_lt i (by decide)), bit, List.getElem?_eq_getElem, Option.getD_some]

theorem packed_complement (packed : t.Packed) : t.complement.Packed :=
  packed_maskTail (by simpa using packed.length)

theorem bit_zip (bitwise : Bitwise op f) (length : a.words.length = b.words.length) (i : Nat) :
    (a.zip op b).bit i = f (a.bit i) (b.bit i) := by
  have small : i % 64 < 64 := Nat.mod_lt i (by decide)
  rw [bit, bit, bit, zip, List.getElem?_zipWith]
  by_cases inside : i / 64 < a.words.length
  · rw [List.getElem?_eq_getElem inside, List.getElem?_eq_getElem (length ▸ inside)]
    exact bitwise.bits _ _ _ small
  · rw [List.getElem?_eq_none (by omega), List.getElem?_eq_none (by omega)]
    simp [bitwise.off]

theorem packed_zip (bitwise : Bitwise op f) (packed : a.Packed) (packed' : b.Packed)
    (vars : a.numVars = b.numVars) : (a.zip op b).Packed where
  length := by
    simp only [zip, List.length_zipWith, packed.length, packed'.length, vars, Nat.min_self]
  clear := fun i outside => by
    have length := packed.length_eq packed' vars
    rw [bit_zip bitwise length, packed.clear i outside, packed'.clear i (vars ▸ outside),
      bitwise.off]

theorem bit_maj (length : a.words.length = b.words.length)
    (length' : a.words.length = c.words.length) (i : Nat) :
    (maj a b c).bit i = (a.bit i && b.bit i || a.bit i && c.bit i || b.bit i && c.bit i) := by
  have small : i % 64 < 64 := Nat.mod_lt i (by decide)
  rw [bit, bit, bit, bit, maj, List.getElem?_zipWith, List.zip, List.getElem?_zipWith]
  by_cases inside : i / 64 < a.words.length
  · rw [List.getElem?_eq_getElem inside, List.getElem?_eq_getElem (length ▸ inside),
      List.getElem?_eq_getElem (length' ▸ inside)]
    simp only [Option.getD_some, wordBit_or small, wordBit_and small]
  · rw [List.getElem?_eq_none (by omega), List.getElem?_eq_none (by omega),
      List.getElem?_eq_none (by omega)]
    simp

theorem packed_maj (packed : a.Packed) (packed' : b.Packed) (packed'' : c.Packed)
    (vars : a.numVars = b.numVars) (vars' : a.numVars = c.numVars) : (maj a b c).Packed where
  length := by
    simp only [maj, List.length_zipWith, List.length_zip, packed.length, packed'.length,
      packed''.length, ← vars, ← vars', Nat.min_self]
  clear := fun i outside => by
    have length := packed.length_eq packed' vars
    have length' := packed.length_eq packed'' vars'
    rw [bit_maj length length', packed.clear i outside, packed'.clear i (vars ▸ outside),
      packed''.clear i (vars' ▸ outside)]
    rfl

theorem isConst0_iff (packed : t.Packed) :
    t.isConst0 = true ↔ ∀ i < 2 ^ t.numVars, t.bit i = false := by
  rw [isConst0, List.all_eq_true]
  constructor
  · intro zeros i _
    rw [bit]
    cases there : t.words[i / 64]? with
    | none => simp
    | some w =>
      have zero := zeros w (List.mem_of_getElem? there)
      rw [Option.getD_some, beq_iff_eq.1 zero, wordBit_zero]
  · intro off w member
    obtain ⟨k, there⟩ := List.mem_iff_getElem?.1 member
    rw [beq_iff_eq]
    refine eq_of_wordBit fun j small => ?_
    have bit := bit_word t k small
    rw [there, Option.getD_some] at bit
    rw [← bit, wordBit_zero]
    by_cases inside : 64 * k + j < 2 ^ t.numVars
    · exact off _ inside
    · exact packed.clear _ (by omega)

theorem isConst1_iff (packed : t.Packed) :
    t.isConst1 = true ↔ ∀ i < 2 ^ t.numVars, t.bit i = true := by
  rw [isConst1, beq_iff_eq]
  constructor
  · intro same i inside
    rw [same, bit_const1 inside]
  · intro on
    refine packed.eq (packed_const1 _) rfl fun i inside => ?_
    rw [on i inside, bit_const1 inside]

theorem implies_eq (a b : TruthTable) :
    a.implies b = (a.zip (fun x y => x &&& ~~~y) b).isConst0 := by
  rw [implies, isConst0, zip, ← List.map_uncurry_zip_eq_zipWith, List.all_map]
  rfl

theorem implies_iff (packed : a.Packed) (packed' : b.Packed) (vars : a.numVars = b.numVars) :
    a.implies b = true ↔ ∀ i < 2 ^ a.numVars, a.bit i = true → b.bit i = true := by
  have length := packed.length_eq packed' vars
  rw [implies_eq, isConst0_iff (packed_zip bitwise_andNot packed packed' vars)]
  refine forall₂_congr fun i _ => ?_
  rw [bit_zip bitwise_andNot length]
  cases a.bit i <;> simp

theorem equalOn_eq (a b care : TruthTable) :
    a.equalOn b care = ((a.zip (· ^^^ ·) b).zip (· &&& ·) care).isConst0 := by
  rw [equalOn, isConst0, zip, zip, ← List.map_uncurry_zip_eq_zipWith,
    ← List.map_uncurry_zip_eq_zipWith, List.zip_map_left, List.map_map, List.all_map]
  rfl

theorem equalOn_iff (packed : a.Packed) (packed' : b.Packed) (packed'' : c.Packed)
    (vars : a.numVars = b.numVars) (vars' : a.numVars = c.numVars) :
    a.equalOn b c = true ↔ ∀ i < 2 ^ a.numVars, c.bit i = true → a.bit i = b.bit i := by
  have packedXor := packed_zip bitwise_xor packed packed' vars
  have length := packed.length_eq packed' vars
  have length' := packedXor.length_eq packed'' vars'
  rw [equalOn_eq, isConst0_iff (packed_zip bitwise_and packedXor packed'' vars')]
  refine forall₂_congr fun i _ => ?_
  rw [bit_zip bitwise_and length', bit_zip bitwise_xor length]
  cases c.bit i <;> simp

theorem countP_words (ws : List UInt64) :
    (List.range (64 * ws.length)).countP (bit ⟨n, ws⟩) = (ws.map wordOnes).foldr (· + ·) 0 := by
  induction ws with
  | nil => rfl
  | cons w rest ih =>
    have first : (List.range 64).countP (bit ⟨n, w :: rest⟩) = wordOnes w := by
      refine List.countP_congr fun k member => ?_
      have small := List.mem_range.1 member
      rw [bit, Nat.div_eq_of_lt small, Nat.mod_eq_of_lt small]
      rfl
    have later : bit ⟨n, w :: rest⟩ ∘ (64 + ·) = bit ⟨n, rest⟩ := by
      funext i
      rw [Function.comp_apply, bit, bit, show (64 + i) / 64 = i / 64 + 1 by omega,
        Nat.add_mod_left, List.getElem?_cons_succ]
    rw [List.length_cons, Nat.mul_succ, Nat.add_comm, List.range_add, List.countP_append,
      List.countP_map, first, later, ih]
    rfl

theorem countP_packed (packed : t.Packed) :
    (List.range (64 * t.words.length)).countP t.bit = (List.range (2 ^ t.numVars)).countP t.bit := by
  obtain ⟨unused, bits⟩ := Nat.exists_eq_add_of_le (packed.length ▸ two_pow_le_bits t.numVars)
  rw [bits, List.range_add, List.countP_append, List.countP_map, Nat.add_eq_left,
    List.countP_eq_zero]
  intro i _
  rw [Function.comp_apply, packed.clear _ (Nat.le_add_right ..)]
  exact Bool.false_ne_true

theorem foldlM_ones (ws : List UInt64) {count : Nat}
    (room : count + (ws.map wordOnes).foldr (· + ·) 0 < 2 ^ 32) :
    ws.foldlM (fun count w => do
      ensure (count + wordOnes w < 0x100000000) .outOfRange
      return count + wordOnes w) count
      = (.ok (count + (ws.map wordOnes).foldr (· + ·) 0) : Except Fault Nat) := by
  induction ws generalizing count with
  | nil => rfl
  | cons w rest ih =>
    simp only [List.map_cons, List.foldr_cons] at room ⊢
    have fits : ensure (decide (count + wordOnes w < 0x100000000)) .outOfRange = .ok () := by
      rw [ensure_eq_ok, decide_eq_true_eq]
      omega
    rw [List.foldlM_cons, fits, ← Nat.add_assoc]
    exact ih (by omega)

theorem countOnes?_eq_ok (packed : t.Packed) (few : t.numVars < 32) :
    t.countOnes? = .ok ((List.range (2 ^ t.numVars)).countP t.bit) := by
  have bound : (List.range (2 ^ t.numVars)).countP t.bit ≤ 2 ^ t.numVars := by
    simpa using List.countP_le_length (p := t.bit) (l := List.range (2 ^ t.numVars))
  have room : 2 ^ t.numVars < 2 ^ 32 := Nat.pow_lt_pow_right (by decide) few
  have total := (countP_words (n := t.numVars) t.words).symm.trans (countP_packed packed)
  rw [countOnes?, foldlM_ones t.words (by rw [total]; exact Nat.zero_add _ ▸ bound.trans_lt room),
    total, Nat.zero_add]

end

theorem bit_ofTable (f : Table n) (i : Nat) : (ofTable f).bit i = f.getLsbD i := by
  have room := two_pow_le_bits n
  by_cases outside : wordCount n ≤ i / 64
  · have beyond : tableWidth n ≤ i := by
      rw [tableWidth_eq]
      omega
    rw [bit_eq_false_of_le (by simp [ofTable]; omega), BitVec.getLsbD_of_ge f i beyond]
  · have small : i % 64 < 64 := Nat.mod_lt i (by decide)
    rw [bit, ofTable, List.getElem?_map, List.getElem?_range (by omega), Option.map_some,
      Option.getD_some, wordBit_eq _ small, BitVec.getLsbD_extractLsb', decide_eq_true small,
      Bool.true_and, Nat.div_add_mod]

theorem packed_ofTable (f : Table n) : (ofTable f).Packed where
  length := by simp [ofTable]
  clear := fun i outside => by
    rw [bit_ofTable, BitVec.getLsbD_of_ge]
    rwa [tableWidth_eq]

theorem ofTable_zero (n : Nat) : ofTable (0 : Table n) = const0 n := by
  refine (packed_ofTable _).eq (packed_const0 n) rfl fun i _ => ?_
  rw [bit_ofTable, bit_const0]
  simp

theorem ofTable_projection {v : Nat} (known : v < n) : ofTable (projection n v) = nthVar n v := by
  refine (packed_ofTable _).eq (packed_nthVar n v) rfl fun i (inside : i < 2 ^ n) => ?_
  rw [bit_ofTable, bit_nthVar v inside, getLsbD_projection known (tableWidth_eq n ▸ inside)]

theorem ofTable_complement (f : Table n) : ofTable (~~~f) = (ofTable f).complement := by
  have packed := packed_ofTable f
  refine (packed_ofTable _).eq (packed_complement packed) rfl fun i (inside : i < 2 ^ n) => ?_
  rw [bit_complement packed inside, bit_ofTable, bit_ofTable, BitVec.getLsbD_not,
    decide_eq_true (tableWidth_eq n ▸ inside), Bool.true_and]

theorem ofTable_zip {op : UInt64 → UInt64 → UInt64} {f : Bool → Bool → Bool}
    (bitwise : Bitwise op f) {x y z : Table n}
    (bits : ∀ i, z.getLsbD i = f (x.getLsbD i) (y.getLsbD i)) :
    ofTable z = (ofTable x).zip op (ofTable y) := by
  refine (packed_ofTable z).eq (packed_zip bitwise (packed_ofTable x) (packed_ofTable y) rfl) rfl
    fun i _ => ?_
  rw [bit_zip bitwise (by simp [ofTable]), bit_ofTable, bit_ofTable, bit_ofTable, bits]

theorem ofTable_maj (x y z : Table n) :
    ofTable (x &&& y ||| x &&& z ||| y &&& z) = maj (ofTable x) (ofTable y) (ofTable z) := by
  refine (packed_ofTable _).eq
    (packed_maj (packed_ofTable x) (packed_ofTable y) (packed_ofTable z) rfl rfl) rfl fun i _ => ?_
  rw [bit_maj (by simp [ofTable]) (by simp [ofTable])]
  simp only [bit_ofTable, BitVec.getLsbD_or, BitVec.getLsbD_and]

end TruthTable

end LogicOpt
