import LogicOpt.Proofs.WordTables

namespace LogicOpt

namespace TruthTable

variable {t u a b c : TruthTable} {n i : Nat}

theorem constant?_eq_ok {value : Bool} :
    constant? n value = .ok t ↔ n < 64 ∧ (if value then const1 n else const0 n) = t := by
  by_cases few : n < 64 <;> simp [constant?, checkVars, ensure, few, bind, Except.bind, pure,
    Except.pure]

theorem nthVar?_eq_ok {v : Nat} :
    nthVar? n v = .ok t ↔ v < n ∧ n < 64 ∧ nthVar n v = t := by
  by_cases known : v < n <;> by_cases few : n < 64 <;>
    simp [nthVar?, checkVars, ensure, known, few, bind, Except.bind, pure, Except.pure]

theorem setBit?_eq_ok {value : Bool} :
    t.setBit? i value = .ok u ↔ i < 2 ^ t.numVars ∧ t.setBit i value = u := by
  rw [setBit?, numBits, tableWidth_eq]
  split <;> simp [*]

theorem or?_eq_ok : a.or? b = .ok t ↔ a.numVars = b.numVars ∧ a.zip (· ||| ·) b = t := by
  rw [or?, alike]
  split <;> simp_all

theorem vars_of_apply {g : Gate TruthTable} (run : g.apply = .ok t) :
    ∀ a ∈ g.operands, a.numVars = t.numVars := by
  cases g with
  | and2 a b =>
    by_cases same : a.numVars = b.numVars
    · simp only [Gate.apply, GateValue.alike, alike, same, beq_self_eq_true, if_true,
        Except.ok.injEq] at run
      simp [← run, Gate.operands, GateValue.and2, zip, same]
    · simp [Gate.apply, GateValue.alike, alike, same] at run
  | xor2 a b =>
    by_cases same : a.numVars = b.numVars
    · simp only [Gate.apply, GateValue.alike, alike, same, beq_self_eq_true, if_true,
        Except.ok.injEq] at run
      simp [← run, Gate.operands, GateValue.xor2, zip, same]
    · simp [Gate.apply, GateValue.alike, alike, same] at run
  | maj3 a b c =>
    by_cases same : a.numVars = b.numVars ∧ a.numVars = c.numVars
    · simp only [Gate.apply, GateValue.alike, alike, ← same.1, ← same.2, beq_self_eq_true,
        Bool.and_self, if_true, Except.ok.injEq] at run
      simp [← run, Gate.operands, GateValue.maj3, maj, ← same.1, ← same.2]
    · simp [Gate.apply, GateValue.alike, alike, same] at run

theorem apply_packed {g : Gate TruthTable}
    (operands : ∀ a ∈ g.operands, a.Packed ∧ a.numVars = n) :
    ∃ t, g.apply = .ok t ∧ (t.Packed ∧ t.numVars = n) ∧
      ∀ i, t.bit i = (g.map (·.bit i)).eval := by
  cases g with
  | and2 a b =>
    obtain ⟨⟨packed, vars⟩, packed', vars'⟩ :
        (a.Packed ∧ a.numVars = n) ∧ b.Packed ∧ b.numVars = n := by
      simpa [Gate.operands] using operands
    have same : a.numVars = b.numVars := vars.trans vars'.symm
    have length := packed.length_eq packed' same
    exact ⟨a.zip (· &&& ·) b, by simp [Gate.apply, GateValue.alike, alike, same, GateValue.and2],
      ⟨packed_zip bitwise_and packed packed' same, vars⟩, bit_zip bitwise_and length⟩
  | xor2 a b =>
    obtain ⟨⟨packed, vars⟩, packed', vars'⟩ :
        (a.Packed ∧ a.numVars = n) ∧ b.Packed ∧ b.numVars = n := by
      simpa [Gate.operands] using operands
    have same : a.numVars = b.numVars := vars.trans vars'.symm
    have length := packed.length_eq packed' same
    exact ⟨a.zip (· ^^^ ·) b, by simp [Gate.apply, GateValue.alike, alike, same, GateValue.xor2],
      ⟨packed_zip bitwise_xor packed packed' same, vars⟩, bit_zip bitwise_xor length⟩
  | maj3 a b c =>
    obtain ⟨⟨packed, vars⟩, ⟨packed', vars'⟩, packed'', vars''⟩ :
        (a.Packed ∧ a.numVars = n) ∧ (b.Packed ∧ b.numVars = n) ∧ c.Packed ∧ c.numVars = n := by
      simpa [Gate.operands] using operands
    have same : a.numVars = b.numVars := vars.trans vars'.symm
    have same' : a.numVars = c.numVars := vars.trans vars''.symm
    have length := packed.length_eq packed' same
    have length' := packed.length_eq packed'' same'
    exact ⟨maj a b c,
      by simp [Gate.apply, GateValue.alike, alike, ← same, ← same', GateValue.maj3],
      ⟨packed_maj packed packed' packed'' same same', vars⟩, bit_maj length length'⟩

theorem packed_complementIf (packed : t.Packed) (flip : Bool) :
    Packed (GateValue.complementIf t flip) := by
  cases flip
  · exact packed
  · exact packed_complement packed

/-- The tables made from constants and variables by operations that succeed. -/
inductive Built : TruthTable → Prop
  | constant {n : Nat} {value : Bool} {t : TruthTable} (run : constant? n value = .ok t) : Built t
  | nthVar {n v : Nat} {t : TruthTable} (run : nthVar? n v = .ok t) : Built t
  | setBit {t u : TruthTable} {i : Nat} {value : Bool} (built : Built t)
      (run : t.setBit? i value = .ok u) : Built u
  | complement {t : TruthTable} (built : Built t) : Built t.complement
  | complementIf {t : TruthTable} (built : Built t) (flip : Bool) :
      Built (GateValue.complementIf t flip)
  | or {a b t : TruthTable} (left : Built a) (right : Built b) (run : a.or? b = .ok t) : Built t
  | gate {g : Gate TruthTable} {t : TruthTable} (operands : ∀ a ∈ g.operands, Built a)
      (run : g.apply = .ok t) : Built t

theorem Built.packed (built : Built t) : t.Packed := by
  induction built with
  | @constant n value t run =>
    obtain ⟨-, rfl⟩ := constant?_eq_ok.1 run
    cases value
    · exact packed_const0 n
    · exact packed_const1 n
  | nthVar run =>
    obtain ⟨-, -, rfl⟩ := nthVar?_eq_ok.1 run
    exact packed_nthVar _ _
  | setBit built run ih =>
    obtain ⟨inside, rfl⟩ := setBit?_eq_ok.1 run
    exact packed_setBit ih inside _
  | complement built ih => exact packed_complement ih
  | complementIf built flip ih => exact packed_complementIf ih flip
  | or left right run ih ih' =>
    obtain ⟨vars, rfl⟩ := or?_eq_ok.1 run
    exact packed_zip bitwise_or ih ih' vars
  | gate operands run ih =>
    have vars := vars_of_apply run
    obtain ⟨t', run', ⟨packed, -⟩, -⟩ := apply_packed fun a member => ⟨ih a member, vars a member⟩
    obtain rfl : t' = _ := Except.ok.inj (run'.symm.trans run)
    exact packed

structure BuiltOver (n : Nat) (t : TruthTable) : Prop where
  built : Built t
  vars : t.numVars = n

/-- The tables over `n` variables: their words, what each operation does to every bit, and what the
    comparisons decide. -/
structure BitwiseAlgebra (n : Nat) : Prop where
  length : ∀ t, BuiltOver n t → t.words.length = if n ≤ 6 then 1 else 2 ^ (n - 6)
  clear : ∀ t, BuiltOver n t → ∀ i, 2 ^ n ≤ i → t.bit i = false
  read : ∀ t, BuiltOver n t → ∀ i < 2 ^ n, t.bit? i = .ok (t.bit i)
  constant : ∀ value, ∃ t, constant? n value = .ok t ∧ BuiltOver n t ∧
    ∀ i < 2 ^ n, t.bit i = value
  nthVar : ∀ v < n, ∃ t, nthVar? n v = .ok t ∧ BuiltOver n t ∧
    ∀ i < 2 ^ n, t.bit i = i.testBit v
  setBit : ∀ t, BuiltOver n t → ∀ i < 2 ^ n, ∀ value, ∃ u, t.setBit? i value = .ok u ∧
    BuiltOver n u ∧ ∀ j < 2 ^ n, u.bit j = if j = i then value else t.bit j
  complement : ∀ t, BuiltOver n t → BuiltOver n t.complement ∧
    ∀ i < 2 ^ n, t.complement.bit i = !t.bit i
  complementIf : ∀ t, BuiltOver n t → ∀ flip, BuiltOver n (GateValue.complementIf t flip) ∧
    ∀ i < 2 ^ n, (GateValue.complementIf t flip).bit i = (t.bit i ^^ flip)
  or : ∀ a b, BuiltOver n a → BuiltOver n b → ∃ t, a.or? b = .ok t ∧ BuiltOver n t ∧
    ∀ i < 2 ^ n, t.bit i = (a.bit i || b.bit i)
  gate : ∀ g : Gate TruthTable, (∀ a ∈ g.operands, BuiltOver n a) → ∃ t, g.apply = .ok t ∧
    BuiltOver n t ∧ ∀ i < 2 ^ n, t.bit i = (g.map (·.bit i)).eval
  eq_iff : ∀ a b, BuiltOver n a → BuiltOver n b →
    (a = b ↔ ∀ i < 2 ^ n, a.bit i = b.bit i)
  implies : ∀ a b, BuiltOver n a → BuiltOver n b → ∃ answer, a.implies? b = .ok answer ∧
    (answer = true ↔ ∀ i < 2 ^ n, a.bit i = true → b.bit i = true)
  equalOn : ∀ a b c, BuiltOver n a → BuiltOver n b → BuiltOver n c →
    ∃ answer, a.equalOn? b c = .ok answer ∧
      (answer = true ↔ ∀ i < 2 ^ n, c.bit i = true → a.bit i = b.bit i)
  isConst0 : ∀ t, BuiltOver n t → (t.isConst0 = true ↔ ∀ i < 2 ^ n, t.bit i = false)
  isConst1 : ∀ t, BuiltOver n t → (t.isConst1 = true ↔ ∀ i < 2 ^ n, t.bit i = true)
  countOnes : n < 32 → ∀ t, BuiltOver n t →
    t.countOnes? = .ok ((List.range (2 ^ n)).countP t.bit)

/-- Truth tables are the functions of their variables, bit for bit. -/
theorem bitwiseAlgebra {n : Nat} (representable : n < 64) : BitwiseAlgebra n where
  length := fun t made => by
    rw [made.built.packed.length, made.vars, wordCount_eq]
  clear := fun t made i outside => made.built.packed.clear i (made.vars ▸ outside)
  read := fun t made i inside => by
    rw [bit?, numBits, made.vars, tableWidth_eq, if_pos inside]
  constant := fun value => by
    have run : constant? n value = .ok _ := constant?_eq_ok.2 ⟨representable, rfl⟩
    refine ⟨_, run, ⟨.constant run, ?_⟩, fun i inside => ?_⟩
    · cases value <;> rfl
    · cases value
      · exact bit_const0 n i
      · exact bit_const1 inside
  nthVar := fun v known => by
    have run := nthVar?_eq_ok.2 ⟨known, representable, rfl⟩
    exact ⟨_, run, ⟨.nthVar run, rfl⟩, fun i inside => bit_nthVar v inside⟩
  setBit := by
    rintro t ⟨built, rfl⟩ i inside value
    have run : t.setBit? i value = .ok _ := setBit?_eq_ok.2 ⟨inside, rfl⟩
    exact ⟨_, run, ⟨.setBit built run, rfl⟩, fun j _ => bit_setBit built.packed inside value j⟩
  complement := by
    rintro t ⟨built, rfl⟩
    exact ⟨⟨.complement built, rfl⟩, fun i inside => bit_complement built.packed inside⟩
  complementIf := by
    rintro t ⟨built, rfl⟩ flip
    refine ⟨⟨.complementIf built flip, by cases flip <;> rfl⟩, fun i inside => ?_⟩
    cases flip
    · exact (Bool.xor_false _).symm
    · exact (bit_complement built.packed inside).trans (Bool.xor_true _).symm
  or := by
    rintro a b ⟨built, rfl⟩ ⟨built', vars⟩
    have run := or?_eq_ok.2 ⟨vars.symm, rfl⟩
    have length := built.packed.length_eq built'.packed vars.symm
    exact ⟨_, run, ⟨.or built built' run, rfl⟩, fun i _ => bit_zip bitwise_or length i⟩
  gate := fun g operands => by
    obtain ⟨t, run, ⟨-, vars⟩, bits⟩ := apply_packed fun a member =>
      ⟨(operands a member).built.packed, (operands a member).vars⟩
    exact ⟨t, run, ⟨.gate (fun a member => (operands a member).built) run, vars⟩,
      fun i _ => bits i⟩
  eq_iff := by
    rintro a b ⟨built, rfl⟩ ⟨built', vars⟩
    refine ⟨?_, built.packed.eq built'.packed vars.symm⟩
    rintro rfl i -
    rfl
  implies := by
    rintro a b ⟨built, rfl⟩ ⟨built', vars⟩
    exact ⟨_, by rw [implies?, alike, if_pos (beq_iff_eq.2 vars.symm)],
      implies_iff built.packed built'.packed vars.symm⟩
  equalOn := by
    rintro a b c ⟨built, rfl⟩ ⟨built', vars⟩ ⟨built'', vars'⟩
    exact ⟨_, by simp [equalOn?, alike, vars, vars'],
      equalOn_iff built.packed built'.packed built''.packed vars.symm vars'.symm⟩
  isConst0 := by
    rintro t ⟨built, rfl⟩
    exact isConst0_iff built.packed
  isConst1 := by
    rintro t ⟨built, rfl⟩
    exact isConst1_iff built.packed
  countOnes := by
    rintro few t ⟨built, rfl⟩
    exact countOnes?_eq_ok built.packed few

/-- The last of seven variables is off throughout the first word and on in the second. -/
theorem bitwiseAlgebra_of_seven :
    7 < 64 ∧ BuiltOver 7 (nthVar 7 6) ∧ (nthVar 7 6).words = [0, fullWord] ∧ BitwiseAlgebra 7 :=
  ⟨by decide, ⟨.nthVar (nthVar?_eq_ok.2 ⟨by decide, by decide, rfl⟩), rfl⟩, by decide +kernel,
    bitwiseAlgebra (by decide)⟩

end TruthTable

end LogicOpt
