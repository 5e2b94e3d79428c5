import LogicOpt.Proofs.SearchFamilies

namespace LogicOpt

variable {w : Nat}

theorem getLsbD_maj3 (f g h : BitVec w) (i : Nat) :
    (GateValue.maj3 f g h).getLsbD i =
      GateValue.maj3 (f.getLsbD i) (g.getLsbD i) (h.getLsbD i) := by
  simp [GateValue.maj3]

theorem maj3_swap (f g h : BitVec w) : GateValue.maj3 f g h = GateValue.maj3 g f h := by
  refine BitVec.eq_of_getLsbD_eq fun i _ => ?_
  rw [getLsbD_maj3, getLsbD_maj3]
  cases f.getLsbD i <;> cases g.getLsbD i <;> cases h.getLsbD i <;> rfl

theorem maj3_rotate (f g h : BitVec w) : GateValue.maj3 f g h = GateValue.maj3 g h f := by
  refine BitVec.eq_of_getLsbD_eq fun i _ => ?_
  rw [getLsbD_maj3, getLsbD_maj3]
  cases f.getLsbD i <;> cases g.getLsbD i <;> cases h.getLsbD i <;> rfl

theorem maj3_self (f h : BitVec w) : GateValue.maj3 f f h = f := by
  refine BitVec.eq_of_getLsbD_eq fun i _ => ?_
  rw [getLsbD_maj3]
  cases f.getLsbD i <;> cases h.getLsbD i <;> rfl

theorem maj3_not (f h : BitVec w) : GateValue.maj3 (~~~f) f h = h := by
  refine BitVec.eq_of_getLsbD_eq fun i inside => ?_
  rw [getLsbD_maj3, BitVec.getLsbD_not, decide_eq_true inside]
  cases f.getLsbD i <;> cases h.getLsbD i <;> rfl

namespace Problem

variable (p : Problem w)

/-- A constant, or a literal of one of the first 24 divisors. -/
def IsOperand (f : BitVec w) : Prop :=
  f = 0 ∨ f = BitVec.allOnes w ∨ ∃ i < 24, p.IsLiteral i f

def operands : List (Literal w) := .constant false :: .constant true :: p.pool maxMajPool

variable {p}

theorem IsOperand.bare {f : BitVec w} (operand : p.IsOperand f) (matched : p.Matches f) :
    p.Bare := by
  rcases operand with rfl | rfl | ⟨i, -, literal⟩
  · exact .inl matched
  · exact .inr (.inl matched)
  · exact bare_of_isLiteral literal matched

theorem mem_operands {l : Literal w} (member : l ∈ p.operands) :
    (l.signal.node = 0 ∧ (l.function = 0 ∨ l.function = BitVec.allOnes w)) ∨
      (l ∈ p.pool maxMajPool ∧ ∃ i < 24, l.signal.node = i + 1 ∧ p.IsLiteral i l.function) := by
  rcases List.mem_cons.1 member with rfl | member
  · exact .inl ⟨rfl, .inl rfl⟩
  · rcases List.mem_cons.1 member with rfl | member
    · exact .inl ⟨rfl, .inr rfl⟩
    · obtain ⟨i, low, literal, position⟩ := exists_of_mem_pool member
      exact .inr ⟨member, i, low, position, literal⟩

theorem isOperand_of_mem {l : Literal w} (member : l ∈ p.operands) : p.IsOperand l.function := by
  rcases mem_operands member with ⟨-, zero | ones⟩ | ⟨-, i, low, -, literal⟩
  · exact .inl zero
  · exact .inr (.inl ones)
  · exact .inr (.inr ⟨i, low, literal⟩)

theorem IsOperand.exists_mem {f : BitVec w} (operand : p.IsOperand f) :
    ∃ l ∈ p.operands, l.function = f := by
  rcases operand with rfl | rfl | ⟨i, low, literal⟩
  · exact ⟨.constant false, by simp [operands], rfl⟩
  · exact ⟨.constant true, by simp [operands], rfl⟩
  · obtain ⟨l, member, function, -⟩ := literal.exists_mem_pool (show i < maxMajPool / 2 from low)
    exact ⟨l, by simp [operands, member], function⟩

theorem eq_or_eq_not_of_node {a b : Literal w} (left : a ∈ p.operands) (right : b ∈ p.operands)
    (same : a.signal.node = b.signal.node) :
    a.function = b.function ∨ a.function = ~~~b.function := by
  rcases mem_operands left with ⟨first, f⟩ | ⟨-, i, -, first, f⟩ <;>
    rcases mem_operands right with ⟨second, g⟩ | ⟨-, j, -, second, g⟩
  · rcases f with f | f <;> rcases g with g | g <;> simp [f, g]
  · omega
  · omega
  · obtain rfl : i = j := by omega
    rcases f with f | f <;> rcases g with g | g <;>
      have both := Option.some.inj (f.symm.trans g)
    · exact .inl both
    · exact .inr both
    · exact .inr (by rw [← both, BitVec.not_not])
    · exact .inl (by simpa using both)

theorem bare_of_same_node {a b c : Literal w} (left : a ∈ p.operands) (right : b ∈ p.operands)
    (third : c ∈ p.operands) (same : a.signal.node = b.signal.node)
    (matched : p.Matches (GateValue.maj3 a.function b.function c.function)) : p.Bare := by
  rcases eq_or_eq_not_of_node left right same with equal | opposite
  · rw [equal, maj3_self] at matched
    exact (isOperand_of_mem right).bare matched
  · rw [opposite, maj3_not] at matched
    exact (isOperand_of_mem third).bare matched

/-- A majority matches just when its first two operands do where they agree, and the third one does
    where they differ. -/
theorem matches_maj3 {f g h : BitVec w} :
    p.Matches (GateValue.maj3 f g h) ↔
      agreeOn f p.target (~~~(f ^^^ g) &&& p.care) = true ∧
        agreeOn h p.target ((f ^^^ g) &&& p.care) = true := by
  constructor
  · intro matched
    refine ⟨agreeOn_iff.2 fun i inside on => ?_, agreeOn_iff.2 fun i inside on => ?_⟩
    · simp only [BitVec.getLsbD_and, BitVec.getLsbD_not, BitVec.getLsbD_xor, inside, decide_true,
        Bool.true_and, Bool.and_eq_true, Bool.not_eq_true'] at on
      have bit := matched i inside on.2
      rw [getLsbD_maj3] at bit
      rw [← bit]
      revert on
      cases f.getLsbD i <;> cases g.getLsbD i <;> cases h.getLsbD i <;> simp [GateValue.maj3]
    · simp only [BitVec.getLsbD_and, BitVec.getLsbD_xor, Bool.and_eq_true] at on
      have bit := matched i inside on.2
      rw [getLsbD_maj3] at bit
      rw [← bit]
      revert on
      cases f.getLsbD i <;> cases g.getLsbD i <;> cases h.getLsbD i <;> simp [GateValue.maj3]
  · rintro ⟨agree, differ⟩
    exact accepts_iff.1 (accepts_maj agree differ)

/-- The three operands are at different positions, and their majority matches. -/
structure MajorityAt (p : Problem w) (a b c : Literal w) : Prop where
  first : a.signal.node ≠ b.signal.node
  second : c.signal.node ≠ a.signal.node
  third : c.signal.node ≠ b.signal.node
  matched : p.Matches (GateValue.maj3 a.function b.function c.function)

theorem MajorityAt.swap {a b c : Literal w} (majority : p.MajorityAt a b c) :
    p.MajorityAt b a c where
  first := majority.first.symm
  second := majority.third
  third := majority.second
  matched := maj3_swap a.function b.function c.function ▸ majority.matched

theorem MajorityAt.rotate {a b c : Literal w} (majority : p.MajorityAt a b c) :
    p.MajorityAt b c a where
  first := majority.third.symm
  second := majority.first
  third := majority.second.symm
  matched := maj3_rotate a.function b.function c.function ▸ majority.matched

theorem findThird_isSome {third : List (Literal w)} {a b : Literal w} :
    (p.findThird third a b).isSome ↔ ∃ c ∈ third, p.MajorityAt a b c := by
  unfold findThird
  constructor
  · intro found
    split at found
    · cases found
    · rename_i apart
      dsimp only at found
      split at found
      · rename_i agree
        obtain ⟨c, member, chosen⟩ := List.find?_isSome.1 (by rwa [Option.isSome_map] at found)
        simp only [Literal.sameDivisor, Bool.and_eq_true, Bool.not_eq_true', beq_eq_false_iff_ne,
          ne_eq] at chosen apart
        exact ⟨c, member, by simpa using apart, chosen.1.1, chosen.1.2,
          matches_maj3.2 ⟨agree, chosen.2⟩⟩
      · cases found
  · rintro ⟨c, member, majority⟩
    obtain ⟨agree, differ⟩ := matches_maj3.1 majority.matched
    rw [if_neg (by simpa [Literal.sameDivisor] using majority.first)]
    dsimp only
    rw [if_pos agree, Option.isSome_map, List.find?_isSome]
    refine ⟨c, member, ?_⟩
    simp [Literal.sameDivisor, majority.second, majority.third, differ]

theorem findMaj_isSome :
    p.findMaj.isSome ↔ ∃ a ∈ p.pool maxMajPool, ∃ b ∈ p.pool maxMajPool, ∃ c ∈ p.operands,
      p.MajorityAt a b c := by
  constructor
  · intro found
    obtain ⟨m, found⟩ := Option.isSome_iff_exists.1 found
    obtain ⟨a, left, b, right, answer⟩ := findPair?_eq_some found
    obtain ⟨c, third, majority⟩ := findThird_isSome.1 (by rw [answer]; rfl)
    exact ⟨a, left, b, right, c, third, majority⟩
  · rintro ⟨a, left, b, right, c, third, majority⟩
    refine findPair?_isSome (fun x y => ?_) left right (fun same => majority.first (by rw [same]))
      (findThird_isSome.2 ⟨c, third, majority⟩)
    rw [findThird_isSome, findThird_isSome]
    rintro ⟨d, member, other⟩
    exact ⟨d, member, other.swap⟩

theorem MajorityAt.findMaj_isSome {a b c : Literal w} (majority : p.MajorityAt a b c)
    (left : a ∈ p.operands) (right : b ∈ p.operands) (third : c ∈ p.operands) :
    p.findMaj.isSome := by
  -- Both constants are at position 0, so at least two operands are in the pool; a rotation brings
  -- these to the front.
  rw [Problem.findMaj_isSome]
  have first := majority.first
  have second := majority.second
  rcases mem_operands left with ⟨constant, -⟩ | ⟨left', -⟩
  · obtain ⟨right', -⟩ := (mem_operands right).resolve_left (by omega)
    obtain ⟨third', -⟩ := (mem_operands third).resolve_left (by omega)
    exact ⟨b, right', c, third', a, left, majority.rotate⟩
  · rcases mem_operands right with ⟨constant, -⟩ | ⟨right', -⟩
    · have := majority.third
      obtain ⟨third', -⟩ := (mem_operands third).resolve_left (by omega)
      exact ⟨c, third', a, left', b, right, majority.rotate.rotate⟩
    · exact ⟨a, left', b, right', c, third, majority⟩

theorem findMaj_isSome_iff (gated : ¬ p.Bare) :
    p.findMaj.isSome ↔ ∃ f g h, p.IsOperand f ∧ p.IsOperand g ∧ p.IsOperand h ∧
      p.Matches (GateValue.maj3 f g h) := by
  constructor
  · intro found
    obtain ⟨a, left, b, right, c, third, majority⟩ := Problem.findMaj_isSome.1 found
    have known {l : Literal w} (member : l ∈ p.pool maxMajPool) : l ∈ p.operands :=
      List.mem_cons_of_mem _ (List.mem_cons_of_mem _ member)
    exact ⟨_, _, _, isOperand_of_mem (known left), isOperand_of_mem (known right),
      isOperand_of_mem third, majority.matched⟩
  · rintro ⟨f, g, h, operand, operand', operand'', matched⟩
    obtain ⟨a, left, rfl⟩ := operand.exists_mem
    obtain ⟨b, right, rfl⟩ := operand'.exists_mem
    obtain ⟨c, third, rfl⟩ := operand''.exists_mem
    have majority : p.MajorityAt a b c := by
      refine ⟨fun same => gated ?_, fun same => gated ?_, fun same => gated ?_, matched⟩
      · exact bare_of_same_node left right third same matched
      · rw [← maj3_rotate] at matched
        exact bare_of_same_node third left right same matched
      · rw [maj3_rotate] at matched
        exact bare_of_same_node right third left same.symm matched
    exact majority.findMaj_isSome left right third

theorem find_majority_isSome {maxInserts : Nat} :
    (p.find .mig maxInserts).isSome ↔ p.Bare ∨ 0 < maxInserts ∧ p.findMaj.isSome := by
  rw [← findGateFree_isSome, find]
  cases p.findGateFree with
  | some found => simp
  | none =>
    by_cases none : maxInserts = 0
    · simp [none]
    · cases answer : p.findMaj <;>
        simp [findOneGate, findTwoGates, shaped, answer, none, Nat.pos_of_ne_zero none]

/-- The search by majorities finds a candidate just when a constant or a literal matches the target
    on the care set, or a gate is allowed and a majority of three operands matches; in the first
    case the candidate has no gate. -/
theorem resynthesize_majority (p : Problem w) (maxInserts : Nat) (stats : ResynStats) :
    ∃ found stats', p.resynthesize .mig maxInserts stats = .ok (found, stats') ∧
      (found.isSome ↔ p.Bare ∨ 0 < maxInserts ∧ ∃ f g h, p.IsOperand f ∧ p.IsOperand g ∧
        p.IsOperand h ∧ p.Matches (GateValue.maj3 f g h)) ∧
      (p.Bare → ∃ c, found = some c ∧ c.numGates = 0) := by
  obtain ⟨found, stats', ran, same, -⟩ := p.exists_resynthesize .mig maxInserts stats
  refine ⟨found, stats', ran, ?_, fun bare => ?_⟩
  · rw [same, Option.isSome_map, find_majority_isSome]
    by_cases bare : p.Bare
    · simp [bare]
    · rw [findMaj_isSome_iff bare]
  · obtain ⟨⟨shape, c⟩, answer⟩ := Option.isSome_iff_exists.1 (findGateFree_isSome.2 bare)
    refine ⟨c, by simp [same, find, answer], ?_⟩
    exact Nat.le_zero.1 (solved_gateFree answer).numGates

end Problem

end LogicOpt
