import LogicOpt.Proofs.Searches
import Mathlib.Data.List.Pairwise

namespace LogicOpt

variable {w : Nat}

theorem findPair?_eq_none {α β : Type} {f : α → α → Option β} {xs : List α} :
    findPair? f xs = none ↔ xs.Pairwise fun x y => f x y = none := by
  induction xs with
  | nil => simp [findPair?]
  | cons x rest ih =>
    rw [List.pairwise_cons, ← ih, ← List.findSome?_eq_none_iff, findPair?]
    cases rest.findSome? (f x) <;> simp

theorem findPair?_isSome {α β : Type} {f : α → α → Option β} {xs : List α} {x y : α}
    (swap : ∀ x y, (f x y).isSome → (f y x).isSome) (left : x ∈ xs) (right : y ∈ xs) (apart : x ≠ y)
    (answer : (f x y).isSome) : (findPair? f xs).isSome := by
  have : Std.Symm fun x y => f x y = none :=
    ⟨fun x y refused => Option.not_isSome_iff_eq_none.1 fun found => by
      simpa [refused] using swap y x found⟩
  by_contra none
  have tested := findPair?_eq_none.1 (Option.not_isSome_iff_eq_none.1 none)
  simp [tested.forall left right apart] at answer

namespace Problem

variable (p : Problem w)

/-- A function equals the target on the care set. -/
def Matches (f : BitVec w) : Prop :=
  ∀ i < w, p.care.getLsbD i = true → f.getLsbD i = p.target.getLsbD i

/-- A divisor or its complement. -/
def IsLiteral (i : Nat) (f : BitVec w) : Prop :=
  p.divisors[i]? = some f ∨ p.divisors[i]? = some (~~~f)

/-- The target agrees on the care set with a constant, a divisor or the complement of a divisor. -/
def Bare : Prop :=
  p.Matches 0 ∨ p.Matches (BitVec.allOnes w) ∨ ∃ f ∈ p.divisors, p.Matches f ∨ p.Matches (~~~f)

/-- The functions that a search by conjunctions, and perhaps exclusive disjunctions, looks for, by
    the gates they take. Without gates these are constants and literals; two literals of a product
    or a sum under another gate are of different divisors among the first 32, and the operands of an
    exclusive disjunction are among the first 64. -/
inductive Family (basis : Basis) : Nat → BitVec w → Prop where
  | zero : Family basis 0 0
  | ones : Family basis 0 (BitVec.allOnes w)
  | literal {i : Nat} {f : BitVec w} : p.IsLiteral i f → Family basis 0 f
  | or {i j : Nat} {f g : BitVec w} (gates : .and2 ∈ basis.kinds) :
      p.IsLiteral i f → p.IsLiteral j g → Family basis 1 (f ||| g)
  | and {i j : Nat} {f g : BitVec w} (gates : .and2 ∈ basis.kinds) :
      p.IsLiteral i f → p.IsLiteral j g → Family basis 1 (f &&& g)
  | xor {i j : Nat} {f g : BitVec w} (gates : .xor2 ∈ basis.kinds) (left : i < 64) (right : j < 64) :
      p.divisors[i]? = some f → p.divisors[j]? = some g → Family basis 1 (f ^^^ g)
  | xnor {i j : Nat} {f g : BitVec w} (gates : .xor2 ∈ basis.kinds) (left : i < 64)
      (right : j < 64) :
      p.divisors[i]? = some f → p.divisors[j]? = some g → Family basis 1 (~~~(f ^^^ g))
  | orAnd {i j k : Nat} {f g h : BitVec w} (gates : .and2 ∈ basis.kinds) (apart : j ≠ k)
      (left : j < 32) (right : k < 32) :
      p.IsLiteral i f → p.IsLiteral j g → p.IsLiteral k h → Family basis 2 (f ||| (g &&& h))
  | andOr {i j k : Nat} {f g h : BitVec w} (gates : .and2 ∈ basis.kinds) (apart : j ≠ k)
      (left : j < 32) (right : k < 32) :
      p.IsLiteral i f → p.IsLiteral j g → p.IsLiteral k h → Family basis 2 (f &&& (g ||| h))

def Attains (basis : Basis) (gates : Nat) : Prop := ∃ f, p.Family basis gates f ∧ p.Matches f

variable {p}

theorem accepts_iff {f : BitVec w} : p.accepts f = true ↔ p.Matches f := agreeOn_iff

theorem Attains.le_two {basis : Basis} {gates : Nat} (attains : p.Attains basis gates) :
    gates ≤ 2 := by
  obtain ⟨f, member, -⟩ := attains
  cases member <;> omega

theorem mem_take_zipIdx {α : Type} {xs : List α} {n i : Nat} {x : α} :
    (x, i) ∈ xs.zipIdx.take n ↔ i < n ∧ xs[i]? = some x := by
  simp only [List.mem_iff_getElem?, List.getElem?_take, List.getElem?_zipIdx]
  constructor
  · rintro ⟨k, there⟩
    split at there
    · rename_i low
      obtain ⟨y, here, same⟩ := Option.map_eq_some_iff.1 there
      cases same
      simpa using ⟨low, here⟩
    · cases there
  · rintro ⟨low, there⟩
    exact ⟨i, by simp [low, there]⟩

theorem take_flatMap {α β : Type} {f : α → List β} (two : ∀ x, (f x).length = 2) (xs : List α)
    (n : Nat) : (xs.flatMap f).take (n * 2) = (xs.take n).flatMap f := by
  induction xs generalizing n with
  | nil => simp
  | cons x rest ih =>
    cases n with
    | zero => simp
    | succ n =>
      have first : (f x).take ((n + 1) * 2) = f x := List.take_of_length_le (by rw [two]; omega)
      have left : (n + 1) * 2 - (f x).length = n * 2 := by rw [two]; omega
      rw [List.flatMap_cons, List.take_append, first, left, ih, List.take_succ_cons,
        List.flatMap_cons]

theorem mem_pool {bound : Nat} {l : Literal w} :
    l ∈ p.pool bound ↔ ∃ i f negated, i < bound / 2 ∧ p.divisors[i]? = some f ∧
      l = Literal.ofDivisor i f negated := by
  rw [pool, literals, take_flatMap fun _ => rfl]
  simp only [Literal.both, List.mem_flatMap, List.mem_cons, List.not_mem_nil, or_false,
    Prod.exists, mem_take_zipIdx]
  constructor
  · rintro ⟨f, i, ⟨low, there⟩, rfl | rfl⟩
    · exact ⟨i, f, false, low, there, rfl⟩
    · exact ⟨i, f, true, low, there, rfl⟩
  · rintro ⟨i, f, negated, low, there, rfl⟩
    refine ⟨f, i, ⟨low, there⟩, ?_⟩
    cases negated <;> simp

theorem mem_literals {l : Literal w} : l ∈ p.literals ↔ ∃ bound, l ∈ p.pool bound := by
  constructor
  · intro member
    exact ⟨2 * p.literals.length, by rwa [pool, List.take_of_length_le (by omega)]⟩
  · rintro ⟨bound, member⟩
    exact List.mem_of_mem_take member

theorem exists_of_mem_pool {bound : Nat} {l : Literal w} (member : l ∈ p.pool bound) :
    ∃ i < bound / 2, p.IsLiteral i l.function ∧ l.signal.node = i + 1 := by
  obtain ⟨i, f, negated, low, there, rfl⟩ := mem_pool.1 member
  refine ⟨i, low, ?_, rfl⟩
  cases negated with
  | false => exact .inl there
  | true => exact .inr (there.trans (congrArg some BitVec.not_not.symm))

theorem IsLiteral.exists_mem_pool {bound i : Nat} {f : BitVec w} (literal : p.IsLiteral i f)
    (low : i < bound / 2) : ∃ l ∈ p.pool bound, l.function = f ∧ l.signal.node = i + 1 := by
  rcases literal with there | there
  · exact ⟨_, mem_pool.2 ⟨i, f, false, low, there, rfl⟩, rfl, rfl⟩
  · exact ⟨_, mem_pool.2 ⟨i, ~~~f, true, low, there, rfl⟩, BitVec.not_not, rfl⟩

theorem exists_of_mem_literals {l : Literal w} (member : l ∈ p.literals) :
    ∃ i, p.IsLiteral i l.function := by
  obtain ⟨bound, member⟩ := mem_literals.1 member
  obtain ⟨i, -, literal, -⟩ := exists_of_mem_pool member
  exact ⟨i, literal⟩

theorem IsLiteral.exists_mem_literals {i : Nat} {f : BitVec w} (literal : p.IsLiteral i f) :
    ∃ l ∈ p.literals, l.function = f := by
  obtain ⟨l, member, function, -⟩ := literal.exists_mem_pool (show i < 2 * (i + 1) / 2 by omega)
  exact ⟨l, mem_literals.2 ⟨_, member⟩, function⟩

theorem careOn_eq_zero : p.careOn = 0 ↔ p.Matches 0 := by
  constructor
  · intro never i inside cared
    have off : p.target.getLsbD i = false := by
      simpa [careOn, cared] using congrArg (·.getLsbD i) never
    simp [off]
  · intro matched
    refine BitVec.eq_of_getLsbD_eq fun i inside => ?_
    cases cared : p.care.getLsbD i
    · simp [careOn, cared]
    · simpa [careOn, cared] using (matched i inside cared).symm

theorem care_entails : entails p.care p.target = true ↔ p.Matches (BitVec.allOnes w) := by
  rw [entails_iff]
  refine forall₃_congr fun i inside cared => ?_
  rw [BitVec.getLsbD_allOnes, decide_eq_true inside]
  exact eq_comm

theorem findConstant_isSome :
    p.findConstant.isSome ↔ p.Matches 0 ∨ p.Matches (BitVec.allOnes w) := by
  unfold findConstant
  rw [← careOn_eq_zero, ← care_entails]
  split
  · simp_all
  · split <;> simp_all

theorem findDivisor_isSome : p.findDivisor.isSome ↔ ∃ i f, p.IsLiteral i f ∧ p.Matches f := by
  simp only [findDivisor, List.findSome?_isSome_iff, Prod.exists, List.mk_mem_zipIdx_iff_getElem?]
  constructor
  · rintro ⟨f, i, there, answer⟩
    split at answer
    · rename_i accepted
      exact ⟨i, f, .inl there, accepts_iff.1 accepted⟩
    · split at answer
      · rename_i accepted
        exact ⟨i, ~~~f, .inr (by rwa [BitVec.not_not]), accepts_iff.1 accepted⟩
      · cases answer
  · rintro ⟨i, f, there | there, matched⟩
    · exact ⟨f, i, there, by simp [accepts_iff.2 matched]⟩
    · refine ⟨~~~f, i, there, ?_⟩
      rw [BitVec.not_not, if_pos (accepts_iff.2 matched)]
      split <;> rfl

theorem bare_of_isLiteral {i : Nat} {f : BitVec w} (literal : p.IsLiteral i f)
    (matched : p.Matches f) : p.Bare := by
  rcases literal with there | there
  · exact .inr (.inr ⟨f, List.mem_of_getElem? there, .inl matched⟩)
  · exact .inr (.inr ⟨~~~f, List.mem_of_getElem? there, .inr (by rwa [BitVec.not_not])⟩)

theorem findGateFree_isSome : p.findGateFree.isSome ↔ p.Bare := by
  simp only [findGateFree, shaped, Option.isSome_or, Option.isSome_map, Bool.or_eq_true,
    findConstant_isSome, findDivisor_isSome]
  constructor
  · rintro ((matched | matched) | ⟨i, f, literal, matched⟩)
    · exact .inl matched
    · exact .inr (.inl matched)
    · exact bare_of_isLiteral literal matched
  · rintro (matched | matched | ⟨f, there, matched⟩)
    · exact .inl (.inl matched)
    · exact .inl (.inr matched)
    · obtain ⟨i, there⟩ := List.mem_iff_getElem?.1 there
      rcases matched with matched | matched
      · exact .inr ⟨i, f, .inl there, matched⟩
      · exact .inr ⟨i, ~~~f, .inr (by rwa [BitVec.not_not]), matched⟩

theorem attains_zero {basis : Basis} : p.Attains basis 0 ↔ p.Bare := by
  constructor
  · rintro ⟨f, member, matched⟩
    cases member with
    | zero => exact .inl matched
    | ones => exact .inr (.inl matched)
    | literal literal => exact bare_of_isLiteral literal matched
  · rintro (matched | matched | ⟨f, there, matched⟩)
    · exact ⟨_, .zero, matched⟩
    · exact ⟨_, .ones, matched⟩
    · obtain ⟨i, there⟩ := List.mem_iff_getElem?.1 there
      rcases matched with matched | matched
      · exact ⟨f, .literal (.inl there), matched⟩
      · exact ⟨~~~f, .literal (i := i) (.inr (by rwa [BitVec.not_not])), matched⟩

theorem entails_of_matches_or {f g : BitVec w} (matched : p.Matches (f ||| g)) :
    entails (f &&& p.care) p.target = true := by
  refine entails_iff.2 fun i inside on => ?_
  obtain ⟨set, cared⟩ : f.getLsbD i = true ∧ p.care.getLsbD i = true := by simpa using on
  simp [← matched i inside cared, set]

theorem entails_of_matches_and {f g : BitVec w} (matched : p.Matches (f &&& g)) :
    entails p.careOn f = true := by
  refine entails_iff.2 fun i inside on => ?_
  obtain ⟨set, cared⟩ : p.target.getLsbD i = true ∧ p.care.getLsbD i = true := by
    simpa [careOn] using on
  have both := matched i inside cared
  rw [set, BitVec.getLsbD_and, Bool.and_eq_true] at both
  exact both.1

theorem IsLiteral.exists_mem_positive {i : Nat} {f g : BitVec w} (literal : p.IsLiteral i f)
    (matched : p.Matches (f ||| g)) : ∃ l ∈ p.positive, l.function = f := by
  obtain ⟨l, member, rfl⟩ := literal.exists_mem_literals
  exact ⟨l, List.mem_filter.2 ⟨member, entails_of_matches_or matched⟩, rfl⟩

theorem IsLiteral.exists_mem_negative {i : Nat} {f g : BitVec w} (literal : p.IsLiteral i f)
    (matched : p.Matches (f &&& g)) : ∃ l ∈ p.negative, l.function = f := by
  obtain ⟨l, member, rfl⟩ := literal.exists_mem_literals
  exact ⟨l, List.mem_filter.2 ⟨member, entails_of_matches_and matched⟩, rfl⟩

section OneGate

variable {basis : Basis}

theorem exists_of_mem_positive {l : Literal w} (member : l ∈ p.positive) :
    ∃ i, p.IsLiteral i l.function :=
  exists_of_mem_literals (List.mem_filter.1 member).1

theorem exists_of_mem_negative {l : Literal w} (member : l ∈ p.negative) :
    ∃ i, p.IsLiteral i l.function :=
  exists_of_mem_literals (List.mem_filter.1 member).1

theorem findPair?_accepts {op : BitVec w → BitVec w → BitVec w} (swap : ∀ f g, op f g = op g f)
    {build : Literal w → Literal w → Candidate} {literals : List (Literal w)} {a b : Literal w}
    (left : a ∈ literals) (right : b ∈ literals) (apart : a ≠ b)
    (matched : p.Matches (op a.function b.function)) :
    (findPair? (fun a b => if p.accepts (op a.function b.function) then some (build a b) else none)
      literals).isSome := by
  refine findPair?_isSome (fun x y => ?_) left right apart (by simp [accepts_iff.2 matched])
  simp [swap x.function]

theorem matches_of_findPair? (op : BitVec w → BitVec w → BitVec w)
    {build : Literal w → Literal w → Candidate} {literals : List (Literal w)} {c : Candidate}
    (found : findPair? (fun a b => if p.accepts (op a.function b.function) then some (build a b)
      else none) literals = some c) :
    ∃ a ∈ literals, ∃ b ∈ literals, p.Matches (op a.function b.function) ∧ build a b = c := by
  obtain ⟨a, left, b, right, answer⟩ := findPair?_eq_some found
  obtain ⟨accepted, same⟩ := Option.ite_none_right_eq_some.1 answer
  exact ⟨a, left, b, right, accepts_iff.1 accepted, Option.some.inj same⟩

theorem findOr_isSome {i j : Nat} {f g : BitVec w} (gated : ¬ p.Bare)
    (left : p.IsLiteral i f) (right : p.IsLiteral j g) (matched : p.Matches (f ||| g)) :
    (p.findOr p.positive).isSome := by
  obtain ⟨a, first, rfl⟩ := left.exists_mem_positive matched
  obtain ⟨b, second, rfl⟩ := right.exists_mem_positive (BitVec.or_comm _ _ ▸ matched)
  -- A pair is of different literals; with equal ones the literal itself matches.
  refine findPair?_accepts BitVec.or_comm first second (fun same => gated ?_) matched
  subst same
  rw [BitVec.or_self] at matched
  exact bare_of_isLiteral left matched

theorem findAnd_isSome {i j : Nat} {f g : BitVec w} (gated : ¬ p.Bare)
    (left : p.IsLiteral i f) (right : p.IsLiteral j g) (matched : p.Matches (f &&& g)) :
    (p.findAnd p.negative).isSome := by
  obtain ⟨a, first, rfl⟩ := left.exists_mem_negative matched
  obtain ⟨b, second, rfl⟩ := right.exists_mem_negative (BitVec.and_comm _ _ ▸ matched)
  refine findPair?_accepts BitVec.and_comm first second (fun same => gated ?_) matched
  subst same
  rw [BitVec.and_self] at matched
  exact bare_of_isLiteral left matched

theorem findXor_isSome {i j : Nat} {f g : BitVec w} (gated : ¬ p.Bare) (left : i < 64)
    (right : j < 64) (first : p.divisors[i]? = some f) (second : p.divisors[j]? = some g)
    (matched : p.Matches (f ^^^ g) ∨ p.Matches (~~~(f ^^^ g))) : p.findXor.isSome := by
  by_cases same : (f, i) = (g, j)
  · -- A divisor paired with itself gives a constant.
    cases same
    rw [BitVec.xor_self, BitVec.not_zero] at matched
    rcases matched with matched | matched
    · exact absurd (.inl matched) gated
    · exact absurd (.inr (.inl matched)) gated
  · refine findPair?_isSome (fun x y => ?_) (mem_take_zipIdx.2 ⟨left, first⟩)
      (mem_take_zipIdx.2 ⟨right, second⟩) same ?_
    · dsimp only
      rw [BitVec.xor_comm y.1]
      split <;> simp_all
    · dsimp only
      split <;> simp_all [← accepts_iff]

theorem attains_of_findOr {c : Candidate} (gates : .and2 ∈ basis.kinds)
    (found : p.findOr p.positive = some c) : c.numGates = 1 ∧ p.Attains basis 1 := by
  obtain ⟨a, left, b, right, matched, rfl⟩ := matches_of_findPair? (· ||| ·) found
  obtain ⟨i, first⟩ := exists_of_mem_positive left
  obtain ⟨j, second⟩ := exists_of_mem_positive right
  exact ⟨rfl, _, .or gates first second, matched⟩

theorem attains_of_findAnd {c : Candidate} (gates : .and2 ∈ basis.kinds)
    (found : p.findAnd p.negative = some c) : c.numGates = 1 ∧ p.Attains basis 1 := by
  obtain ⟨a, left, b, right, matched, rfl⟩ := matches_of_findPair? (· &&& ·) found
  obtain ⟨i, first⟩ := exists_of_mem_negative left
  obtain ⟨j, second⟩ := exists_of_mem_negative right
  exact ⟨rfl, _, .and gates first second, matched⟩

theorem attains_of_findXor {c : Candidate} (gates : .xor2 ∈ basis.kinds)
    (found : p.findXor = some c) : c.numGates = 1 ∧ p.Attains basis 1 := by
  obtain ⟨⟨f, i⟩, left, ⟨g, j⟩, right, answer⟩ := findPair?_eq_some found
  obtain ⟨low, first⟩ := mem_take_zipIdx.1 left
  obtain ⟨low', second⟩ := mem_take_zipIdx.1 right
  dsimp only at answer
  split at answer
  · rename_i accepted
    cases answer
    exact ⟨rfl, _, .xor gates low low' first second, accepts_iff.1 accepted⟩
  · obtain ⟨accepted, same⟩ := Option.ite_none_right_eq_some.1 answer
    cases same
    exact ⟨rfl, _, .xnor gates low low' first second, accepts_iff.1 accepted⟩

theorem findOneGate_isSome (plain : basis ≠ .mig) (gated : ¬ p.Bare)
    (attains : p.Attains basis 1) : (p.findOneGate basis p.positive p.negative).isSome := by
  obtain ⟨f, member, matched⟩ := attains
  unfold findOneGate
  rw [shaped, Option.isSome_map]
  cases member with
  | or gates left right =>
    have found := findOr_isSome gated left right matched
    cases basis <;> simp_all [Basis.kinds]
  | and gates left right =>
    have found := findAnd_isSome gated left right matched
    cases basis <;> simp_all [Basis.kinds]
  | xor gates low low' left right =>
    have found := findXor_isSome gated low low' left right (.inl matched)
    cases basis <;> simp_all [Basis.kinds]
  | xnor gates low low' left right =>
    have found := findXor_isSome gated low low' left right (.inr matched)
    cases basis <;> simp_all [Basis.kinds]

theorem attains_of_findOneGate {shape : Shape} {c : Candidate} (plain : basis ≠ .mig)
    (found : p.findOneGate basis p.positive p.negative = some (shape, c)) :
    c.numGates = 1 ∧ p.Attains basis 1 := by
  have known := eq_of_shaped found
  cases basis with
  | div0 => cases known
  | aig =>
    rcases Option.or_eq_some_iff.1 known with answer | ⟨-, answer⟩
    · exact attains_of_findOr (by simp [Basis.kinds]) answer
    · exact attains_of_findAnd (by simp [Basis.kinds]) answer
  | xag =>
    rcases Option.or_eq_some_iff.1 known with answer | ⟨-, answer⟩
    · rcases Option.or_eq_some_iff.1 answer with answer | ⟨-, answer⟩
      · exact attains_of_findOr (by simp [Basis.kinds]) answer
      · exact attains_of_findAnd (by simp [Basis.kinds]) answer
    · exact attains_of_findXor (by simp [Basis.kinds]) answer
  | mig => exact absurd rfl plain

end OneGate

section TwoGates

variable {basis : Basis}

theorem mem_pairsOf {op : BitVec w → BitVec w → BitVec w} {literals : List (Literal w)}
    {q : LiteralPair w} (member : q ∈ pairsOf op literals) :
    q.left ∈ literals ∧ q.right ∈ literals ∧ q.left.signal.node ≠ q.right.signal.node ∧
      q.function = op q.left.function q.right.function := by
  induction literals with
  | nil => cases member
  | cons a rest ih =>
    rcases List.mem_append.1 member with member | member
    · obtain ⟨b, there, rfl⟩ := List.mem_map.1 member
      obtain ⟨there, apart⟩ := List.mem_filter.1 there
      exact ⟨by simp, List.mem_cons_of_mem _ there, by simpa [Literal.sameDivisor] using apart, rfl⟩
    · obtain ⟨left, right, rest⟩ := ih member
      exact ⟨List.mem_cons_of_mem _ left, List.mem_cons_of_mem _ right, rest⟩

theorem exists_mem_pairsOf {op : BitVec w → BitVec w → BitVec w} (swap : ∀ f g, op f g = op g f)
    {literals : List (Literal w)} {a b : Literal w} (left : a ∈ literals) (right : b ∈ literals)
    (apart : a.signal.node ≠ b.signal.node) :
    ∃ q ∈ pairsOf op literals, q.function = op a.function b.function := by
  induction literals with
  | nil => cases left
  | cons c rest ih =>
    have paired {d : Literal w} (there : d ∈ rest) (apart : c.signal.node ≠ d.signal.node) :
        (⟨c, d, op c.function d.function⟩ : LiteralPair w) ∈ pairsOf op (c :: rest) :=
      List.mem_append_left _ (List.mem_map_of_mem
        (List.mem_filter.2 ⟨there, by simpa [Literal.sameDivisor] using apart⟩))
    -- The pairs with the first literal come first, those of the rest after them.
    rcases List.mem_cons.1 left with rfl | later <;>
      rcases List.mem_cons.1 right with rfl | later'
    · exact absurd rfl apart
    · exact ⟨_, paired later' apart, rfl⟩
    · exact ⟨_, paired later apart.symm, swap _ _⟩
    · obtain ⟨q, member, same⟩ := ih later later'
      exact ⟨q, List.mem_append_right _ member, same⟩

theorem IsLiteral.exists_mem_pairsOf {op : BitVec w → BitVec w → BitVec w}
    (swap : ∀ f g, op f g = op g f) {i j : Nat} {f g : BitVec w} (left : p.IsLiteral i f)
    (right : p.IsLiteral j g) (low : i < 32) (low' : j < 32) (apart : i ≠ j) :
    ∃ q ∈ pairsOf op (p.pool maxPairPool), q.function = op f g := by
  obtain ⟨a, first, rfl, position⟩ := left.exists_mem_pool (show i < maxPairPool / 2 from low)
  obtain ⟨b, second, rfl, position'⟩ := right.exists_mem_pool (show j < maxPairPool / 2 from low')
  exact Problem.exists_mem_pairsOf swap first second (by omega)

theorem exists_of_mem_pairsOf {op : BitVec w → BitVec w → BitVec w} {q : LiteralPair w}
    (member : q ∈ pairsOf op (p.pool maxPairPool)) :
    ∃ i < 32, ∃ j < 32, i ≠ j ∧ p.IsLiteral i q.left.function ∧ p.IsLiteral j q.right.function ∧
      q.function = op q.left.function q.right.function := by
  obtain ⟨left, right, apart, function⟩ := mem_pairsOf member
  obtain ⟨i, low, first, position⟩ := exists_of_mem_pool left
  obtain ⟨j, low', second, position'⟩ := exists_of_mem_pool right
  exact ⟨i, low, j, low', by omega, first, second, function⟩

theorem findSome?_accepts {op : BitVec w → BitVec w → BitVec w}
    {build : Literal w → LiteralPair w → Candidate} {literals : List (Literal w)}
    {pairs : List (LiteralPair w)} {a : Literal w} {q : LiteralPair w} (left : a ∈ literals)
    (right : q ∈ pairs) (matched : p.Matches (op a.function q.function)) :
    (literals.findSome? fun a =>
      (pairs.find? fun q => p.accepts (op a.function q.function)).map (build a)).isSome := by
  refine List.findSome?_isSome_iff.2 ⟨a, left, ?_⟩
  rw [Option.isSome_map, List.find?_isSome]
  exact ⟨q, right, accepts_iff.2 matched⟩

theorem matches_of_findSome? (op : BitVec w → BitVec w → BitVec w)
    {build : Literal w → LiteralPair w → Candidate} {literals : List (Literal w)}
    {pairs : List (LiteralPair w)} {c : Candidate}
    (found : (literals.findSome? fun a =>
      (pairs.find? fun q => p.accepts (op a.function q.function)).map (build a)) = some c) :
    ∃ a ∈ literals, ∃ q ∈ pairs, p.Matches (op a.function q.function) ∧ build a q = c := by
  obtain ⟨a, left, answer⟩ := List.exists_of_findSome?_eq_some found
  obtain ⟨q, chosen, same⟩ := Option.map_eq_some_iff.1 answer
  have accepted := List.find?_some chosen
  exact ⟨a, left, q, List.mem_of_find?_eq_some chosen, accepts_iff.1 accepted, same⟩

theorem findOrAnd_isSome {i j k : Nat} {f g h : BitVec w} (apart : j ≠ k) (low : j < 32)
    (low' : k < 32) (outer : p.IsLiteral i f) (left : p.IsLiteral j g) (right : p.IsLiteral k h)
    (matched : p.Matches (f ||| (g &&& h))) : (p.findOrAnd p.positive p.products).isSome := by
  obtain ⟨a, first, rfl⟩ := outer.exists_mem_positive matched
  obtain ⟨q, paired, same⟩ := left.exists_mem_pairsOf BitVec.and_comm right low low' apart
  have product : q ∈ p.products :=
    List.mem_filter.2 ⟨paired, same ▸ entails_of_matches_or (BitVec.or_comm _ _ ▸ matched)⟩
  exact findSome?_accepts first product (same ▸ matched)

theorem findAndOr_isSome {i j k : Nat} {f g h : BitVec w} (apart : j ≠ k) (low : j < 32)
    (low' : k < 32) (outer : p.IsLiteral i f) (left : p.IsLiteral j g) (right : p.IsLiteral k h)
    (matched : p.Matches (f &&& (g ||| h))) : (p.findAndOr p.negative p.sums).isSome := by
  obtain ⟨a, first, rfl⟩ := outer.exists_mem_negative matched
  obtain ⟨q, paired, same⟩ := left.exists_mem_pairsOf BitVec.or_comm right low low' apart
  have sum : q ∈ p.sums :=
    List.mem_filter.2 ⟨paired, same ▸ entails_of_matches_and (BitVec.and_comm _ _ ▸ matched)⟩
  exact findSome?_accepts first sum (same ▸ matched)

theorem attains_of_findOrAnd {c : Candidate} (gates : .and2 ∈ basis.kinds)
    (found : p.findOrAnd p.positive p.products = some c) :
    c.numGates = 2 ∧ p.Attains basis 2 := by
  obtain ⟨a, left, q, paired, matched, rfl⟩ := matches_of_findSome? (· ||| ·) found
  obtain ⟨i, outer⟩ := exists_of_mem_positive left
  obtain ⟨j, low, k, low', apart, first, second, function⟩ :=
    exists_of_mem_pairsOf (List.mem_filter.1 paired).1
  exact ⟨rfl, _, .orAnd gates apart low low' outer first second, function ▸ matched⟩

theorem attains_of_findAndOr {c : Candidate} (gates : .and2 ∈ basis.kinds)
    (found : p.findAndOr p.negative p.sums = some c) :
    c.numGates = 2 ∧ p.Attains basis 2 := by
  obtain ⟨a, left, q, paired, matched, rfl⟩ := matches_of_findSome? (· &&& ·) found
  obtain ⟨i, outer⟩ := exists_of_mem_negative left
  obtain ⟨j, low, k, low', apart, first, second, function⟩ :=
    exists_of_mem_pairsOf (List.mem_filter.1 paired).1
  exact ⟨rfl, _, .andOr gates apart low low' outer first second, function ▸ matched⟩

theorem findTwoGates_isSome (attains : p.Attains basis 2) :
    (p.findTwoGates basis p.positive p.negative).isSome := by
  obtain ⟨f, member, matched⟩ := attains
  unfold findTwoGates
  rw [shaped, Option.isSome_map]
  cases member with
  | orAnd gates apart low low' outer left right =>
    have found := findOrAnd_isSome apart low low' outer left right matched
    cases basis <;> simp_all [Basis.kinds]
  | andOr gates apart low low' outer left right =>
    have found := findAndOr_isSome apart low low' outer left right matched
    cases basis <;> simp_all [Basis.kinds]

theorem attains_of_findTwoGates {shape : Shape} {c : Candidate}
    (found : p.findTwoGates basis p.positive p.negative = some (shape, c)) :
    c.numGates = 2 ∧ p.Attains basis 2 := by
  have known := eq_of_shaped found
  have either (gates : .and2 ∈ basis.kinds)
      (answer : (p.findOrAnd p.positive p.products).or (p.findAndOr p.negative p.sums) = some c) :
      c.numGates = 2 ∧ p.Attains basis 2 := by
    rcases Option.or_eq_some_iff.1 answer with answer | ⟨-, answer⟩
    · exact attains_of_findOrAnd gates answer
    · exact attains_of_findAndOr gates answer
  cases basis with
  | div0 => cases known
  | aig => exact either (by simp [Basis.kinds]) known
  | xag => exact either (by simp [Basis.kinds]) known
  | mig => cases known

end TwoGates

theorem findGateFree_eq_none : p.findGateFree = none ↔ ¬ p.Bare := by
  rw [← findGateFree_isSome, Option.not_isSome_iff_eq_none]

theorem Attains.pos {basis : Basis} {gates : Nat} (attains : p.Attains basis gates)
    (gated : ¬ p.Bare) : 0 < gates :=
  Nat.pos_of_ne_zero fun zero => gated (attains_zero.1 (zero ▸ attains))

theorem attains_of_find {basis : Basis} {maxInserts : Nat} {shape : Shape} {c : Candidate}
    (plain : basis ≠ .mig) (found : p.find basis maxInserts = some (shape, c)) :
    p.Attains basis c.numGates ∧ ∀ gates, p.Attains basis gates → c.numGates ≤ gates := by
  cases find_eq_some.1 found with
  | gateFree answer =>
    have free : c.numGates = 0 := Nat.le_zero.1 (solved_gateFree answer).numGates
    rw [free]
    exact ⟨attains_zero.2 (findGateFree_isSome.1 (by rw [answer]; rfl)),
      fun gates _ => Nat.zero_le gates⟩
  | oneGate refused _ answer =>
    obtain ⟨one, attains⟩ := attains_of_findOneGate plain answer
    rw [one]
    exact ⟨attains, fun gates attains => attains.pos (findGateFree_eq_none.1 refused)⟩
  | twoGates refused _ simple answer =>
    have gated := findGateFree_eq_none.1 refused
    obtain ⟨two, attains⟩ := attains_of_findTwoGates answer
    rw [two]
    refine ⟨attains, fun gates attains => ?_⟩
    have positive := attains.pos gated
    have : gates ≠ 1 := fun one => by
      simpa [simple] using findOneGate_isSome plain gated (one ▸ attains)
    omega

theorem find_isSome {basis : Basis} {gates maxInserts : Nat} (plain : basis ≠ .mig)
    (attains : p.Attains basis gates) (bound : gates ≤ maxInserts) :
    (p.find basis maxInserts).isSome := by
  simp only [Option.isSome_iff_exists, find_eq_some]
  cases refused : p.findGateFree with
  | some found => exact ⟨found, .gateFree refused⟩
  | none =>
    have gated := findGateFree_eq_none.1 refused
    have positive := attains.pos gated
    cases simple : p.findOneGate basis p.positive p.negative with
    | some found => exact ⟨found, .oneGate refused (by omega) simple⟩
    | none =>
      have : gates ≠ 1 := fun one => by
        simpa [simple] using findOneGate_isSome plain gated (one ▸ attains)
      obtain rfl : gates = 2 := by
        have := attains.le_two
        omega
      obtain ⟨found, answer⟩ := Option.isSome_iff_exists.1 (findTwoGates_isSome attains)
      exact ⟨found, .twoGates refused bound simple answer⟩

/-- A search other than by majorities finds a candidate just when a member of its family within the
    bound matches the target on the care set, and then one with the least number of gates among all
    members that match. -/
theorem resynthesize_least (p : Problem w) {basis : Basis} (plain : basis ≠ .mig)
    (maxInserts : Nat) (stats : ResynStats) :
    ∃ found stats', p.resynthesize basis maxInserts stats = .ok (found, stats') ∧
      (found.isSome ↔ ∃ gates ≤ maxInserts, p.Attains basis gates) ∧
      ∀ c, found = some c →
        p.Attains basis c.numGates ∧ ∀ gates, p.Attains basis gates → c.numGates ≤ gates := by
  obtain ⟨found, stats', ran, same, solved⟩ := p.exists_resynthesize basis maxInserts stats
  have least (c : Candidate) (here : found = some c) :
      p.Attains basis c.numGates ∧ ∀ gates, p.Attains basis gates → c.numGates ≤ gates := by
    obtain ⟨⟨shape, c'⟩, answer, rfl⟩ := Option.map_eq_some_iff.1 (same.symm.trans here)
    exact attains_of_find plain answer
  refine ⟨found, stats', ran, ⟨fun here => ?_, fun ⟨gates, bound, attains⟩ => ?_⟩, least⟩
  · obtain ⟨c, here⟩ := Option.isSome_iff_exists.1 here
    exact ⟨c.numGates, (solved c here).numGates, (least c here).1⟩
  · rw [same, Option.isSome_map]
    exact find_isSome plain attains bound

/-- Over two divisors, their exclusive disjunction takes one gate and no fewer. -/
theorem resynthesize_least_exclusive :
    Basis.xag ≠ .mig ∧
      ∃ c stats, (⟨0b0110, 0b1111, [0b1010, 0b1100]⟩ : Problem 4).resynthesize .xag 2 .zero =
          .ok (some c, stats) ∧ c.numGates = 1 ∧
        ∀ gates, (⟨0b0110, 0b1111, [0b1010, 0b1100]⟩ : Problem 4).Attains .xag gates →
          1 ≤ gates := by
  obtain ⟨found, stats, ran, -, least⟩ := resynthesize_least
    (⟨0b0110, 0b1111, [0b1010, 0b1100]⟩ : Problem 4) (show Basis.xag ≠ .mig by decide) 2 .zero
  have known : (⟨0b0110, 0b1111, [0b1010, 0b1100]⟩ : Problem 4).resynthesize .xag 2 .zero =
      .ok (some ⟨2, [.xor2 ⟨1, false⟩ ⟨2, false⟩], ⟨3, false⟩⟩, ⟨1, 0, 0, 1, 0, 0⟩) := by rfl
  cases ran.symm.trans known
  exact ⟨by decide, _, _, known, rfl, (least _ rfl).2⟩

end Problem

end LogicOpt
