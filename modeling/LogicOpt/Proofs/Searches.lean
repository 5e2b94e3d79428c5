import LogicOpt.Proofs.Candidates
import LogicOpt.Resynthesis.Basis

namespace LogicOpt

variable {w : Nat}

theorem complementIf_not (x : BitVec w) (negated : Bool) :
    GateValue.complementIf x (!negated) = ~~~GateValue.complementIf x negated := by
  cases negated <;> simp [GateValue.complementIf, GateValue.complement]

theorem findPair?_eq_some {α β : Type} {f : α → α → Option β} {xs : List α} {b : β}
    (found : findPair? f xs = some b) : ∃ x ∈ xs, ∃ y ∈ xs, f x y = some b := by
  induction xs with
  | nil => cases found
  | cons x rest ih =>
    unfold findPair? at found
    split at found
    · rename_i first
      cases found
      obtain ⟨y, member, answer⟩ := List.exists_of_findSome?_eq_some first
      exact ⟨x, by simp, y, List.mem_cons_of_mem _ member, answer⟩
    · obtain ⟨x', left, y, right, answer⟩ := ih found
      exact ⟨x', List.mem_cons_of_mem _ left, y, List.mem_cons_of_mem _ right, answer⟩

namespace Problem

variable (p : Problem w)

def positions : Array (BitVec w) := (0 :: p.divisors).toArray

theorem size_positions : p.positions.size = p.firstGate := by
  simp [positions, firstGate, numDivisors]

end Problem

def Literal.Reads (p : Problem w) (l : Literal w) : Prop :=
  Candidate.readSignal p.positions l.signal = .ok l.function

namespace Literal

variable {p : Problem w} {l : Literal w}

theorem Reads.negate (reads : l.Reads p) :
    Candidate.readSignal p.positions l.signal.negate = .ok (~~~l.function) := by
  obtain ⟨v, entry, same⟩ := Candidate.readSignal_eq_ok.1 reads
  exact Candidate.readSignal_eq_ok.2 ⟨v, entry, by rw [← same]; exact complementIf_not v _⟩

theorem reads_ofDivisor {i : Nat} {f : BitVec w} (entry : (f, i) ∈ p.divisors.zipIdx)
    (negated : Bool) : (ofDivisor i f negated).Reads p := by
  have there : p.divisors[i]? = some f := List.mk_mem_zipIdx_iff_getElem?.1 entry
  refine Candidate.readSignal_eq_ok.2 ⟨f, ?_, ?_⟩
  · simp [Problem.positions, ofDivisor, Candidate.divisorSignal, there]
  · cases negated <;> simp [ofDivisor, Candidate.divisorSignal, GateValue.complementIf,
      GateValue.complement]

theorem reads_constant (p : Problem w) (value : Bool) : (constant value).Reads p := by
  refine Candidate.readSignal_eq_ok.2 ⟨0, by simp [Problem.positions, constant, Signal.constant], ?_⟩
  cases value <;> simp [constant, Signal.constant, GateValue.complementIf, GateValue.complement]

end Literal

namespace Problem

variable {p : Problem w}

theorem reads_of_mem_literals {l : Literal w} (member : l ∈ p.literals) : l.Reads p := by
  obtain ⟨⟨f, i⟩, entry, side⟩ := List.mem_flatMap.1 member
  simp only [Literal.both, List.mem_cons, List.not_mem_nil, or_false] at side
  rcases side with rfl | rfl
  · exact Literal.reads_ofDivisor entry false
  · exact Literal.reads_ofDivisor entry true

theorem reads_of_mem_pool {bound : Nat} {l : Literal w} (member : l ∈ p.pool bound) : l.Reads p :=
  reads_of_mem_literals (List.mem_of_mem_take member)

/-- A candidate over the divisors with at most so many gates of some kinds, which matches the target
    on the care set. -/
structure Solved (p : Problem w) (kinds : List GateKind) (gates : Nat) (c : Candidate) : Prop where
  numDivisors : c.numDivisors = p.numDivisors
  numGates : c.numGates ≤ gates
  closed : c.Closed
  kind : ∀ g ∈ c.gates, g.kind ∈ kinds
  matched : ∃ f, c.evaluate 0 p.divisors = .ok f ∧ p.accepts f = true

theorem Solved.mono {kinds kinds' : List GateKind} {gates gates' : Nat} {c : Candidate}
    (solved : p.Solved kinds gates c) (more : kinds ⊆ kinds') (le : gates ≤ gates') :
    p.Solved kinds' gates' c :=
  { solved with
    numGates := Nat.le_trans solved.numGates le
    kind := fun g member => more (solved.kind g member) }

theorem Solved.verified {kinds : List GateKind} {gates : Nat} {c : Candidate}
    (solved : p.Solved kinds gates c) : p.verified c = .ok (some c) := by
  obtain ⟨f, evaluated, accepted⟩ := solved.matched
  rw [Problem.verified, evaluated]
  exact if_pos accepted

theorem solved_signal {f : BitVec w} {s : Signal}
    (read : Candidate.readSignal p.positions s = .ok f) (accepted : p.accepts f = true) :
    p.Solved [] 0 ⟨p.numDivisors, [], s⟩ where
  numDivisors := rfl
  numGates := Nat.le_refl 0
  closed := by
    refine ⟨fun i inside => absurd inside (by simp), ?_⟩
    have inside := Candidate.exists_readSignal.1 ⟨f, read⟩
    rw [size_positions] at inside
    simpa [Candidate.nextPosition, firstGate, Nat.add_comm] using inside
  kind := by simp
  matched := by
    refine ⟨f, ?_, accepted⟩
    simp only [Candidate.evaluate, bind_eq_ok, ensure_eq_ok, beq_iff_eq]
    exact ⟨(), rfl, p.positions, rfl, read⟩

theorem solved_constant {c : Candidate} (found : p.findConstant = some c) : p.Solved [] 0 c := by
  unfold findConstant at found
  split at found
  · rename_i never
    cases found
    refine solved_signal (Literal.reads_constant p false) (agreeOn_iff.2 fun i inside cared => ?_)
    have off := congrArg (·.getLsbD i) (beq_iff_eq.1 never)
    simpa [Literal.constant, careOn, cared] using off
  · split at found
    · rename_i always
      cases found
      refine solved_signal (Literal.reads_constant p true) (agreeOn_iff.2 fun i inside cared => ?_)
      simp [Literal.constant, inside, entails_iff.1 always i inside cared]
    · cases found

theorem solved_divisor {c : Candidate} (found : p.findDivisor = some c) : p.Solved [] 0 c := by
  obtain ⟨⟨f, i⟩, entry, answer⟩ := List.exists_of_findSome?_eq_some found
  dsimp only at answer
  split at answer
  · rename_i accepted
    cases answer
    exact solved_signal (Literal.reads_ofDivisor entry false) accepted
  · split at answer
    · rename_i accepted
      cases answer
      exact solved_signal (Literal.reads_ofDivisor entry true) accepted
    · cases answer

theorem solved_oneGate {g : Gate Signal} {h : Gate (BitVec w)} {negated : Bool}
    (read : g.mapM (Candidate.readSignal p.positions) = .ok h)
    (accepted : p.accepts (GateValue.complementIf h.eval negated) = true) :
    p.Solved [g.kind] 1 (p.oneGate g negated) where
  numDivisors := rfl
  numGates := Nat.le_refl 1
  closed := by
    refine ⟨fun i inside s member => ?_,
      by simp [oneGate, firstGate, Candidate.nextPosition, Nat.add_comm]⟩
    obtain rfl : i = 0 := by simpa [oneGate] using inside
    have earlier := Candidate.exists_readSignal.1 (Gate.exists_of_mapM read s member)
    rw [size_positions, firstGate] at earlier
    show s.node < 1 + p.numDivisors + 0
    omega
  kind := by simp [oneGate]
  matched := by
    refine ⟨_, ?_, accepted⟩
    have last := Candidate.readSignal_last p.positions h.eval negated
    rw [size_positions] at last
    simp only [Candidate.evaluate, bind_eq_ok, ensure_eq_ok, beq_iff_eq]
    refine ⟨(), rfl, p.positions.push h.eval, ?_, last⟩
    rw [oneGate, List.foldlM_cons]
    exact congrArg (· >>= _) (Candidate.evaluateGate_of_read (fun _ _ => rfl) read)

theorem mapM_and {values : Array (BitVec w)} {a b : Signal} {x y : BitVec w}
    (left : Candidate.readSignal values a = .ok x)
    (right : Candidate.readSignal values b = .ok y) :
    (Gate.and2 a b).mapM (Candidate.readSignal values) = .ok (.and2 x y) := by
  simp [Gate.mapM, left, right, bind, Except.bind, pure, Except.pure]

theorem solved_or {positive : List (Literal w)} {c : Candidate}
    (known : ∀ l ∈ positive, l.Reads p) (found : p.findOr positive = some c) :
    p.Solved [.and2] 1 c := by
  obtain ⟨a, left, b, right, answer⟩ := findPair?_eq_some found
  split at answer
  · rename_i accepted
    cases answer
    refine solved_oneGate (mapM_and (known a left).negate (known b right).negate) ?_
    have same : GateValue.complementIf (Gate.and2 (~~~a.function) (~~~b.function)).eval true =
        a.function ||| b.function := by
      simp [GateValue.complementIf, GateValue.complement, Gate.eval, GateValue.and2, BitVec.not_and]
    rwa [same]
  · cases answer

theorem solved_and {negative : List (Literal w)} {c : Candidate}
    (known : ∀ l ∈ negative, l.Reads p) (found : p.findAnd negative = some c) :
    p.Solved [.and2] 1 c := by
  obtain ⟨a, left, b, right, answer⟩ := findPair?_eq_some found
  split at answer
  · rename_i accepted
    cases answer
    exact solved_oneGate (mapM_and (known a left) (known b right)) accepted
  · cases answer

theorem solved_xor {c : Candidate} (found : p.findXor = some c) : p.Solved [.xor2] 1 c := by
  obtain ⟨⟨a, i⟩, left, ⟨b, j⟩, right, answer⟩ := findPair?_eq_some found
  have first := Literal.reads_ofDivisor (List.mem_of_mem_take left) false
  have second := Literal.reads_ofDivisor (List.mem_of_mem_take right) false
  have read : (Gate.xor2 (Literal.ofDivisor i a false).signal
      (Literal.ofDivisor j b false).signal).mapM (Candidate.readSignal p.positions) =
      .ok (.xor2 a b) := by
    simp only [Gate.mapM, bind_eq_ok]
    exact ⟨a, first, b, second, rfl⟩
  dsimp only at answer
  split at answer
  · rename_i accepted
    cases answer
    exact solved_oneGate read accepted
  · split at answer
    · rename_i accepted
      cases answer
      exact solved_oneGate read accepted
    · cases answer

theorem accepts_maj {a b c : BitVec w}
    (agree : agreeOn a p.target (~~~(a ^^^ b) &&& p.care) = true)
    (differ : agreeOn c p.target ((a ^^^ b) &&& p.care) = true) :
    p.accepts (Gate.maj3 a b c).eval = true := by
  refine agreeOn_iff.2 fun i inside cared => ?_
  have decided := agreeOn_iff.1 agree i inside
  have chosen := agreeOn_iff.1 differ i inside
  simp only [BitVec.getLsbD_and, BitVec.getLsbD_not, BitVec.getLsbD_xor, cared, Bool.and_true,
    inside, decide_true, Bool.true_and] at decided chosen
  simp only [Gate.eval, GateValue.maj3, BitVec.getLsbD_or, BitVec.getLsbD_and]
  cases left : a.getLsbD i <;> cases right : b.getLsbD i <;>
    simp_all

theorem solved_maj {c : Candidate} (found : p.findMaj = some c) : p.Solved [.maj3] 1 c := by
  obtain ⟨a, left, b, right, answer⟩ := findPair?_eq_some found
  unfold findThird at answer
  split at answer
  · cases answer
  · dsimp only at answer
    split at answer
    · rename_i agree
      obtain ⟨third, chosen, rfl⟩ := Option.map_eq_some_iff.1 answer
      have known : third.Reads p := by
        rcases List.mem_cons.1 (List.mem_of_find?_eq_some chosen) with rfl | member
        · exact Literal.reads_constant p false
        · rcases List.mem_cons.1 member with rfl | member
          · exact Literal.reads_constant p true
          · exact reads_of_mem_pool member
      have differ := List.find?_some chosen
      simp only [Bool.and_eq_true] at differ
      have read : (Gate.maj3 a.signal b.signal third.signal).mapM
          (Candidate.readSignal p.positions) = .ok (.maj3 a.function b.function third.function) := by
        simp only [Gate.mapM, bind_eq_ok]
        exact ⟨_, reads_of_mem_pool left, _, reads_of_mem_pool right, _, known, rfl⟩
      exact solved_oneGate read (accepts_maj agree differ.2)
    · cases answer

structure LiteralPair.Reads (p : Problem w) (op : BitVec w → BitVec w → BitVec w)
    (q : LiteralPair w) : Prop where
  left : q.left.Reads p
  right : q.right.Reads p
  function : q.function = op q.left.function q.right.function

theorem reads_of_mem_pairsOf {op : BitVec w → BitVec w → BitVec w} {literals : List (Literal w)}
    {q : LiteralPair w} (known : ∀ l ∈ literals, l.Reads p) (member : q ∈ pairsOf op literals) :
    q.Reads p op := by
  induction literals with
  | nil => cases member
  | cons a rest ih =>
    rw [List.forall_mem_cons] at known
    rcases List.mem_append.1 member with member | member
    · obtain ⟨b, there, rfl⟩ := List.mem_map.1 member
      exact ⟨known.1, known.2 b (List.mem_filter.1 there).1, rfl⟩
    · exact ih known.2 member

theorem solved_twoGates {a b c : Signal} {x y z : BitVec w} {negated : Bool}
    (inner : (Gate.and2 b c).mapM (Candidate.readSignal p.positions) = .ok (.and2 y z))
    (outer : Candidate.readSignal p.positions a = .ok x)
    (accepted : p.accepts (GateValue.complementIf (x &&& ~~~(y &&& z)) negated) = true) :
    p.Solved [.and2] 2 ⟨p.numDivisors, [.and2 b c, .and2 a ⟨p.firstGate, true⟩],
      ⟨p.firstGate + 1, negated⟩⟩ where
  numDivisors := rfl
  numGates := Nat.le_refl 2
  closed := by
    have known (s : Signal) (read : ∃ v, Candidate.readSignal p.positions s = .ok v) :
        s.node < p.firstGate := by
      rw [← size_positions]
      exact Candidate.exists_readSignal.1 read
    refine ⟨fun i inside s member => ?_, by simp [firstGate, Candidate.nextPosition, Nat.add_comm]⟩
    show s.node < 1 + p.numDivisors + i
    cases i with
    | zero =>
      have := known s (Gate.exists_of_mapM inner s member)
      simp only [firstGate] at this
      omega
    | succ i =>
      obtain rfl : i = 0 := by
        simp only [List.length_cons, List.length_nil] at inside
        omega
      have := known a ⟨x, outer⟩
      simp only [firstGate] at this
      simp only [List.getElem_cons_succ, List.getElem_cons_zero, Gate.operands, List.mem_cons,
        List.not_mem_nil, or_false, firstGate] at member
      rcases member with rfl | rfl
      · omega
      · show p.numDivisors + 1 < 1 + p.numDivisors + (0 + 1)
        omega
  kind := by simp [Gate.kind]
  matched := by
    refine ⟨_, ?_, accepted⟩
    have size : (p.positions.push (y &&& z)).size = p.firstGate + 1 := by
      rw [Array.size_push, size_positions]
    have first := Candidate.readSignal_last p.positions (y &&& z) true
    have last := Candidate.readSignal_last (p.positions.push (y &&& z)) (x &&& ~~~(y &&& z)) negated
    rw [size_positions] at first
    rw [size] at last
    simp only [Candidate.evaluate, bind_eq_ok, ensure_eq_ok, beq_iff_eq, List.foldlM_cons]
    refine ⟨(), rfl, _, ⟨_, Candidate.evaluateGate_of_read (fun _ _ => rfl) inner, _,
      Candidate.evaluateGate_of_read (fun _ _ => rfl)
        (mapM_and (Candidate.readSignal_push outer) first), rfl⟩, last⟩

theorem solved_orAnd {positive : List (Literal w)} {c : Candidate}
    (known : ∀ l ∈ positive, l.Reads p) (found : p.findOrAnd positive p.products = some c) :
    p.Solved [.and2] 2 c := by
  obtain ⟨a, left, answer⟩ := List.exists_of_findSome?_eq_some found
  obtain ⟨q, chosen, rfl⟩ := Option.map_eq_some_iff.1 answer
  have reads : q.Reads p (· &&& ·) := reads_of_mem_pairsOf (fun l => reads_of_mem_pool)
    (List.mem_filter.1 (List.mem_of_find?_eq_some chosen)).1
  have accepted := List.find?_some chosen
  refine solved_twoGates (mapM_and reads.left reads.right) (known a left).negate ?_
  have same : GateValue.complementIf
      (~~~a.function &&& ~~~(q.left.function &&& q.right.function)) true =
      a.function ||| q.function := by
    refine BitVec.eq_of_getLsbD_eq fun i inside => ?_
    simp [reads.function, GateValue.complementIf, GateValue.complement, inside]
  rwa [same]

theorem solved_andOr {negative : List (Literal w)} {c : Candidate}
    (known : ∀ l ∈ negative, l.Reads p) (found : p.findAndOr negative p.sums = some c) :
    p.Solved [.and2] 2 c := by
  obtain ⟨a, left, answer⟩ := List.exists_of_findSome?_eq_some found
  obtain ⟨q, chosen, rfl⟩ := Option.map_eq_some_iff.1 answer
  have reads : q.Reads p (· ||| ·) := reads_of_mem_pairsOf (fun l => reads_of_mem_pool)
    (List.mem_filter.1 (List.mem_of_find?_eq_some chosen)).1
  have accepted := List.find?_some chosen
  refine solved_twoGates (mapM_and reads.left.negate reads.right.negate) (known a left) ?_
  have same : GateValue.complementIf
      (a.function &&& ~~~(~~~q.left.function &&& ~~~q.right.function)) false =
      a.function &&& q.function := by
    rw [reads.function]
    simp [GateValue.complementIf, BitVec.not_and]
  rwa [same]

theorem eq_of_shaped {shape shape' : Shape} {found : Option Candidate} {c : Candidate}
    (answer : shaped shape found = some (shape', c)) : found = some c := by
  cases found with
  | none => cases answer
  | some c' =>
    cases answer
    rfl

theorem solved_gateFree {shape : Shape} {c : Candidate}
    (found : p.findGateFree = some (shape, c)) : p.Solved [] 0 c := by
  rcases Option.or_eq_some_iff.1 found with answer | ⟨-, answer⟩
  · exact solved_constant (eq_of_shaped answer)
  · exact solved_divisor (eq_of_shaped answer)

theorem reads_of_mem_positive {l : Literal w} (member : l ∈ p.positive) : l.Reads p :=
  reads_of_mem_literals (List.mem_filter.1 member).1

theorem reads_of_mem_negative {l : Literal w} (member : l ∈ p.negative) : l.Reads p :=
  reads_of_mem_literals (List.mem_filter.1 member).1

theorem solved_findOneGate {basis : Basis} {shape : Shape} {c : Candidate}
    (found : p.findOneGate basis p.positive p.negative = some (shape, c)) :
    p.Solved basis.kinds 1 c := by
  have known := eq_of_shaped found
  have either {c : Candidate}
      (answer : (p.findOr p.positive).or (p.findAnd p.negative) = some c) :
      p.Solved [.and2] 1 c := by
    rcases Option.or_eq_some_iff.1 answer with answer | ⟨-, answer⟩
    · exact solved_or (fun l => reads_of_mem_positive) answer
    · exact solved_and (fun l => reads_of_mem_negative) answer
  cases basis with
  | div0 => cases known
  | aig => exact either known
  | xag =>
    rcases Option.or_eq_some_iff.1 known with answer | ⟨-, answer⟩
    · exact (either answer).mono (by simp [Basis.kinds]) (Nat.le_refl 1)
    · exact (solved_xor answer).mono (by simp [Basis.kinds]) (Nat.le_refl 1)
  | mig => exact solved_maj known

theorem solved_findTwoGates {basis : Basis} {shape : Shape} {c : Candidate}
    (found : p.findTwoGates basis p.positive p.negative = some (shape, c)) :
    p.Solved basis.kinds 2 c := by
  have known := eq_of_shaped found
  have either {c : Candidate} (answer : (p.findOrAnd p.positive p.products).or
      (p.findAndOr p.negative p.sums) = some c) : p.Solved [.and2] 2 c := by
    rcases Option.or_eq_some_iff.1 answer with answer | ⟨-, answer⟩
    · exact solved_orAnd (fun l => reads_of_mem_positive) answer
    · exact solved_andOr (fun l => reads_of_mem_negative) answer
  cases basis with
  | div0 => cases known
  | aig => exact either known
  | xag => exact (either known).mono (by simp [Basis.kinds]) (Nat.le_refl 2)
  | mig => cases known

/-- The search that found something, after those with fewer gates had found nothing. -/
inductive Found (p : Problem w) (basis : Basis) (maxInserts : Nat) (found : Shape × Candidate) :
    Prop where
  | gateFree (answer : p.findGateFree = some found)
  | oneGate (refused : p.findGateFree = none) (bound : 0 < maxInserts)
      (answer : p.findOneGate basis p.positive p.negative = some found)
  | twoGates (refused : p.findGateFree = none) (bound : 1 < maxInserts)
      (simple : p.findOneGate basis p.positive p.negative = none)
      (answer : p.findTwoGates basis p.positive p.negative = some found)

theorem find_eq_some {basis : Basis} {maxInserts : Nat} {found : Shape × Candidate} :
    p.find basis maxInserts = some found ↔ p.Found basis maxInserts found := by
  unfold find
  constructor
  · intro known
    split at known
    · rename_i answer
      cases known
      exact .gateFree answer
    · rename_i refused
      split at known
      · cases known
      · dsimp only at known
        split at known
        · rename_i answer
          cases known
          exact .oneGate refused (by omega) answer
        · rename_i simple
          split at known
          · cases known
          · exact .twoGates refused (by omega) simple known
  · intro found
    cases found with
    | gateFree answer => rw [answer]
    | oneGate refused bound answer =>
      rw [refused]
      simp only [if_neg (Nat.pos_iff_ne_zero.1 bound), answer]
    | twoGates refused bound simple answer =>
      rw [refused]
      simp only [if_neg (show maxInserts ≠ 0 by omega), simple,
        if_neg (show maxInserts ≠ 1 by omega), answer]

theorem solved_find {basis : Basis} {maxInserts : Nat} {shape : Shape} {c : Candidate}
    (found : p.find basis maxInserts = some (shape, c)) : p.Solved basis.kinds maxInserts c := by
  cases find_eq_some.1 found with
  | gateFree answer => exact (solved_gateFree answer).mono (by simp) (Nat.zero_le _)
  | oneGate _ bound answer => exact (solved_findOneGate answer).mono (List.Subset.refl _) bound
  | twoGates _ bound _ answer => exact (solved_findTwoGates answer).mono (List.Subset.refl _) bound

theorem exists_resynthesize (p : Problem w) (basis : Basis) (maxInserts : Nat)
    (stats : ResynStats) :
    ∃ found stats', p.resynthesize basis maxInserts stats = .ok (found, stats') ∧
      found = (p.find basis maxInserts).map Prod.snd ∧
      ∀ c, found = some c → p.Solved basis.kinds maxInserts c := by
  cases search : p.find basis maxInserts with
  | none => exact ⟨none, _, by rw [resynthesize, search], rfl, by simp⟩
  | some found =>
    obtain ⟨shape, c⟩ := found
    have solved := solved_find search
    refine ⟨some c, stats.call.success shape, ?_, rfl, fun c' same => ?_⟩
    · rw [resynthesize, search]
      simp [solved.verified, bind, Except.bind, pure, Except.pure]
    · cases same
      exact solved

/-- A search never fails and hands out what it found, and that is a candidate over the divisors with
    gates of the basis within the bound, which matches the target on the care set. -/
theorem resynthesize_sound (p : Problem w) (basis : Basis) (maxInserts : Nat) (stats : ResynStats) :
    ∃ found stats', p.resynthesize basis maxInserts stats = .ok (found, stats') ∧
      found = (p.find basis maxInserts).map Prod.snd ∧
      ∀ c, found = some c →
        c.numDivisors = p.divisors.length ∧ c.numGates ≤ maxInserts ∧ c.Ordered ∧
        (∀ g ∈ c.gates, g.kind ∈ basis.kinds) ∧
        ∃ f, c.evaluate 0 p.divisors = .ok f ∧
          ∀ i < w, p.care.getLsbD i = true → f.getLsbD i = p.target.getLsbD i := by
  obtain ⟨found, stats', ran, same, solved⟩ := p.exists_resynthesize basis maxInserts stats
  refine ⟨found, stats', ran, same, fun c here => ?_⟩
  have solved := solved c here
  obtain ⟨f, evaluated, accepted⟩ := solved.matched
  exact ⟨solved.numDivisors, solved.numGates, solved.closed.ordered, solved.kind, f, evaluated,
    agreeOn_iff.1 accepted⟩

end Problem

end LogicOpt
