import Mathlib.Data.List.TakeDrop
import Mathlib.Order.Nat
import Mathlib.Tactic.SplitIfs
import LogicOpt.Params.Text

namespace LogicOpt

namespace Json

variable {text rest : List Char}

theorem length_skipBlank_le (text : List Char) : (skipBlank text).length ≤ text.length :=
  (List.dropWhile_sublist _).length_le

theorem length_of_digits {digits : List Char} (found : digits? text = some (digits, rest)) :
    rest.length < text.length := by
  have parts := List.takeWhile_append_dropWhile (p := Char.isDigit) (l := text)
  rw [digits?, List.span_eq_takeWhile_dropWhile] at found
  split at found
  · cases found
  · rename_i some
    cases found
    have taken : (text.takeWhile Char.isDigit).length ≠ 0 := by simpa using some
    have lengths := congrArg List.length parts
    rw [List.length_append] at lengths
    omega

theorem length_of_skipFraction (found : skipFraction? text = some rest) :
    rest.length ≤ text.length := by
  unfold skipFraction? at found
  split at found
  · obtain ⟨⟨digits, left⟩, read, rfl⟩ := Option.map_eq_some_iff.1 found
    exact (length_of_digits read).le.trans (Nat.le_succ _)
  · cases found
    exact Nat.le_refl _

theorem length_skipSign_le (text : List Char) : (skipSign text).length ≤ text.length := by
  unfold skipSign
  split <;> simp

theorem length_of_skipExponent (found : skipExponent? text = some rest) :
    rest.length ≤ text.length := by
  have signed (text : List Char) (found : (digits? (skipSign text)).map (·.2) = some rest) :
      rest.length ≤ text.length := by
    obtain ⟨⟨digits, left⟩, read, rfl⟩ := Option.map_eq_some_iff.1 found
    exact (length_of_digits read).le.trans (length_skipSign_le text)
  unfold skipExponent? at found
  split at found
  · exact (signed _ found).trans (Nat.le_succ _)
  · exact (signed _ found).trans (Nat.le_succ _)
  · cases found
    exact Nat.le_refl _

theorem length_of_unsigned {negative : Bool} {n : JsonNumber}
    (found : unsigned? negative text = some (n, rest)) : rest.length < text.length := by
  simp only [unsigned?, Option.bind_eq_bind, Option.bind_eq_some_iff] at found
  obtain ⟨⟨whole, afterWhole⟩, read, found⟩ := found
  split at found
  · cases found
  · simp only [Option.bind_eq_some_iff] at found
    obtain ⟨afterFraction, fraction, last, exponent, same⟩ := found
    cases same
    have := length_of_digits read
    have := length_of_skipFraction fraction
    have := length_of_skipExponent exponent
    omega

theorem length_of_unit {u : Nat} (found : unit? text = some (u, rest)) :
    rest.length < text.length := by
  unfold unit? at found
  split at found
  · simp only [Option.bind_eq_bind, Option.bind_eq_some_iff] at found
    obtain ⟨_, _, _, _, _, _, _, _, same⟩ := found
    cases same
    simp only [List.length_cons]
    omega
  · cases found

theorem length_of_units {fuel : Nat} {units : List (Nat × Bool)}
    (found : units? fuel text = some (units, rest)) : rest.length < text.length := by
  induction fuel generalizing text units with
  | zero => cases found
  | succ fuel ih =>
    cases text with
    | nil => cases found
    | cons c text =>
      simp only [units?] at found
      split_ifs at found with quote slash control
      · cases found
        exact Nat.lt_succ_self _
      · split at found
        · cases found
        · simp only [Option.bind_eq_bind, Option.bind_eq_some_iff] at found
          obtain ⟨⟨u, middle⟩, read, ⟨later, last⟩, others, same⟩ := found
          cases same
          exact ((ih others).trans (length_of_unit read)).trans
            (Nat.lt_succ_of_lt (Nat.lt_succ_self _))
        · simp only [Option.bind_eq_bind, Option.bind_eq_some_iff] at found
          obtain ⟨u, -, ⟨later, last⟩, others, same⟩ := found
          cases same
          exact (ih others).trans (Nat.lt_succ_of_lt (Nat.lt_succ_self _))
      · simp only [Option.bind_eq_bind, Option.bind_eq_some_iff] at found
        obtain ⟨⟨later, last⟩, others, same⟩ := found
        cases same
        exact (ih others).trans (Nat.lt_succ_self _)

theorem length_of_string {s : Option String} (found : string? text = some (s, rest)) :
    rest.length < text.length := by
  simp only [string?, Option.bind_eq_bind, Option.bind_eq_some_iff] at found
  obtain ⟨⟨units, last⟩, read, same⟩ := found
  cases same
  exact length_of_units read

theorem length_of_literal {c : Char} {word : List Char} {value x : Json}
    (found : literal? (c :: word) value text = some (x, rest)) : rest.length < text.length := by
  rw [literal?] at found
  split_ifs at found with here
  cases found
  have fits := (List.isPrefixOf_iff_prefix.1 here).length_le
  rw [List.length_cons] at fits
  rw [List.length_drop, List.length_cons]
  omega

/-- At least one character is read, and as much fuel as characters are read is enough. -/
def Reads {α : Type} (read : Nat → List Char → Option (α × List Char)) (text : List Char) (x : α)
    (rest : List Char) : Prop :=
  rest.length < text.length ∧
    ∀ fuel, text.length ≤ rest.length + fuel → read fuel text = some (x, rest)

section

variable {fuel : Nat}

theorem value_reads {x : Json}
    (elements : ∀ {text xs rest}, elements? fuel text = some (xs, rest) →
      Reads elements? text xs rest)
    (fields : ∀ {text fs rest}, fields? fuel text = some (fs, rest) → Reads fields? text fs rest)
    (read : value? (fuel + 1) text = some (x, rest)) : Reads value? text x rest := by
  have blanks := length_skipBlank_le text
  rw [value?] at read
  split at read
  · cases read
  rename_i c tail start
  rw [start, List.length_cons] at blanks
  suffices step : rest.length ≤ tail.length ∧
      ∀ more, tail.length ≤ rest.length + more → value? (more + 1) text = some (x, rest) by
    refine ⟨by omega, fun more enough => ?_⟩
    cases more with
    | zero => omega
    | succ more => exact step.2 more (by omega)
  split_ifs at read with quote bracket brace minus digit
  · refine ⟨?_, fun more _ => by
      rw [value?, start]
      dsimp only
      rwa [if_pos quote]⟩
    obtain ⟨⟨s, last⟩, found, same⟩ := Option.map_eq_some_iff.1 read
    cases same
    exact (length_of_string found).le
  · have blanks' := length_skipBlank_le tail
    split at read
    · rename_i last closed
      cases read
      rw [closed, List.length_cons] at blanks'
      refine ⟨by omega, fun more _ => ?_⟩
      rw [value?, start]
      dsimp only
      rw [if_neg quote, if_pos bracket, closed]
      rfl
    · rename_i opened
      obtain ⟨⟨xs, last⟩, found, same⟩ := Option.map_eq_some_iff.1 read
      cases same
      obtain ⟨shorter, enough⟩ := elements found
      refine ⟨by omega, fun more room => ?_⟩
      rw [value?, start]
      dsimp only
      rw [if_neg quote, if_pos bracket]
      split
      · rename_i last closed
        exact absurd closed (opened last)
      · rw [enough more (by omega)]
        rfl
  · have blanks' := length_skipBlank_le tail
    split at read
    · rename_i last closed
      cases read
      rw [closed, List.length_cons] at blanks'
      refine ⟨by omega, fun more _ => ?_⟩
      rw [value?, start]
      dsimp only
      rw [if_neg quote, if_neg bracket, if_pos brace, closed]
      rfl
    · rename_i opened
      obtain ⟨⟨fs, last⟩, found, same⟩ := Option.map_eq_some_iff.1 read
      cases same
      obtain ⟨shorter, enough⟩ := fields found
      refine ⟨by omega, fun more room => ?_⟩
      rw [value?, start]
      dsimp only
      rw [if_neg quote, if_neg bracket, if_pos brace]
      split
      · rename_i last closed
        exact absurd closed (opened last)
      · rw [enough more (by omega)]
        rfl
  · refine ⟨?_, fun more _ => by
      rw [value?, start]
      dsimp only
      rwa [if_neg quote, if_neg bracket, if_neg brace, if_pos minus]⟩
    obtain ⟨⟨n, last⟩, found, same⟩ := Option.map_eq_some_iff.1 read
    cases same
    exact (length_of_unsigned found).le
  · refine ⟨?_, fun more _ => by
      rw [value?, start]
      dsimp only
      rwa [if_neg quote, if_neg bracket, if_neg brace, if_neg minus, if_pos digit]⟩
    obtain ⟨⟨n, last⟩, found, same⟩ := Option.map_eq_some_iff.1 read
    cases same
    exact Nat.lt_succ_iff.1 (length_of_unsigned found)
  · refine ⟨?_, fun more _ => by
      rw [value?, start]
      dsimp only
      rwa [if_neg quote, if_neg bracket, if_neg brace, if_neg minus, if_neg digit]⟩
    simp only [Option.or_eq_some_iff] at read
    refine Nat.lt_succ_iff.1 ?_
    rcases read with (found | ⟨-, found⟩) | ⟨-, found⟩ <;> exact length_of_literal found

theorem elements_reads {xs : List Json}
    (value : ∀ {text x rest}, value? fuel text = some (x, rest) → Reads value? text x rest)
    (elements : ∀ {text xs rest}, elements? fuel text = some (xs, rest) →
      Reads elements? text xs rest)
    (read : elements? (fuel + 1) text = some (xs, rest)) : Reads elements? text xs rest := by
  simp only [elements?, Option.bind_eq_bind, Option.bind_eq_some_iff] at read
  obtain ⟨⟨x, behind⟩, first, read⟩ := read
  obtain ⟨shorter, enough⟩ := value first
  have blanks := length_skipBlank_le behind
  suffices step : rest.length < behind.length ∧ ∀ more, text.length ≤ rest.length + (more + 1) →
      elements? (more + 1) text = some (xs, rest) by
    refine ⟨by omega, fun more room => ?_⟩
    cases more with
    | zero => omega
    | succ more => exact step.2 more room
  split at read
  · rename_i last closed
    cases read
    rw [closed, List.length_cons] at blanks
    refine ⟨by omega, fun more room => ?_⟩
    simp only [elements?, enough more (by omega), Option.bind_eq_bind, Option.bind_some, closed]
    rfl
  · rename_i others comma
    simp only [Option.bind_eq_some_iff] at read
    obtain ⟨⟨ys, last⟩, found, same⟩ := read
    cases same
    dsimp only
    obtain ⟨shorter', enough'⟩ := elements found
    rw [comma, List.length_cons] at blanks
    refine ⟨by omega, fun more room => ?_⟩
    simp only [elements?, enough more (by omega), Option.bind_eq_bind, Option.bind_some, comma,
      enough' more (by omega)]
    rfl
  · cases read

theorem fields_reads {fs : List (Option String × Json)}
    (value : ∀ {text x rest}, value? fuel text = some (x, rest) → Reads value? text x rest)
    (fields : ∀ {text fs rest}, fields? fuel text = some (fs, rest) → Reads fields? text fs rest)
    (read : fields? (fuel + 1) text = some (fs, rest)) : Reads fields? text fs rest := by
  have blanks := length_skipBlank_le text
  rw [fields?] at read
  split at read
  swap
  · cases read
  rename_i inside quote
  rw [quote, List.length_cons] at blanks
  simp only [Option.bind_eq_bind, Option.bind_eq_some_iff] at read
  obtain ⟨⟨key, behind⟩, name, read⟩ := read
  have named := length_of_string name
  have blanks' := length_skipBlank_le behind
  split at read
  swap
  · cases read
  rename_i given colon
  rw [colon, List.length_cons] at blanks'
  simp only [Option.bind_eq_some_iff] at read
  obtain ⟨⟨x, after⟩, first, read⟩ := read
  obtain ⟨shorter, enough⟩ := value first
  have blanks'' := length_skipBlank_le after
  suffices step : rest.length < after.length ∧ ∀ more, text.length ≤ rest.length + (more + 1) →
      fields? (more + 1) text = some (fs, rest) by
    refine ⟨by omega, fun more room => ?_⟩
    cases more with
    | zero => omega
    | succ more => exact step.2 more room
  split at read
  · rename_i last closed
    cases read
    rw [closed, List.length_cons] at blanks''
    refine ⟨by omega, fun more room => ?_⟩
    simp only [fields?, quote, name, colon, enough more (by omega), Option.bind_eq_bind,
      Option.bind_some, closed]
    rfl
  · rename_i others comma
    simp only [Option.bind_eq_some_iff] at read
    obtain ⟨⟨gs, last⟩, found, same⟩ := read
    cases same
    dsimp only
    obtain ⟨shorter', enough'⟩ := fields found
    rw [comma, List.length_cons] at blanks''
    refine ⟨by omega, fun more room => ?_⟩
    simp only [fields?, quote, name, colon, enough more (by omega), Option.bind_eq_bind,
      Option.bind_some, comma, enough' more (by omega)]
    rfl
  · cases read

theorem reads_of_fuel (fuel : Nat) :
    (∀ {text x rest}, value? fuel text = some (x, rest) → Reads value? text x rest) ∧
      (∀ {text xs rest}, elements? fuel text = some (xs, rest) → Reads elements? text xs rest) ∧
      ∀ {text fs rest}, fields? fuel text = some (fs, rest) → Reads fields? text fs rest := by
  induction fuel with
  | zero =>
    refine ⟨fun read => ?_, fun read => ?_, fun read => ?_⟩
    · cases read
    · cases read
    · cases read
  | succ fuel ih =>
    obtain ⟨value, elements, fields⟩ := ih
    exact ⟨value_reads elements fields, elements_reads value elements, fields_reads value fields⟩

/-- How deep the parser may go never decides what a text says. -/
theorem value_eq_of_fuel {fuel fuel' : Nat} (enough : text.length ≤ fuel)
    (enough' : text.length ≤ fuel') : value? fuel text = value? fuel' text := by
  have same {low high : Nat} (room : text.length ≤ high) {found : Json × List Char}
      (read : value? low text = some found) : value? high text = some found :=
    ((reads_of_fuel low).1 read).2 high (Nat.le_add_left_of_le room)
  cases left : value? fuel text with
  | some found => exact (same enough' left).symm
  | none =>
    cases right : value? fuel' text with
    | none => rfl
    | some found => rw [same enough right] at left; cases left

end

def ofNat (n : Nat) : Json := .number ⟨false, Nat.toDigits 10 n, true⟩

theorem natBelow_ofNat {bound n : Nat} (below : n < bound) :
    (ofNat n).natBelow? bound = some n := by
  simp [ofNat, natBelow?, below]

theorem lt_of_natBelow {bound n : Nat} {x : Json} (read : x.natBelow? bound = some n) :
    n < bound := by
  unfold natBelow? at read
  split at read
  · dsimp only at read
    split_ifs at read with signed below
    cases read
    exact below
  · cases read

end Json

namespace Params

variable {p p' : Params}

def numbers (p : Params) : List Nat :=
  [p.maxPis, p.maxDivisors, p.maxInserts, p.skipFanoutLimitForRoots, p.skipFanoutLimitForDivisors,
    p.maxFanoutToExpand, p.windowSize, p.maxClauses, p.maxTrials]

def InRange (p : Params) : Prop := ∀ x ∈ p.numbers, x < valueLimit

theorem inRange_default : default.InRange := by
  unfold InRange
  decide

def Field.Keeps (field : Field) : Prop :=
  ∀ x p p', field.store x p = some p' → p.InRange → p'.InRange

theorem numberField_keeps {name : String} {store : Nat → Params → Params}
    (change : ∀ x p, x < valueLimit → p.InRange → (store x p).InRange) :
    (numberField name store).Keeps := by
  intro x p p' stored inRange
  obtain ⟨n, read, rfl⟩ := Option.map_eq_some_iff.1 stored
  exact change n p (Json.lt_of_natBelow read) inRange

theorem flagField_keeps {name : String} {store : Bool → Params → Params}
    (change : ∀ x p, p.InRange → (store x p).InRange) : (flagField name store).Keeps := by
  intro x p p' stored inRange
  obtain ⟨b, -, rfl⟩ := Option.map_eq_some_iff.1 stored
  exact change b p inRange

theorem fields_keep {field : Field} (member : field ∈ fields) : field.Keeps := by
  revert field
  simp only [fields, List.forall_mem_cons]
  refine ⟨?_, ?_, ?_, ?_, ?_, ?_, ?_, ?_, ?_, ?_, ?_, ?_, by simp⟩
  case refine_7 => exact flagField_keeps fun _ _ inRange => inRange
  case refine_9 => exact flagField_keeps fun _ _ inRange => inRange
  case refine_10 => exact flagField_keeps fun _ _ inRange => inRange
  all_goals
    refine numberField_keeps fun x p below inRange => ?_
    simp only [InRange, numbers, List.forall_mem_cons] at inRange ⊢
    simp [below, inRange]

theorem storeAll_inRange {rest : List Field} (known : ∀ field ∈ rest, field ∈ fields)
    {values : List Json} (inRange : p.InRange) (stored : storeAll rest values p = some p') :
    p'.InRange := by
  induction rest generalizing values p with
  | nil =>
    cases values <;> cases stored
    exact inRange
  | cons field rest ih =>
    rw [List.forall_mem_cons] at known
    cases values with
    | nil =>
      cases stored
      exact inRange
    | cons x values =>
      obtain ⟨middle, first, later⟩ := Option.bind_eq_some_iff.1 stored
      exact ih known.2 (fields_keep known.1 _ _ _ first inRange) later

theorem storeNamed_inRange {seen : List String} {named : List (Option String × Json)}
    (inRange : p.InRange) (stored : storeNamed seen named p = some p') : p'.InRange := by
  induction named generalizing seen p with
  | nil =>
    cases stored
    exact inRange
  | cons entry named ih =>
    obtain ⟨key, x⟩ := entry
    cases key with
    | none => cases stored
    | some key =>
      rw [storeNamed] at stored
      split at stored
      · exact ih inRange stored
      · rename_i field found
        split_ifs at stored
        obtain ⟨middle, first, later⟩ := Option.bind_eq_some_iff.1 stored
        exact ih (fields_keep (List.mem_of_find?_eq_some found) _ _ _ first inRange) later

def values (p : Params) : List Json := [
  .ofNat p.maxPis, .ofNat p.maxDivisors, .ofNat p.maxInserts, .ofNat p.skipFanoutLimitForRoots,
  .ofNat p.skipFanoutLimitForDivisors, .ofNat p.maxFanoutToExpand, .bool p.useDontCares,
  .ofNat p.windowSize, .bool p.preserveDepth, .bool p.validateCandidates, .ofNat p.maxClauses,
  .ofNat p.maxTrials]

theorem storeAll_values (inRange : p.InRange) (q : Params) :
    storeAll fields p.values q = some p := by
  simp only [InRange, numbers, List.forall_mem_cons] at inRange
  simp [fields, values, storeAll, numberField, flagField, Json.natBelow_ofNat, Json.bool?, inRange]

/-- Exactly the options in range can be read from a value. -/
theorem exists_ofJson : (∃ x, ofJson? x = some p) ↔ p.InRange := by
  constructor
  · rintro ⟨x, read⟩
    unfold ofJson? at read
    split at read
    · exact storeNamed_inRange inRange_default read
    · exact storeAll_inRange (fun _ => id) inRange_default read
    · cases read
  · exact fun inRange => ⟨.array p.values, storeAll_values inRange default⟩

/-- With any parser, the texts that are accepted are those of options without an issue. -/
theorem ofTextWith_eq_ok {parse : String → Option Json} {text : String} :
    ofTextWith parse text = .ok p ↔
      (∃ x, parse text = some x ∧ ofJson? x = some p) ∧ p.issue? = none := by
  rw [ofTextWith, ← Option.bind_eq_some_iff]
  cases (parse text).bind ofJson? with
  | none => simp [throw, throwThe, MonadExceptOf.throw]
  | some q =>
    cases issue : q.issue? with
    | none =>
      simp only [validate, issue, bind, Except.bind, pure, Except.pure, Except.ok.injEq,
        Option.some.injEq]
      exact ⟨fun same => ⟨same, same ▸ issue⟩, And.left⟩
    | some found =>
      simp only [validate, issue, bind, Except.bind, reduceCtorEq, Option.some.injEq, false_iff]
      rintro ⟨rfl, none⟩
      rw [issue] at none
      cases none

end Params

end LogicOpt
