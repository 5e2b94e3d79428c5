import LogicOpt.Formula
import LogicOpt.Proofs.CompleteForms

namespace LogicOpt

open Network

def Satisfies (f : Nat → Bool) (clauses : List Clause) : Prop :=
  ∀ clause ∈ clauses, ∃ s ∈ clause, signalUnder f s = true

variable {f : Nat → Bool} {clauses : List Clause} {assumptions : List Signal}

theorem Gate.satisfies_clauses {g : Gate Signal} {output : Signal} :
    Satisfies f (g.clauses output) ↔ signalUnder f output = g.evalUnder f := by
  cases g with
  | and2 a b =>
    rw [evalUnder_and2]
    simp only [Satisfies, Gate.clauses, List.mem_cons, List.not_mem_nil, or_false, forall_eq_or_imp,
      forall_eq, exists_eq_or_imp, exists_eq_left, signalUnder_negate]
    cases signalUnder f a <;> cases signalUnder f b <;> cases signalUnder f output <;> decide
  | xor2 a b =>
    rw [evalUnder_xor2]
    simp only [Satisfies, Gate.clauses, List.mem_cons, List.not_mem_nil, or_false, forall_eq_or_imp,
      forall_eq, exists_eq_or_imp, exists_eq_left, signalUnder_negate]
    cases signalUnder f a <;> cases signalUnder f b <;> cases signalUnder f output <;> decide
  | maj3 a b c =>
    rw [evalUnder_maj3]
    simp only [Satisfies, Gate.clauses, List.mem_cons, List.not_mem_nil, or_false, forall_eq_or_imp,
      forall_eq, exists_eq_or_imp, exists_eq_left, signalUnder_negate]
    cases signalUnder f a <;> cases signalUnder f b <;> cases signalUnder f c <;>
      cases signalUnder f output <;> decide

def Definition.Holds (f : Nat → Bool) (v : Nat) : Definition → Prop
  | free => True
  | zero => f v = false
  | gate g => f v = g.evalUnder f

theorem Definition.satisfies_clauses {v : Nat} {d : Definition} :
    Satisfies f (d.clauses v) ↔ d.Holds f v := by
  cases d with
  | free => simp [Satisfies, clauses, Holds]
  | zero => simp [Satisfies, clauses, Holds, signalUnder]
  | gate g =>
    rw [clauses, Gate.satisfies_clauses, signalUnder_ofNode]
    rfl

namespace Formula

variable {formula later : Formula}

def Holds (formula : Formula) (f : Nat → Bool) : Prop :=
  ∀ (v : Nat) (d : Definition), formula[v]? = some d → d.Holds f v

theorem satisfies_clauses : Satisfies f formula.clauses ↔ formula.Holds f := by
  have split : Satisfies f formula.clauses ↔
      ∀ e ∈ formula.toList.zipIdx, Satisfies f (e.1.clauses e.2) := by
    simp only [Satisfies, Formula.clauses, List.forall_mem_flatMap]
  rw [split]
  constructor
  · intro all v d entry
    exact Definition.satisfies_clauses.1 (all (d, v) (List.mem_zipIdx_iff_getElem?.2 (by simpa)))
  · intro holds e member
    have entry := List.mem_zipIdx_iff_getElem?.1 member
    exact Definition.satisfies_clauses.2 (holds e.2 e.1 (by simpa using entry))

def Ordered (formula : Formula) : Prop :=
  ∀ (v : Nat) (g : Gate Signal), formula[v]? = some (.gate g) → ∀ n ∈ g.nodes, n < v

theorem Ordered.push {d : Definition} (ordered : formula.Ordered)
    (earlier : ∀ g, d = .gate g → ∀ n ∈ g.nodes, n < formula.size) :
    Ordered (formula.push d) := by
  intro v g entry
  rw [Array.getElem?_push] at entry
  split at entry
  · rename_i last
    exact last ▸ earlier g (Option.some.inj entry)
  · exact ordered v g entry

def Extends (formula later : Formula) : Prop :=
  ∀ (v : Nat) (d : Definition), formula[v]? = some d → later[v]? = some d

theorem extends_push (formula : Formula) (d : Definition) : formula.Extends (formula.push d) := by
  intro v e entry
  have inside : v < formula.size := (Array.getElem?_eq_some_iff.1 entry).1
  rw [Array.getElem?_push, if_neg (Nat.ne_of_lt inside), entry]

theorem Extends.trans {mid : Formula} (first : formula.Extends mid) (second : mid.Extends later) :
    formula.Extends later :=
  fun v d entry => second v d (first v d entry)

theorem Extends.lt_size (extends' : formula.Extends later) {v : Nat} (inside : v < formula.size) :
    v < later.size :=
  (Array.getElem?_eq_some_iff.1 (extends' v _ (Array.getElem?_eq_getElem inside))).1

theorem Holds.of_extends (holds : later.Holds f) (extends' : formula.Extends later) :
    formula.Holds f :=
  fun v d entry => holds v d (extends' v d entry)

theorem Holds.last {d : Definition} (holds : Holds (formula.push d) f) : d.Holds f formula.size :=
  holds _ d Array.getElem?_push_size

theorem Ordered.exists_holds (ordered : formula.Ordered) (free : Nat → Bool) :
    ∃ f, formula.Holds f ∧ ∀ v, formula[v]? = some .free → f v = free v := by
  have upTo (k : Nat) : ∃ f : Nat → Bool, ∀ v < k, ∀ d, formula[v]? = some d →
      d.Holds f v ∧ (d = .free → f v = free v) := by
    -- Each variable is set once those below it have their values, which nothing changes later.
    induction k with
    | zero => exact ⟨free, nofun⟩
    | succ k ih =>
      obtain ⟨f, fits⟩ := ih
      let last : Bool := match formula[k]? with
        | some .zero => false
        | some (.gate g) => g.evalUnder f
        | _ => free k
      have same (g : Gate Signal) (v : Nat) (bound : v ≤ k)
          (earlier : ∀ n ∈ g.nodes, n < v) :
          g.evalUnder (Function.update f k last) = g.evalUnder f := by
        refine Gate.evalUnder_congr fun n member => Function.update_of_ne ?_ _ _
        have := earlier n member
        omega
      refine ⟨Function.update f k last, fun v inside d entry => ?_⟩
      by_cases here : v = k
      · subst here
        cases d with
        | free => exact ⟨trivial, fun _ => by simp [last, entry]⟩
        | zero => exact ⟨by simp [Definition.Holds, last, entry], nofun⟩
        | gate g =>
          refine ⟨?_, nofun⟩
          rw [Definition.Holds, same g v (Nat.le_refl v) (ordered v g entry), Function.update_self]
          simp only [last, entry]
      · obtain ⟨holds, free⟩ := fits v (by omega) d entry
        have kept : Function.update f k last v = f v := Function.update_of_ne here _ _
        cases d with
        | free => exact ⟨trivial, fun _ => by rw [kept, free rfl]⟩
        | zero => exact ⟨kept.trans holds, nofun⟩
        | gate g =>
          refine ⟨?_, nofun⟩
          rw [Definition.Holds, kept, same g v (by omega) (ordered v g entry)]
          exact holds
  obtain ⟨f, fits⟩ := upTo formula.size
  refine ⟨f, fun v d entry => ?_, fun v entry => ?_⟩
  · exact (fits v (Array.getElem?_eq_some_iff.1 entry).1 d entry).1
  · exact (fits v (Array.getElem?_eq_some_iff.1 entry).1 _ entry).2 rfl

end Formula

namespace Solver

/-- The literals of one assignment that satisfies the clauses and the assumptions. Variables that
    none of them needs can be missing. -/
structure Models (model : List Signal) (clauses : List Clause) (assumptions : List Signal) :
    Prop where
  consistent : ∀ v, .ofNode v ∈ model → (Signal.ofNode v).negate ∉ model
  clauses : ∀ clause ∈ clauses, ∃ s ∈ clause, s ∈ model
  assumptions : ∀ s ∈ assumptions, s ∈ model

/-- Sound and complete: every question is answered, with a model or because no assignment satisfies
    the clauses and the assumptions. -/
def Decides (solve : Solver) : Prop :=
  ∀ (clauses : List Clause) (assumptions : List Signal),
    (solve clauses assumptions = .unsatisfiable ∧
      ¬∃ f, Satisfies f clauses ∧ ∀ s ∈ assumptions, signalUnder f s = true) ∨
    ∃ model, solve clauses assumptions = .satisfiable (some model) ∧
      Models model clauses assumptions

theorem Models.holds {model : List Signal} (models : Models model clauses assumptions)
    {s : Signal} (member : s ∈ model) :
    signalUnder (fun v => model.contains (.ofNode v)) s = true := by
  rcases s with ⟨v, negated⟩
  cases negated with
  | false => simpa [signalUnder, Signal.ofNode] using member
  | true =>
    have absent : Signal.ofNode v ∉ model := fun other => models.consistent v other member
    simpa [signalUnder] using absent

theorem Models.satisfies {model : List Signal} (models : Models model clauses assumptions) :
    Satisfies (fun v => model.contains (.ofNode v)) clauses ∧
      ∀ s ∈ assumptions, signalUnder (fun v => model.contains (.ofNode v)) s = true := by
  refine ⟨fun clause member => ?_, fun s member => models.holds (models.assumptions s member)⟩
  obtain ⟨s, literal, shown⟩ := models.clauses clause member
  exact ⟨s, literal, models.holds shown⟩

variable {due : Array (List Clause)} {values found : Array Bool} {left : Nat} {clause : Clause}

theorem holds_eq_true : holds values clause = true ↔
    ∃ s ∈ clause, signalUnder (fun v => values[v]?.getD false) s = true :=
  List.any_eq_true

theorem holds_congr (same : ∀ s ∈ clause, values[s.node]? = found[s.node]?) :
    holds values clause = holds found clause := by
  rw [Bool.eq_iff_iff, holds_eq_true, holds_eq_true]
  constructor
  · rintro ⟨s, member, shown⟩
    exact ⟨s, member, by rwa [signalUnder, ← same s member]⟩
  · rintro ⟨s, member, shown⟩
    exact ⟨s, member, by rwa [signalUnder, same s member]⟩

def Waiting (due : Array (List Clause)) : Prop :=
  ∀ (v : Nat), ∀ clause ∈ due[v]?.getD [], ∀ s ∈ clause, s.node ≤ v

theorem split_succ : split due (left + 1) values =
    (attempt due (split due left) values false).or (attempt due (split due left) values true) := by
  rw [split]
  cases attempt due (split due left) values false <;> rfl

theorem split_eq_some (waiting : Waiting due) (run : split due left values = some found) :
    found.size = values.size + left ∧ (∀ v < values.size, found[v]? = values[v]?) ∧
      ∀ v, values.size ≤ v → v < found.size → ∀ clause ∈ due[v]?.getD [], holds found clause := by
  induction left generalizing values with
  | zero =>
    cases run
    exact ⟨rfl, fun _ _ => rfl, fun v above below => absurd below (by omega)⟩
  | succ left ih =>
    obtain ⟨b, tried⟩ : ∃ b, attempt due (split due left) values b = some found := by
      rw [split_succ, Option.or_eq_some_iff] at run
      rcases run with first | ⟨-, second⟩
      · exact ⟨false, first⟩
      · exact ⟨true, second⟩
    unfold attempt at tried
    split at tried
    · rename_i checked
      obtain ⟨size, kept, later⟩ := ih tried
      rw [Array.size_push] at size kept later
      refine ⟨by omega, fun v below => ?_, fun v above below clause member => ?_⟩
      · rw [kept v (by omega), Array.getElem?_push_lt below, Array.getElem?_eq_getElem below]
      · by_cases here : v = values.size
        · subst here
          rw [← List.all_eq_true.1 checked clause member]
          exact holds_congr fun s literal =>
            kept s.node (Nat.lt_succ_of_le (waiting _ clause member s literal))
        · exact later v (by omega) below clause member
    · cases tried

theorem isSome_split (waiting : Waiting due)
    (satisfied : ∀ (v : Nat), Satisfies f (due[v]?.getD []))
    (agree : ∀ v < values.size, values[v]? = some (f v)) : (split due left values).isSome := by
  induction left generalizing values with
  | zero => rfl
  | succ left ih =>
    have agree' : ∀ v < (values.push (f values.size)).size,
        (values.push (f values.size))[v]? = some (f v) := by
      intro v below
      rw [Array.size_push] at below
      rw [Array.getElem?_push]
      split
      · rename_i last
        rw [last]
      · exact agree v (by omega)
    have checked : (due[values.size]?.getD []).all (holds (values.push (f values.size))) := by
      refine List.all_eq_true.2 fun clause member => holds_eq_true.2 ?_
      obtain ⟨s, literal, shown⟩ := satisfied values.size clause member
      have known : s.node < (values.push (f values.size)).size := by
        rw [Array.size_push]
        exact Nat.lt_succ_of_le (waiting _ clause member s literal)
      exact ⟨s, literal, by rwa [signalUnder, agree' s.node known]⟩
    have tried : (attempt due (split due left) values (f values.size)).isSome := by
      rw [attempt, if_pos checked]
      exact ih agree'
    rw [split_succ, Option.isSome_or]
    cases value : f values.size with
    | false =>
      rw [value] at tried
      rw [tried, Bool.true_or]
    | true =>
      rw [value] at tried
      rw [tried, Bool.or_true]

theorem mem_schedule {v : Nat} :
    clause ∈ (schedule clauses)[v]?.getD [] ↔ clause ∈ clauses ∧ lastVariable clause = v := by
  have inside (member : clause ∈ clauses) :
      lastVariable clause < (clauses.map lastVariable).max?.getD 0 + 1 :=
    Nat.lt_succ_of_le (List.le_max?_getD_of_mem (List.mem_map_of_mem member))
  by_cases below : v < (clauses.map lastVariable).max?.getD 0 + 1
  · simp [schedule, below]
  · simp only [schedule, Array.getElem?_map, Array.getElem?_range, below, if_false, Option.map_none,
      Option.getD_none, List.not_mem_nil, false_iff, not_and]
    rintro member rfl
    exact below (inside member)

theorem waiting_schedule (clauses : List Clause) : Waiting (schedule clauses) := by
  intro v clause member s literal
  obtain ⟨-, rfl⟩ := mem_schedule.1 member
  exact List.le_max?_getD_of_mem (List.mem_map_of_mem literal)

theorem lastVariable_lt_size (member : clause ∈ clauses) :
    lastVariable clause < (schedule clauses).size := by
  rw [schedule, Array.size_map, Array.size_range]
  exact Nat.lt_succ_of_le (List.le_max?_getD_of_mem (List.mem_map_of_mem member))

theorem mem_literals {v : Nat} {negated : Bool} :
    ⟨v, negated⟩ ∈ literals values ↔ values[v]? = some (!negated) := by
  rw [literals, List.mem_mapIdx]
  constructor
  · rintro ⟨i, inside, same⟩
    cases same
    rw [Bool.not_not, ← Array.getElem?_toList, List.getElem?_eq_getElem inside]
  · intro entry
    obtain ⟨inside, same⟩ := Array.getElem?_eq_some_iff.1 entry
    exact ⟨v, inside, by simp [same]⟩

theorem models_literals
    (complete : (schedule (clauses ++ assumptions.map ([·]))).size = values.size)
    (satisfied : ∀ clause ∈ clauses ++ assumptions.map ([·]), holds values clause = true) :
    Models (literals values) clauses assumptions := by
  have literal (clause : Clause) (member : clause ∈ clauses ++ assumptions.map ([·])) :
      ∃ s ∈ clause, s ∈ literals values := by
    obtain ⟨⟨v, negated⟩, there, shown⟩ := holds_eq_true.1 (satisfied clause member)
    refine ⟨⟨v, negated⟩, there, mem_literals.2 ?_⟩
    have inside : v < values.size := by
      have last := lastVariable_lt_size member
      have le : v ≤ lastVariable clause :=
        List.le_max?_getD_of_mem (List.mem_map_of_mem (f := Signal.node) there)
      omega
    rw [signalUnder, Array.getElem?_eq_getElem inside, Option.getD_some] at shown
    rw [Array.getElem?_eq_getElem inside]
    revert shown
    cases values[v] <;> cases negated <;> simp
  refine ⟨fun v shown other => ?_, fun clause member => ?_, fun s member => ?_⟩
  · have first : values[v]? = some true := mem_literals.1 shown
    have second : values[v]? = some false := mem_literals.1 other
    rw [first] at second
    cases second
  · exact literal clause (List.mem_append_left _ member)
  · obtain ⟨t, there, shown⟩ :=
      literal [s] (List.mem_append_right _ (List.mem_map_of_mem (f := ([·])) member))
    rwa [List.mem_singleton.1 there] at shown

theorem search_decides : Decides search := by
  intro clauses assumptions
  let due := schedule (clauses ++ assumptions.map ([·]))
  have waiting : Waiting due := waiting_schedule _
  cases run : split due due.size #[] with
  | none =>
    refine .inl ⟨by rw [search, run], ?_⟩
    rintro ⟨f, satisfied, assumed⟩
    have all (v : Nat) : Satisfies f (due[v]?.getD []) := by
      intro clause member
      rcases List.mem_append.1 (mem_schedule.1 member).1 with given | assumption
      · exact satisfied clause given
      · obtain ⟨s, there, rfl⟩ := List.mem_map.1 assumption
        exact ⟨s, List.mem_singleton.2 rfl, assumed s there⟩
    have found : (split due due.size #[]).isSome := isSome_split waiting all nofun
    rw [run] at found
    cases found
  | some found =>
    obtain ⟨size, -, later⟩ := split_eq_some waiting run
    rw [Array.size_empty, Nat.zero_add] at size
    refine .inr ⟨literals found, by rw [search, run], models_literals size.symm ?_⟩
    intro clause member
    exact later (lastVariable clause) (Nat.zero_le _) (size ▸ lastVariable_lt_size member) clause
      (mem_schedule.2 ⟨member, rfl⟩)

end Solver

end LogicOpt
