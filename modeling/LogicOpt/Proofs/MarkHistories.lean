import LogicOpt.Marks

namespace LogicOpt

namespace Marks

inductive Call
  | newTraversal
  | mark (n : Nat)
  | unmark (n : Nat)
  | isMarked (n : Nat)

def step (m : Marks) : Call → Except Fault Marks
  | .newTraversal => .ok m.newTraversal
  | .mark n => do
    let (_, m') ← m.visit n
    return m'
  | .unmark n => .ok (m.unmark n)
  | .isMarked _ => .ok m

def after (m : Marks) (calls : List Call) : Except Fault Marks := calls.foldlM step m

/-- A node was marked, and neither was it unmarked nor did a traversal begin since. -/
def MarkedIn (history : List Call) (n : Nat) : Prop :=
  ∃ before since, history = before ++ .mark n :: since ∧
    .newTraversal ∉ since ∧ .unmark n ∉ since

/-- The marks are the set that a history leaves. -/
structure Follows (history : List Call) (m : Marks) : Prop where
  started : m.current ≠ 0
  isMarked_iff : ∀ n, m.isMarked n = true ↔ MarkedIn history n

variable {m m' : Marks} {history calls : List Call} {c : Call} {n : Nat}

theorem step_cases (m : Marks) (c : Call) :
    (∃ m', m.step c = .ok m') ∧ (∀ n, c = .mark n → n < nodeLimit) ∨
      (∃ n, c = .mark n ∧ nodeLimit ≤ n) ∧ m.step c = .error .outOfRange := by
  cases c with
  | mark n =>
    by_cases room : n < nodeLimit
    · refine .inl ⟨⟨m.mark n, ?_⟩, ?_⟩
      · simp [step, visit_eq_ok room, bind, Except.bind, pure, Except.pure]
      · rintro _ ⟨⟩
        exact room
    · refine .inr ⟨⟨n, rfl, Nat.le_of_not_lt room⟩, ?_⟩
      simp [step, Marks.visit, requireRoom, ensure, room, bind, Except.bind]
  | newTraversal => exact .inl ⟨⟨_, rfl⟩, by simp⟩
  | unmark n => exact .inl ⟨⟨_, rfl⟩, by simp⟩
  | isMarked n => exact .inl ⟨⟨_, rfl⟩, by simp⟩

theorem markedIn_concat :
    MarkedIn (history ++ [c]) n ↔
      c = .mark n ∨ MarkedIn history n ∧ c ≠ .newTraversal ∧ c ≠ .unmark n := by
  constructor
  · rintro ⟨before, since, split, traversal, unmarked⟩
    rcases List.eq_nil_or_concat since with rfl | ⟨since, last, rfl⟩
    · obtain ⟨-, same⟩ := List.append_inj' split rfl
      exact .inl (List.cons.inj same).1
    · rw [List.concat_eq_append, ← List.cons_append, ← List.append_assoc] at split
      obtain ⟨rfl, same⟩ := List.append_inj' split rfl
      obtain rfl : c = last := (List.cons.inj same).1
      rw [List.concat_eq_append, List.mem_append, List.mem_singleton, not_or] at traversal unmarked
      exact .inr ⟨⟨before, since, rfl, traversal.1, unmarked.1⟩, Ne.symm traversal.2,
        Ne.symm unmarked.2⟩
  · rintro (rfl | ⟨⟨before, since, rfl, traversal, unmarked⟩, traversal', unmarked'⟩)
    · exact ⟨history, [], rfl, List.not_mem_nil, List.not_mem_nil⟩
    · refine ⟨before, since ++ [c], by simp, ?_, ?_⟩
      · simpa [traversal] using Ne.symm traversal'
      · simpa [unmarked] using Ne.symm unmarked'

theorem follows_newTraversal (m : Marks) (history : List Call) :
    Follows (history ++ [.newTraversal]) m.newTraversal where
  started := current_newTraversal_ne_zero m
  isMarked_iff := fun n => by simp [isMarked_newTraversal, markedIn_concat]

theorem Follows.step (follows : Follows history m) (run : m.step c = .ok m') :
    Follows (history ++ [c]) m' := by
  cases c with
  | newTraversal =>
    obtain rfl := Except.ok.inj run
    exact follows_newTraversal m history
  | mark a =>
    obtain ⟨-, room⟩ | ⟨-, refused⟩ := m.step_cases (.mark a)
    · obtain rfl : m.mark a = m' := by
        simpa [Marks.step, visit_eq_ok (room a rfl), bind, Except.bind, pure, Except.pure] using run
      refine ⟨follows.started, fun n => ?_⟩
      simp [isMarked_mark follows.started, markedIn_concat, follows.isMarked_iff, @eq_comm Nat n a]
    · simp [refused] at run
  | unmark a =>
    obtain rfl := Except.ok.inj run
    refine ⟨follows.started, fun n => ?_⟩
    simp [isMarked_unmark follows.started, markedIn_concat, follows.isMarked_iff, and_comm,
      @eq_comm Nat n a]
  | isMarked a =>
    obtain rfl := Except.ok.inj run
    exact ⟨follows.started, fun n => by simp [markedIn_concat, follows.isMarked_iff]⟩

theorem Follows.visit (follows : Follows history m) (room : n < nodeLimit) :
    ∃ fresh m', m.visit n = .ok (fresh, m') ∧ (fresh = true ↔ ¬MarkedIn history n) := by
  refine ⟨_, _, visit_eq_ok room, ?_⟩
  rw [isFresh_eq_not_isMarked follows.started, Bool.not_eq_true', ← follows.isMarked_iff,
    Bool.not_eq_true]

theorem Follows.after (follows : Follows history m) (calls : List Call) :
    (∀ n, .mark n ∈ calls → n < nodeLimit) ∧
        (∃ m', m.after calls = .ok m' ∧ Follows (history ++ calls) m') ∨
      (∃ n, .mark n ∈ calls ∧ nodeLimit ≤ n) ∧ m.after calls = .error .outOfRange := by
  induction calls generalizing history m with
  | nil => exact .inl ⟨by simp, m, rfl, by simpa using follows⟩
  | cons c calls ih =>
    rw [Marks.after, List.foldlM_cons]
    rcases m.step_cases c with ⟨⟨m', run⟩, room⟩ | ⟨⟨n, rfl, full⟩, run⟩
    · rw [run]
      rcases ih (follows.step run) with ⟨room', m'', run', follows'⟩ | ⟨⟨n, later, full⟩, run'⟩
      · refine .inl ⟨fun n member => ?_, m'', run', by simpa using follows'⟩
        rcases List.mem_cons.1 member with rfl | later
        · exact room n rfl
        · exact room' n later
      · exact .inr ⟨⟨n, List.mem_cons_of_mem _ later, full⟩, run'⟩
    · rw [run]
      exact .inr ⟨⟨n, List.mem_cons_self, full⟩, rfl⟩

/-- After any calls since a new traversal the marks are the set that these calls leave, and marking
    answers whether a node is new to it. Only a node without room for its stamp is refused. -/
theorem marks_of_history (m : Marks) (calls : List Call) :
    (∀ n, .mark n ∈ calls → n < nodeLimit) ∧
        (∃ m', m.after (.newTraversal :: calls) = .ok m' ∧
          (∀ n, m'.isMarked n = true ↔ MarkedIn (.newTraversal :: calls) n) ∧
          ∀ n < nodeLimit, ∃ fresh m'', m'.visit n = .ok (fresh, m'') ∧
            (fresh = true ↔ ¬MarkedIn (.newTraversal :: calls) n)) ∨
      (∃ n, .mark n ∈ calls ∧ nodeLimit ≤ n) ∧
        m.after (.newTraversal :: calls) = .error .outOfRange := by
  rcases (follows_newTraversal m []).after calls with ⟨room, m', run, follows⟩ | refused
  · exact .inl ⟨room, m', run, follows.isMarked_iff, fun n small => follows.visit small⟩
  · exact .inr refused

end Marks

end LogicOpt
