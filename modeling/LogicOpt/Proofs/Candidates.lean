import LogicOpt.Candidate.Build
import LogicOpt.Proofs.Runs

namespace LogicOpt

namespace Gate

theorem mapM_eq_ok {α β : Type} {f : α → Except Fault β} {g : Gate α} {h : Gate β} :
    g.mapM f = .ok h ↔ h.kind = g.kind ∧ g.operands.mapM f = .ok h.operands := by
  cases g <;> cases h <;>
    simp [mapM, kind, operands, bind_eq_ok, pure, Except.pure]

theorem mapM_map {α β γ : Type} {f : α → Except Fault β} {f' : α → Except Fault γ} {h : β → γ}
    {g : Gate α} {g' : Gate β} (point : ∀ a b, f a = .ok b → f' a = .ok (h b))
    (run : g.mapM f = .ok g') : g.mapM f' = .ok (g'.map h) := by
  cases g <;> simp only [mapM, bind_eq_ok] at run ⊢
  · obtain ⟨a, left, b, right, same⟩ := run
    cases same
    exact ⟨_, point _ _ left, _, point _ _ right, rfl⟩
  · obtain ⟨a, left, b, right, same⟩ := run
    cases same
    exact ⟨_, point _ _ left, _, point _ _ right, rfl⟩
  · obtain ⟨a, left, b, middle, c, right, same⟩ := run
    cases same
    exact ⟨_, point _ _ left, _, point _ _ middle, _, point _ _ right, rfl⟩

theorem mapM_eq_map {α β : Type} {f : α → Except Fault β} {h : α → β} {g : Gate α}
    (all : ∀ a ∈ g.operands, f a = .ok (h a)) : g.mapM f = .ok (g.map h) := by
  cases g <;> simp only [operands, List.forall_mem_cons] at all <;>
    simp [mapM, map, all, bind, Except.bind, pure, Except.pure]

theorem exists_mapM {m : Type → Type} [Monad m] [LawfulMonad m] {α β : Type} {f : α → m β}
    {g : Gate α} (all : ∀ a ∈ g.operands, ∃ b, f a = pure b) : ∃ h, g.mapM f = pure h := by
  cases g <;> simp only [operands, List.forall_mem_cons] at all
  · obtain ⟨⟨a, left⟩, ⟨b, right⟩, -⟩ := all
    exact ⟨.and2 a b, by simp [mapM, left, right]⟩
  · obtain ⟨⟨a, left⟩, ⟨b, right⟩, -⟩ := all
    exact ⟨.xor2 a b, by simp [mapM, left, right]⟩
  · obtain ⟨⟨a, left⟩, ⟨b, middle⟩, ⟨c, right⟩, -⟩ := all
    exact ⟨.maj3 a b c, by simp [mapM, left, middle, right]⟩

theorem exists_of_mapM {α β : Type} {f : α → Except Fault β} {g : Gate α} {h : Gate β}
    (run : g.mapM f = .ok h) : ∀ a ∈ g.operands, ∃ b, f a = .ok b := by
  cases g <;> simp only [mapM, bind_eq_ok] at run <;> simp only [operands, List.forall_mem_cons]
  · obtain ⟨a, left, b, right, -⟩ := run
    exact ⟨⟨a, left⟩, ⟨b, right⟩, by simp⟩
  · obtain ⟨a, left, b, right, -⟩ := run
    exact ⟨⟨a, left⟩, ⟨b, right⟩, by simp⟩
  · obtain ⟨a, left, b, middle, c, right, -⟩ := run
    exact ⟨⟨a, left⟩, ⟨b, middle⟩, ⟨c, right⟩, by simp⟩

theorem forall_operands_of_mapM {α β : Type} {f : α → Except Fault β} {p : β → Prop} {g : Gate α}
    {h : Gate β} (all : ∀ a ∈ g.operands, ∀ b, f a = .ok b → p b) (run : g.mapM f = .ok h) :
    ∀ b ∈ h.operands, p b := by
  cases g <;> simp only [mapM, bind_eq_ok] at run <;>
    simp only [operands, List.forall_mem_cons] at all
  · obtain ⟨a, left, b, right, same⟩ := run
    cases same
    simpa [operands] using ⟨all.1 a left, all.2.1 b right⟩
  · obtain ⟨a, left, b, right, same⟩ := run
    cases same
    simpa [operands] using ⟨all.1 a left, all.2.1 b right⟩
  · obtain ⟨a, left, b, middle, c, right, same⟩ := run
    cases same
    simpa [operands] using ⟨all.1 a left, all.2.1 b middle, all.2.2.1 c right⟩

theorem apply_of_alike {α : Type} [GateValue α] (all : ∀ a b : α, GateValue.alike a b = true)
    (g : Gate α) : g.apply = .ok g.eval := by
  cases g <;> simp [apply, eval, all]

end Gate

namespace Candidate

variable {α : Type} [GateValue α] {values : Array α} {s : Signal} {v x : α}

theorem readSignal_eq_ok :
    readSignal values s = .ok x ↔
      ∃ v, values[s.node]? = some v ∧ GateValue.complementIf v s.negated = x := by
  unfold readSignal
  cases values[s.node]? <;> simp

theorem exists_readSignal : (∃ x, readSignal values s = .ok x) ↔ s.node < values.size := by
  simp only [readSignal_eq_ok, Array.getElem?_eq_some_iff]
  constructor
  · rintro ⟨_, _, ⟨inside, _⟩, _⟩
    exact inside
  · exact fun inside => ⟨_, _, ⟨inside, rfl⟩, rfl⟩

theorem readSignal_push (read : readSignal values s = .ok x) :
    readSignal (values.push v) s = .ok x := by
  obtain ⟨u, entry, same⟩ := readSignal_eq_ok.1 read
  have inside : s.node < values.size := (Array.getElem?_eq_some_iff.1 entry).1
  refine readSignal_eq_ok.2 ⟨u, ?_, same⟩
  rw [Array.getElem?_push, if_neg (Nat.ne_of_lt inside), entry]

theorem readSignal_last (values : Array α) (v : α) (negated : Bool) :
    readSignal (values.push v) ⟨values.size, negated⟩ =
      .ok (GateValue.complementIf v negated) :=
  readSignal_eq_ok.2 ⟨v, Array.getElem?_push_size, rfl⟩

theorem evaluateGate_of_read (alike : ∀ a b : α, GateValue.alike a b = true) {g : Gate Signal}
    {h : Gate α} (read : g.mapM (readSignal values) = .ok h) :
    evaluateGate values g = .ok (values.push h.eval) := by
  rw [evaluateGate, read]
  simp [bind, Except.bind, Gate.apply_of_alike alike, pure, Except.pure]

theorem operands_lt_tail {g : Gate Signal} {rest : List (Gate Signal)} {positions : Nat}
    (ordered : ∀ i (h : i < (g :: rest).length), ∀ s ∈ ((g :: rest)[i]).operands,
      s.node < positions + i) :
    ∀ i (h : i < rest.length), ∀ s ∈ (rest[i]).operands, s.node < positions + 1 + i := by
  intro i inside s member
  have earlier := ordered (i + 1) (by simpa using inside) s (by simpa using member)
  omega

theorem exists_foldlM_gates {σ : Type} {step : σ → Gate Signal → Except Fault σ}
    (positions : σ → Nat)
    (one : ∀ state g, (∀ s ∈ g.operands, s.node < positions state) →
      ∃ next, step state g = .ok next ∧ positions next = positions state + 1)
    (gates : List (Gate Signal)) (state : σ)
    (ordered : ∀ i (h : i < gates.length), ∀ s ∈ (gates[i]).operands,
      s.node < positions state + i) :
    ∃ last, gates.foldlM step state = .ok last ∧
      positions last = positions state + gates.length := by
  induction gates generalizing state with
  | nil => exact ⟨state, rfl, rfl⟩
  | cons g rest ih =>
    obtain ⟨next, first, more⟩ := one state g fun s member => ordered 0 (by simp) s member
    obtain ⟨last, run, size⟩ := ih next (more ▸ operands_lt_tail ordered)
    refine ⟨last, ?_, ?_⟩
    · rw [List.foldlM_cons, first]
      exact run
    · rw [size, more, List.length_cons]
      omega

structure Closed (c : Candidate) : Prop where
  ordered : c.Ordered
  output : c.output.node < c.nextPosition

theorem Closed.operands_lt {c : Candidate} (closed : c.Closed) {positions : Nat}
    (start : positions = c.numDivisors + 1) :
    ∀ i (h : i < c.gates.length), ∀ s ∈ (c.gates[i]).operands, s.node < positions + i := by
  intro i inside s member
  have earlier := closed.ordered i inside s member
  omega

theorem Closed.output_lt {c : Candidate} (closed : c.Closed) {positions : Nat}
    (start : positions = c.numDivisors + 1) : c.output.node < positions + c.gates.length := by
  have last := closed.output
  rw [nextPosition] at last
  omega

end Candidate

end LogicOpt
