namespace LogicOpt

structure Draws (σ : Type) where
  below : Nat → σ → Nat × σ
  /-- A coin that falls on true in seven of ten cases. -/
  biased : σ → Bool × σ
  fair : σ → Bool × σ
  below_lt : ∀ bound state, 0 < bound → (below bound state).1 < bound

end LogicOpt
