import LogicOpt.Proofs.Valuations
import Mathlib.Logic.Function.Basic

/-!
Normal forms are complete. What a gate in normal form computes depends on every node it reads, apart
from the constant. So gates that compute the same, or the complement of one another, read the same
nodes in normal form, and the values of two nodes tell their polarities apart.
-/

namespace LogicOpt

open Network

/-- Some change at node `n` changes the result. The constant does not change. -/
def DependsOn (f : (Nat → Bool) → Bool) (n : Nat) : Prop :=
  n ≠ 0 ∧ ∃ value : Nat → Bool, value 0 = false ∧ f (Function.update value n !value n) = !f value

def AgreeUpTo (flip : Bool) (f g : (Nat → Bool) → Bool) : Prop :=
  ∀ value : Nat → Bool, value 0 = false → f value = (g value ^^ flip)

section Functions

variable {f g : (Nat → Bool) → Bool} {flip : Bool} {n : Nat}

theorem AgreeUpTo.symm (agree : AgreeUpTo flip f g) : AgreeUpTo flip g f := by
  intro value zero
  rw [agree value zero, Bool.xor_assoc, Bool.xor_self, Bool.xor_false]

theorem AgreeUpTo.dependsOn (agree : AgreeUpTo flip f g) (depends : DependsOn f n) :
    DependsOn g n := by
  obtain ⟨other, value, zero, toggled⟩ := depends
  refine ⟨other, value, zero, ?_⟩
  have changed : Function.update value n (!value n) 0 = false := by
    rw [Function.update_of_ne (Ne.symm other), zero]
  rw [agree.symm _ changed, agree.symm _ zero, toggled, Bool.not_xor]

theorem AgreeUpTo.dependsOn_iff (agree : AgreeUpTo flip f g) : DependsOn f n ↔ DependsOn g n :=
  ⟨agree.dependsOn, agree.symm.dependsOn⟩

theorem AgreeUpTo.shift {x y : Bool}
    (agree : AgreeUpTo flip (fun value => f value ^^ x) fun value => g value ^^ y) :
    AgreeUpTo (x ^^ y ^^ flip) f g := by
  intro value zero
  have same := agree value zero
  beta_reduce at same
  revert same
  cases f value <;> cases g value <;> cases x <;> cases y <;> cases flip <;> decide

theorem not_dependsOn (same : ∀ (value : Nat → Bool) b, f (Function.update value n b) = f value) :
    ¬DependsOn f n := by
  rintro ⟨-, value, -, toggled⟩
  rw [same] at toggled
  simp at toggled

end Functions

section Signals

variable {value : Nat → Bool} {s t : Signal} {n : Nat}

theorem signalUnder_toggle :
    signalUnder (Function.update value s.node !value s.node) s = !signalUnder value s := by
  rw [signalUnder, signalUnder, Function.update_self, Bool.not_xor]

theorem signalUnder_update (apart : s.node ≠ n) (b : Bool) :
    signalUnder (Function.update value n b) s = signalUnder value s :=
  signalUnder_congr (Function.update_of_ne apart b value)

theorem dependsOn_signal : DependsOn (signalUnder · s) n ↔ n ≠ 0 ∧ n = s.node := by
  constructor
  · intro depends
    refine ⟨depends.1, Classical.byContradiction fun apart => ?_⟩
    exact not_dependsOn (fun _ b => signalUnder_update (Ne.symm apart) b) depends
  · rintro ⟨other, rfl⟩
    exact ⟨other, fun _ => false, rfl, signalUnder_toggle⟩

def holding (s : Signal) (n : Nat) : Bool := n == s.node && !s.negated

theorem holding_zero (other : s.node ≠ 0) : holding s 0 = false := by
  simp [holding, Ne.symm other]

theorem signalUnder_holding : signalUnder (holding s) s = true := by
  simp [signalUnder, holding]

theorem exists_differ (apart : s.node ≠ t.node) (other : t.node ≠ 0) :
    ∃ value : Nat → Bool, value 0 = false ∧ signalUnder value t = !signalUnder value s := by
  refine ⟨holding (t.negateIf s.negated), holding_zero other, ?_⟩
  have first : signalUnder (holding (t.negateIf s.negated)) s = s.negated := by
    simp [signalUnder, holding, beq_false_of_ne apart]
  have second := signalUnder_holding (s := t.negateIf s.negated)
  rw [signalUnder_negateIf] at second
  rw [first]
  exact Bool.eq_not.2 fun same => by simp [same] at second

end Signals

namespace Gate

variable {g h : Gate Signal} {n : Nat}

theorem evalUnder_and2 (value : Nat → Bool) (a b : Signal) :
    (and2 a b).evalUnder value = (signalUnder value a && signalUnder value b) := by
  rw [evalUnder_bool]
  rfl

theorem evalUnder_xor2 (value : Nat → Bool) (a b : Signal) :
    (xor2 a b).evalUnder value = (signalUnder value a ^^ signalUnder value b) := by
  rw [evalUnder_bool]
  rfl

theorem evalUnder_maj3 (value : Nat → Bool) (a b c : Signal) :
    (maj3 a b c).evalUnder value =
      GateValue.maj3 (signalUnder value a) (signalUnder value b) (signalUnder value c) := by
  rw [evalUnder_bool]
  rfl

theorem maj3_not (p q : Bool) : GateValue.maj3 p q (!q) = p ∧
    GateValue.maj3 q p (!q) = p ∧ GateValue.maj3 q (!q) p = p := by
  revert p q
  decide

theorem dependsOn_and2 {a b : Signal} (apart : a.node ≠ b.node) (left : a.node ≠ 0)
    (right : b.node ≠ 0) (member : n ∈ (and2 a b).nodes) : DependsOn (and2 a b).evalUnder n := by
  simp only [nodes, operands, List.map_cons, List.map_nil, List.mem_cons, List.not_mem_nil,
    or_false] at member
  rcases member with rfl | rfl
  · refine ⟨left, holding b, holding_zero right, ?_⟩
    beta_reduce
    rw [evalUnder_and2, evalUnder_and2, signalUnder_toggle, signalUnder_update apart.symm,
      signalUnder_holding, Bool.and_true, Bool.and_true]
  · refine ⟨right, holding a, holding_zero left, ?_⟩
    beta_reduce
    rw [evalUnder_and2, evalUnder_and2, signalUnder_toggle, signalUnder_update apart,
      signalUnder_holding, Bool.true_and, Bool.true_and]

theorem dependsOn_xor2 {a b : Signal} (apart : a.node ≠ b.node) (other : n ≠ 0)
    (member : n ∈ (xor2 a b).nodes) : DependsOn (xor2 a b).evalUnder n := by
  refine ⟨other, fun _ => false, rfl, ?_⟩
  simp only [nodes, operands, List.map_cons, List.map_nil, List.mem_cons, List.not_mem_nil,
    or_false] at member
  rcases member with rfl | rfl
  · beta_reduce
    rw [evalUnder_xor2, evalUnder_xor2, signalUnder_toggle, signalUnder_update apart.symm,
      Bool.not_xor]
  · beta_reduce
    rw [evalUnder_xor2, evalUnder_xor2, signalUnder_toggle, signalUnder_update apart, Bool.xor_not]

theorem dependsOn_maj3 {a b c : Signal} (left : a.node < b.node) (right : b.node < c.node)
    (other : n ≠ 0) (member : n ∈ (maj3 a b c).nodes) : DependsOn (maj3 a b c).evalUnder n := by
  simp only [nodes, operands, List.map_cons, List.map_nil, List.mem_cons, List.not_mem_nil,
    or_false] at member
  rcases member with rfl | rfl | rfl
  · obtain ⟨value, zero, differ⟩ := exists_differ (s := b) (t := c) (by omega) (by omega)
    refine ⟨other, value, zero, ?_⟩
    beta_reduce
    rw [evalUnder_maj3, evalUnder_maj3, signalUnder_toggle, signalUnder_update (by omega),
      signalUnder_update (by omega), differ, (maj3_not ..).1, (maj3_not ..).1]
  · obtain ⟨value, zero, differ⟩ := exists_differ (s := a) (t := c) (by omega) (by omega)
    refine ⟨other, value, zero, ?_⟩
    beta_reduce
    rw [evalUnder_maj3, evalUnder_maj3, signalUnder_toggle, signalUnder_update (by omega),
      signalUnder_update (by omega), differ, (maj3_not ..).2.1, (maj3_not ..).2.1]
  · obtain ⟨value, zero, differ⟩ := exists_differ (s := a) (t := b) (by omega) (by omega)
    refine ⟨other, value, zero, ?_⟩
    beta_reduce
    rw [evalUnder_maj3, evalUnder_maj3, signalUnder_toggle, signalUnder_update (by omega),
      signalUnder_update (by omega), differ, (maj3_not ..).2.2, (maj3_not ..).2.2]

theorem Canonical.dependsOn_iff (canonical : g.Canonical) :
    DependsOn g.evalUnder n ↔ n ≠ 0 ∧ n ∈ g.nodes := by
  constructor
  · intro depends
    refine ⟨depends.1, Classical.byContradiction fun unread => ?_⟩
    exact not_dependsOn (fun value b => evalUnder_congr fun m member =>
      Function.update_of_ne (fun here => unread (by rwa [← here])) b value) depends
  · rintro ⟨other, member⟩
    cases g with
    | and2 a b =>
      obtain ⟨pos, below⟩ := canonical_and2.1 canonical
      exact dependsOn_and2 (by omega) (by omega) (by omega) member
    | xor2 a b =>
      obtain ⟨pos, below, -, -⟩ := canonical_xor2.1 canonical
      exact dependsOn_xor2 (by omega) other member
    | maj3 a b c =>
      obtain ⟨left, right, -⟩ := canonical_maj3.1 canonical
      exact dependsOn_maj3 left right other member

def twoValues (m n : Nat) (p q : Bool) (k : Nat) : Bool :=
  if k = m then p else if k = n then q else false

section TwoValues

variable {m n : Nat}

theorem signalUnder_first (p q x : Bool) : signalUnder (twoValues m n p q) ⟨m, x⟩ = (p ^^ x) := by
  simp [signalUnder, twoValues]

theorem signalUnder_second (apart : n ≠ m) (p q x : Bool) :
    signalUnder (twoValues m n p q) ⟨n, x⟩ = (q ^^ x) := by
  simp [signalUnder, twoValues, apart]

theorem signalUnder_neither {k : Nat} (left : k ≠ m) (right : k ≠ n) (p q x : Bool) :
    signalUnder (twoValues m n p q) ⟨k, x⟩ = x := by
  simp [signalUnder, twoValues, left, right]

theorem twoValues_zero (left : m ≠ 0) (right : n ≠ 0) (p q : Bool) :
    twoValues m n p q 0 = false := by
  simp [twoValues, left.symm, right.symm]

end TwoValues

theorem and_polarities {x y x' y' flip : Bool}
    (same : ∀ p q, ((p ^^ x) && (q ^^ y)) = (((p ^^ x') && (q ^^ y')) ^^ flip)) :
    x = x' ∧ y = y' ∧ flip = false := by
  revert x y x' y' flip
  decide

/-- Complementing all operands complements a majority, so the polarities are settled only because
    at most one operand is complemented. -/
theorem maj_polarities {x y z x' y' z' flip : Bool}
    (same : ∀ p q,
      GateValue.maj3 x (p ^^ y) (q ^^ z) = (GateValue.maj3 x' (p ^^ y') (q ^^ z') ^^ flip))
    (positive : GateValue.maj3 x y z = false) (positive' : GateValue.maj3 x' y' z' = false) :
    x = x' ∧ y = y' ∧ z = z' ∧ flip = false := by
  revert x y z x' y' z' flip
  decide

section SameNodes

variable {k l m : Nat} {x y z x' y' z' flip : Bool}

theorem and2_eq_of_agree (left : k ≠ 0) (right : l ≠ 0) (apart : l ≠ k)
    (agree : AgreeUpTo flip (and2 ⟨k, x⟩ ⟨l, y⟩).evalUnder (and2 ⟨k, x'⟩ ⟨l, y'⟩).evalUnder) :
    and2 (⟨k, x⟩ : Signal) ⟨l, y⟩ = and2 ⟨k, x'⟩ ⟨l, y'⟩ ∧ flip = false := by
  obtain ⟨rfl, rfl, plain⟩ := and_polarities fun p q => by
    simpa only [evalUnder_and2, signalUnder_first, signalUnder_second apart] using
      agree (twoValues k l p q) (twoValues_zero left right p q)
  exact ⟨rfl, plain⟩

theorem maj3_eq_of_agree (first : k < l) (second : l < m)
    (agree : AgreeUpTo flip (maj3 ⟨k, x⟩ ⟨l, y⟩ ⟨m, z⟩).evalUnder
      (maj3 ⟨k, x'⟩ ⟨l, y'⟩ ⟨m, z'⟩).evalUnder)
    (positive : GateValue.maj3 x y z = false) (positive' : GateValue.maj3 x' y' z' = false) :
    maj3 (⟨k, x⟩ : Signal) ⟨l, y⟩ ⟨m, z⟩ = maj3 ⟨k, x'⟩ ⟨l, y'⟩ ⟨m, z'⟩ ∧ flip = false := by
  have apart : m ≠ l := by omega
  have left : k ≠ l := by omega
  have right : k ≠ m := by omega
  obtain ⟨rfl, rfl, rfl, plain⟩ := maj_polarities (fun p q => by
    simpa only [evalUnder_maj3, signalUnder_first, signalUnder_second apart,
      signalUnder_neither left right] using
        agree (twoValues l m p q) (twoValues_zero (by omega) (by omega) p q)) positive positive'
  exact ⟨rfl, plain⟩

end SameNodes

theorem pair_eq {k l k' l' : Nat} (pos : 0 < k) (left : k < l) (pos' : 0 < k') (left' : k' < l')
    (same : ∀ n, n ≠ 0 → (n = k ∨ n = l ↔ n = k' ∨ n = l')) : k = k' ∧ l = l' := by
  have := same k
  have := same l
  have := same k'
  have := same l'
  omega

theorem triple_eq {k l m k' l' m' : Nat} (left : k < l) (right : l < m) (left' : k' < l')
    (right' : l' < m')
    (same : ∀ n, n ≠ 0 → (n = k ∨ n = l ∨ n = m ↔ n = k' ∨ n = l' ∨ n = m')) :
    k = k' ∧ l = l' ∧ m = m' := by
  have := same k
  have := same l
  have := same m
  have := same k'
  have := same l'
  have := same m'
  omega

/-- Gates of one kind in normal form are equal if they compute the same, and they never compute
    complements of each other. -/
theorem Canonical.eq_of_agree {flip : Bool} (first : g.Canonical) (second : h.Canonical)
    (kind : g.kind = h.kind) (agree : AgreeUpTo flip g.evalUnder h.evalUnder) :
    g = h ∧ flip = false := by
  have reads (n : Nat) (other : n ≠ 0) : n ∈ g.nodes ↔ n ∈ h.nodes := by
    simpa [other] using
      first.dependsOn_iff.symm.trans (agree.dependsOn_iff.trans (second.dependsOn_iff (n := n)))
  -- The same nodes in the same order; what is left are the polarities.
  cases g <;> cases h <;> cases kind <;> simp only [nodes, operands, List.map_cons, List.map_nil,
    List.mem_cons, List.not_mem_nil, or_false] at reads
  case and2.and2.refl a b c d =>
    obtain ⟨pos, left⟩ := canonical_and2.1 first
    obtain ⟨pos', left'⟩ := canonical_and2.1 second
    rcases a with ⟨k, x⟩
    rcases b with ⟨l, y⟩
    rcases c with ⟨k', x'⟩
    rcases d with ⟨l', y'⟩
    obtain ⟨rfl, rfl⟩ : k = k' ∧ l = l' := pair_eq pos left pos' left' reads
    exact and2_eq_of_agree (Nat.ne_of_gt pos) (Nat.ne_of_gt (Nat.lt_trans pos left))
      (Nat.ne_of_gt left) agree
  case xor2.xor2.refl a b c d =>
    obtain ⟨pos, left, plain⟩ := canonical_xor2.1 first
    obtain ⟨pos', left', plain'⟩ := canonical_xor2.1 second
    rcases a with ⟨k, x⟩
    rcases b with ⟨l, y⟩
    rcases c with ⟨k', x'⟩
    rcases d with ⟨l', y'⟩
    obtain ⟨rfl, rfl⟩ : k = k' ∧ l = l' := pair_eq pos left pos' left' reads
    obtain ⟨rfl, rfl⟩ : x = false ∧ y = false := plain
    obtain ⟨rfl, rfl⟩ : x' = false ∧ y' = false := plain'
    have zeros := agree (fun _ => false) rfl
    simp only [evalUnder_xor2, signalUnder] at zeros
    exact ⟨rfl, by simpa using zeros⟩
  case maj3.maj3.refl a b c d e f =>
    obtain ⟨left, right, positive⟩ := canonical_maj3.1 first
    obtain ⟨left', right', positive'⟩ := canonical_maj3.1 second
    rcases a with ⟨k, x⟩
    rcases b with ⟨l, y⟩
    rcases c with ⟨m, z⟩
    rcases d with ⟨k', x'⟩
    rcases e with ⟨l', y'⟩
    rcases f with ⟨m', z'⟩
    obtain ⟨rfl, rfl, rfl⟩ : k = k' ∧ l = l' ∧ m = m' := triple_eq left right left' right' reads
    exact maj3_eq_of_agree left right agree positive positive'

/-- A gate in normal form depends on two nodes, a signal on at most one. -/
theorem Canonical.not_signal {flip : Bool} {s : Signal} (canonical : g.Canonical) :
    ¬AgreeUpTo flip g.evalUnder (signalUnder · s) := by
  intro agree
  have single (n : Nat) (other : n ≠ 0) (member : n ∈ g.nodes) : n = s.node :=
    (dependsOn_signal.1 (agree.dependsOn (canonical.dependsOn_iff.2 ⟨other, member⟩))).2
  cases g with
  | and2 a b =>
    have := canonical_and2.1 canonical
    have := single a.node (by omega) (by simp [nodes, operands])
    have := single b.node (by omega) (by simp [nodes, operands])
    omega
  | xor2 a b =>
    have := canonical_xor2.1 canonical
    have := single a.node (by omega) (by simp [nodes, operands])
    have := single b.node (by omega) (by simp [nodes, operands])
    omega
  | maj3 a b c =>
    have := canonical_maj3.1 canonical
    have := single b.node (by omega) (by simp [nodes, operands])
    have := single c.node (by omega) (by simp [nodes, operands])
    omega

def holdsAt : GateKind → Nat → Bool
  | .and2, count => count == 2
  | .xor2, count => count == 1
  | .maj3, count => 2 ≤ count

theorem eval_eq_holdsAt (g : Gate Bool) : g.eval = holdsAt g.kind (g.operands.count true) := by
  cases g with
  | and2 a b => revert a b; decide
  | xor2 a b => revert a b; decide
  | maj3 a b c => revert a b c; decide

theorem evalUnder_perm {value : Nat → Bool} (kind : g.kind = h.kind)
    (perm : g.operands.Perm h.operands) : g.evalUnder value = h.evalUnder value := by
  rw [evalUnder_bool, evalUnder_bool, eval_eq_holdsAt, eval_eq_holdsAt, kind_map, kind_map, kind,
    operands_map, operands_map, (perm.map _).count_eq]

end Gate

theorem signal_eq_of_agree {s t : Signal} {flip : Bool}
    (agree : AgreeUpTo flip (signalUnder · s) (signalUnder · t)) : t = s.negateIf flip := by
  have node : t.node = s.node := by
    have same (n : Nat) : n ≠ 0 ∧ n = s.node ↔ n ≠ 0 ∧ n = t.node := by
      rw [← dependsOn_signal, ← dependsOn_signal, agree.dependsOn_iff]
    have := same s.node
    have := same t.node
    omega
  have negated := agree.symm (fun _ => false) rfl
  rcases s with ⟨m, x⟩
  rcases t with ⟨n, y⟩
  cases node
  simpa [signalUnder, Signal.negateIf] using negated

namespace Normal

def negateIf (flip : Bool) : Normal → Normal
  | trivial s => .trivial (s.negateIf flip)
  | gate g negated => .gate g (negated ^^ flip)

theorem value_negateIf (value : Nat → Bool) (flip : Bool) (form : Normal) :
    (form.negateIf flip).value value = (form.value value ^^ flip) := by
  cases form with
  | trivial s => exact signalUnder_negateIf value s flip
  | gate g negated => exact (Bool.xor_assoc ..).symm

theorem eq_of_agree {g h : Gate Signal} {flip : Bool} (kind : g.kind = h.kind)
    (agree : AgreeUpTo flip g.normalize.value h.normalize.value) :
    h.normalize = g.normalize.negateIf flip := by
  cases left : g.normalize with
  | trivial s =>
    cases right : h.normalize with
    | trivial t =>
      rw [left, right] at agree
      exact congrArg trivial (signal_eq_of_agree agree)
    | gate k y =>
      rw [left, right] at agree
      have plain : AgreeUpTo flip (fun value => signalUnder value s ^^ false)
          fun value => k.evalUnder value ^^ y := by simpa [Normal.value] using agree
      exact absurd plain.shift.symm (Gate.normalize_gate right).1.not_signal
  | gate k x =>
    obtain ⟨canonical, same, -⟩ := Gate.normalize_gate left
    cases right : h.normalize with
    | trivial t =>
      rw [left, right] at agree
      have plain : AgreeUpTo flip (fun value => k.evalUnder value ^^ x)
          fun value => signalUnder value t ^^ false := by simpa [Normal.value] using agree
      exact absurd plain.shift canonical.not_signal
    | gate l y =>
      obtain ⟨canonical', same', -⟩ := Gate.normalize_gate right
      rw [left, right] at agree
      obtain ⟨rfl, even⟩ := canonical.eq_of_agree canonical' (by rw [same, same', kind]) agree.shift
      have polarity : y = (x ^^ flip) := by
        revert even
        cases x <;> cases y <;> cases flip <;> decide
      rw [polarity, negateIf]

end Normal

namespace Gate

theorem exists_ofOperands {α : Type} {kind : GateKind} {operands : List α}
    (length : operands.length = kind.arity) :
    ∃ g : Gate α, g.kind = kind ∧ g.operands = operands := by
  cases kind with
  | and2 =>
    obtain ⟨a, b, rfl⟩ := List.length_eq_two.1 length
    exact ⟨and2 a b, rfl, rfl⟩
  | xor2 =>
    obtain ⟨a, b, rfl⟩ := List.length_eq_two.1 length
    exact ⟨xor2 a b, rfl, rfl⟩
  | maj3 =>
    obtain ⟨a, b, c, rfl⟩ := List.length_eq_three.1 length
    exact ⟨maj3 a b c, rfl, rfl⟩

theorem normalize_operands (g : Gate Signal) : g.kind.normalize g.operands = .ok g.normalize := by
  rw [GateKind.normalize, ofFanins_eq_ok.2 ⟨rfl, rfl⟩]
  rfl

theorem agree_iff_normalize {g h : Gate Signal} {flip : Bool} (kind : g.kind = h.kind) :
    AgreeUpTo flip g.evalUnder h.evalUnder ↔ h.normalize = g.normalize.negateIf flip := by
  constructor
  · intro agree
    apply Normal.eq_of_agree kind
    intro value zero
    beta_reduce
    rw [value_normalize zero, value_normalize zero]
    exact agree value zero
  · intro same value zero
    beta_reduce
    rw [← value_normalize zero h, same, Normal.value_negateIf, value_normalize zero,
      Bool.xor_assoc, Bool.xor_self, Bool.xor_false]

theorem normalize_perm {g h : Gate Signal} (kind : g.kind = h.kind)
    (perm : g.operands.Perm h.operands) : g.normalize = h.normalize := by
  have same := (@agree_iff_normalize g h false kind).1 fun value _ => by
    rw [Bool.xor_false]
    exact evalUnder_perm kind perm
  rw [same]
  cases g.normalize <;> simp [Normal.negateIf]

theorem apply_operands (value : Nat → Bool) (g : Gate Signal) :
    g.kind.apply (g.operands.map (signalUnder value)) = .ok (g.evalUnder value) := by
  rw [← operands_map, ← kind_map (signalUnder value), GateKind.apply, ofOperands?_operands,
    evalUnder_bool]
  exact apply_of_alike (fun _ _ => rfl) _

end Gate

/-- Two lists of fanins compute the same up to complement exactly when their normal forms are the
    same up to complement. Normal forms compute what the fanins compute, forget the order of the
    fanins, and are their own normal forms. -/
theorem GateKind.normalize_complete (kind : GateKind) (left right : List Signal) (flip : Bool)
    (leftLength : left.length = kind.arity) (rightLength : right.length = kind.arity) :
    ((∀ value : Nat → Bool, value 0 = false →
        kind.apply (left.map (signalUnder value)) =
          (kind.apply (right.map (signalUnder value))).map (· ^^ flip)) ↔
      (∃ s : Signal, kind.normalize left = .ok (.trivial s) ∧
        kind.normalize right = .ok (.trivial (s.negateIf flip))) ∨
      (∃ (g : Gate Signal) (negated : Bool), g.kind = kind ∧
        kind.normalize left = .ok (.gate g negated) ∧
        kind.normalize right = .ok (.gate g (negated ^^ flip)))) ∧
    (∃ form, kind.normalize left = .ok form ∧ ∀ value : Nat → Bool, value 0 = false →
      kind.apply (left.map (signalUnder value)) = .ok (form.value value)) ∧
    (left.Perm right → kind.normalize left = kind.normalize right) ∧
    (∀ g negated, kind.normalize left = .ok (.gate g negated) →
      g.kind = kind ∧ kind.normalize g.operands = .ok (.gate g false)) := by
  obtain ⟨g, rfl, rfl⟩ := Gate.exists_ofOperands leftLength
  obtain ⟨h, kind, rfl⟩ := Gate.exists_ofOperands rightLength
  have forms : g.kind.normalize h.operands = .ok h.normalize := by
    rw [← kind, Gate.normalize_operands]
  have values (value : Nat → Bool) :
      g.kind.apply (h.operands.map (signalUnder value)) = .ok (h.evalUnder value) := by
    rw [← kind, Gate.apply_operands]
  simp only [Gate.normalize_operands, Gate.apply_operands, forms, values, Except.map,
    Except.ok.injEq]
  refine ⟨(Gate.agree_iff_normalize kind.symm).trans ⟨fun same => ?_, ?_⟩, ?_, ?_, ?_⟩
  · cases shape : g.normalize with
    | trivial s => exact .inl ⟨s, rfl, by rw [same, shape, Normal.negateIf]⟩
    | gate k negated =>
      exact .inr ⟨k, negated, (Gate.normalize_gate shape).2.1, rfl,
        by rw [same, shape, Normal.negateIf]⟩
  · rintro (⟨s, first, second⟩ | ⟨k, negated, -, first, second⟩)
    · rw [first, second, Normal.negateIf]
    · rw [first, second, Normal.negateIf]
  · exact ⟨_, rfl, fun value zero => (Gate.value_normalize zero g).symm⟩
  · exact Gate.normalize_perm kind.symm
  · intro k negated shape
    obtain ⟨canonical, same, -⟩ := Gate.normalize_gate shape
    refine ⟨same, ?_⟩
    rw [← same, Gate.normalize_operands, canonical]

/-- `¬x ∨ y` is a majority with the constant true, and so is the complement of `x ∧ ¬y` with the
    constant false. -/
theorem normalize_complete_of_implications :
    let left : List Signal := [⟨0, true⟩, ⟨2, true⟩, ⟨3, false⟩]
    let right : List Signal := [⟨3, true⟩, ⟨2, false⟩, ⟨0, false⟩]
    GateKind.maj3.normalize left = .ok (.gate (.maj3 ⟨0, false⟩ ⟨2, false⟩ ⟨3, true⟩) true) ∧
      GateKind.maj3.normalize right = .ok (.gate (.maj3 ⟨0, false⟩ ⟨2, false⟩ ⟨3, true⟩) false) ∧
      ∀ value : Nat → Bool, value 0 = false →
        GateKind.maj3.apply (left.map (signalUnder value)) =
          (GateKind.maj3.apply (right.map (signalUnder value))).map (· ^^ true) := by
  intro left right
  refine ⟨rfl, rfl, ?_⟩
  exact (GateKind.normalize_complete .maj3 left right true rfl rfl).1.2
    (.inr ⟨_, true, rfl, rfl, rfl⟩)

end LogicOpt
