import LogicOpt.Network.Semantics
import LogicOpt.Network.Substitution

namespace LogicOpt

namespace Signal

@[simp]
theorem node_ofNode (n : Nat) : (ofNode n).node = n := rfl

theorem ofNode_node_eq {s : Signal} : ofNode s.node = s ↔ s.negated = false := by
  rcases s with ⟨n, _ | _⟩ <;> simp [ofNode]

theorem node_le_of_literal_le {a b : Signal} (below : a.literal ≤ b.literal) :
    a.node ≤ b.node := by
  cases ha : a.negated <;> cases hb : b.negated <;> simp [literal, ha, hb] at below <;> omega

theorem literal_lt_of_node_lt {a b : Signal} (below : a.node < b.node) :
    a.literal < b.literal := by
  cases ha : a.negated <;> cases hb : b.negated <;> simp [literal, ha, hb] <;> omega

end Signal

namespace Network

@[simp]
theorem signalUnder_negateIf (value : Nat → Bool) (s : Signal) (flip : Bool) :
    signalUnder value (s.negateIf flip) = (signalUnder value s ^^ flip) := by
  simp [signalUnder]

theorem signalUnder_negate (value : Nat → Bool) (s : Signal) :
    signalUnder value s.negate = !signalUnder value s := by
  simp [signalUnder, Signal.negate]

@[simp]
theorem signalUnder_ofNode (value : Nat → Bool) (n : Nat) :
    signalUnder value (.ofNode n) = value n := by
  simp [signalUnder, Signal.ofNode]

theorem signalUnder_of_node_eq (value : Nat → Bool) {a b : Signal} (same : a.node = b.node) :
    (a.negated = b.negated ∧ signalUnder value a = signalUnder value b) ∨
      (a.negated ≠ b.negated ∧ signalUnder value a = !signalUnder value b) := by
  by_cases polarity : a.negated = b.negated
  · exact .inl ⟨polarity, by simp [signalUnder, same, polarity]⟩
  · refine .inr ⟨polarity, ?_⟩
    simp [signalUnder, same, Bool.eq_not_of_ne polarity]

end Network

def Normal.value (value : Nat → Bool) : Normal → Bool
  | .trivial s => Network.signalUnder value s
  | .gate h negated => h.evalUnder value ^^ negated

namespace Gate

open Network

def nodes (g : Gate Signal) : List Nat := g.operands.map (·.node)

theorem mem_nodes {g : Gate Signal} {n : Nat} : n ∈ g.nodes ↔ ∃ f ∈ g.operands, f.node = n := by
  simp [nodes]

theorem reads_eq_true {g : Gate Signal} {n : Nat} : g.reads n = true ↔ n ∈ g.nodes := by
  simp [reads, nodes]

theorem ofFanins_eq_ok {kind : GateKind} {fanins : List Signal} {g : Gate Signal} :
    ofFanins kind fanins = .ok g ↔ g.kind = kind ∧ g.operands = fanins := by
  constructor
  · intro made
    unfold ofFanins ofOperands? at made
    split at made
    · rename_i shaped
      split at shaped <;> cases shaped <;> cases made <;> exact ⟨rfl, rfl⟩
    · cases made
  · rintro ⟨rfl, rfl⟩
    simp [ofFanins, ofOperands?_operands]

theorem nodes_redirect (g : Gate Signal) (old : Nat) (new : Signal) :
    (g.redirect old new).nodes = g.nodes.map fun m => if m = old then new.node else m := by
  simp only [nodes, redirect, operands_map, List.map_map]
  congr 1
  funext f
  simp only [Function.comp]
  split <;> simp [*]

theorem sortPair_cases (a b : Signal) :
    (sortPair a b = (a, b) ∧ a.literal ≤ b.literal) ∨
      (sortPair a b = (b, a) ∧ b.literal ≤ a.literal) := by
  unfold sortPair
  split
  · exact .inr ⟨rfl, by omega⟩
  · exact .inl ⟨rfl, by omega⟩

theorem sortPair_of_le {a b : Signal} (sorted : a.literal ≤ b.literal) :
    sortPair a b = (a, b) := by
  simp [sortPair, Nat.not_lt_of_le sorted]

theorem sortTriple_of_le {a b c : Signal} (left : a.literal ≤ b.literal)
    (right : b.literal ≤ c.literal) : sortTriple a b c = (a, b, c) := by
  simp [sortTriple, sortPair_of_le left, sortPair_of_le right]

theorem sortTriple_spec (a b c : Signal) :
    ∃ x y z, sortTriple a b c = (x, y, z) ∧ [x, y, z].Perm [a, b, c] ∧
      x.literal ≤ y.literal ∧ y.literal ≤ z.literal ∧
      ∀ f : Signal → Bool, GateValue.maj3 (f x) (f y) (f z) = GateValue.maj3 (f a) (f b) (f c) := by
  have majority (p q r : Bool) : GateValue.maj3 q p r = GateValue.maj3 p q r ∧
      GateValue.maj3 p r q = GateValue.maj3 p q r := by
    cases p <;> cases q <;> cases r <;> decide
  unfold sortTriple
  rcases sortPair_cases a b with ⟨first, _⟩ | ⟨first, _⟩ <;> simp only [first]
  · rcases sortPair_cases b c with ⟨second, _⟩ | ⟨second, _⟩ <;> simp only [second]
    · rw [sortPair_of_le ‹_›]
      exact ⟨a, b, c, rfl, .refl _, ‹_›, ‹_›, fun _ => rfl⟩
    · rcases sortPair_cases a c with ⟨third, _⟩ | ⟨third, _⟩ <;> simp only [third]
      · exact ⟨a, c, b, rfl, .cons _ (.swap ..), ‹_›, ‹_›, fun f => (majority ..).2⟩
      · refine ⟨c, a, b, rfl, ?_, ‹_›, ‹_›, fun f => ?_⟩
        · exact (List.Perm.swap a c [b]).trans (.cons _ (.swap ..))
        · rw [(majority ..).1, (majority ..).2]
  · rcases sortPair_cases a c with ⟨second, _⟩ | ⟨second, _⟩ <;> simp only [second]
    · rw [sortPair_of_le ‹_›]
      exact ⟨b, a, c, rfl, .swap .., ‹_›, ‹_›, fun f => (majority ..).1⟩
    · rcases sortPair_cases b c with ⟨third, _⟩ | ⟨third, _⟩ <;> simp only [third]
      · refine ⟨b, c, a, rfl, ?_, ‹_›, ‹_›, fun f => ?_⟩
        · exact (List.Perm.cons b (.swap a c [])).trans (.swap ..)
        · rw [(majority ..).2, (majority ..).1]
      · refine ⟨c, b, a, rfl, ?_, ‹_›, ‹_›, fun f => ?_⟩
        · exact (List.Perm.swap b c [a]).trans
            ((List.Perm.cons b (.swap a c [])).trans (.swap ..))
        · rw [(majority ..).1, (majority ..).2, (majority ..).1]

theorem canonical_and2 {a b : Signal} :
    (and2 a b).Canonical ↔ 0 < a.node ∧ a.node < b.node := by
  simp only [Canonical, normalize, normalizeAnd]
  rcases sortPair_cases a b with ⟨sorted, below⟩ | ⟨sorted, below⟩ <;>
    have le := Signal.node_le_of_literal_le below <;> simp only [sorted]
  · split
    · simp; omega
    · split <;> simp <;> omega
  · split
    · simp; omega
    · split
      · simp; omega
      · simp only [Normal.gate.injEq, and2.injEq, and_true]
        constructor
        · rintro ⟨same, -⟩
          have := congrArg Signal.node same
          omega
        · omega

theorem canonical_xor2 {a b : Signal} :
    (xor2 a b).Canonical ↔
      0 < a.node ∧ a.node < b.node ∧ a.negated = false ∧ b.negated = false := by
  simp only [Canonical, normalize, normalizeXor]
  rcases sortPair_cases (.ofNode a.node) (.ofNode b.node) with ⟨sorted, below⟩ | ⟨sorted, below⟩ <;>
    have le := Signal.node_le_of_literal_le below <;>
    simp only [Signal.node_ofNode] at le <;> simp only [sorted, Signal.node_ofNode]
  · by_cases same : a.node = b.node
    · simp [same]
    · by_cases zero : a.node = 0
      · rw [if_neg same, if_pos zero]
        simp [zero]
      · simp only [same, zero, ↓reduceIte, Normal.gate.injEq, xor2.injEq, Signal.ofNode_node_eq]
        constructor
        · rintro ⟨⟨ha, hb⟩, -⟩
          exact ⟨by omega, by omega, ha, hb⟩
        · rintro ⟨-, -, ha, hb⟩
          simp [ha, hb]
  · have apart : (Normal.gate (xor2 (.ofNode b.node) (.ofNode a.node)) (a.negated ^^ b.negated) =
        .gate (xor2 a b) false) → a.node = b.node := by
      intro h
      simp only [Normal.gate.injEq, xor2.injEq] at h
      rw [← h.1.1, Signal.node_ofNode]
    constructor
    · intro h
      split at h
      · simp at h
      · split at h
        · simp at h
        · have := apart h
          omega
    · omega

theorem canonical_maj3 {a b c : Signal} :
    (maj3 a b c).Canonical ↔ a.node < b.node ∧ b.node < c.node ∧
      GateValue.maj3 a.negated b.negated c.negated = false := by
  obtain ⟨x, y, z, sorted, perm, xy, yz, majority⟩ := sortTriple_spec a b c
  simp only [Canonical, normalize, normalizeMaj, sorted]
  have left := Signal.node_le_of_literal_le xy
  have right := Signal.node_le_of_literal_le yz
  constructor
  · intro same
    split at same
    · simp at same
    · split at same
      · simp at same
      · simp only [Normal.gate.injEq, maj3.injEq] at same
        obtain ⟨⟨ha, hb, hc⟩, positive⟩ := same
        rw [positive] at ha hb hc
        simp only [Signal.negateIf_false] at ha hb hc
        subst ha hb hc
        exact ⟨by omega, by omega, positive⟩
  · rintro ⟨ab, bc, positive⟩
    have first := Signal.literal_lt_of_node_lt ab
    have second := Signal.literal_lt_of_node_lt bc
    rw [sortTriple_of_le (Nat.le_of_lt first) (Nat.le_of_lt second)] at sorted
    cases sorted
    rw [if_neg (by omega), if_neg (by omega)]
    simp [positive]

theorem Canonical.nodup_nodes {g : Gate Signal} (canonical : g.Canonical) : g.nodes.Nodup := by
  cases g with
  | and2 a b =>
    have := canonical_and2.1 canonical
    simp [nodes, operands]
    omega
  | xor2 a b =>
    have := canonical_xor2.1 canonical
    simp [nodes, operands]
    omega
  | maj3 a b c =>
    have := canonical_maj3.1 canonical
    simp [nodes, operands]
    omega

theorem sortPair_spec (a b : Signal) :
    ∃ x y, sortPair a b = (x, y) ∧ [x, y].Perm [a, b] ∧ x.literal ≤ y.literal ∧
      ∀ (f : Signal → Bool) (op : Bool → Bool → Bool), (∀ p q, op p q = op q p) →
        op (f x) (f y) = op (f a) (f b) := by
  rcases sortPair_cases a b with ⟨sorted, below⟩ | ⟨sorted, below⟩
  · exact ⟨a, b, sorted, .refl _, below, fun _ _ _ => rfl⟩
  · exact ⟨b, a, sorted, .swap .., below, fun f op symm => symm ..⟩

theorem normalize_gate {g h : Gate Signal} {negated : Bool} (shape : g.normalize = .gate h negated) :
    h.Canonical ∧ h.kind = g.kind ∧ h.nodes.Perm g.nodes := by
  cases g with
  | and2 a b =>
    obtain ⟨x, y, sorted, perm, below, -⟩ := sortPair_spec a b
    have le := Signal.node_le_of_literal_le below
    simp only [normalize, normalizeAnd, sorted] at shape
    split at shape
    · cases shape
    · split at shape <;> cases shape
      exact ⟨canonical_and2.2 (by omega), rfl, perm.map Signal.node⟩
  | xor2 a b =>
    obtain ⟨x, y, sorted, perm, below, -⟩ := sortPair_spec (.ofNode a.node) (.ofNode b.node)
    have le := Signal.node_le_of_literal_le below
    have plain (s : Signal) (member : s ∈ [x, y]) : s.negated = false := by
      have either : s = .ofNode a.node ∨ s = .ofNode b.node := by
        simpa using perm.subset member
      rcases either with rfl | rfl <;> rfl
    simp only [normalize, normalizeXor, sorted] at shape
    split at shape
    · cases shape
    · split at shape <;> cases shape
      exact ⟨canonical_xor2.2 ⟨by omega, by omega, plain x (by simp), plain y (by simp)⟩, rfl,
        perm.map Signal.node⟩
  | maj3 a b c =>
    obtain ⟨x, y, z, sorted, perm, xy, yz, -⟩ := sortTriple_spec a b c
    have left := Signal.node_le_of_literal_le xy
    have right := Signal.node_le_of_literal_le yz
    simp only [normalize, normalizeMaj, sorted] at shape
    split at shape
    · cases shape
    · split at shape <;> cases shape
      refine ⟨canonical_maj3.2 ⟨by simp; omega, by simp; omega, ?_⟩, rfl, perm.map Signal.node⟩
      simp only [Signal.negated_negateIf]
      cases x.negated <;> cases y.negated <;> cases z.negated <;> decide

theorem normalize_trivial {g : Gate Signal} {s : Signal} (shape : g.normalize = .trivial s) :
    s.node = 0 ∨ s.node ∈ g.nodes := by
  cases g with
  | and2 a b =>
    obtain ⟨x, y, sorted, perm, -⟩ := sortPair_spec a b
    have kept (s : Signal) (member : s ∈ [x, y]) : s.node ∈ (and2 a b).nodes :=
      List.mem_map_of_mem (perm.subset member)
    simp only [normalize, normalizeAnd, sorted] at shape
    split at shape
    · cases shape
      split
      · exact .inr (kept x (by simp))
      · exact .inl rfl
    · split at shape <;> cases shape
      split
      · exact .inr (kept y (by simp))
      · exact .inl rfl
  | xor2 a b =>
    obtain ⟨x, y, sorted, perm, -⟩ := sortPair_spec (.ofNode a.node) (.ofNode b.node)
    simp only [normalize, normalizeXor, sorted] at shape
    split at shape
    · cases shape
      exact .inl rfl
    · split at shape <;> cases shape
      have either : y = .ofNode a.node ∨ y = .ofNode b.node := by
        simpa using perm.subset (show y ∈ [x, y] by simp)
      rcases either with rfl | rfl
      · exact .inr (by simp [nodes, operands])
      · exact .inr (by simp [nodes, operands])
  | maj3 a b c =>
    obtain ⟨x, y, z, sorted, perm, -⟩ := sortTriple_spec a b c
    have kept (s : Signal) (member : s ∈ [x, y, z]) : s.node ∈ (maj3 a b c).nodes :=
      List.mem_map_of_mem (perm.subset member)
    simp only [normalize, normalizeMaj, sorted] at shape
    right
    split at shape
    · cases shape
      split <;> exact kept _ (by simp)
    · split at shape <;> cases shape
      split <;> exact kept _ (by simp)

theorem nodup_nodes_of_normalize {g h : Gate Signal} {negated : Bool}
    (shape : g.normalize = .gate h negated) : g.nodes.Nodup := by
  obtain ⟨canonical, -, perm⟩ := normalize_gate shape
  exact perm.nodup_iff.1 canonical.nodup_nodes

theorem evalUnder_bool (value : Nat → Bool) (g : Gate Signal) :
    g.evalUnder value = (g.map (signalUnder value)).eval := by
  have read : (fun s : Signal => GateValue.complementIf (value s.node) s.negated) =
      signalUnder value := by
    funext s
    cases h : s.negated <;> simp [GateValue.complementIf, signalUnder, GateValue.complement, h]
  simp only [evalUnder, read]

theorem evalUnder_congr {left right : Nat → Bool} {g : Gate Signal}
    (same : ∀ n ∈ g.nodes, left n = right n) : g.evalUnder left = g.evalUnder right := by
  cases g <;> simp_all [evalUnder, map, nodes, operands]

theorem evalUnder_of_operands {left right : Nat → Bool} {g h : Gate Signal} (kind : g.kind = h.kind)
    (same : g.operands.map (signalUnder left) = h.operands.map (signalUnder right)) :
    g.evalUnder left = h.evalUnder right := by
  cases g <;> cases h <;>
    simp_all [evalUnder_bool, map, operands, Gate.kind]

theorem evalUnder_redirect {value : Nat → Bool} {old : Nat} {new : Signal}
    (same : value old = signalUnder value new) (g : Gate Signal) :
    (g.redirect old new).evalUnder value = g.evalUnder value := by
  refine evalUnder_of_operands (by simp [redirect]) ?_
  simp only [redirect, operands_map, List.map_map]
  refine List.map_congr_left fun f _ => ?_
  simp only [Function.comp]
  split
  · rename_i hit
    rw [signalUnder_negateIf, ← same, ← hit, signalUnder]
  · rfl

theorem value_normalize {value : Nat → Bool} (zero : value 0 = false) (g : Gate Signal) :
    g.normalize.value value = g.evalUnder value := by
  cases g with
  | and2 a b =>
    obtain ⟨x, y, sorted, -, -, alike⟩ := sortPair_spec a b
    have same := alike (signalUnder value) (· && ·) Bool.and_comm
    have goal : (and2 a b).evalUnder value = (signalUnder value x && signalUnder value y) := by
      rw [same, evalUnder_bool]
      rfl
    rw [goal]
    simp only [normalize, normalizeAnd, sorted]
    split
    · rename_i equal
      rcases signalUnder_of_node_eq value equal with ⟨polarity, alike⟩ | ⟨polarity, alike⟩
      · simp [Normal.value, polarity, alike]
      · rw [if_neg polarity, Normal.value, alike]
        cases signalUnder value y <;> simp [signalUnder, Signal.constant, zero]
    · split
      · rename_i first
        cases hx : x.negated <;> simp [Normal.value, signalUnder, first, zero, hx, Signal.constant]
      · simp [Normal.value, evalUnder_bool, map, eval, GateValue.and2]
  | xor2 a b =>
    obtain ⟨x, y, sorted, perm, -, alike⟩ := sortPair_spec (.ofNode a.node) (.ofNode b.node)
    have same := alike (signalUnder value) (· ^^ ·) Bool.xor_comm
    have plain (s : Signal) (member : s ∈ [x, y]) : signalUnder value s = value s.node := by
      have either : s = .ofNode a.node ∨ s = .ofNode b.node := by
        simpa using perm.subset member
      rcases either with rfl | rfl <;> simp
    have goal : (xor2 a b).evalUnder value =
        ((value x.node ^^ value y.node) ^^ (a.negated ^^ b.negated)) := by
      rw [← plain x (by simp), ← plain y (by simp), same, evalUnder_bool, signalUnder_ofNode,
        signalUnder_ofNode]
      simp only [map, eval, GateValue.xor2, signalUnder]
      cases value a.node <;> cases value b.node <;> cases a.negated <;> simp
    rw [goal]
    simp only [normalize, normalizeXor, sorted]
    split
    · rename_i equal
      simp [Normal.value, signalUnder, equal, Signal.constant, zero]
    · split
      · rename_i first
        simp [Normal.value, plain y (by simp), first, zero]
      · simp [Normal.value, evalUnder_bool, map, eval, GateValue.xor2, plain x (by simp),
          plain y (by simp)]
  | maj3 a b c =>
    obtain ⟨x, y, z, sorted, -, -, -, alike⟩ := sortTriple_spec a b c
    have goal : (maj3 a b c).evalUnder value =
        GateValue.maj3 (signalUnder value x) (signalUnder value y) (signalUnder value z) := by
      rw [alike, evalUnder_bool]
      rfl
    rw [goal]
    simp only [normalize, normalizeMaj, sorted]
    split
    · rename_i equal
      rcases signalUnder_of_node_eq value equal with ⟨polarity, alike⟩ | ⟨polarity, alike⟩
      · rw [if_pos polarity, Normal.value, alike]
        cases signalUnder value y <;> cases signalUnder value z <;> rfl
      · rw [if_neg polarity, Normal.value, alike]
        cases signalUnder value y <;> cases signalUnder value z <;> rfl
    · split
      · rename_i equal
        rcases signalUnder_of_node_eq value equal with ⟨polarity, alike⟩ | ⟨polarity, alike⟩
        · rw [if_pos polarity, Normal.value, alike]
          cases signalUnder value x <;> cases signalUnder value z <;> rfl
        · rw [if_neg polarity, Normal.value, alike]
          cases signalUnder value x <;> cases signalUnder value z <;> rfl
      · simp only [Normal.value, evalUnder_bool, map, eval, GateValue.maj3, signalUnder_negateIf]
        cases signalUnder value x <;> cases signalUnder value y <;>
          cases signalUnder value z <;> cases x.negated <;> cases y.negated <;>
          cases z.negated <;> decide

end Gate

end LogicOpt
