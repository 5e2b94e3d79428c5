import LogicOpt.Equivalence
import LogicOpt.Proofs.Formulas

namespace LogicOpt

open Network

def Signal.numbered (cone : List Nat) (s : Signal) : Signal := ⟨cone.idxOf s.node, s.negated⟩

namespace Gate

variable {g : Gate Signal} {cone : List Nat}

theorem mem_nodes_numbered {m : Nat} :
    m ∈ (g.map (·.numbered cone)).nodes ↔ ∃ k ∈ g.nodes, cone.idxOf k = m := by
  simp [Gate.nodes, Signal.numbered]

theorem evalUnder_numbered {f value : Nat → Bool}
    (same : ∀ m ∈ g.nodes, f (cone.idxOf m) = value m) :
    (g.map (·.numbered cone)).evalUnder f = g.evalUnder value := by
  refine evalUnder_of_operands (kind_map _ _) ?_
  rw [operands_map, List.map_map]
  refine List.map_congr_left fun s member => ?_
  have known : f (cone.idxOf s.node) = value s.node := same s.node (mem_nodes.2 ⟨s, member, rfl⟩)
  rw [Function.comp, signalUnder, signalUnder, Signal.numbered, known]

end Gate

namespace Network

variable {net : Network} {cone : List Nat} {e : Encoding} {f value : Nat → Bool} {n : Nat}

def definition (net : Network) (cone : List Nat) (n : Nat) : Definition :=
  match net.gate? n with
  | some g => .gate (g.map (·.numbered cone))
  | none => if n = 0 then .zero else .free

theorem definition_append (reads : ∀ m, net.Feeds m n → m ∈ cone) (more : List Nat) :
    net.definition (cone ++ more) n = net.definition cone n := by
  unfold definition
  cases slot : net.gate? n with
  | none => rfl
  | some g =>
    have same : ∀ s ∈ g.operands, s.numbered (cone ++ more) = s.numbered cone := by
      intro s member
      have listed := reads s.node (feeds_of_gate? slot (Gate.mem_nodes.2 ⟨s, member, rfl⟩))
      rw [Signal.numbered, Signal.numbered, List.idxOf_append_of_mem listed]
    cases g <;> simp_all [Gate.map, Gate.operands]

/-- The variables are the nodes of the cone in their order. -/
structure Encoded (net : Network) (cone : List Nat) (e : Encoding) : Prop where
  formula : e.formula.toList = cone.map (net.definition cone)
  variableOf : ∀ n, e.variableOf[n]? = if n ∈ cone then some (cone.idxOf n) else none

namespace Encoded

theorem size (encoded : net.Encoded cone e) : e.formula.size = cone.length := by
  rw [← Array.length_toList, encoded.formula, List.length_map]

theorem entry (encoded : net.Encoded cone e) {v : Nat} :
    e.formula[v]? = (cone[v]?).map (net.definition cone) := by
  rw [← Array.getElem?_toList, encoded.formula, List.getElem?_map]

theorem read (encoded : net.Encoded cone e) {s t : Signal} :
    e.read s = .ok t ↔ s.node ∈ cone ∧ s.numbered cone = t := by
  rw [Encoding.read, encoded.variableOf]
  by_cases member : s.node ∈ cone
  · simp [member, Signal.numbered]
  · simp [member]

theorem node (encoded : net.Encoded cone e) (fresh : n ∉ cone)
    (closed : ∀ k ∈ cone, ∀ m, net.Feeds m k → m ∈ cone) (reads : ∀ m, net.Feeds m n → m ∈ cone) :
    ∃ e', net.encodeNode e n = .ok e' ∧ net.Encoded (cone ++ [n]) e' := by
  refine ⟨e.define n (net.definition cone n), ?_, ?_, fun m => ?_⟩
  · unfold encodeNode definition
    cases slot : net.gate? n with
    | none => rfl
    | some g =>
      have read : g.mapM e.read = .ok (g.map (·.numbered cone)) := Gate.mapM_eq_map fun s member =>
        encoded.read.2 ⟨reads s.node (feeds_of_gate? slot (Gate.mem_nodes.2 ⟨s, member, rfl⟩)), rfl⟩
      simp only [read]
      rfl
  · rw [Encoding.define, Array.toList_push, encoded.formula, List.map_append, List.map_singleton,
      definition_append reads]
    congr 1
    exact List.map_congr_left fun k member => (definition_append (closed k member) _).symm
  · rw [Encoding.define, Std.TreeMap.getElem?_insert, encoded.variableOf, encoded.size]
    by_cases here : n = m
    · subst here
      simp [List.idxOf_append_of_notMem fresh]
    · by_cases member : m ∈ cone
      · simp [here, member, List.idxOf_append_of_mem member]
      · simp [here, member, Ne.symm here]

theorem run {rest : List Nat} (encoded : net.Encoded cone e) (nodup : (cone ++ rest).Nodup)
    (closed : ∀ k ∈ cone, ∀ m, net.Feeds m k → m ∈ cone) (ordered : net.InOrder (· ∈ cone) rest) :
    ∃ e', rest.foldlM net.encodeNode e = .ok e' ∧ net.Encoded (cone ++ rest) e' := by
  induction rest generalizing cone e with
  | nil => exact ⟨e, rfl, by rwa [List.append_nil]⟩
  | cons n rest ih =>
    have fresh : n ∉ cone := fun member =>
      (List.nodup_append.1 nodup).2.2 n member n (List.mem_cons_self ..) rfl
    rw [List.append_cons] at nodup ⊢
    obtain ⟨next, first, encoded⟩ := encoded.node fresh closed ordered.1
    obtain ⟨e', later, encoded⟩ := ih encoded nodup (fun k member m feeds => by
      rcases List.mem_append.1 member with old | last
      · exact List.mem_append_left _ (closed k old m feeds)
      · rw [List.mem_singleton.1 last] at feeds
        exact List.mem_append_left _ (ordered.1 m feeds))
      (ordered.2.mono fun _ _ m _ => by simp)
    refine ⟨e', ?_, encoded⟩
    rw [List.foldlM_cons, first]
    exact later

theorem empty : net.Encoded [] .empty := ⟨rfl, fun n => by simp [Encoding.empty]⟩

theorem ordered (encoded : net.Encoded cone e) (ordered : net.InOrder (fun _ => False) cone) :
    e.formula.Ordered := by
  intro v k entry m member
  rw [encoded.entry] at entry
  obtain ⟨n, place, defined⟩ := Option.map_eq_some_iff.1 entry
  obtain ⟨inside, rfl⟩ := List.getElem?_eq_some_iff.1 place
  unfold definition at defined
  split at defined
  · rename_i g slot
    cases defined
    obtain ⟨k, read, rfl⟩ := Gate.mem_nodes_numbered.1 member
    -- The nodes before the gate in the cone are those with smaller variables.
    rw [← List.take_append_drop v cone, List.drop_eq_getElem_cons inside] at ordered
    have earlier : k ∈ cone.take v := (ordered.known (feeds_of_gate? slot read)).resolve_left id
    have below := List.idxOf_lt_length_of_mem earlier
    rw [← List.take_append_drop v cone, List.idxOf_append_of_mem earlier]
    exact Nat.lt_of_lt_of_le below (List.length_take_le v cone)
  · split at defined <;> cases defined

/-- Values that fit the definitions are those of the valuation with the same inputs. -/
theorem values (encoded : net.Encoded cone e) (ordered : e.formula.Ordered)
    (holds : e.formula.Holds f) (fits : net.Fits value)
    (agree : ∀ n ∈ cone, net.gate? n = none → n ≠ 0 → f (cone.idxOf n) = value n) :
    ∀ n ∈ cone, f (cone.idxOf n) = value n := by
  suffices all : ∀ v n, cone.idxOf n = v → n ∈ cone → f v = value n from
    fun n member => all _ n rfl member
  -- On the variable rather than along the fanins: the network may have cycles outside the cone.
  intro v
  induction v using Nat.strong_induction_on with
  | _ v ih =>
    rintro n rfl member
    have entry : e.formula[cone.idxOf n]? = some (net.definition cone n) := by
      rw [encoded.entry, List.getElem?_idxOf member]
      rfl
    have fit := holds _ _ entry
    unfold definition at entry fit
    cases slot : net.gate? n with
    | none =>
      rw [slot] at fit
      by_cases zero : n = 0
      · rw [if_pos zero] at fit
        rw [show f (cone.idxOf n) = false from fit, zero, fits.zero]
      · exact agree n member slot zero
    | some g =>
      rw [slot] at entry fit
      have read : f (cone.idxOf n) = (g.map (·.numbered cone)).evalUnder f := fit
      rw [read, fits.gate n g slot]
      refine Gate.evalUnder_numbered fun m reads => ?_
      have below : cone.idxOf m < cone.idxOf n :=
        ordered _ _ entry _ (Gate.mem_nodes_numbered.2 ⟨m, reads, rfl⟩)
      have listed : m ∈ cone := List.idxOf_lt_length_iff.1
        (Nat.lt_trans below (List.idxOf_lt_length_iff.2 member))
      exact ih _ below m rfl listed

end Encoded

theorem Encoded.readAll (encoded : net.Encoded cone e) {nodes : List Nat}
    (listed : ∀ n ∈ nodes, n ∈ cone) :
    nodes.mapM (fun n => e.read (.ofNode n)) =
      .ok (nodes.map fun n => .ofNode (cone.idxOf n)) := by
  induction nodes with
  | nil => rfl
  | cons n rest ih =>
    rw [List.forall_mem_cons] at listed
    have first : e.read (.ofNode n) = .ok (.ofNode (cone.idxOf n)) := encoded.read.2 ⟨listed.1, rfl⟩
    rw [List.mapM_cons, first, ih listed.2]
    rfl

theorem exists_encodeCone (nodup : cone.Nodup) (ordered : net.InOrder (fun _ => False) cone) :
    ∃ e, net.encodeCone cone = .ok e ∧ net.Encoded cone e :=
  Encoded.empty.run nodup (by simp) (ordered.mono fun _ _ _ _ none => none.elim)

end Network

variable {start last : Formula × Array Signal} {gates : List (Gate Signal)} {g : Gate Signal}

theorem encodeGate_eq_ok : encodeGate start g = .ok last ↔
    ∃ k, g.mapM (Edit.readPosition start.2) = .ok k ∧
      (start.1.push (.gate k), start.2.push (.ofNode start.1.size)) = last := by
  simp only [encodeGate, bind_eq_ok, pure, Except.pure, Except.ok.injEq]

structure GatesEncoded (gates : List (Gate Signal)) (start last : Formula × Array Signal) :
    Prop where
  grown : start.1.Extends last.1
  inside : ∀ s ∈ last.2, s.node < last.1.size
  ordered : start.1.Ordered → last.1.Ordered
  evaluated : ∀ (f : Nat → Bool) (values : Array Bool), last.1.Holds f →
    Mirrors start.1.size f start.2 values → ∃ values',
      gates.foldlM Candidate.evaluateGate values = .ok values' ∧
        Mirrors last.1.size f last.2 values'

namespace GatesEncoded

theorem append {mid : Formula × Array Signal} {more : List (Gate Signal)}
    (first : GatesEncoded gates start mid) (second : GatesEncoded more mid last) :
    GatesEncoded (gates ++ more) start last where
  grown := first.grown.trans second.grown
  inside := second.inside
  ordered := fun ordered => second.ordered (first.ordered ordered)
  evaluated := fun f values holds mirrors => by
    obtain ⟨middle, ran, mirrors⟩ :=
      first.evaluated f values (holds.of_extends second.grown) mirrors
    obtain ⟨values', ran', mirrors'⟩ := second.evaluated f middle holds mirrors
    refine ⟨values', ?_, mirrors'⟩
    rw [List.foldlM_append, ran]
    exact ran'

theorem single (inside : ∀ s ∈ start.2, s.node < start.1.size)
    (run : encodeGate start g = .ok last) : GatesEncoded [g] start last := by
  obtain ⟨k, read, rfl⟩ := encodeGate_eq_ok.1 run
  have wider : start.1.size ≤ (start.1.push (.gate k)).size := by
    rw [Array.size_push]
    exact Nat.le_succ _
  have new : (Signal.ofNode start.1.size).node < (start.1.push (.gate k)).size := by
    rw [Array.size_push]
    exact Nat.lt_succ_self _
  have earlier : ∀ n ∈ k.nodes, n < start.1.size := by
    intro n member
    obtain ⟨t, there, rfl⟩ := Gate.mem_nodes.1 member
    refine Gate.forall_operands_of_mapM (p := fun t => t.node < start.1.size) ?_ read t there
    rintro f - t found
    obtain ⟨s, entry, rfl⟩ := Edit.readPosition_eq_ok.1 found
    exact inside s (Array.mem_of_getElem? entry)
  refine ⟨start.1.extends_push _, fun s member => ?_, fun ordered => ?_,
    fun f values holds mirrors => ?_⟩
  · rcases Array.mem_push.1 member with old | rfl
    · exact Nat.lt_of_lt_of_le (inside s old) wider
    · exact new
  · exact ordered.push fun h same => by cases same; exact earlier
  · obtain ⟨kind, operands⟩ := Gate.mapM_eq_ok.1 read
    have value : f start.1.size = k.evalUnder f := holds.last
    have pushed := (mirrors.mono wider fun _ _ => rfl).push new
    rw [signalUnder_ofNode, value] at pushed
    refine ⟨_, ?_, pushed⟩
    rw [List.foldlM_cons, mirrors.gate kind operands]
    rfl

theorem of_run (inside : ∀ s ∈ start.2, s.node < start.1.size)
    (run : gates.foldlM encodeGate start = .ok last) : GatesEncoded gates start last := by
  induction gates generalizing start with
  | nil =>
    cases run
    exact ⟨fun _ _ entry => entry, inside, id, fun _ values _ mirrors => ⟨values, rfl, mirrors⟩⟩
  | cons g rest ih =>
    rw [List.foldlM_cons, bind_eq_ok] at run
    obtain ⟨next, first, later⟩ := run
    have step := single inside first
    exact step.append (ih step.inside later)

end GatesEncoded

theorem exists_encodeGates (gates : List (Gate Signal)) (start : Formula × Array Signal)
    (ordered : ∀ i (h : i < gates.length), ∀ s ∈ (gates[i]).operands,
      s.node < start.2.size + i) :
    ∃ last, gates.foldlM encodeGate start = .ok last ∧
      last.2.size = start.2.size + gates.length := by
  refine Candidate.exists_foldlM_gates (fun state => state.2.size) (fun state g inside => ?_) gates
    start ordered
  obtain ⟨k, read⟩ : ∃ k, g.mapM (Edit.readPosition state.2) = .ok k :=
    Gate.exists_mapM fun s member => Edit.exists_readPosition (inside s member)
  exact ⟨_, encodeGate_eq_ok.2 ⟨k, read, rfl⟩, Array.size_push ..⟩

namespace Network

variable {net : Network} {cone divisors : List Nat} {root : Nat} {c : Candidate} {e : Encoding}
  {formula : Formula} {differ : Signal}

structure Compared (cone : List Nat) (root : Nat) (divisors : List Nat) (c : Candidate)
    (start formula : Formula) (differ : Signal) : Prop where
  grown : start.Extends formula
  ordered : start.Ordered → formula.Ordered
  differs : ∀ f, formula.Holds f → ∃ answer,
    c.evaluate false (divisors.map fun d => f (cone.idxOf d)) = .ok answer ∧
      signalUnder f differ = (f (cone.idxOf root) ^^ answer)

theorem Encoded.positions_inside (encoded : net.Encoded cone e)
    (listed : ∀ d ∈ divisors, d ∈ cone) :
    ∀ s ∈ Signal.ofNode e.formula.size :: divisors.map fun d => .ofNode (cone.idxOf d),
      s.node < (e.formula.push Definition.zero).size := by
  rw [Array.size_push, List.forall_mem_cons]
  refine ⟨Nat.lt_succ_self _, fun s member => ?_⟩
  obtain ⟨d, there, rfl⟩ := List.mem_map.1 member
  exact Nat.lt_succ_of_lt (encoded.size ▸ List.idxOf_lt_length_of_mem (listed d there))

theorem Encoded.miter_eq_ok (encoded : net.Encoded cone e)
    (listed : ∀ n ∈ root :: divisors, n ∈ cone) (length : divisors.length = c.numDivisors)
    (run : e.miter root divisors c = .ok (formula, differ)) :
    Compared cone root divisors c e.formula formula differ := by
  rw [List.forall_mem_cons] at listed
  simp only [Encoding.miter, encoded.readAll listed.2, bind_eq_ok, Except.ok.injEq, pure,
    Except.pure, exists_eq_left', Prod.mk.injEq, Prod.exists] at run
  obtain ⟨middle, positions, built, output, found, target, read, rfl, rfl⟩ := run
  obtain ⟨-, rfl⟩ := encoded.read.1 read
  have inside := encoded.positions_inside listed.2
  have gates := GatesEncoded.of_run (fun s member => inside s (List.mem_toArray.1 member)) built
  rw [List.forall_mem_cons] at inside
  have step := Formula.extends_push e.formula .zero
  have final := Formula.extends_push middle
    (.gate (.xor2 ((Signal.ofNode root).numbered cone) output))
  refine ⟨(step.trans gates.grown).trans final, fun ordered => ?_, fun f holds => ?_⟩
  · refine (gates.ordered (ordered.push nofun)).push fun g same n member => ?_
    cases same
    simp only [Gate.nodes, Gate.operands, List.map_cons, List.map_nil, List.mem_cons,
      List.not_mem_nil, or_false] at member
    rcases member with rfl | rfl
    · have place := encoded.size ▸ List.idxOf_lt_length_of_mem listed.1
      exact gates.grown.lt_size (step.lt_size place)
    · obtain ⟨s, entry, rfl⟩ := Edit.readPosition_eq_ok.1 found
      exact gates.inside s (Array.mem_of_getElem? entry)
  · have off : f e.formula.size = false := (holds.of_extends (gates.grown.trans final)).last
    obtain ⟨values, ran, mirrors⟩ := gates.evaluated f _ (holds.of_extends final)
      (.start inside.1 ((signalUnder_ofNode _ _).trans off) inside.2)
    obtain ⟨-, answer⟩ := mirrors.position found
    have read : (divisors.map fun n => Signal.ofNode (cone.idxOf n)).map (signalUnder f) =
        divisors.map fun n => f (cone.idxOf n) := by
      rw [List.map_map]
      exact List.map_congr_left fun n _ => signalUnder_ofNode _ _
    refine ⟨signalUnder f output, ?_, ?_⟩
    · simp only [Candidate.evaluate, bind_eq_ok, ensure_eq_ok, beq_iff_eq]
      exact ⟨(), by rw [List.length_map, length], values, by rw [← read]; exact ran, answer⟩
    · have differs : f middle.size = Gate.evalUnder f _ := holds.last
      rw [signalUnder_ofNode, differs, Gate.evalUnder_xor2]
      simp [signalUnder, Signal.numbered, Signal.ofNode]

theorem Encoded.exists_miter (encoded : net.Encoded cone e)
    (listed : ∀ n ∈ root :: divisors, n ∈ cone) (length : divisors.length = c.numDivisors)
    (closed : c.Closed) : ∃ formula differ, e.miter root divisors c = .ok (formula, differ) := by
  rw [List.forall_mem_cons] at listed
  have start : (Signal.ofNode e.formula.size ::
      divisors.map fun n => .ofNode (cone.idxOf n)).toArray.size = c.numDivisors + 1 := by
    simp [length]
  obtain ⟨⟨middle, positions⟩, built, size⟩ :=
    exists_encodeGates c.gates (e.formula.push .zero, _) (closed.operands_lt start)
  obtain ⟨output, found⟩ := Edit.exists_readPosition (size ▸ closed.output_lt start)
  have target : e.read (.ofNode root) = .ok ((Signal.ofNode root).numbered cone) :=
    encoded.read.2 ⟨listed.1, rfl⟩
  simp only [Encoding.miter, encoded.readAll listed.2, bind_eq_ok, Except.ok.injEq, pure,
    Except.pure, exists_eq_left', Prod.mk.injEq, Prod.exists]
  exact ⟨_, _, middle, positions, built, output, found, _, target, rfl, rfl⟩

theorem clauses_eq_sum (net : Network) (cone : List Nat) (c : Candidate) :
    net.clauses cone c = 1 + (cone.map net.nodeClauses).sum +
      (c.gates.map fun g => g.kind.clauseCount).sum + 4 := by
  have total {α : Type} (f : α → Nat) (items : List α) (start : Nat) :
      items.foldl (fun count a => count + f a) start = start + (items.map f).sum := by
    induction items generalizing start with
    | nil => rfl
    | cons a rest ih => rw [List.foldl_cons, ih, List.map_cons, List.sum_cons, Nat.add_assoc]
  rw [clauses, total, total, Nat.zero_add]
  rfl

end Network

end LogicOpt
