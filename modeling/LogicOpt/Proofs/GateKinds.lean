import LogicOpt.Proofs.Histories
import LogicOpt.Proofs.PassRuns
import LogicOpt.Proofs.Searches
import Mathlib.Data.Set.Insert

namespace LogicOpt

open Network

variable {net net' : Network} {solve : Solver} {allowed : Set GateKind}

/-- The kinds of the gate slots, live or dead. -/
def Network.gateKinds (net : Network) : Set GateKind := {k | ∃ n g, net.gate? n = some g ∧ g.kind = k}

namespace Network

theorem kinds_subset : net.gateKinds ⊆ allowed ↔ ∀ n g, net.gate? n = some g → g.kind ∈ allowed := by
  constructor
  · exact fun within n g slot => within ⟨n, g, slot, rfl⟩
  · rintro within k ⟨n, g, slot, rfl⟩
    exact within n g slot

theorem kinds_congr (body : ∀ m, net'.body? m = net.body? m) : net'.gateKinds = net.gateKinds := by
  have same (n : Nat) : net'.gate? n = net.gate? n := by rw [gate?_eq_body?, gate?_eq_body?, body]
  simp only [Network.gateKinds, same]

theorem kinds_subset_of_body {n : Nat} {h : Gate Signal} (within : net.gateKinds ⊆ allowed)
    (kind : h.kind ∈ allowed)
    (body : ∀ m, net'.body? m = if m = n then some (.gate h) else net.body? m) :
    net'.gateKinds ⊆ allowed := by
  rw [kinds_subset] at within ⊢
  intro m g slot
  rw [gate?_eq_some, body] at slot
  split at slot
  · cases slot
    exact kind
  · exact within m g (gate?_eq_some.2 slot)

end Network

theorem Created.kinds {g : Gate Signal} {s : Signal} (created : Created net g s net')
    (within : net.gateKinds ⊆ allowed) (kind : g.kind ∈ allowed) : net'.gateKinds ⊆ allowed := by
  cases created with
  | folded => exact within
  | shared => exact within
  | appended shape absent change =>
    refine kinds_subset_of_body within ?_ change.body
    rwa [(Gate.normalize_gate shape).2.1]

theorem Awakened.kinds {s new : Signal} (awakened : Awakened net s new net')
    (consistent : net.Consistent) : net'.gateKinds = net.gateKinds :=
  kinds_congr (awakened.body consistent)

theorem Visited.kinds {old consumer : Nat} {new : Signal} {r r' : Replacements}
    (visited : Visited old new r consumer net r' net') (within : net.gateKinds ⊆ allowed) :
    net'.gateKinds ⊆ allowed := by
  cases visited with
  | passed => exact within
  | queued slot awake free was target =>
    cases target with
    | folded => exact within
    | held => exact within
    | complemented shape resolved kind alive created =>
      refine created.kinds within ?_
      rw [kind, (Gate.normalize_gate shape).2.1, Gate.redirect, Gate.kind_map]
      exact kinds_subset.1 within _ _ slot
  | rewired slot awake free was shape change =>
    refine kinds_subset_of_body within ?_ change.body
    rw [(Gate.normalize_gate shape).2.1, Gate.redirect, Gate.kind_map]
    exact kinds_subset.1 within _ _ slot

theorem Replaced.kinds {old : Nat} {target : Signal} {r r' : Replacements}
    (replaced : Replaced r old target net r' net') (before : net.Consistent)
    (within : net.gateKinds ⊆ allowed) : net'.gateKinds ⊆ allowed := by
  cases replaced with
  | dropped resolved inside awakened same => rwa [awakened.kinds before]
  | recorded resolved inside awakened differ dead => rwa [awakened.kinds before]
  | moved resolved inside awakened differ present awake visits =>
    rename_i new mid swept r'
    obtain ⟨below, live⟩ := awakened.new_live before inside
    obtain ⟨after, le, dead, visited⟩ := visits_invariant
      (fun _ _ current => current.gateKinds ⊆ allowed)
      differ (fun _ _ _ within visited => visited.kinds within) (awakened.consistent before)
      below live (by rwa [awakened.kinds before]) visits
    obtain ⟨change, -, trimmed, -⟩ := moved_consistent after differ (by omega)
      (by rw [dead]; exact live) (by omega)
    rwa [kinds_congr trimmed.body, kinds_congr change.body]

theorem Edit.substituteNode_kinds {old : Nat} {new : Signal} (consistent : net.Consistent)
    (run : Gives (substituteNode old new) net () net') (within : net.gateKinds ⊆ allowed) :
    net'.gateKinds ⊆ allowed := by
  simp only [substituteNode, gives_bind, gives_get] at run
  obtain ⟨_, _, ⟨rfl, rfl⟩, run⟩ := run
  obtain ⟨r, -, -, after⟩ := replaceAll_invariant (fun _ => True)
    (fun _ current => current.Consistent ∧ current.gateKinds ⊆ allowed)
    (by
      rintro r old' target rest mid mid' r' - ⟨before, within⟩ - replaced
      exact ⟨(replaced.consistent before).1, replaced.kinds before within⟩)
    ⟨consistent, within⟩ (fun _ _ => trivial) run
  exact after

theorem Inserted.kinds {signals signals' : Array Signal} {gates : List (Gate Signal)}
    (inserted : Inserted net signals gates signals' net') (within : net.gateKinds ⊆ allowed)
    (kinds : ∀ g ∈ gates, g.kind ∈ allowed) : net'.gateKinds ⊆ allowed := by
  induction inserted with
  | nil => exact within
  | cons resolved kind alive created later ih =>
    rw [List.forall_mem_cons] at kinds
    exact ih (created.kinds within (kind ▸ kinds.1)) kinds.2

theorem Installed.kinds {a : Accepted} {met : List Encounter}
    (installed : Installed a net met net') (before : net.Consistent) (within : net.gateKinds ⊆ allowed)
    (kinds : ∀ g ∈ a.candidate.gates, g.kind ∈ allowed) : net'.gateKinds ⊆ allowed := by
  cases installed with
  | kept length inserted output same =>
    have after := inserted.consistent before
    rw [kinds_congr (removeUnusedFrom_spec after _).1.body]
    exact inserted.kinds within kinds
  | replaced length inserted output differ substituted =>
    have middle := inserted.consistent before
    have after := (Edit.substituteNode_consistent middle substituted).1
    rw [kinds_congr (removeUnusedFrom_spec after _).1.body]
    exact Edit.substituteNode_kinds middle substituted (inserted.kinds within kinds)

theorem Chosen.kinds {params : Params} {basis : Basis} {w : RootWindow} {a : Accepted}
    (chosen : Chosen params basis.resynthesizer w a) :
    ∀ g ∈ a.candidate.gates, g.kind ∈ basis.kinds := by
  cases chosen with
  | @found care c stats stats' same small grown search =>
    obtain ⟨found, _, ran, -, sound⟩ :=
      (w.problem care).resynthesize_sound basis (w.maxInserts params) stats
    have answer := ran.symm.trans search
    cases answer
    rw [same]
    exact (sound c rfl).2.2.2.1

theorem Worked.kinds {params : Params} {basis : Basis} {callback : Callback} {root : Nat}
    {met : List Encounter} (worked : Worked params basis.resynthesizer callback root net met net')
    (before : net.Consistent) (within : net.gateKinds ⊆ allowed)
    (basic : ∀ k ∈ basis.kinds, k ∈ allowed) : net'.gateKinds ⊆ allowed := by
  cases worked with
  | passed => exact within
  | installed substituting live same window chosen change =>
    exact change.kinds before within fun g member => basic _ (chosen.kinds g member)

/-- A pass adds no gate kinds but those of its basis, not even in slots of removed gates. So
    conjunctions stay conjunctions where the basis has no gates or conjunctions only, and the same
    goes for majorities. -/
theorem kinds_resubstitute {params : Params} {basis : Basis} {callback : Callback}
    {resyn : ResynStats} {stats : PassStats} (valid : net.WellFormed)
    (run : Edit.Gives (Edit.resubstituteWith solve params basis.resynthesizer callback resyn) net
        (.ok stats) net') :
    (∀ allowed : Set GateKind, net.gateKinds ⊆ allowed →
      net'.gateKinds ⊆ allowed ∪ {k | k ∈ basis.kinds}) ∧
    (basis = .div0 ∨ basis = .aig → net.gateKinds ⊆ {.and2} → net'.gateKinds ⊆ {.and2}) ∧
    (basis = .div0 ∨ basis = .mig → net.gateKinds ⊆ {.maj3} → net'.gateKinds ⊆ {.maj3}) := by
  have consistent := (wellFormed_iff.1 valid).1
  have bounded (allowed : Set GateKind) (within : net.gateKinds ⊆ allowed) :
      net'.gateKinds ⊆ allowed ∪ {k | k ∈ basis.kinds} := by
    refine (Edit.resubstitute_invariant
      (fun current => current.gateKinds ⊆ allowed ∪ {k | k ∈ basis.kinds}) (fun _ => True)
      (fun _ _ _ => id) (fun before within worked _ =>
        worked.kinds before within fun k member => .inr member)
      consistent (within.trans Set.subset_union_left) (fun _ _ => trivial) run).2
  refine ⟨bounded, fun basic within => (bounded _ within).trans ?_,
    fun basic within => (bounded _ within).trans ?_⟩
  · rcases basic with rfl | rfl <;> simp [Basis.kinds]
  · rcases basic with rfl | rfl <;> simp [Basis.kinds]

/-- An exclusive disjunction made of conjunctions is found as one gate, and no majority comes in. -/
theorem kinds_of_conjunctions : ∃ stages net stats net',
    Completed (empty "conjunctions")
        (Command.load 2 [(.and2, [2, 5]), (.and2, [3, 4]), (.and2, [7, 9])] [11]) stages net ∧
    net.WellFormed ∧
    Edit.Gives (Edit.resubstituteWith .search .default Basis.xag.resynthesizer .substitute .zero) net
      (.ok stats) net' ∧
    stats.numResub = 1 ∧ net.gateKinds ⊆ {.and2} ∧ .xor2 ∈ net'.gateKinds ∧
    net'.gateKinds ⊆ {.and2, .xor2} := by
  obtain ⟨stages, net, history, checks⟩ := Command.exists_completed
    (Command.load 2 [(.and2, [2, 5]), (.and2, [3, 4]), (.and2, [7, 9])] [11])
    (empty "conjunctions")
    (fun _ net => decide net.Acyclic &&
      (List.range net.size).all (fun n => (net.gate? n).all (·.kind == .and2)) &&
      Edit.passes .search .default Basis.xag.resynthesizer .substitute
        (fun stats net' => stats.numResub == 1 && (net'.gate? 6).any (·.kind == .xor2)) net)
    (by decide +kernel)
  simp only [Bool.and_eq_true, decide_eq_true_eq] at checks
  obtain ⟨⟨acyclic, conjunctions⟩, passed⟩ := checks
  obtain ⟨stats, net', run, counted⟩ := Edit.exists_run passed
  rw [Bool.and_eq_true, beq_iff_eq] at counted
  have valid := history.wellFormed acyclic
  have within : net.gateKinds ⊆ {.and2} := by
    rw [kinds_subset]
    intro n g slot
    have kind := List.all_eq_true.1 conjunctions n (List.mem_range.2 (lt_size_of_gate? slot))
    rw [slot] at kind
    exact beq_iff_eq.1 kind
  obtain ⟨g, slot, exclusive⟩ := (Option.any_eq_true _ _).1 counted.2
  refine ⟨stages, net, stats, net', history, valid, run, counted.1, within,
    ⟨6, g, slot, beq_iff_eq.1 exclusive⟩, ?_⟩
  refine ((kinds_resubstitute valid run).1 _ within).trans ?_
  simp [Basis.kinds, Set.subset_def]

end LogicOpt
