import LogicOpt.Proofs.Firings
import LogicOpt.Proofs.Runs

namespace LogicOpt

open Network

/-- The outcomes of building gate `g`, whose fanins are live. -/
inductive Created (net : Network) (g : Gate Signal) : Signal → Network → Prop where
  | folded {s : Signal} (shape : g.normalize = .trivial s) : Created net g s net
  | shared {h : Gate Signal} {negated : Bool} {n : Nat} (shape : g.normalize = .gate h negated)
      (entry : net.table[h]? = some n) : Created net g ⟨n, negated⟩ net
  | appended {h : Gate Signal} {negated : Bool} {net' : Network}
      (shape : g.normalize = .gate h negated) (absent : net.table[h]? = none)
      (change : Appended net net' h) (announced : Announced net net') :
      Created net g ⟨net.size, negated⟩ net'

namespace Edit

variable {net net' : Network}

theorem checkFanins_gives {fanins : List Signal} {u : PUnit}
    (run : Gives (fanins.forM fun f => check (·.checkFanin f)) net u net') :
    net' = net ∧ ∀ f ∈ fanins, f.node < net.size ∧ net.isDead f.node = false := by
  induction fanins generalizing u with
  | nil =>
    simp only [List.forM_eq_forM, List.forM_nil, gives_pure] at run
    exact ⟨run.2.symm, by simp⟩
  | cons f rest ih =>
    simp only [List.forM_eq_forM, List.forM_cons, gives_bind, gives_check] at run
    obtain ⟨⟨⟩, mid, ⟨passed, rfl⟩, others⟩ := run
    obtain ⟨rfl, alive⟩ := ih others
    simp only [checkFanin, require, bind_eq_ok, ensure_eq_ok, decide_eq_true_eq,
      Bool.not_eq_true'] at passed
    obtain ⟨⟨⟩, inside, live⟩ := passed
    refine ⟨rfl, fun k member => ?_⟩
    rcases List.mem_cons.1 member with rfl | member
    · exact ⟨inside, live⟩
    · exact alive k member

theorem addNormal_gives {g : Gate Signal} {s : Signal} (tallied : net.Tallied)
    (inside : ∀ m ∈ g.nodes, m < net.size) (run : Gives (addNormal g.normalize) net s net') :
    Created net g s net' := by
  cases shape : g.normalize with
  | trivial t =>
    rw [shape] at run
    simp only [addNormal, gives_pure] at run
    obtain ⟨rfl, rfl⟩ := run
    exact .folded shape
  | gate h negated =>
    rw [shape] at run
    simp only [addNormal, gives_bind, gives_pure, shareGate, gives_get] at run
    obtain ⟨n, mid, ⟨start, _, ⟨rfl, rfl⟩, run⟩, rfl, rfl⟩ := run
    cases entry : net.table[h]? with
    | some holder =>
      simp only [entry, gives_bind, gives_check, gives_pure] at run
      obtain ⟨_, _, ⟨-, rfl⟩, rfl, rfl⟩ := run
      exact .shared shape entry
    | none =>
      simp only [entry, gives_bind, gives_ofExcept, gives_update, gives_pure] at run
      obtain ⟨_, _, ⟨-, rfl⟩, _, _, rfl, _, _, rfl, rfl, rfl⟩ := run
      have perm := (Gate.normalize_gate shape).2.2
      have change := appended_appendGate (net.faninLevel h.operands + 1)
        (Gate.normalize_gate shape).1.nodup_nodes
        (fun m member => inside m (perm.subset member)) tallied.not_mem_fanouts_size
      exact .appended shape entry (change.relevel (relevelled_notify ..)) (announced_append change)

theorem createGate_gives {kind : GateKind} {fanins : List Signal} {s : Signal}
    (tallied : net.Tallied) (run : Gives (createGate kind fanins) net s net') :
    (∀ f ∈ fanins, f.node < net.size ∧ net.isDead f.node = false) ∧
      ∃ g, g.kind = kind ∧ g.operands = fanins ∧ Created net g s net' := by
  simp only [createGate, gives_bind, gives_ofExcept, GateKind.normalize] at run
  obtain ⟨_, _, checked, normal, _, ⟨made, rfl⟩, run⟩ := run
  obtain ⟨rfl, alive⟩ := checkFanins_gives checked
  cases shaped : Gate.ofFanins kind fanins with
  | error fault => simp [shaped, Except.map] at made
  | ok g =>
    simp only [shaped, Except.map, Except.ok.injEq] at made
    obtain ⟨rfl, rfl⟩ := Gate.ofFanins_eq_ok.1 shaped
    rw [← made] at run
    refine ⟨alive, g, rfl, rfl, addNormal_gives tallied (fun m member => ?_) run⟩
    obtain ⟨f, there, rfl⟩ := Gate.mem_nodes.1 member
    exact (alive f there).1

end Edit

namespace Created

variable {net net' : Network} {g : Gate Signal} {s : Signal}

theorem frame (created : Created net g s net') : Frame net net' := by
  cases created with
  | folded => exact .refl net
  | shared => exact .refl net
  | appended shape absent change => exact change.frame

theorem size_le (created : Created net g s net') : net.size ≤ net'.size := by
  cases created with
  | folded => exact Nat.le_refl _
  | shared => exact Nat.le_refl _
  | appended shape absent change => rw [change.size]; omega

theorem consistent (created : Created net g s net') (before : net.Consistent)
    (inside : ∀ m ∈ g.nodes, m < net.size) (live : ∀ m ∈ g.nodes, net.isDead m = false) :
    net'.Consistent := by
  cases created with
  | folded => exact before
  | shared => exact before
  | appended shape absent change =>
    obtain ⟨canonical, -, perm⟩ := Gate.normalize_gate shape
    exact before.append change canonical (fun m member => inside m (perm.subset member))
      fun m member => live m (perm.subset member)

theorem live (created : Created net g s net') (before : net.Tallied)
    (inside : ∀ m ∈ g.nodes, m < net.size) (live : ∀ m ∈ g.nodes, net.isDead m = false) :
    s.node < net'.size ∧ net'.isDead s.node = false := by
  cases created with
  | folded shape =>
    rcases Gate.normalize_trivial shape with zero | member
    · rw [zero]
      exact ⟨before.inPlace.size_pos, before.inPlace.constant_live⟩
    · exact ⟨inside _ member, live _ member⟩
  | shared shape entry =>
    obtain ⟨slot, awake⟩ := before.table _ _ entry
    exact ⟨lt_size_of_gate? slot, awake⟩
  | appended shape absent change =>
    rw [change.dead, change.size]
    exact ⟨Nat.lt_succ_self _, isDead_eq_false_of_size_le (Nat.le_refl _)⟩

theorem body (created : Created net g s net') {m : Nat} (inside : m < net.size) :
    net'.body? m = net.body? m := by
  cases created with
  | folded => rfl
  | shared => rfl
  | appended shape absent change => rw [change.body, if_neg (Nat.ne_of_lt inside)]

theorem announced (created : Created net g s net') : Announced net net' := by
  cases created with
  | folded => exact .refl net
  | shared => exact .refl net
  | appended shape absent change announced => exact announced

theorem dead (created : Created net g s net') (m : Nat) : net'.isDead m = net.isDead m := by
  cases created with
  | folded => rfl
  | shared => rfl
  | appended shape absent change => exact change.dead m

theorem outputs (created : Created net g s net') : net'.outputs = net.outputs := by
  cases created with
  | folded => rfl
  | shared => rfl
  | appended shape absent change => exact change.outputs

end Created

end LogicOpt
