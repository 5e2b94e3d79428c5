import LogicOpt.Candidate.Insertion
import LogicOpt.Proofs.Substitution

namespace LogicOpt

open Network

inductive Inserted : Network → Array Signal → List (Gate Signal) → Array Signal → Network → Prop where
  | nil {net : Network} {signals : Array Signal} : Inserted net signals [] signals net
  | cons {net mid net' : Network} {signals signals' : Array Signal} {g k : Gate Signal} {s : Signal}
      {rest : List (Gate Signal)}
      (resolved : g.operands.mapM (Edit.readPosition signals) = .ok k.operands)
      (kind : k.kind = g.kind) (alive : ∀ m ∈ k.nodes, m < net.size ∧ net.isDead m = false)
      (created : Created net k s mid) (later : Inserted mid (signals.push s) rest signals' net') :
      Inserted net signals (g :: rest) signals' net'

namespace Edit

variable {net net' : Network}

theorem readPosition_eq_ok {signals : Array Signal} {f t : Signal} :
    readPosition signals f = .ok t ↔ ∃ s, signals[f.node]? = some s ∧ s.negateIf f.negated = t := by
  unfold readPosition
  cases signals[f.node]? <;> simp

theorem exists_readPosition {signals : Array Signal} {f : Signal} (inside : f.node < signals.size) :
    ∃ t, readPosition signals f = .ok t :=
  ⟨_, readPosition_eq_ok.2 ⟨signals[f.node], Array.getElem?_eq_getElem inside, rfl⟩⟩

theorem insertGates_gives {gates : List (Gate Signal)} {signals signals' : Array Signal}
    (consistent : net.Consistent)
    (run : Gives (gates.foldlM insertGate signals) net signals' net') :
    Inserted net signals gates signals' net' := by
  induction gates generalizing net signals with
  | nil =>
    simp only [List.foldlM_nil, gives_pure] at run
    obtain ⟨rfl, rfl⟩ := run
    exact .nil
  | cons g rest ih =>
    simp only [List.foldlM_cons, gives_bind, insertGate, gives_ofExcept, gives_pure] at run
    obtain ⟨_, mid, ⟨fanins, _, ⟨resolved, rfl⟩, s, _, built, rfl, rfl⟩, tail⟩ := run
    obtain ⟨alive, k, kind, rfl, created⟩ := createGate_gives consistent.toTallied built
    have sound : ∀ m ∈ k.nodes, m < net.size ∧ net.isDead m = false := by
      intro m member
      obtain ⟨f, there, rfl⟩ := Gate.mem_nodes.1 member
      exact alive f there
    have after := created.consistent consistent (fun m member => (sound m member).1)
      fun m member => (sound m member).2
    exact .cons resolved kind sound created (ih after tail)

theorem insert_gives {c : Candidate} {divisors : List Signal} {s : Signal}
    (consistent : net.Consistent) (run : Gives (insert c divisors) net s net') :
    divisors.length = c.numDivisors ∧ ∃ signals,
      Inserted net (.constant false :: divisors).toArray c.gates signals net' ∧
        readPosition signals c.output = .ok s := by
  simp only [insert, gives_bind, gives_ofExcept, ensure_eq_ok, beq_iff_eq] at run
  obtain ⟨_, _, ⟨length, rfl⟩, signals, _, built, output, rfl⟩ := run
  exact ⟨length, signals, insertGates_gives consistent built, output⟩

end Edit

namespace Inserted

variable {net net' : Network} {signals signals' : Array Signal} {gates : List (Gate Signal)}

theorem keeps (holds : Network → Prop)
    (step : ∀ {net mid : Network} {k : Gate Signal} {s : Signal}, net.Consistent → holds net →
      (∀ m ∈ k.nodes, m < net.size ∧ net.isDead m = false) → Created net k s mid → holds mid)
    (inserted : Inserted net signals gates signals' net') (consistent : net.Consistent)
    (start : holds net) : net'.Consistent ∧ holds net' := by
  induction inserted with
  | nil => exact ⟨consistent, start⟩
  | cons resolved kind alive created later ih =>
    exact ih (created.consistent consistent (fun m member => (alive m member).1)
      fun m member => (alive m member).2) (step consistent start alive created)

theorem consistent (inserted : Inserted net signals gates signals' net')
    (before : net.Consistent) : net'.Consistent :=
  (inserted.keeps (fun _ => True) (fun _ _ _ _ => trivial) before trivial).1

theorem size_le (inserted : Inserted net signals gates signals' net') : net.size ≤ net'.size := by
  induction inserted with
  | nil => exact Nat.le_refl _
  | cons resolved kind alive created later ih => exact Nat.le_trans created.size_le ih

theorem dead (inserted : Inserted net signals gates signals' net') (m : Nat) :
    net'.isDead m = net.isDead m := by
  induction inserted with
  | nil => rfl
  | cons resolved kind alive created later ih => rw [ih, created.dead]

theorem dangling (inserted : Inserted net signals gates signals' net') {m : Nat}
    (dangling : net'.Dangling m) : net.Dangling m ∨ net.size ≤ m := by
  induction inserted with
  | nil => exact .inl dangling
  | cons resolved kind alive created later ih =>
    rcases ih dangling with before | fresh
    · exact created.dangling before
    · exact .inr (Nat.le_trans created.size_le fresh)

end Inserted

end LogicOpt
