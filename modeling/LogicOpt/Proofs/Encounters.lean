import LogicOpt.Proofs.Replacement

/-!
The targets a substitution meets. Replacements are decided long before their turn, and by then the
node that a target names may have died. An encounter keeps the network as it was at that moment, so
it tells whether the target was live, exchanged for a twin, or brought back.
-/

namespace LogicOpt

open Network

/-- A replacement whose turn has come: the node to be replaced, and the node that its target leads
    to. -/
structure Encounter where
  net : Network
  old : Nat
  node : Nat

namespace Encounter

def dead (e : Encounter) : Bool := e.net.isDead e.node

/-- A live twin stands in for the dead target. -/
def takesTwin (e : Encounter) : Bool := e.dead && (e.net.liveTwin? e.node).isSome

/-- The nodes that come back with the target. -/
def revives (e : Encounter) : List Nat :=
  if e.dead && (e.net.liveTwin? e.node).isNone then e.net.deadCone e.node else []

end Encounter

/-- What one replacement aims at: its target, the node that earlier replacements lead to, and the live
    twin of that node if it is dead. -/
def Replacements.aims (r : Replacements) (target : Signal) (net : Network) : List Nat :=
  match r.resolve target with
  | .error _ => []
  | .ok s =>
    [target.node, s.node] ++ if net.isDead s.node then (net.liveTwin? s.node).toList else []

theorem Replaced.resolved {net net' : Network} {r r' : Replacements} {old : Nat} {target : Signal}
    (replaced : Replaced r old target net r' net') : ∃ s, r.resolve target = .ok s := by
  cases replaced with
  | dropped resolved => exact ⟨_, resolved⟩
  | recorded resolved => exact ⟨_, resolved⟩
  | moved resolved => exact ⟨_, resolved⟩

theorem Replaced.aims {net net' : Network} {r r' : Replacements} {old : Nat} {target : Signal}
    (replaced : Replaced r old target net r' net') : target.node ∈ r.aims target net := by
  obtain ⟨s, resolved⟩ := replaced.resolved
  simp [Replacements.aims, resolved]

namespace Edit

def encounters : (steps : Nat) → Replacements → Network → List Encounter
  | steps, r, net =>
    match r.queue with
    | [] => []
    | (old, target) :: rest =>
      match steps with
      | 0 => []
      | steps + 1 =>
        match ({ r with queue := rest } : Replacements).resolve target with
        | .error _ => []
        | .ok s =>
          ⟨net, old, s.node⟩ ::
            match replace { r with queue := rest } old target net with
            | .ok r' net' => encounters steps r' net'
            | .error _ _ => []

def substitutionEncounters (old : Nat) (new : Signal) (net : Network) : List Encounter :=
  encounters (replacementBound net) (.start old new) net

def aims : (steps : Nat) → Replacements → Network → List Nat
  | steps, r, net =>
    match r.queue with
    | [] => []
    | (old, target) :: rest =>
      match steps with
      | 0 => []
      | steps + 1 =>
        ({ r with queue := rest } : Replacements).aims target net ++
          match replace { r with queue := rest } old target net with
          | .ok r' net' => aims steps r' net'
          | .error _ _ => []

def substitutionAims (old : Nat) (new : Signal) (net : Network) : List Nat :=
  aims (replacementBound net) (.start old new) net

variable {net net' : Network}

theorem replaceAll_induct (holds : Nat → Replacements → Network → Prop)
    (step : ∀ {steps : Nat} {r : Replacements} {old : Nat} {target : Signal}
      {rest : List (Nat × Signal)} {net net' : Network} {r' : Replacements},
      r.queue = (old, target) :: rest → holds (steps + 1) r net →
      Gives (replace { r with queue := rest } old target) net r' net' → holds steps r' net')
    {steps : Nat} {r : Replacements} (start : holds steps r net)
    (run : Gives (replaceAll steps r) net () net') :
    ∃ left r', r'.queue = [] ∧ holds left r' net' := by
  induction steps generalizing r net with
  | zero =>
    unfold replaceAll at run
    split at run
    · rename_i empty
      obtain ⟨-, rfl⟩ := gives_pure.1 run
      exact ⟨0, r, empty, start⟩
    · exact absurd run gives_throw
  | succ steps ih =>
    unfold replaceAll at run
    split at run
    · rename_i empty
      obtain ⟨-, rfl⟩ := gives_pure.1 run
      exact ⟨steps + 1, r, empty, start⟩
    · rename_i old target rest queue
      obtain ⟨r', mid, head, tail⟩ := gives_bind.1 run
      exact ih (step queue start head) tail

section Step

variable {steps old : Nat} {r r' : Replacements} {target : Signal} {rest : List (Nat × Signal)}

theorem encounters_of_step (queue : r.queue = (old, target) :: rest) {s : Signal}
    (resolved : ({ r with queue := rest } : Replacements).resolve target = .ok s)
    (run : Gives (replace { r with queue := rest } old target) net r' net') :
    encounters (steps + 1) r net = ⟨net, old, s.node⟩ :: encounters steps r' net' := by
  have ran : replace { r with queue := rest } old target net = .ok r' net' := run
  rw [encounters]
  simp only [queue, resolved, ran]

theorem aims_of_step (queue : r.queue = (old, target) :: rest)
    (run : Gives (replace { r with queue := rest } old target) net r' net') :
    aims (steps + 1) r net =
      ({ r with queue := rest } : Replacements).aims target net ++ aims steps r' net' := by
  have ran : replace { r with queue := rest } old target net = .ok r' net' := run
  rw [aims]
  simp only [queue, ran]

end Step

/-- What holds at the start and is kept by every replacement whose target is as `met` says holds
    when all replacements are done. -/
theorem replaceAll_invariant (met : Encounter → Prop) (holds : Replacements → Network → Prop)
    (step : ∀ {r : Replacements} {old : Nat} {target : Signal} {rest : List (Nat × Signal)}
      {net net' : Network} {r' : Replacements}, r.queue = (old, target) :: rest → holds r net →
      (∀ s, ({ r with queue := rest } : Replacements).resolve target = .ok s →
        met ⟨net, old, s.node⟩) →
      Replaced { r with queue := rest } old target net r' net' → holds r' net')
    {steps : Nat} {r : Replacements} (start : holds r net)
    (all : ∀ e ∈ encounters steps r net, met e) (run : Gives (replaceAll steps r) net () net') :
    ∃ r', r'.queue = [] ∧ holds r' net' := by
  obtain ⟨left, r', empty, -, last⟩ := replaceAll_induct
    (fun steps r net => (∀ e ∈ encounters steps r net, met e) ∧ holds r net)
    (by
      rintro steps r old target rest net net' r' queue ⟨all, start⟩ run
      have replaced := replace_gives run
      obtain ⟨s, resolved⟩ := replaced.resolved
      rw [encounters_of_step queue resolved run, List.forall_mem_cons] at all
      refine ⟨all.2, step queue start (fun s' resolved' => ?_) replaced⟩
      rw [resolved] at resolved'
      cases resolved'
      exact all.1)
    ⟨all, start⟩ run
  exact ⟨r', empty, last⟩

end Edit

end LogicOpt
