import LogicOpt.Proofs.Survivors

/-!
Why a substitution shrinks the network as long as no target has died. No replacement adds a survivor,
and in the end only the survivors are live: whatever else is left would have a reader above it.
-/

namespace LogicOpt

open Relation Network

variable {net net' : Network}

/-- A substitution between two replacements, with so many survivors at most. -/
structure Shrinking (root : Nat) (net : Network) (r : Replacements) (start : List Nat)
    (bound : Nat) : Prop extends Settling root net r where
  doomed : ∃ doomed, Doomed root net r doomed ∧ doomed ⊆ start ∧ survivors net r doomed ≤ bound ∧
    ((∃ s, r.replaced[root]? = some s) ∨ ∀ p ∈ r.queue, p.1 = root ∧ p.2.node ∉ doomed)

theorem resolved_outside {root old : Nat} {r : Replacements} {doomed : List Nat} {target s : Signal}
    {rest : List (Nat × Signal)} (state : Doomed root net r doomed)
    (queue : r.queue = (old, target) :: rest)
    (begun : (∃ s, r.replaced[root]? = some s) ∨ ∀ p ∈ r.queue, p.1 = root ∧ p.2.node ∉ doomed)
    (resolved : ({ r with queue := rest } : Replacements).resolve target = .ok s) :
    s.node ∉ doomed := by
  obtain ⟨absent, same | ⟨n, t, entry, same⟩⟩ := Replacements.follow_spec resolved
  · intro member
    have popped : (old, target) ∈ r.queue := by rw [queue]; simp
    rcases begun with ⟨t, entry⟩ | first
    · have here := state.queue (old, target) popped (same ▸ member)
      rw [← same] at here
      rw [here, entry] at absent
      cases absent
    · exact (first (old, target) popped).2 (same ▸ member)
  · rw [← same]
    exact state.replaced n t entry

structure Narrowing (root old : Nat) (new : Signal) (start : List Nat) (bound : Nat)
    (replaced : Std.TreeMap Nat Signal) (consumers : List Nat) (r : Replacements) (net : Network) :
    Prop extends Redirecting root old new replaced consumers r net where
  doomed : ∃ doomed, Doomed root net r doomed ∧ doomed ⊆ start ∧ survivors net r doomed ≤ bound

namespace Narrowing

variable {root old : Nat} {new : Signal} {start consumers : List Nat} {bound : Nat}
  {replaced : Std.TreeMap Nat Signal} {r r' : Replacements}

theorem visit {consumer : Nat}
    (state : Narrowing root old new start bound replaced (consumer :: consumers) r net)
    (differ : old ≠ new.node) (begun : old = root ∨ ∃ s, replaced[root]? = some s)
    (absent : replaced[new.node]? = none) (outside : new.node ∉ start) (consistent : net.Consistent)
    (inside : new.node < net.size) (live : net.isDead new.node = false)
    (visited : Visited old new r consumer net r' net') :
    Narrowing root old new start bound replaced consumers r' net' := by
  obtain ⟨swap, schedule, ⟨u, swapped⟩, -⟩ := state.scheduled
  obtain ⟨doomed, doom, subset, few⟩ := state.doomed
  obtain ⟨doomed', doom', subset', few'⟩ :=
    doom.visit schedule state.settled consistent differ swapped (by rwa [state.same])
      (by rwa [state.same]) (fun member => outside (subset member)) visited
  exact ⟨state.toRedirecting.visit differ absent consistent inside live visited,
    doomed', doom', List.Subset.trans subset' subset, Nat.le_trans few' few⟩

theorem finish (state : Narrowing root old new start bound replaced [] r net)
    (differ : old ≠ new.node) (begun : old = root ∨ ∃ s, replaced[root]? = some s)
    (absent : replaced[new.node]? = none) (outside : new.node ∉ start) (consistent : net.Consistent)
    (inside : new.node < net.size) (live : net.isDead new.node = false) (present : old < net.size) :
    Shrinking root ((net.redirectOutputs old new).settle old) (r.record old new) start bound := by
  obtain ⟨doomed, doom, subset, few⟩ := state.doomed
  obtain ⟨swap, schedule, ⟨u, swapped⟩, -⟩ := state.scheduled
  obtain ⟨settling, shift, older⟩ :=
    state.toRedirecting.finish differ absent consistent inside live present
  obtain ⟨change, -, trimmed, -⟩ := moved_consistent consistent differ inside live present
  have doom' := doom.shift shift (fun m fresh member => outside (subset (fresh ▸ member)))
    fun _ _ => trivial
  refine ⟨settling, doomed, doom'.record (schedule.handled old u swapped)
    fun member => outside (subset member), subset, ?_,
    .inl (Replacements.exists_getElem?_record new (by rwa [state.same]))⟩
  exact Nat.le_trans (survivors_record ..) (Nat.le_trans
    (survivors_le (trimmed.size.trans change.size) fun n running free outside =>
      ⟨older n running, free, outside⟩) few)

end Narrowing

theorem Shrinking.replace {root old : Nat} {r r' : Replacements} {start : List Nat} {bound : Nat}
    {target : Signal} {rest : List (Nat × Signal)} (state : Shrinking root net r start bound)
    (queue : r.queue = (old, target) :: rest)
    (plain : ∀ s, ({ r with queue := rest } : Replacements).resolve target = .ok s →
      (⟨net, old, s.node⟩ : Encounter).dead = false)
    (replaced : Replaced { r with queue := rest } old target net r' net') :
    Shrinking root net' r' start bound := by
  obtain ⟨doomed, doom, subset, few, begun⟩ := state.doomed
  have consistent := state.consistent
  have settling := state.toSettling.replace queue plain replaced
  have first : old = root ∨ ∃ s, r.replaced[root]? = some s :=
    begun.symm.imp_left fun known => (known (old, target) (by rw [queue]; simp)).1
  cases replaced with
  | @dropped s new net' resolved inside awakened same =>
    obtain ⟨-, rfl⟩ := awakened.of_live (plain s resolved)
    obtain ⟨-, -, -, -, differ, -⟩ := state.begin queue resolved
    exact absurd same differ
  | @recorded s new net' resolved inside awakened differ dead =>
    obtain ⟨rfl, rfl⟩ := awakened.of_live (plain s resolved)
    obtain ⟨swap, schedule, swapped, -⟩ := state.begin queue resolved
    exact ⟨settling, doomed, (doom.pop queue).record (schedule.handled old _ swapped)
      (resolved_outside doom queue begun resolved), subset,
      Nat.le_trans (survivors_record ..) few, .inl (Replacements.exists_getElem?_record new first)⟩
  | @moved s new mid swept r' resolved inside awakened differ present awake visits =>
    obtain ⟨rfl, rfl⟩ := awakened.of_live (plain s resolved)
    obtain ⟨swap, schedule, swapped, path, -, absent⟩ := state.begin queue resolved
    have outside := resolved_outside doom queue begun resolved
    have live := plain new resolved
    obtain ⟨after, le, dead, narrowed⟩ := visits_invariant (r := { r with queue := rest })
      (Narrowing root old new doomed bound r.replaced) differ
      (fun consistent inside live state visited =>
        state.visit differ first absent outside consistent inside live visited)
      consistent inside live
      ⟨.start consistent schedule swapped path (state.settled.pop queue),
        doomed, doom.pop queue, List.Subset.refl _, few⟩ visits
    obtain ⟨doomed', doom', subset', last⟩ := (narrowed.finish differ first absent outside after
      (by omega) (by rw [dead]; exact live) (by omega)).doomed
    exact ⟨settling, doomed', doom', List.Subset.trans subset' subset, last⟩

theorem Shrinking.numGates_le {root : Nat} {r : Replacements} {start : List Nat} {bound : Nat}
    (state : Shrinking root net r start bound) (empty : r.queue = [])
    (read : ∀ d ∈ start, d ≠ root → ¬net.Dangling d) : net.numGates ≤ bound := by
  obtain ⟨doomed, doom, subset, few, -⟩ := state.doomed
  have tallied := state.consistent.toTallied
  have replaced := state.not_live empty
  have left : ∀ d, ¬(net.isLiveGate d = true ∧ d ∈ doomed ∧ d ≠ root) := by
    refine not_of_readers state.acyclic fun d ⟨live, member, other⟩ => ?_
    obtain ⟨c, running, feeds⟩ := tallied.exists_reader live (read d (subset member) other)
      fun o there same => other (same ▸ doom.outputs o there (same ▸ member))
    refine ⟨c, feeds, running, doom.readers d member other c running feeds, ?_⟩
    rintro rfl
    exact replaced c ⟨running, doom.handled⟩
  refine Nat.le_trans ?_ few
  rw [tallied.numGates, liveGates, ← List.countP_eq_length_filter]
  refine List.countP_mono_left fun n _ live => ?_
  have free : r.handles n = false := Bool.eq_false_iff.2 fun handled => replaced n ⟨live, handled⟩
  have outside : n ∉ doomed := fun member => left n ⟨live, member, fun same => by
    rw [same, doom.handled] at free
    cases free⟩
  simp [live, free, outside]

theorem survivors_add_length_le {r : Replacements} {doomed : List Nat} (tallied : net.Tallied)
    (nodup : doomed.Nodup) (live : ∀ d ∈ doomed, net.isLiveGate d = true) :
    survivors net r doomed + doomed.length ≤ net.numGates := by
  have split := List.length_eq_countP_add_countP (fun n => doomed.contains n) (l := net.liveGates)
  have inside : doomed.length ≤ net.liveGates.countP fun n => doomed.contains n := by
    rw [List.countP_eq_length_filter]
    refine (nodup.subperm fun d member => ?_).length_le
    exact List.mem_filter.2 ⟨mem_liveGates.2 (live d member), by simpa using member⟩
  have outside : survivors net r doomed ≤ net.liveGates.countP fun n => ¬doomed.contains n := by
    rw [liveGates, List.countP_filter]
    refine List.countP_mono_left fun n _ counted => ?_
    simp only [Bool.and_eq_true] at counted
    simp only [counted, Bool.and_true]
    simpa using counted.2
  rw [tallied.numGates]
  omega

/-- A substitution that meets no dead target removes as many gates as are doomed. -/
theorem Edit.substituteNode_shrinks {old : Nat} {new : Signal} {doomed : List Nat}
    (consistent : net.Consistent) (acyclic : net.Acyclic) (apart : ¬net.Reaches new.node old)
    (doom : Doomed old net (.start old new) doomed) (nodup : doomed.Nodup)
    (live : ∀ d ∈ doomed, net.isLiveGate d = true) (outside : new.node ∉ doomed)
    (read : ∀ d ∈ doomed, d ≠ old → ¬net.Dangling d)
    (plain : ∀ e ∈ substitutionEncounters old new net, e.dead = false)
    (run : Gives (substituteNode old new) net () net') :
    net'.numGates + doomed.length ≤ net.numGates := by
  have differ : old ≠ new.node := fun same => apart (same ▸ .refl _)
  have inside := substituteNode_inside consistent differ run
  have started := survivors_add_length_le (r := .start old new) consistent.toTallied nodup live
  have begun : Shrinking old net (.start old new) doomed (survivors net (.start old new) doomed) :=
    ⟨⟨consistent, ⟨_, schedule_start acyclic apart inside⟩, .start old new⟩, doomed, doom,
      List.Subset.refl _, Nat.le_refl _, .inr fun p member => by
        rw [List.mem_singleton.1 member]
        exact ⟨rfl, outside⟩⟩
  have ended := run
  simp only [substituteNode, gives_bind, gives_get] at ended
  obtain ⟨_, _, ⟨rfl, rfl⟩, ended⟩ := ended
  obtain ⟨r, empty, state⟩ := replaceAll_invariant (fun e => e.dead = false)
    (fun r current =>
      Shrinking old current r doomed (survivors net (.start old new) doomed))
    (fun queue state met replaced => state.replace queue met replaced) begun plain ended
  have last := state.numGates_le empty fun d member other dangling => by
    rcases substituteNode_dangling consistent run dangling with before | fresh | ⟨e, met, back⟩
    · exact read d member other before
    · exact absurd (doom.inside d member) (Nat.not_lt_of_le fresh)
    · simp [Encounter.revives, plain e met] at back
  omega

end LogicOpt
