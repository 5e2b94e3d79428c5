import LogicOpt.Proofs.Encounters

namespace LogicOpt

open Network

variable {net net' : Network}

theorem Network.liveTwin?_eq_some {n twin : Nat} (found : net.liveTwin? n = some twin) :
    ∃ g, net.gate? n = some g ∧ net.table[g]? = some twin ∧ net.isDead twin = false := by
  obtain ⟨g, slot, entry⟩ := Option.bind_eq_some_iff.1 found
  obtain ⟨there, condition⟩ := Option.filter_eq_some_iff.1 entry
  exact ⟨g, slot, there, by simpa using (Bool.and_eq_true_iff.1 condition).2⟩

theorem Created.dangling {g : Gate Signal} {s : Signal} (created : Created net g s net') {m : Nat}
    (dangling : net'.Dangling m) : net.Dangling m ∨ net.size ≤ m := by
  cases created with
  | folded => exact .inl dangling
  | shared => exact .inl dangling
  | appended shape absent change =>
    obtain ⟨live, zero⟩ := dangling
    rw [change.count] at zero
    rcases (change.isLiveGate m).1 live with rfl | live
    · exact .inr (Nat.le_refl _)
    · exact .inl ⟨live, by omega⟩

namespace Awakened

variable {s new : Signal}

theorem size (awakened : Awakened net s new net') (consistent : net.Consistent) :
    net'.size = net.size := by
  cases awakened with
  | live => rfl
  | twin => rfl
  | revived dead alone run => exact (Edit.revive_gives consistent dead run).2.1.size

theorem frame (awakened : Awakened net s new net') (consistent : net.Consistent) :
    Frame net net' := by
  cases awakened with
  | live => exact .refl net
  | twin => exact .refl net
  | revived dead alone run => exact (Edit.revive_gives consistent dead run).2.1.frame

theorem body (awakened : Awakened net s new net') (consistent : net.Consistent) (m : Nat) :
    net'.body? m = net.body? m := by
  cases awakened with
  | live => rfl
  | twin => rfl
  | revived dead alone run => exact (Edit.revive_gives consistent dead run).2.1.body m

theorem outputs (awakened : Awakened net s new net') (consistent : net.Consistent) :
    net'.outputs = net.outputs := by
  cases awakened with
  | live => rfl
  | twin => rfl
  | revived dead alone run => exact (Edit.revive_gives consistent dead run).2.1.outputs

theorem consistent (awakened : Awakened net s new net') (before : net.Consistent) :
    net'.Consistent := by
  cases awakened with
  | live => exact before
  | twin => exact before
  | revived dead alone run => exact (Edit.revive_gives before dead run).1

theorem new_live (awakened : Awakened net s new net') (before : net.Consistent)
    (inside : s.node < net.size) : new.node < net'.size ∧ net'.isDead new.node = false := by
  cases awakened with
  | live awake => exact ⟨inside, awake⟩
  | twin dead found =>
    obtain ⟨g, -, entry, awake⟩ := liveTwin?_eq_some found
    exact ⟨lt_size_of_gate? (before.table g _ entry).1, awake⟩
  | revived dead alone run =>
    obtain ⟨-, revived, member⟩ := Edit.revive_gives before dead run
    refine ⟨by rw [revived.size]; exact inside, Bool.eq_false_iff.2 fun still => ?_⟩
    exact ((revived.dead _).1 still).2 member

theorem dangling (awakened : Awakened net s new net') (before : net.Consistent) {m : Nat}
    (dangling : net'.Dangling m) (old : Nat) :
    net.Dangling m ∨ m ∈ (⟨net, old, s.node⟩ : Encounter).revives := by
  cases awakened with
  | live => exact .inl dangling
  | twin => exact .inl dangling
  | revived dead alone run =>
    obtain ⟨-, revived, -⟩ := Edit.revive_gives before dead run
    by_cases back : m ∈ net.deadCone s.node
    · refine .inr ?_
      simp only [Encounter.revives, Encounter.dead, dead, alone, Option.isNone_none, Bool.and_self,
        ↓reduceIte]
      exact back
    · obtain ⟨⟨g, slot⟩, awake⟩ := isLiveGate_eq_true.1 dangling.1
      rw [gate?_congr (revived.body m)] at slot
      refine .inl ⟨isLiveGate_eq_true.2 ⟨⟨g, slot⟩, Bool.eq_false_iff.2 fun asleep => ?_⟩, ?_⟩
      · rw [(revived.dead m).2 ⟨asleep, back⟩] at awake
        cases awake
      · have := revived.count m
        rw [dangling.2] at this
        exact Nat.le_zero.1 this

end Awakened

namespace Visited

variable {r r' : Replacements} {consumer old : Nat} {new : Signal}

theorem size_le (visited : Visited old new r consumer net r' net') : net.size ≤ net'.size := by
  cases visited with
  | passed => exact Nat.le_refl _
  | queued slot awake free was target =>
    cases target with
    | folded => exact Nat.le_refl _
    | held => exact Nat.le_refl _
    | complemented shape resolved kind alive created => exact created.size_le
  | rewired slot awake free was shape change => exact Nat.le_of_eq change.size.symm

theorem frame (visited : Visited old new r consumer net r' net') : Frame net net' := by
  cases visited with
  | passed => exact .refl net
  | queued slot awake free was target =>
    cases target with
    | folded => exact .refl net
    | held => exact .refl net
    | complemented shape resolved kind alive created => exact created.frame
  | rewired slot awake free was shape change => exact change.frame

theorem dead (visited : Visited old new r consumer net r' net') (m : Nat) :
    net'.isDead m = net.isDead m := by
  cases visited with
  | passed => rfl
  | queued slot awake free was target =>
    cases target with
    | folded => rfl
    | held => rfl
    | complemented shape resolved kind alive created => exact created.dead m
  | rewired slot awake free was shape change => exact change.dead m

theorem consistent (visited : Visited old new r consumer net r' net') (before : net.Consistent)
    (differ : old ≠ new.node) (inside : new.node < net.size)
    (live : net.isDead new.node = false) : net'.Consistent := by
  cases visited with
  | passed => exact before
  | queued slot awake free was target =>
    cases target with
    | folded => exact before
    | held => exact before
    | complemented shape resolved kind alive created =>
      exact created.consistent before (fun m member => (alive m member).1)
        fun m member => (alive m member).2
  | rewired slot awake free was shape change =>
    obtain ⟨fresh, reads⟩ := redirected_reads was differ shape
    exact before.rewire change slot (isLiveGate_eq_true.2 ⟨⟨_, slot⟩, awake⟩) differ inside live
      (Gate.normalize_gate shape).1 was fresh reads

/-- Only the node that is being replaced and new gates may come to dangle. -/
theorem dangling (visited : Visited old new r consumer net r' net') {m : Nat}
    (dangling : net'.Dangling m) : net.Dangling m ∨ m = old ∨ net.size ≤ m := by
  cases visited with
  | passed => exact .inl dangling
  | queued slot awake free was target =>
    cases target with
    | folded => exact .inl dangling
    | held => exact .inl dangling
    | complemented shape resolved kind alive created =>
      exact (created.dangling dangling).imp_right .inr
  | rewired slot awake free was shape change =>
    obtain ⟨live, zero⟩ := dangling
    rw [change.isLiveGate slot] at live
    rw [change.count] at zero
    by_cases fromOld : m = old
    · exact .inr (.inl fromOld)
    · refine .inl ⟨live, ?_⟩
      rw [if_neg fromOld] at zero
      split at zero
      · omega
      · exact zero

end Visited

theorem visits_invariant (holds : List Nat → Replacements → Network → Prop) {old : Nat}
    {new : Signal} (differ : old ≠ new.node)
    (step : ∀ {consumer : Nat} {rest : List Nat} {r r' : Replacements} {net net' : Network},
      net.Consistent → new.node < net.size → net.isDead new.node = false →
      holds (consumer :: rest) r net → Visited old new r consumer net r' net' → holds rest r' net')
    {consumers : List Nat} {r r' : Replacements} (consistent : net.Consistent)
    (inside : new.node < net.size) (live : net.isDead new.node = false)
    (start : holds consumers r net)
    (run : Edit.Gives (consumers.foldlM (Edit.visitConsumer old new) r) net r' net') :
    net'.Consistent ∧ net.size ≤ net'.size ∧ (∀ m, net'.isDead m = net.isDead m) ∧
      holds [] r' net' := by
  induction consumers generalizing r net with
  | nil =>
    simp only [List.foldlM_nil, Edit.gives_pure] at run
    obtain ⟨rfl, rfl⟩ := run
    exact ⟨consistent, Nat.le_refl _, fun _ => rfl, start⟩
  | cons consumer rest ih =>
    simp only [List.foldlM_cons, Edit.gives_bind] at run
    obtain ⟨mid, middle, head, tail⟩ := run
    have visited := Edit.visitConsumer_gives consistent.toTallied differ inside head
    have le := visited.size_le
    have awake : middle.isDead new.node = false := by rw [visited.dead]; exact live
    obtain ⟨after, le', dead, result⟩ := ih (visited.consistent consistent differ inside live)
      (by omega) awake (step consistent inside live start visited) tail
    exact ⟨after, by omega, fun m => by rw [dead, visited.dead], result⟩

theorem moved_consistent {swept : Network} {old : Nat} {new : Signal} (consistent : swept.Consistent)
    (differ : old ≠ new.node) (inside : new.node < swept.size)
    (live : swept.isDead new.node = false) (present : old < swept.size) :
    OutputsMoved swept (swept.redirectOutputs old new) old new ∧
      (swept.redirectOutputs old new).Consistent ∧
      Trimmed (swept.redirectOutputs old new) ((swept.redirectOutputs old new).settle old) ∧
      ∀ m, ((swept.redirectOutputs old new).settle old).Dangling m →
        (swept.redirectOutputs old new).Dangling m ∧ m ≠ old := by
  have change := outputsMoved_redirectOutputs differ inside
  have moved := consistent.moveOutputs change differ inside live
  refine ⟨change, moved, ?_⟩
  unfold settle
  split
  · rename_i unread
    exact takeOut_spec moved ⟨by rw [change.size]; exact present, .inr (.inr unread)⟩
  · rename_i read
    refine ⟨.refl, fun m dangling => ⟨dangling, ?_⟩⟩
    rintro rfl
    exact read dangling.2

namespace Replaced

variable {r r' : Replacements} {old : Nat} {target : Signal}

theorem consistent (replaced : Replaced r old target net r' net') (before : net.Consistent) :
    net'.Consistent ∧ net.size ≤ net'.size := by
  cases replaced with
  | dropped resolved inside awakened same =>
    exact ⟨awakened.consistent before, Nat.le_of_eq (awakened.size before).symm⟩
  | recorded resolved inside awakened differ dead =>
    exact ⟨awakened.consistent before, Nat.le_of_eq (awakened.size before).symm⟩
  | moved resolved inside awakened differ present awake visits =>
    rename_i new mid swept r'
    obtain ⟨below, live⟩ := awakened.new_live before inside
    obtain ⟨after, le, dead, -⟩ := visits_invariant (fun _ _ _ => True) differ
      (fun _ _ _ _ _ => trivial) (awakened.consistent before) below live trivial visits
    obtain ⟨change, -, trimmed, -⟩ := moved_consistent after differ (by omega)
      (by rw [dead]; exact live) (by omega)
    refine ⟨trimmed.consistent ?_, ?_⟩
    · exact after.moveOutputs change differ (by omega) (by rw [dead]; exact live)
    · have size := awakened.size before
      rw [trimmed.size, change.size]
      omega

theorem frame (replaced : Replaced r old target net r' net') (before : net.Consistent) :
    Frame net net' := by
  cases replaced with
  | dropped resolved inside awakened same => exact awakened.frame before
  | recorded resolved inside awakened differ dead => exact awakened.frame before
  | moved resolved inside awakened differ present awake visits =>
    rename_i new mid swept r'
    obtain ⟨below, live⟩ := awakened.new_live before inside
    obtain ⟨after, le, dead, visited⟩ := visits_invariant (fun _ _ current => Frame mid current)
      differ (fun _ _ _ frame visited => frame.trans visited.frame) (awakened.consistent before)
      below live (.refl mid) visits
    obtain ⟨change, -, trimmed, -⟩ := moved_consistent after differ (by omega)
      (by rw [dead]; exact live) (by omega)
    exact (awakened.frame before).trans (visited.trans (change.frame.trans trimmed.frame))

theorem dangling (replaced : Replaced r old target net r' net') (before : net.Consistent) {m : Nat}
    (dangling : net'.Dangling m) :
    net.Dangling m ∨ net.size ≤ m ∨
      ∃ s, r.resolve target = .ok s ∧ m ∈ (⟨net, old, s.node⟩ : Encounter).revives := by
  cases replaced with
  | dropped resolved inside awakened same =>
    exact (awakened.dangling before dangling old).imp_right fun back => .inr ⟨_, resolved, back⟩
  | recorded resolved inside awakened differ dead =>
    exact (awakened.dangling before dangling old).imp_right fun back => .inr ⟨_, resolved, back⟩
  | moved resolved inside awakened differ present awake visits =>
    rename_i s new mid swept r'
    obtain ⟨below, live⟩ := awakened.new_live before inside
    have consistent := awakened.consistent before
    obtain ⟨after, le, dead, visited⟩ := visits_invariant
      (fun _ _ current => mid.size ≤ current.size ∧
        ∀ m, current.Dangling m → mid.Dangling m ∨ m = old ∨ mid.size ≤ m) differ
      (by
        rintro consumer rest r r' net net' - - - ⟨grown, known⟩ visited
        have le := visited.size_le
        refine ⟨by omega, fun m dangling => ?_⟩
        rcases visited.dangling dangling with dangling | same | fresh
        · exact known m dangling
        · exact .inr (.inl same)
        · exact .inr (.inr (by omega)))
      consistent below live ⟨Nat.le_refl _, fun m dangling => .inl dangling⟩ visits
    obtain ⟨change, -, -, settled⟩ := moved_consistent after differ (by omega)
      (by rw [dead]; exact live) (by omega)
    obtain ⟨⟨running, zero⟩, other⟩ := settled m dangling
    rw [change.isLiveGate] at running
    rw [change.count, if_neg other] at zero
    have before' : swept.Dangling m := by
      refine ⟨running, ?_⟩
      split at zero
      · omega
      · exact zero
    rw [← awakened.size before]
    rcases visited.2 m before' with dangling | same | fresh
    · exact (awakened.dangling before dangling old).imp_right fun back => .inr ⟨_, resolved, back⟩
    · exact absurd same other
    · exact .inr (.inl fresh)

end Replaced

namespace Edit

theorem substituteNode_consistent {old : Nat} {new : Signal} (consistent : net.Consistent)
    (run : Gives (substituteNode old new) net () net') :
    net'.Consistent ∧ net.size ≤ net'.size := by
  simp only [substituteNode, gives_bind, gives_get] at run
  obtain ⟨_, _, ⟨rfl, rfl⟩, run⟩ := run
  obtain ⟨r, -, after⟩ := replaceAll_invariant (fun _ => True)
    (fun _ current => current.Consistent ∧ net.size ≤ current.size)
    (by
      rintro r old' target rest mid mid' r' - ⟨before, le⟩ - replaced
      obtain ⟨after, le'⟩ := replaced.consistent before
      exact ⟨after, by omega⟩)
    ⟨consistent, Nat.le_refl _⟩ (fun _ _ => trivial) run
  exact after

theorem substituteNode_frame {old : Nat} {new : Signal} (consistent : net.Consistent)
    (run : Gives (substituteNode old new) net () net') : Frame net net' := by
  simp only [substituteNode, gives_bind, gives_get] at run
  obtain ⟨_, _, ⟨rfl, rfl⟩, run⟩ := run
  obtain ⟨r, -, -, frame⟩ := replaceAll_invariant (fun _ => True)
    (fun _ current => current.Consistent ∧ Frame net current)
    (by
      rintro r old' target rest mid mid' r' - ⟨before, frame⟩ - replaced
      exact ⟨(replaced.consistent before).1, frame.trans (replaced.frame before)⟩)
    ⟨consistent, .refl net⟩ (fun _ _ => trivial) run
  exact frame

theorem substituteNode_dangling {old : Nat} {new : Signal} (consistent : net.Consistent)
    (run : Gives (substituteNode old new) net () net') {m : Nat} (dangling : net'.Dangling m) :
    net.Dangling m ∨ net.size ≤ m ∨ ∃ e ∈ substitutionEncounters old new net, m ∈ e.revives := by
  simp only [substituteNode, gives_bind, gives_get] at run
  obtain ⟨_, _, ⟨rfl, rfl⟩, run⟩ := run
  obtain ⟨r, -, -, -, known⟩ := replaceAll_invariant
    (fun e => e ∈ substitutionEncounters old new net)
    (fun _ current => current.Consistent ∧ net.size ≤ current.size ∧
      ∀ m, current.Dangling m → net.Dangling m ∨ net.size ≤ m ∨
        ∃ e ∈ substitutionEncounters old new net, m ∈ e.revives)
    (by
      rintro r old' target rest mid mid' r' - ⟨before, le, known⟩ met replaced
      obtain ⟨after, le'⟩ := replaced.consistent before
      refine ⟨after, by omega, fun m dangling => ?_⟩
      rcases replaced.dangling before dangling with dangling | fresh | ⟨s, resolved, back⟩
      · exact known m dangling
      · exact .inr (.inl (by omega))
      · exact .inr (.inr ⟨_, met s resolved, back⟩))
    ⟨consistent, Nat.le_refl _, fun m dangling => .inl dangling⟩ (fun e member => member) run
  exact known m dangling

end Edit

end LogicOpt
