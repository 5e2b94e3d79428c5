import LogicOpt.Proofs.Firings
import LogicOpt.Proofs.Sessions

namespace LogicOpt

open Network

variable {net net' : Network} {solve : Solver}

theorem Awakened.announced {s new : Signal} (awakened : Awakened net s new net')
    (consistent : net.Consistent) : Announced net net' := by
  cases awakened with
  | live => exact .refl net
  | twin => exact .refl net
  | revived dead alone run => exact (Edit.revive_gives consistent dead run).2.1.announced

theorem Visited.announced {r r' : Replacements} {consumer old : Nat} {new : Signal}
    (visited : Visited old new r consumer net r' net') : Announced net net' := by
  cases visited with
  | passed => exact .refl net
  | queued slot awake free was target =>
    cases target with
    | folded => exact .refl net
    | held => exact .refl net
    | complemented shape resolved kind alive created => exact created.announced
  | rewired slot awake free was shape change holders announced => exact announced

theorem Replaced.announced {r r' : Replacements} {old : Nat} {target : Signal}
    (replaced : Replaced r old target net r' net') (consistent : net.Consistent) :
    Announced net net' := by
  cases replaced with
  | dropped resolved inside awakened same => exact awakened.announced consistent
  | recorded resolved inside awakened differ dead => exact awakened.announced consistent
  | moved resolved inside awakened differ present awake visits =>
    rename_i new mid swept r'
    obtain ⟨below, live⟩ := awakened.new_live consistent inside
    obtain ⟨after, le, dead, visited⟩ := visits_invariant (fun _ _ current => Announced mid current)
      differ (fun _ _ _ announced visited => announced.trans visited.announced)
      (awakened.consistent consistent) below live (.refl mid) visits
    obtain ⟨change, -, trimmed, -⟩ := moved_consistent after differ (by omega)
      (by rw [dead]; exact live) (by omega)
    -- The target comes back, the consumers are visited, the outputs move, the old cone goes.
    exact (awakened.announced consistent).trans
      (visited.trans ((announced_moveOutputs change).trans trimmed.announced))

theorem Edit.announced_substituteNode {old : Nat} {new : Signal} (consistent : net.Consistent)
    (run : Gives (substituteNode old new) net () net') : Announced net net' := by
  simp only [substituteNode, gives_bind, gives_get] at run
  obtain ⟨_, _, ⟨rfl, rfl⟩, run⟩ := run
  obtain ⟨r, -, -, announced⟩ := replaceAll_invariant (fun _ => True)
    (fun _ current => current.Consistent ∧ Announced net current)
    (by
      rintro r old' target rest mid mid' r' - ⟨before, announced⟩ - replaced
      exact ⟨(replaced.consistent before).1, announced.trans (replaced.announced before)⟩)
    ⟨consistent, .refl net⟩ (fun _ _ => trivial) run
  exact announced

theorem Network.announced_relevelled (levels : Relevelled net net')
    (journal : net'.journal = net.journal) : Announced net net' := by
  obtain ⟨_, _, rfl, -⟩ := levels
  exact announced_of_silent rfl journal rfl

theorem Command.announced {c : Command} (consistent : net.Consistent)
    (admissible : c.Admissible net) (run : Edit.Gives c.edit net () net') : Announced net net' := by
  cases carried consistent admissible run with
  | addInput =>
    refine announced_of_silent rfl rfl (funext fun m => ?_)
    rw [gateMap_eq, gateMap_eq, isDead_appendInput, gate?_appendInput]
  | addOutput =>
    exact announced_of_silent rfl rfl
      (funext fun m => gateMap_congr (body?_appendOutput _ _ _ m) (isDead_appendOutput _ _ _ m))
  | created alive created => exact created.announced
  | takenOut trimmed => exact trimmed.announced
  | relevelled levels journal => exact announced_relevelled levels journal
  | substituted apart run => exact Edit.announced_substituteNode consistent run

theorem Inserted.announced {signals signals' : Array Signal} {gates : List (Gate Signal)}
    (inserted : Inserted net signals gates signals' net') : Announced net net' := by
  induction inserted with
  | nil => exact .refl _
  | cons resolved kind alive created later ih => exact created.announced.trans ih

theorem Installed.announced {a : Accepted} {met : List Encounter}
    (installed : Installed a net met net') (consistent : net.Consistent) : Announced net net' := by
  cases installed with
  | kept length inserted output same =>
    have after := inserted.consistent consistent
    exact inserted.announced.trans (removeUnusedFrom_spec after _).1.announced
  | replaced length inserted output differ substituted =>
    have after := inserted.consistent consistent
    have swept := (Edit.substituteNode_consistent after substituted).1
    exact (inserted.announced.trans (Edit.announced_substituteNode after substituted)).trans
      (removeUnusedFrom_spec swept _).1.announced

theorem Worked.announced {params : Params} {f : Resynthesizer} {callback : Callback} {root : Nat}
    {met : List Encounter} (worked : Worked params f callback root net met net')
    (consistent : net.Consistent) : Announced net net' := by
  cases worked with
  | passed => exact .refl net
  | installed substituting live same window chosen change => exact change.announced consistent

theorem Network.Announced.resubscribed {s : Subscription} {next : Nat} {last : Network}
    (announced : Announced { net with
      subscriptions := net.subscriptions ++ [s], nextSubscription := next } last)
    (silent : s.journaled = false) (apart : ∀ other ∈ net.subscriptions, other.id ≠ s.id) :
    Announced net { last with subscriptions := last.subscriptions.filter (·.id != s.id) } := by
  obtain ⟨events, told⟩ := announced
  obtain ⟨firings, named, journal, followed⟩ := told.firings
  refine ⟨events, ?_, firings, named, ?_, followed⟩
  · have kept : net.subscriptions.filter (·.id != s.id) = net.subscriptions :=
      List.filter_eq_self.2 fun other member => by simpa using apart other member
    simp [told.subscriptions, List.filter_append, kept]
  · simpa only [Firing.deliveries_concat silent] using journal

theorem Edit.announced_resubstitute {params : Params} {f : Resynthesizer} {callback : Callback}
    {resyn : ResynStats} {stats : PassStats} (consistent : net.Consistent)
    (run : Gives (resubstituteWith solve params f callback resyn) net (.ok stats) net') :
    Announced net net' := by
  obtain ⟨-, -, -, id, begin, last, s, opened, visited, rfl⟩ := resubstitute_gives run
  have subscribed := subscribe_consistent consistent opened
  have bound := consistent.inPlace.subscription_lt
  obtain ⟨rfl, same⟩ := subscribe_gives.1 opened
  obtain ⟨-, announced⟩ := foldlM_invariant
    (fun _ _ current => current.Consistent ∧ Announced begin current)
    (by
      rintro root rest s current s' next ⟨consistent, announced⟩ visited
      have worked := visitRoot_gives consistent visited
      exact ⟨worked.consistent consistent, announced.trans (worked.announced consistent)⟩)
    ⟨subscribed, .refl begin⟩ visited
  rw [same] at announced
  exact announced.resubscribed rfl fun other member => Nat.ne_of_lt (bound other member)

/-- A session on a well-formed network continues the journal by firings, and by each of them every
    journaled subscriber is shown the same event and the same nodes, in the order of registration.
    The fanins of the live gates, kept up with the events, agree with the nodes at every firing and
    with the network at the end; on the way no gate is added that is there, none is removed or
    modified that is not, and a modification tells the fanins that were kept. -/
theorem Performed.events_complete {operations : List Operation} {visits : List Visit}
    (history : Performed net operations visits net') (sound : net.WellFormed) :
    net'.subscriptions = net.subscriptions ∧ ∃ firings : List Firing,
      net'.journal.toList =
        net.journal.toList ++ firings.flatMap (·.deliveries net.subscriptions) ∧
      (∀ f ∈ firings, (f.deliveries net.subscriptions).map
          (fun d => (d.subscription, d.event, d.nodes)) =
        (net.subscriptions.filter (·.journaled)).map fun s => (s.id, f.event, f.nodes)) ∧
      Followed net.gateMap firings net'.gateMap := by
  obtain ⟨-, announced⟩ := history.keeps (Announced net)
    (fun consistent announced admissible run =>
      announced.trans (Command.announced consistent admissible run))
    (fun consistent announced run => announced.trans (Edit.announced_resubstitute consistent run))
    (wellFormed_iff.1 sound).1 (.refl net)
  obtain ⟨firings, journal, followed⟩ := announced.firings
  exact ⟨announced.subscriptions, firings, journal,
    fun f _ => Firing.map_deliveries net.subscriptions f, followed⟩

/-- No gates yet, and two subscribers, the second of which changes levels. -/
def watched : Network :=
  { empty "watched" with
    subscriptions := [⟨0, .watch, true⟩, ⟨1, .raise 1, true⟩]
    nextSubscription := 2 }

theorem wellFormed_watched : watched.WellFormed := by
  obtain ⟨consistent, acyclic⟩ := wellFormed_iff.1 (wellFormed_empty "watched")
  exact wellFormed_iff.2 ⟨consistent.resubscribe (by decide), acyclic⟩

/-- Two conjunctions. The first is removed by a substitution and brought back by the next, and a pass
    removes the second. -/
def restoring : List Operation :=
  (Command.load 3 [(.and2, [2, 4]), (.and2, [6, 8])] [10]).map .command ++
    [.command (.substitute 4 (.ofLiteral 2)), .command (.substitute 3 (.ofLiteral 8)),
      .pass .search .default Basis.xag.resynthesizer .substitute .zero]

def Network.eventsShown (net : Network) (id : Nat) : List Event :=
  (net.journal.toList.filter (·.subscription == id)).map (·.event)

theorem events_complete_of_restoring : ∃ visits net, Performed watched restoring visits net ∧
    net.eventsShown 0 = [.added 4, .added 5, .modified 5 [.ofLiteral 6, .ofLiteral 8], .removed 4,
      .added 4, .modified 5 [.ofLiteral 2, .ofLiteral 6], .removed 5] ∧
    net.eventsShown 1 = net.eventsShown 0 ∧ ∃ firings : List Firing,
      net.journal.toList = firings.flatMap (·.deliveries watched.subscriptions) ∧
      Followed watched.gateMap firings net.gateMap := by
  obtain ⟨visits, net, history, shown⟩ := Operation.exists_performed restoring watched
    (fun _ net => net.eventsShown 0 == [.added 4, .added 5,
      .modified 5 [.ofLiteral 6, .ofLiteral 8], .removed 4, .added 4,
      .modified 5 [.ofLiteral 2, .ofLiteral 6], .removed 5] &&
      net.eventsShown 1 == net.eventsShown 0) (by decide +kernel)
  simp only [Bool.and_eq_true, beq_iff_eq] at shown
  obtain ⟨-, firings, journal, -, followed⟩ := Performed.events_complete history wellFormed_watched
  exact ⟨visits, net, history, shown.1, shown.2, firings, journal, followed⟩

end LogicOpt
