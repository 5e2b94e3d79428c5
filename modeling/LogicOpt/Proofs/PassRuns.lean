import LogicOpt.Proofs.Insertion
import LogicOpt.Proofs.Roots

namespace LogicOpt

open Network

variable {net net' : Network} {solve : Solver}

/-- The visit of a root: the network before and after it, and what its substitution met. -/
structure Visit where
  before : Network
  met : List Encounter
  after : Network

/-- A candidate was inserted, took the root's place unless it is the root, and new gates that
    nothing reads were removed. The substitution met `met`. -/
inductive Installed (a : Accepted) (net : Network) : List Encounter → Network → Prop where
  | kept {signals : Array Signal} {s : Signal} {mid : Network}
      (length : a.divisors.length = a.candidate.numDivisors)
      (inserted : Inserted net (.constant false :: a.divisors.map .ofNode).toArray
        a.candidate.gates signals mid)
      (output : Edit.readPosition signals a.candidate.output = .ok s) (same : s.node = a.root) :
      Installed a net [] (Edit.removeUnusedFrom net.size mid)
  | replaced {signals : Array Signal} {s : Signal} {mid swept : Network}
      (length : a.divisors.length = a.candidate.numDivisors)
      (inserted : Inserted net (.constant false :: a.divisors.map .ofNode).toArray
        a.candidate.gates signals mid)
      (output : Edit.readPosition signals a.candidate.output = .ok s) (differ : s.node ≠ a.root)
      (substituted : Edit.Gives (Edit.substituteNode a.root s) mid () swept) :
      Installed a net (Edit.substitutionEncounters a.root s mid)
        (Edit.removeUnusedFrom net.size swept)

inductive Worked (params : Params) (f : Resynthesizer) (callback : Callback) (root : Nat)
    (net : Network) : List Encounter → Network → Prop where
  | passed : Worked params f callback root net [] net
  | installed {w : RootWindow} {cone : List Nat} {a : Accepted} {met : List Encounter}
      {net' : Network}
      (substituting : callback = .substitute) (live : net.isLiveGate root = true)
      (same : w.root = root) (window : Windowed params net w cone) (chosen : Chosen params f w a)
      (change : Installed a net met net') : Worked params f callback root net met net'

theorem Chosen.root {params : Params} {f : Resynthesizer} {w : RootWindow} {a : Accepted}
    (chosen : Chosen params f w a) : a.root = w.root ∧ a.divisors = w.divisors := by
  cases chosen with
  | found same => rw [same]; exact ⟨rfl, rfl⟩

theorem removeUnusedFrom_spec (consistent : net.Consistent) (first : Nat) :
    Trimmed net (Edit.removeUnusedFrom first net) ∧
      ∀ m, (Edit.removeUnusedFrom first net).Dangling m → net.Dangling m ∧ m < first := by
  obtain ⟨trimmed, settled⟩ := foldl_removeDangling_spec consistent
    (List.range' first (net.size - first)).reverse fun n member => by
      have := List.mem_range'_1.1 (List.mem_reverse.1 member)
      omega
  refine ⟨trimmed, fun m dangling => ?_⟩
  obtain ⟨before, absent⟩ := settled m dangling
  have inside := lt_of_isLiveGate before.1
  refine ⟨before, Nat.lt_of_not_le fun beyond => absent ?_⟩
  rw [List.mem_reverse, List.mem_range'_1]
  omega

theorem Installed.consistent {a : Accepted} {met : List Encounter}
    (installed : Installed a net met net') (before : net.Consistent) : net'.Consistent := by
  cases installed with
  | kept length inserted output same =>
    have after := inserted.consistent before
    exact (removeUnusedFrom_spec after _).1.consistent after
  | replaced length inserted output differ substituted =>
    have after := (Edit.substituteNode_consistent (inserted.consistent before) substituted).1
    exact (removeUnusedFrom_spec after _).1.consistent after

theorem Worked.consistent {params : Params} {f : Resynthesizer} {callback : Callback} {root : Nat}
    {met : List Encounter} (worked : Worked params f callback root net met net')
    (before : net.Consistent) : net'.Consistent := by
  cases worked with
  | passed => exact before
  | installed substituting live same window chosen change => exact change.consistent before

theorem Network.Orderly.resubscribe {subscriptions : List Subscription} {next : Nat}
    (orderly : net.Orderly) (bound : ∀ s ∈ subscriptions, s.id < next) :
    Orderly { net with subscriptions, nextSubscription := next } where
  inPlace := { orderly.inPlace with subscription_lt := bound }
  canonical := orderly.canonical
  listed := orderly.listed
  count := orderly.count
  numGates := orderly.numGates
  fanins_live := orderly.fanins_live
  outputs_live := orderly.outputs_live

theorem Network.Consistent.resubscribe {subscriptions : List Subscription} {next : Nat}
    (consistent : net.Consistent) (bound : ∀ s ∈ subscriptions, s.id < next) :
    Consistent { net with subscriptions, nextSubscription := next } :=
  { consistent.toOrderly.resubscribe bound with table := consistent.table }

namespace Edit

def installEncounters (a : Accepted) (net : Network) : List Encounter :=
  match insert a.candidate (a.divisors.map .ofNode) net with
  | .ok s mid => if s.node = a.root then [] else substitutionEncounters a.root s mid
  | .error _ _ => []

def rootEncounters (solve : Solver) (params : Params) (f : Resynthesizer) (callback : Callback)
    (s : PassState) (root : Nat) (net : Network) : List Encounter :=
  if !net.isLiveGate root || net.fanoutCount root > params.skipFanoutLimitForRoots then []
  else
    match evaluateRoot solve params f (s.count .visit) root net with
    | .ok (some a, _) mid =>
      match callback with
      | .reportOnly => []
      | .substitute => installEncounters a mid
    | .ok (none, _) _ => []
    | .error _ _ => []

def rootsVisits (solve : Solver) (params : Params) (f : Resynthesizer) (callback : Callback) :
    List Nat → PassState → Network → List Visit
  | [], _, _ => []
  | root :: rest, s, net =>
    match visitRoot solve params f callback s root net with
    | .ok s' net' =>
      ⟨net, rootEncounters solve params f callback s root net, net'⟩ ::
        rootsVisits solve params f callback rest s' net'
    | .error _ _ => []

def passVisits (solve : Solver) (params : Params) (f : Resynthesizer) (callback : Callback)
    (resyn : ResynStats) (net : Network) : List Visit :=
  match subscribe passReaction false net with
  | .ok _ net' => rootsVisits solve params f callback (List.range net.size) (.start params resyn) net'
  | .error _ _ => []

/-- What the substitutions of a pass meet, in order. -/
def passEncounters (solve : Solver) (params : Params) (f : Resynthesizer) (callback : Callback)
    (resyn : ResynStats) (net : Network) : List Encounter :=
  (passVisits solve params f callback resyn net).flatMap (·.met)

theorem install_gives {a : Accepted} {s s' : PassState} (consistent : net.Consistent)
    (run : Gives (install a s) net s' net') : Installed a net (installEncounters a net) net' := by
  simp only [install, gives_bind, gives_get, gives_ite, gives_update, gives_pure] at run
  obtain ⟨_, _, ⟨rfl, rfl⟩, r, mid, built, run⟩ := run
  obtain ⟨length, signals, inserted, output⟩ := insert_gives consistent built
  rw [List.length_map] at length
  have answered : insert a.candidate (a.divisors.map .ofNode) net = .ok r mid := built
  rcases run with ⟨same, _, _, rfl, -, rfl⟩ | ⟨differ, _, swept, substituted, _, _, rfl, -, rfl⟩
  · simp only [installEncounters, answered, same, ↓reduceIte]
    exact .kept length inserted output same
  · simp only [installEncounters, answered, differ, ↓reduceIte]
    exact .replaced length inserted output differ substituted

theorem visitRoot_gives {params : Params} {f : Resynthesizer} {callback : Callback}
    {s s' : PassState} {root : Nat} (consistent : net.Consistent)
    (run : Gives (visitRoot solve params f callback s root) net s' net') :
    Worked params f callback root net (rootEncounters solve params f callback s root net) net' := by
  simp only [visitRoot, gives_bind, gives_get, gives_ite, gives_pure] at run
  obtain ⟨_, _, ⟨rfl, rfl⟩, run⟩ := run
  rcases run with ⟨idle, -, rfl⟩ | ⟨live, run⟩
  · simp only [rootEncounters, idle, Bool.true_or, ↓reduceIte]
    exact .passed
  · have live : net.isLiveGate root = true := by simpa using live
    rcases run with ⟨busy, -, rfl⟩ | ⟨calm, ⟨answer, middle⟩, mid, evaluated, run⟩
    · simp only [rootEncounters, busy, decide_true, Bool.or_true, ↓reduceIte]
      exact .passed
    · obtain ⟨rfl, known⟩ := evaluateRoot_gives consistent.toOrderly live evaluated
      have ran : evaluateRoot solve params f (s.count .visit) root mid = .ok (answer, middle) mid :=
        evaluated
      simp only [rootEncounters, live, Bool.not_true, calm, decide_false, Bool.or_self,
        Bool.false_eq_true, ↓reduceIte, ran]
      cases answer with
      | none =>
        simp only [gives_pure] at run
        obtain ⟨-, rfl⟩ := run
        exact .passed
      | some a =>
        cases callback with
        | reportOnly =>
          simp only [applyCandidate, gives_pure] at run
          obtain ⟨-, rfl⟩ := run
          exact .passed
        | substitute =>
          obtain ⟨w, cone, same, window, chosen⟩ := known a rfl
          exact .installed rfl live same window chosen (install_gives consistent run)

theorem rootsVisits_spec {params : Params} {f : Resynthesizer} {callback : Callback}
    (holds : Network → Prop) {roots : List Nat} {s : PassState}
    (step : ∀ {root : Nat} {v : Visit}, v.before.Consistent → holds v.before →
      Worked params f callback root v.before v.met v.after →
      v ∈ rootsVisits solve params f callback roots s net → holds v.after)
    (consistent : net.Consistent) (start : holds net) :
    ∀ v ∈ rootsVisits solve params f callback roots s net, v.before.Consistent ∧ holds v.before ∧
      ∃ root, Worked params f callback root v.before v.met v.after := by
  induction roots generalizing s net with
  | nil => simp [rootsVisits]
  | cons root rest ih =>
    cases visited : visitRoot solve params f callback s root net with
    | error cause left => simp [rootsVisits, visited]
    | ok s' net' =>
      have worked := visitRoot_gives consistent visited
      simp only [rootsVisits, visited, List.mem_cons] at step ⊢
      rw [forall_eq_or_imp]
      refine ⟨⟨consistent, start, root, worked⟩, ih (fun consistent held worked member =>
        step consistent held worked (.inr member)) (worked.consistent consistent) ?_⟩
      exact step (v := ⟨net, _, net'⟩) consistent start worked (.inl rfl)

theorem subscribe_gives {reaction : Reaction} {journaled : Bool} {id : Nat} :
    Gives (subscribe reaction journaled) net id net' ↔ id = net.nextSubscription ∧
      net' = { net with
        nextSubscription := net.nextSubscription + 1
        subscriptions := net.subscriptions ++ [⟨net.nextSubscription, reaction, journaled⟩] } := by
  simp only [subscribe, gives_bind, gives_get, gives_set, gives_pure]
  constructor
  · rintro ⟨_, _, ⟨rfl, rfl⟩, _, _, rfl, rfl, rfl⟩
    exact ⟨rfl, rfl⟩
  · rintro ⟨rfl, rfl⟩
    exact ⟨_, _, ⟨rfl, rfl⟩, ⟨⟩, _, rfl, rfl, rfl⟩

theorem subscription_lt_subscribe (inPlace : net.InPlace) (reaction : Reaction) (journaled : Bool) :
    ∀ s ∈ net.subscriptions ++ [⟨net.nextSubscription, reaction, journaled⟩],
      s.id < net.nextSubscription + 1 := by
  intro s member
  rcases List.mem_append.1 member with member | member
  · exact Nat.lt_succ_of_lt (inPlace.subscription_lt s member)
  · rw [List.mem_singleton.1 member]
    exact Nat.lt_succ_self _

theorem subscribe_orderly {reaction : Reaction} {journaled : Bool} {id : Nat}
    (orderly : net.Orderly) (run : Gives (subscribe reaction journaled) net id net') :
    net'.Orderly := by
  obtain ⟨-, rfl⟩ := subscribe_gives.1 run
  exact orderly.resubscribe (subscription_lt_subscribe orderly.inPlace reaction journaled)

theorem subscribe_consistent {reaction : Reaction} {journaled : Bool} {id : Nat}
    (consistent : net.Consistent) (run : Gives (subscribe reaction journaled) net id net') :
    net'.Consistent := by
  obtain ⟨-, rfl⟩ := subscribe_gives.1 run
  exact consistent.resubscribe (subscription_lt_subscribe consistent.inPlace reaction journaled)

theorem passVisits_spec (solve : Solver) (params : Params) (f : Resynthesizer) (callback : Callback)
    (resyn : ResynStats) (holds : Network → Prop)
    (blind : ∀ net subscriptions next, holds net →
      holds { net with subscriptions, nextSubscription := next })
    (step : ∀ {root : Nat} {v : Visit}, v.before.Consistent → holds v.before →
      Worked params f callback root v.before v.met v.after →
      v ∈ passVisits solve params f callback resyn net → holds v.after)
    (consistent : net.Consistent) (start : holds net) :
    ∀ v ∈ passVisits solve params f callback resyn net, v.before.Consistent ∧ holds v.before ∧
      ∃ root, Worked params f callback root v.before v.met v.after := by
  unfold passVisits at step ⊢
  split at step
  · rename_i id begin opened
    refine rootsVisits_spec holds step (subscribe_consistent consistent opened) ?_
    rw [(subscribe_gives.1 opened).2]
    exact blind _ _ _ start
  · simp

theorem unsubscribe_gives {id : Nat} {found : Bool} :
    Gives (unsubscribe id) net found net' ↔ found = net.subscriptions.any (·.id == id) ∧
      net' = { net with subscriptions := net.subscriptions.filter (·.id != id) } := by
  simp only [unsubscribe, gives_bind, gives_get, gives_set, gives_pure]
  constructor
  · rintro ⟨_, _, ⟨rfl, rfl⟩, _, _, rfl, rfl, rfl⟩
    exact ⟨rfl, rfl⟩
  · rintro ⟨rfl, rfl⟩
    exact ⟨_, _, ⟨rfl, rfl⟩, ⟨⟩, _, rfl, rfl, rfl⟩

theorem withSubscription_gives {α : Type} {reaction : Reaction} {body : Edit α} {a : α} :
    Gives (withSubscription reaction body) net a net' ↔
      ∃ id start last, Gives (subscribe reaction false) net id start ∧ Gives body start a last ∧
        last.subscriptions.any (·.id == id) = true ∧
        net' = { last with subscriptions := last.subscriptions.filter (·.id != id) } := by
  simp only [withSubscription, gives_bind, unsubscribe_gives]
  constructor
  · rintro ⟨id, start, opened, a, last, ran, found, closed, ⟨known, rfl⟩, ended⟩
    cases found with
    | false =>
      obtain ⟨_, _, thrown, -⟩ := gives_bind.1 ended
      exact absurd thrown gives_throw
    | true =>
      obtain ⟨rfl, rfl⟩ := gives_pure.1 ended
      exact ⟨id, start, last, opened, ran, known.symm, rfl⟩
  · rintro ⟨id, start, last, opened, ran, known, rfl⟩
    exact ⟨id, start, opened, a, last, ran, true, _, ⟨known.symm, rfl⟩, gives_pure.2 ⟨rfl, rfl⟩⟩

theorem resubstitute_gives_iff {params : Params} {f : Resynthesizer} {callback : Callback}
    {resyn : ResynStats} {stats : PassStats} :
    Gives (resubstituteWith solve params f callback resyn) net (.ok stats) net' ↔
      params.validate = .ok () ∧ ∃ s, Gives (withSubscription passReaction
        ((List.range net.size).foldlM (visitRoot solve params f callback) (.start params resyn)))
          net s net' ∧
        stats = { s.stats with
          initialSize := net.numGates, finalSize := net'.numGates, resyn := s.resyn } := by
  unfold resubstituteWith
  cases params.validate with
  | error e => simp
  | ok _ =>
    simp only [gives_bind, gives_get, gives_pure, true_and]
    constructor
    · rintro ⟨_, _, ⟨rfl, rfl⟩, s, mid, ran, _, _, ⟨rfl, rfl⟩, counted, rfl⟩
      exact ⟨s, ran, (Except.ok.inj counted).symm⟩
    · rintro ⟨s, ran, rfl⟩
      exact ⟨_, _, ⟨rfl, rfl⟩, s, _, ran, _, _, ⟨rfl, rfl⟩, rfl, rfl⟩

theorem resubstitute_gives {params : Params} {f : Resynthesizer} {callback : Callback}
    {resyn : ResynStats} {stats : PassStats}
    (run : Gives (resubstituteWith solve params f callback resyn) net (.ok stats) net') :
    params.validate = .ok () ∧ stats.initialSize = net.numGates ∧
      stats.finalSize = net'.numGates ∧
      ∃ id start last s, Gives (subscribe passReaction false) net id start ∧
        Gives ((List.range net.size).foldlM (visitRoot solve params f callback) (.start params resyn))
          start s last ∧
        net' = { last with subscriptions := last.subscriptions.filter (·.id != id) } := by
  obtain ⟨valid, s, ran, rfl⟩ := resubstitute_gives_iff.1 run
  obtain ⟨id, start, last, opened, visited, -, same⟩ := withSubscription_gives.1 ran
  exact ⟨valid, rfl, rfl, id, start, last, s, opened, visited, same⟩

/-- What holds when a pass starts and is kept by every root it works on holds at its end, whatever
    the subscriptions. -/
theorem resubstitute_invariant {params : Params} {f : Resynthesizer} {callback : Callback}
    {resyn : ResynStats} {stats : PassStats} (holds : Network → Prop) (known : Visit → Prop)
    (blind : ∀ net subscriptions next, holds net →
      holds { net with subscriptions, nextSubscription := next })
    (step : ∀ {root net encountered net'}, net.Consistent → holds net →
      Worked params f callback root net encountered net' → known ⟨net, encountered, net'⟩ →
      holds net')
    (consistent : net.Consistent) (start : holds net)
    (all : ∀ v ∈ passVisits solve params f callback resyn net, known v)
    (run : Gives (resubstituteWith solve params f callback resyn) net (.ok stats) net') :
    net'.Consistent ∧ holds net' := by
  obtain ⟨-, -, -, id, begin, last, s, opened, visited, rfl⟩ := resubstitute_gives run
  have ran : subscribe passReaction false net = .ok id begin := opened
  simp only [passVisits, ran] at all
  have subscribed := subscribe_consistent consistent opened
  obtain ⟨-, rfl⟩ := subscribe_gives.1 opened
  obtain ⟨after, kept, -⟩ := foldlM_invariant
    (fun roots s current => current.Consistent ∧ holds current ∧
      ∀ v ∈ rootsVisits solve params f callback roots s current, known v)
    (by
      rintro root rest s net s' net' ⟨consistent, running, all⟩ visited
      have worked := visitRoot_gives consistent visited
      have ran : visitRoot solve params f callback s root net = .ok s' net' := visited
      simp only [rootsVisits, ran, List.forall_mem_cons] at all
      exact ⟨worked.consistent consistent, step consistent running worked all.1, all.2⟩)
    ⟨subscribed, blind _ _ _ start, all⟩ visited
  refine ⟨after.resubscribe fun s member => ?_, blind _ _ _ kept⟩
  exact after.inPlace.subscription_lt s (List.mem_filter.1 member).1

def passes (solve : Solver) (params : Params) (f : Resynthesizer) (callback : Callback)
    (holds : PassStats → Network → Bool) (net : Network) : Bool :=
  match resubstituteWith solve params f callback .zero net with
  | .ok (.ok stats) net' => holds stats net'
  | .ok (.error _) _ => false
  | .error _ _ => false

theorem exists_run {params : Params} {f : Resynthesizer} {callback : Callback}
    {holds : PassStats → Network → Bool}
    (passed : passes solve params f callback holds net = true) :
    ∃ stats net', Gives (resubstituteWith solve params f callback .zero) net (.ok stats) net' ∧
      holds stats net' = true := by
  unfold passes at passed
  split at passed
  · rename_i stats net' run
    exact ⟨stats, net', run, passed⟩
  · cases passed
  · cases passed

end Edit

end LogicOpt
