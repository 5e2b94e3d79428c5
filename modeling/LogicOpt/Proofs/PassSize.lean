import LogicOpt.Proofs.PassEquivalence
import LogicOpt.Proofs.Shrinking

namespace LogicOpt

open Network

variable {net net' : Network} {solve : Solver}

namespace Inserted

variable {signals signals' : Array Signal} {gates : List (Gate Signal)}

theorem shift (inserted : Inserted net signals gates signals' net') :
    Shift net net' (· < net.size) (mentions signals' · = true) := by
  induction inserted with
  | nil => exact .of_bodies rfl (fun _ => rfl) (fun _ => id) fun o member => .inl ⟨o, member, rfl⟩
  | cons resolved kind alive created later ih =>
    refine (created.shift.mono (fun _ => id) fun m member => ?_).trans ih fun n inside =>
      Nat.lt_of_lt_of_le inside created.size_le
    obtain ⟨f, there, rfl⟩ := Gate.mem_nodes.1 member
    refine later.mentions_mono ?_
    rw [mentions_push, mentions_of_resolved resolved f there, Bool.true_or]

/-- The rest of the cone is doomed once the candidate takes the root's place. -/
theorem doomed {root : Nat} {leaves cone divisors : List Nat} {s : Signal}
    (inserted : Inserted net (.constant false :: divisors.map .ofNode).toArray gates signals net')
    (consistent : net.Consistent) (free : FanoutFree net root leaves cone)
    (clear : ∀ d ∈ divisors, d ∉ cone) (inside : ∀ d ∈ divisors, d < net.size)
    (missing : mentions signals root = false) (target : mentions signals s.node = true) :
    Doomed root net' (.start root s) (cone.filter fun n => !mentions signals n) := by
  have foreign := free.foreign consistent clear
  have grounded := inserted.grounded_start consistent inside
  have shift := inserted.shift
  have split {n : Nat} : n ∈ cone.filter (fun n => !mentions signals n) ↔
      n ∈ cone ∧ mentions signals n = false := by simp
  have reads {m n : Nat} (member : n ∈ cone) : net'.Feeds m n ↔ net.Feeds m n :=
    feeds_congr (inserted.body (free.inside n member))
  have taken {m n : Nat} (member : n ∈ cone) (mentioned : mentions signals n = true)
      (feeds : net.Feeds m n) : mentions signals m = true :=
    (grounded n mentioned).2.resolve_left (foreign n member) m ((reads member).2 feeds)
  constructor
  case first => exact split.2 ⟨free.first, missing⟩
  case zero => exact fun member => foreign 0 (split.1 member).1 (.inl rfl)
  case inside =>
    exact fun d member => Nat.lt_of_lt_of_le (free.inside d (split.1 member).1) shift.size_le
  case readers =>
    intro d member other n live feeds
    obtain ⟨there, free'⟩ := split.1 member
    rcases shift.reads d n live feeds with ⟨running, feeds⟩ | mentioned
    · have inner := free.readers d there other n running feeds
      refine split.2 ⟨inner, Bool.eq_false_iff.2 fun mentioned => ?_⟩
      rw [taken inner mentioned feeds] at free'
      cases free'
    · rw [mentioned] at free'
      cases free'
  case outputs =>
    intro o member there
    obtain ⟨inner, free'⟩ := split.1 there
    rcases shift.outputs o member with ⟨o', earlier, same⟩ | mentioned
    · refine Classical.byContradiction fun other => ?_
      exact outputReferences_eq_zero.1 (free.unread _ inner other) o' earlier same
    · rw [mentioned] at free'
      cases free'
  case handled => simp [Replacements.handles, Replacements.start]
  case free =>
    intro d _ handled
    have same : root = d := by simpa [Replacements.handles, Replacements.start] using handled
    exact same.symm
  case queue =>
    intro p member there
    rw [List.mem_singleton.1 member] at there
    rw [(split.1 there).2] at target
    cases target
  case replaced => exact fun n t entry => by simp [Replacements.start] at entry
  case reached =>
    intro holds start step m member
    obtain ⟨inner, free'⟩ := split.1 member
    refine (free.reached (fun m => mentions signals m = true ∨ holds m) (.inr start) ?_ m
      inner).resolve_left (by rw [free']; exact Bool.false_ne_true)
    intro n there known k below feeds
    cases named : mentions signals k with
    | true => exact .inl rfl
    | false =>
      have unnamed : mentions signals n = false := Bool.eq_false_iff.2 fun mentioned => by
        rw [taken there mentioned feeds] at named
        cases named
      rw [unnamed] at known
      exact .inr (step n (split.2 ⟨there, unnamed⟩) (known.resolve_left Bool.false_ne_true) k
        (split.2 ⟨below, named⟩) ((reads there).2 feeds))

end Inserted

theorem FanoutFree.not_dangling {root : Nat} {leaves cone : List Nat}
    (free : FanoutFree net root leaves cone) (tallied : net.Tallied) {d : Nat} (member : d ∈ cone)
    (other : d ≠ root) : ¬net.Dangling d := by
  have read := free.reached (fun m => m = root ∨ ∃ n ∈ cone, net.Feeds m n) (.inl rfl)
    fun n there _ m _ feeds => .inr ⟨n, there, feeds⟩
  obtain ⟨n, there, feeds⟩ := (read d member).resolve_left other
  exact fun dangling => tallied.not_feeds_of_unread dangling.2 (free.inner n there) feeds

theorem Network.Trimmed.numGates_le (trimmed : Trimmed net net') : net'.numGates ≤ net.numGates := by
  induction trimmed with
  | refl => exact Nat.le_refl _
  | step _ _ _ _ change ih =>
    rw [change.numGates]
    omega

/-- A root whose substitution meets no dead target saves as many gates as it was estimated to, at
    least. -/
theorem Installed.numGates_le {params : Params} {f : Resynthesizer} {w : RootWindow} {cone : List Nat}
    {a : Accepted} {met : List Encounter} (installed : Installed a net met net')
    (chosen : Chosen params f w a) (window : Windowed params net w cone)
    (consistent : net.Consistent) (acyclic : net.Acyclic) (plain : ∀ e ∈ met, e.dead = false) :
    net'.numGates + cone.length ≤ net.numGates + a.candidate.gates.length := by
  cases installed with
  | @kept signals s mid length inserted output same =>
    obtain ⟨-, -, apart⟩ := chosen.apart window consistent acyclic inserted output
    exact absurd (same ▸ .refl _) apart
  | @replaced signals s mid swept length inserted output differ substituted =>
    obtain ⟨counted, missing, apart⟩ := chosen.apart window consistent acyclic inserted output
    obtain ⟨root, divisors⟩ := chosen.root
    have tallied := consistent.toTallied
    have middle := inserted.consistent consistent
    rw [root] at missing apart substituted
    have doom := inserted.doomed consistent window.free
      (fun d member => (window.divisors_clear consistent.toOrderly acyclic d (divisors ▸ member)).2.1)
      (fun d member => window.divisors_inside tallied.toCounted acyclic d (divisors ▸ member)) missing
      (mentions_of_position output)
    have saved := Edit.substituteNode_shrinks middle (inserted.acyclic consistent acyclic) apart doom
      (window.free.nodup.filter _)
      (fun d member => by
        have inner := window.free.inner d (List.mem_filter.1 member).1
        rwa [isLiveGate_congr (inserted.body (lt_of_isLiveGate inner)) (inserted.dead d)])
      (fun member => by
        have named := mentions_of_position output
        rw [(by simpa using (List.mem_filter.1 member).2 : mentions signals s.node = false)] at named
        cases named)
      (fun d member other dangling => by
        have there := (List.mem_filter.1 member).1
        rcases inserted.dangling dangling with before | fresh
        · exact window.free.not_dangling tallied there other before
        · exact absurd (window.free.inside d there) (Nat.not_lt_of_le fresh))
      (fun e member => plain e (root ▸ member)) substituted
    have after := (Edit.substituteNode_consistent middle substituted).1
    have trimmed := (removeUnusedFrom_spec after net.size).1.numGates_le
    have split := List.length_eq_countP_add_countP (mentions signals) (l := cone)
    rw [← List.countP_eq_length_filter] at saved
    have same : (cone.countP fun n => !mentions signals n) =
        cone.countP fun n => ¬mentions signals n = true :=
      List.countP_congr fun n _ => by simp
    omega

namespace Visit

/-- The gates a visit adds. -/
def grown (v : Visit) : Nat := v.after.numGates - v.before.numGates

/-- The gates a visit removes. -/
def lost (v : Visit) : Nat := v.before.numGates - v.after.numGates

/-- Whether a target had died, or the network was cyclic already. -/
def upset (v : Visit) : Bool := v.met.any (·.dead) || !decide v.before.Acyclic

end Visit

theorem Worked.numGates_le {params : Params} {f : Resynthesizer} {callback : Callback} {root : Nat}
    {met : List Encounter} (worked : Worked params f callback root net met net')
    (consistent : net.Consistent) (acyclic : net.Acyclic) (plain : ∀ e ∈ met, e.dead = false) :
    net'.numGates ≤ net.numGates := by
  cases worked with
  | passed => exact Nat.le_refl _
  | installed substituting live same window chosen change =>
    have saved := change.numGates_le chosen window consistent acyclic plain
    have few := chosen.few window
    omega

theorem Visit.grown_eq_zero {params : Params} {f : Resynthesizer} {callback : Callback} {root : Nat}
    {v : Visit} (worked : Worked params f callback root v.before v.met v.after)
    (consistent : v.before.Consistent) (calm : v.upset = false) : v.grown = 0 := by
  simp only [upset, Bool.or_eq_false_iff, List.any_eq_false, Bool.not_eq_false', decide_eq_true_eq]
    at calm
  obtain ⟨plain, acyclic⟩ := calm
  exact Nat.sub_eq_zero_of_le
    (worked.numGates_le consistent acyclic fun e member => Bool.eq_false_iff.2 (plain e member))

namespace Edit

variable {params : Params} {f : Resynthesizer} {callback : Callback}

theorem rootsVisits_numGates {roots : List Nat} {s s' : PassState}
    (run : Gives (roots.foldlM (visitRoot solve params f callback) s) net s' net') :
    net'.numGates + ((rootsVisits solve params f callback roots s net).map Visit.lost).sum =
      net.numGates + ((rootsVisits solve params f callback roots s net).map Visit.grown).sum := by
  induction roots generalizing s net with
  | nil =>
    simp only [List.foldlM_nil, gives_pure] at run
    obtain ⟨-, rfl⟩ := run
    rfl
  | cons root rest ih =>
    simp only [List.foldlM_cons, gives_bind] at run
    obtain ⟨middle, mid, visited, later⟩ := run
    have ran : visitRoot solve params f callback s root net = .ok middle mid := visited
    have total := ih later
    simp only [rootsVisits, ran, List.map_cons, List.sum_cons, Visit.lost, Visit.grown]
    omega

theorem passVisits_numGates {resyn : ResynStats} {stats : PassStats}
    (run : Gives (resubstituteWith solve params f callback resyn) net (.ok stats) net') :
    stats.finalSize + ((passVisits solve params f callback resyn net).map Visit.lost).sum =
      stats.initialSize + ((passVisits solve params f callback resyn net).map Visit.grown).sum := by
  obtain ⟨-, initial, final, id, begin, last, s, opened, visited, rfl⟩ := resubstitute_gives run
  have ran : subscribe passReaction false net = .ok id begin := opened
  have total := rootsVisits_numGates visited
  rw [passVisits, ran, initial, final]
  rw [(subscribe_gives.1 opened).2] at total ⊢
  exact total

theorem sum_grown_upset (visits : List Visit)
    (calm : ∀ v ∈ visits, v.upset = false → v.grown = 0) :
    (visits.map Visit.grown).sum = ((visits.filter Visit.upset).map Visit.grown).sum := by
  induction visits with
  | nil => rfl
  | cons v rest ih =>
    rw [List.forall_mem_cons] at calm
    rw [List.map_cons, List.sum_cons, ih calm.2]
    cases upset : v.upset with
    | true => rw [List.filter_cons_of_pos upset, List.map_cons, List.sum_cons]
    | false => rw [List.filter_cons_of_neg (by simp [upset]), calm.1 upset, Nat.zero_add]

end Edit

/-- A pass does not grow the network exactly if the visits that met a dead target, or came when the
    network was cyclic, add no more gates than all visits together remove. Without a dead target it
    never grows. -/
theorem size_resubstitute {params : Params} {f : Resynthesizer} {callback : Callback}
    {resyn : ResynStats} {stats : PassStats} (valid : net.WellFormed)
    (run : Edit.Gives (Edit.resubstituteWith solve params f callback resyn) net (.ok stats) net') :
    (stats.finalSize ≤ stats.initialSize ↔
      (((Edit.passVisits solve params f callback resyn net).filter Visit.upset).map Visit.grown).sum ≤
        ((Edit.passVisits solve params f callback resyn net).map Visit.lost).sum) ∧
    ((∀ e ∈ Edit.passEncounters solve params f callback resyn net, e.dead = false) →
      stats.finalSize ≤ stats.initialSize) := by
  obtain ⟨consistent, acyclic⟩ := wellFormed_iff.1 valid
  have total := Edit.passVisits_numGates run
  have known := Edit.passVisits_spec solve params f callback resyn (fun _ => True) (fun _ _ _ => id)
    (fun _ _ _ _ => trivial) consistent trivial
  rw [Edit.sum_grown_upset _ fun v member calm => by
    obtain ⟨before, -, root, worked⟩ := known v member
    exact v.grown_eq_zero worked before calm] at total
  have sizes : ∀ grown lost : Nat, stats.finalSize + lost = stats.initialSize + grown →
      (stats.finalSize ≤ stats.initialSize ↔ grown ≤ lost) := fun grown lost sum => by omega
  refine ⟨sizes _ _ total, fun plain => (sizes _ _ total).2 ?_⟩
  have ordered := Edit.passVisits_spec solve params f callback resyn (fun current => current.Acyclic)
    (fun _ _ _ acyclic => acyclic)
    (fun {root v} consistent acyclic worked member =>
      worked.acyclic consistent acyclic fun e met => by
        rw [Encounter.takesTwin, plain e (List.mem_flatMap.2 ⟨v, member, met⟩), Bool.false_and])
    consistent acyclic
  rw [List.filter_eq_nil_iff.2 fun v member => ?_]
  · exact Nat.zero_le _
  · have calm : v.met.any (·.dead) = false := List.any_eq_false.2 fun e met => by
      rw [plain e (List.mem_flatMap.2 ⟨v, member, met⟩)]
      exact Bool.false_ne_true
    simp [Visit.upset, calm, (ordered v member).2.1]

/-- Majorities find that the second gate is the first one. -/
theorem size_of_absorbed : ∃ stages net stats net',
    Completed (empty "absorbed") (Command.load 2 [(.and2, [2, 4]), (.and2, [2, 6])] [8]) stages net ∧
      net.WellFormed ∧
      Edit.Gives (Edit.resubstituteWith .search .default Basis.mig.resynthesizer .substitute .zero) net
        (.ok stats) net' ∧
      stats.numResub = 1 ∧ stats.finalSize ≤ stats.initialSize := by
  obtain ⟨stages, net, history, checks⟩ := Command.exists_completed
    (Command.load 2 [(.and2, [2, 4]), (.and2, [2, 6])] [8]) (empty "absorbed")
    (fun _ net => decide net.Acyclic &&
      (Edit.passEncounters .search .default Basis.mig.resynthesizer .substitute .zero net).all
        (!·.dead) &&
      Edit.passes .search .default Basis.mig.resynthesizer .substitute
        (fun stats _ => stats.numResub == 1) net) (by decide +kernel)
  simp only [Bool.and_eq_true, decide_eq_true_eq, List.all_eq_true, Bool.not_eq_true'] at checks
  obtain ⟨⟨acyclic, plain⟩, passed⟩ := checks
  obtain ⟨stats, net', run, replaced⟩ := Edit.exists_run passed
  have valid : net.WellFormed :=
    wellFormed_iff.2 ⟨(history.consistent (consistent_empty _)).1, acyclic⟩
  exact ⟨stages, net, stats, net', history, valid, run, by simpa using replaced,
    (size_resubstitute valid run).2 plain⟩

/-- Nine inputs, thirteen gates and two substitutions, which leave a dead cone behind. -/
def outgrown : List Command :=
  Command.load 9
    [(.xor2, [10, 12]), (.xor2, [10, 14]), (.xor2, [10, 16]), (.xor2, [10, 18]), (.and2, [20, 22]),
     (.and2, [28, 24]), (.and2, [30, 26]), (.maj3, [10, 4, 32]), (.maj3, [3, 4, 32]),
     (.and2, [34, 36]), (.maj3, [8, 38, 3]), (.and2, [2, 6]), (.and2, [3, 43])]
    [40, 20, 22, 24, 26] ++
  [.substitute 4 (.ofLiteral 44), .substitute 5 (.ofLiteral 44)]

/-- The cone that comes back has more gates than the pass removes. -/
theorem growth_of_outgrown : ∃ stages net stats net',
    Completed (empty "outgrown") outgrown stages net ∧ net.WellFormed ∧
      Edit.Gives
        (Edit.resubstituteWith .search { Params.default with maxPis := 2 } Basis.div0.resynthesizer
          .substitute .zero) net (.ok stats) net' ∧
      stats.initialSize = 13 ∧ stats.finalSize = 14 := by
  obtain ⟨stages, net, history, checks⟩ := Command.exists_completed outgrown (empty "outgrown")
    (fun _ net => decide net.Acyclic &&
      Edit.passes .search { Params.default with maxPis := 2 } Basis.div0.resynthesizer .substitute
        (fun stats _ => stats.initialSize == 13 && stats.finalSize == 14) net) (by decide +kernel)
  simp only [Bool.and_eq_true, decide_eq_true_eq] at checks
  obtain ⟨acyclic, passed⟩ := checks
  obtain ⟨stats, net', run, sizes⟩ := Edit.exists_run passed
  have valid : net.WellFormed :=
    wellFormed_iff.2 ⟨(history.consistent (consistent_empty _)).1, acyclic⟩
  exact ⟨stages, net, stats, net', history, valid, run, by simpa using sizes⟩

end LogicOpt
