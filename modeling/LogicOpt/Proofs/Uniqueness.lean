import LogicOpt.Proofs.PassEquivalence
import LogicOpt.Proofs.Sessions
import LogicOpt.Proofs.Settling

/-!
Structural hashing keeps gates unique, but for gates that come back. Of two live gates that are the
same the table names one at most, so the question is how a live gate can lose its entry. It does when
a consumer of a node that is being replaced becomes the same gate as that node, which is going to
die; and a dead gate comes back without an entry if a live gate holds it already.
-/

namespace LogicOpt

open Relation Network

variable {net net' : Network} {solve : Solver}

namespace Network

/-- A live gate that the table does not name. -/
def Unlisted (net : Network) (n : Nat) : Prop :=
  ∃ g, net.gate? n = some g ∧ net.isDead n = false ∧ net.table[g]? ≠ some n

instance (net : Network) (n : Nat) : Decidable (net.Unlisted n) :=
  match slot : net.gate? n with
  | none => isFalse fun ⟨g, there, _⟩ => by simp [slot] at there
  | some g => decidable_of_iff (net.isDead n = false ∧ net.table[g]? ≠ some n)
    ⟨fun loose => ⟨g, slot, loose⟩, fun ⟨h, there, loose⟩ => by
      rw [slot] at there
      cases there
      exact loose⟩

theorem unlisted_of_same {a b : Nat} {g : Gate Signal} (apart : a ≠ b)
    (first : net.gate? a = some g) (live : net.isDead a = false)
    (second : net.gate? b = some g) (live' : net.isDead b = false) :
    net.Unlisted a ∨ net.Unlisted b := by
  by_cases entry : net.table[g]? = some a
  · exact .inr ⟨g, second, live', fun other => apart (Option.some.inj (entry.symm.trans other))⟩
  · exact .inl ⟨g, first, live, entry⟩

theorem Unlisted.of_kept {n : Nat} (loose : net'.Unlisted n) (same : net'.gate? n = net.gate? n)
    (live : net'.isDead n = false → net.isDead n = false)
    (kept : ∀ g, net.gate? n = some g → net.table[g]? = some n → net'.table[g]? = some n) :
    net.Unlisted n := by
  obtain ⟨g, slot, awake, other⟩ := loose
  rw [same] at slot
  exact ⟨g, slot, live awake, fun entry => other (kept g slot entry)⟩

theorem Appended.unlisted {g : Gate Signal} (change : Appended net net' g)
    (absent : net.table[g]? = none) {n : Nat} (loose : net'.Unlisted n) : net.Unlisted n := by
  have older : n ≠ net.size := by
    rintro rfl
    obtain ⟨h, slot, -, other⟩ := loose
    rw [change.gate?, if_pos rfl] at slot
    cases slot
    exact other (by rw [change.table, if_pos rfl])
  refine loose.of_kept (by rw [change.gate?, if_neg older]) (by rw [change.dead]; exact id)
    fun h slot entry => ?_
  rw [change.table, if_neg, entry]
  rintro rfl
  rw [absent] at entry
  cases entry

theorem Removed.unlisted {n m : Nat} {g : Gate Signal} (change : Removed net net' n g)
    (loose : net'.Unlisted m) : net.Unlisted m := by
  have other : m ≠ n := by
    rintro rfl
    obtain ⟨-, -, awake, -⟩ := loose
    simp [change.dead] at awake
  refine loose.of_kept (change.gate? m) (fun awake => ?_) fun h slot entry => ?_
  · rw [change.dead, Bool.or_eq_false_iff] at awake
    exact awake.2
  · rw [change.table, if_neg, entry]
    rintro ⟨rfl, holder⟩
    rw [entry] at holder
    exact other (Option.some.inj holder)

theorem Trimmed.unlisted (trimmed : Trimmed net net') {m : Nat} (loose : net'.Unlisted m) :
    net.Unlisted m := by
  induction trimmed with
  | refl => exact loose
  | step _ _ _ _ change _ ih => exact ih (change.unlisted loose)

theorem OutputsMoved.unlisted {old : Nat} {new : Signal} (change : OutputsMoved net net' old new)
    {m : Nat} (loose : net'.Unlisted m) : net.Unlisted m :=
  loose.of_kept (gate?_congr (change.body m)) (by rw [change.dead]; exact id)
    fun g _ entry => by rw [change.table, entry]

theorem Rewired.unlisted {n old new m : Nat} {g h : Gate Signal}
    (change : Rewired net net' n g h old new)
    (holders : ∀ m, net.table[h]? = some m → m = old ∨ m = n) (loose : net'.Unlisted m) :
    net.Unlisted m ∨ m = old := by
  have other : m ≠ n := by
    rintro rfl
    obtain ⟨k, slot, -, missing⟩ := loose
    rw [change.gate?, if_pos rfl] at slot
    cases slot
    exact missing (by rw [change.table, if_pos rfl])
  -- The entry of the new form is taken over, from `old` if it had a holder.
  refine or_iff_not_imp_right.2 fun apart => loose.of_kept (by rw [change.gate?, if_neg other])
    (by rw [change.dead]; exact id) fun k slot entry => ?_
  rw [change.table, if_neg, if_neg, entry]
  · rintro ⟨rfl, holder⟩
    rw [entry] at holder
    exact other (Option.some.inj holder)
  · rintro rfl
    exact (holders m entry).elim apart other

end Network

theorem Created.unlisted {g : Gate Signal} {s : Signal} (created : Created net g s net') {m : Nat}
    (loose : net'.Unlisted m) : net.Unlisted m := by
  cases created with
  | folded => exact loose
  | shared => exact loose
  | appended shape absent change => exact change.unlisted absent loose

theorem Revived.unlisted {order : List Nat} (revived : Revived net net' order) {m : Nat}
    (loose : net'.Unlisted m) : net.Unlisted m ∨ m ∈ order := by
  refine or_iff_not_imp_right.2 fun absent => loose.of_kept (gate?_congr (revived.body m))
    (fun awake => ?_) fun g _ entry => revived.table entry
  refine Bool.eq_false_iff.2 fun dead => ?_
  rw [(revived.dead m).2 ⟨dead, absent⟩] at awake
  cases awake

/-- The gates that come back with the target while live gates hold their entries, and keep them. -/
def Encounter.doubles (e : Encounter) : List Nat :=
  e.revives.filter fun n =>
    match Edit.revive e.node e.net with
    | .ok () net => decide (net.Unlisted n)
    | .error _ _ => false

theorem Encounter.doubles_of_live {e : Encounter} (live : e.dead = false) : e.doubles = [] := by
  simp [doubles, revives, live]

theorem Awakened.unlisted {s new : Signal} (awakened : Awakened net s new net')
    (consistent : net.Consistent) {m : Nat} (loose : net'.Unlisted m) (old : Nat) :
    net.Unlisted m ∨ m ∈ (⟨net, old, s.node⟩ : Encounter).doubles := by
  cases awakened with
  | live => exact .inl loose
  | twin => exact .inl loose
  | revived dead alone run =>
    obtain ⟨-, revived, -⟩ := Edit.revive_gives consistent dead run
    refine (revived.unlisted loose).imp_right fun back => ?_
    have ran : Edit.revive s.node net = .ok () net' := run
    simp only [Encounter.doubles, Encounter.revives, Encounter.dead, dead, alone,
      Option.isNone_none, Bool.and_self, ↓reduceIte, List.mem_filter, ran]
    exact ⟨back, decide_eq_true loose⟩

theorem Visited.unlisted {r r' : Replacements} {consumer old : Nat} {new : Signal}
    (visited : Visited old new r consumer net r' net') {m : Nat} (loose : net'.Unlisted m) :
    net.Unlisted m ∨ m = old := by
  cases visited with
  | passed => exact .inl loose
  | queued slot awake free was target =>
    cases target with
    | folded => exact .inl loose
    | held => exact .inl loose
    | complemented shape resolved kind alive created => exact .inl (created.unlisted loose)
  | rewired slot awake free was shape change holders => exact change.unlisted holders loose

theorem moved_unlisted {r r' : Replacements} {old : Nat} {new : Signal} {swept : Network}
    (consistent : net.Consistent) (differ : old ≠ new.node) (inside : new.node < net.size)
    (live : net.isDead new.node = false) (present : old < net.size)
    (visits : Edit.Gives ((net.fanouts old).foldlM (Edit.visitConsumer old new) r) net r' swept)
    {m : Nat} (loose : ((swept.redirectOutputs old new).settle old).Unlisted m) :
    net.Unlisted m ∨ m = old := by
  obtain ⟨after, le, dead, visited⟩ := visits_invariant
    (fun _ _ current => ∀ m, current.Unlisted m → net.Unlisted m ∨ m = old) differ
    (fun _ _ _ known visited m loose => (visited.unlisted loose).elim (known m) .inr)
    consistent inside live (fun m loose => .inl loose) visits
  obtain ⟨change, -, trimmed, -⟩ := moved_consistent after differ (by omega)
    (by rw [dead]; exact live) (by omega)
  exact visited m (change.unlisted (trimmed.unlisted loose))

theorem Replaced.handles {r r' : Replacements} {old : Nat} {target : Signal}
    (replaced : Replaced r old target net r' net') (consistent : net.Consistent) {q : Nat}
    (handled : r.handles q = true) : r'.handles q = true := by
  cases replaced with
  | dropped => exact handled
  | recorded => rw [Replacements.handles_record, handled, Bool.or_true]
  | moved resolved inside awakened differ present awake visits =>
    obtain ⟨below, live⟩ := awakened.new_live consistent inside
    obtain ⟨-, -, -, visited⟩ := visits_invariant (fun _ r _ => r.handles q = true) differ
      (fun _ _ _ handled visited => visited.handles handled) (awakened.consistent consistent)
      below live handled visits
    rw [Replacements.handles_record, visited, Bool.or_true]

theorem Replaced.unlisted {r r' : Replacements} {old : Nat} {target : Signal}
    (replaced : Replaced r old target net r' net') (consistent : net.Consistent) {m : Nat}
    (loose : net'.Unlisted m) : net.Unlisted m ∨ m = old ∨
      ∃ s, r.resolve target = .ok s ∧ m ∈ (⟨net, old, s.node⟩ : Encounter).doubles := by
  cases replaced with
  | dropped resolved inside awakened same =>
    exact (awakened.unlisted consistent loose old).imp_right fun back => .inr ⟨_, resolved, back⟩
  | recorded resolved inside awakened differ dead =>
    exact (awakened.unlisted consistent loose old).imp_right fun back => .inr ⟨_, resolved, back⟩
  | moved resolved inside awakened differ present awake visits =>
    have before := awakened.consistent consistent
    obtain ⟨below, live⟩ := awakened.new_live consistent inside
    rcases moved_unlisted before differ below live present visits loose with loose | same
    · exact (awakened.unlisted consistent loose old).imp_right fun back => .inr ⟨_, resolved, back⟩
    · exact .inr (.inl same)

theorem Awakened.apart {s new : Signal} {old : Nat} (awakened : Awakened net s new net')
    (consistent : net.Consistent) (apart : ¬net.Reaches s.node old) (differ : old ≠ new.node) :
    ¬net'.Reaches new.node old := by
  cases awakened with
  | live => exact apart
  | @twin n dead found =>
    obtain ⟨g, slot, entry, -⟩ := liveTwin?_eq_some found
    have twin := (consistent.table g n entry).1
    intro path
    rcases path.cases_head with same | ⟨m, feeds, rest⟩
    · exact differ same.symm
    · have reads := feeds_of_gate? slot ((mem_fanins twin).1 feeds)
      exact apart (reaches_iff.2 (.head reads (reaches_iff.1 rest)))
  | revived dead alone run =>
    obtain ⟨-, revived, -⟩ := Edit.revive_gives consistent dead run
    rw [reaches_iff] at apart ⊢
    exact fun path => apart (ReflTransGen.mono
      (fun a _ feeds => (feeds_congr (revived.body a)).1 feeds) _ _ path)

theorem settling_first {old : Nat} {new s : Signal} {r : Replacements} {mid swept : Network}
    (consistent : net.Consistent) (acyclic : net.Acyclic) (apart : ¬net.Reaches s.node old)
    (awakened : Awakened net s new mid) (inside : s.node < net.size) (differ : old ≠ new.node)
    (present : old < mid.size)
    (visits : Edit.Gives ((mid.fanouts old).foldlM (Edit.visitConsumer old new)
      { Replacements.start old s with queue := [] }) mid r swept) :
    Settling old ((swept.redirectOutputs old new).settle old) (r.record old new) := by
  have before := awakened.consistent consistent
  obtain ⟨below, live⟩ := awakened.new_live consistent inside
  have cycleFree : mid.Acyclic :=
    acyclic_of_feeds acyclic fun _ n => (feeds_congr (awakened.body consistent n)).1
  have schedule := Edit.schedule_start cycleFree (awakened.apart consistent apart differ)
    ⟨present, below⟩
  have started : Redirecting old old new (Replacements.start old new).replaced (mid.fanouts old)
      { Replacements.start old new with queue := [] } mid :=
    .start before (schedule.pop rfl).1 ⟨rfl, rfl⟩ (.single ⟨rfl, rfl⟩)
      ((Settled.start old new).pop rfl)
  have absent : (Replacements.start old new).replaced[new.node]? = none := by
    simp [Replacements.start]
  obtain ⟨after, le, dead, redirected⟩ := visits_invariant
    (Redirecting old old new (Replacements.start old new).replaced) differ
    (fun consistent inside live state visited =>
      state.visit differ absent consistent inside live visited)
    before below live started visits
  exact (redirected.finish differ absent after (by omega) (by rw [dead]; exact live)
    (by omega)).1

namespace Edit

theorem replaceAll_of_empty {steps : Nat} {r : Replacements} (empty : r.queue = [])
    (run : Gives (replaceAll steps r) net () net') : net' = net := by
  unfold replaceAll at run
  rw [empty] at run
  exact (gives_pure.1 run).2.symm

/-- A substitution costs no gate its entry but those that it replaces and those that come back. -/
theorem substituteNode_unlisted {old : Nat} {new : Signal} (consistent : net.Consistent)
    (run : Gives (substituteNode old new) net () net') {n : Nat} (loose : net'.Unlisted n) :
    net.Unlisted n ∨ ∃ e ∈ substitutionEncounters old new net, n ∈ e.doubles ∨ n = e.old := by
  simp only [substituteNode, gives_bind, gives_get] at run
  obtain ⟨_, _, ⟨rfl, rfl⟩, run⟩ := run
  obtain ⟨r, -, -, known⟩ := replaceAll_invariant
    (fun e => e ∈ substitutionEncounters old new net)
    (fun _ current => current.Consistent ∧ ∀ m, current.Unlisted m → net.Unlisted m ∨
      ∃ e ∈ substitutionEncounters old new net, m ∈ e.doubles ∨ m = e.old)
    (by
      rintro r q target rest mid mid' r' - ⟨before, known⟩ met replaced
      refine ⟨(replaced.consistent before).1, fun m loose => ?_⟩
      obtain ⟨s, resolved⟩ := replaced.resolved
      rcases replaced.unlisted before loose with earlier | rfl | ⟨t, resolved, back⟩
      · exact known m earlier
      · exact .inr ⟨_, met s resolved, .inr rfl⟩
      · exact .inr ⟨_, met t resolved, .inl back⟩)
    ⟨consistent, fun m => .inl⟩ (fun e => id) run
  exact known n loose

theorem substituteNode_unlisted_of_calm {old : Nat} {new : Signal} (consistent : net.Consistent)
    (acyclic : net.Acyclic) (apart : ¬net.Reaches new.node old)
    (calm : ∀ e ∈ (substitutionEncounters old new net).drop 1, e.dead = false)
    (run : Gives (substituteNode old new) net () net') {n : Nat} (loose : net'.Unlisted n) :
    net.Unlisted n ∨ ∃ e ∈ substitutionEncounters old new net, n ∈ e.doubles := by
  obtain ⟨steps, r, mid, head, tail, met⟩ := substituteNode_first run
  rw [met, List.drop_one, List.tail_cons] at calm
  suffices known : ∃ awake new', Awakened net new new' awake ∧ awake.Unlisted n by
    obtain ⟨awake, new', awakened, loose⟩ := known
    exact (awakened.unlisted consistent loose old).imp_right fun back => ⟨_, by simp [met], back⟩
  have resolved := resolve_start old new
  cases head with
  | dropped found inside awakened same =>
    rw [resolved] at found
    cases found
    cases replaceAll_of_empty rfl tail
    exact ⟨_, _, awakened, loose⟩
  | recorded found inside awakened differ dead =>
    rw [resolved] at found
    cases found
    cases replaceAll_of_empty rfl tail
    exact ⟨_, _, awakened, loose⟩
  | @moved s new' awake swept r found inside awakened differ present alive visits =>
    rw [resolved] at found
    cases found
    have before := awakened.consistent consistent
    obtain ⟨below, live⟩ := awakened.new_live consistent inside
    have settling := settling_first consistent acyclic apart awakened inside differ present visits
    have handled : (r.record old new').handles old = true := by simp [Replacements.handles_record]
    -- Whatever loses its entry on the way has a replacement, so it is dead in the end.
    obtain ⟨r', empty, settled, known⟩ := replaceAll_invariant (fun e => e.dead = false)
      (fun r current => Settling old current r ∧
        ∀ m, current.Unlisted m → awake.Unlisted m ∨ r.handles m = true)
      (by
        rintro r q target rest net net' r' queue ⟨settling, known⟩ plain replaced
        have consistent := settling.consistent
        obtain ⟨swap, schedule⟩ := settling.scheduled
        obtain ⟨popped, swapped⟩ := schedule.pop queue
        refine ⟨settling.replace queue plain replaced, fun m loose => ?_⟩
        rcases replaced.unlisted consistent loose with before | rfl | ⟨s, resolved, back⟩
        · exact (known m before).imp_right (replaced.handles consistent)
        · exact .inr (replaced.handles consistent (popped.handled _ _ swapped))
        · rw [Encounter.doubles_of_live (plain s resolved)] at back
          cases back)
      ⟨settling, fun m loose => (moved_unlisted before differ below live present visits loose).imp_right
        fun same => by rw [same, handled]⟩ calm tail
    refine ⟨awake, new', awakened, (known n loose).resolve_right fun handled => ?_⟩
    obtain ⟨g, slot, awake, -⟩ := loose
    exact settled.not_live empty n ⟨isLiveGate_eq_true.2 ⟨⟨g, slot⟩, awake⟩, handled⟩

end Edit

namespace Visit

/-- The gates that came back while live gates held their entries. -/
def doubles (v : Visit) : List Nat := v.met.flatMap (·.doubles)

def replaced (v : Visit) : List Nat := v.met.map (·.old)

/-- Whether a target died before its turn came, or the network was cyclic already. -/
def overtaken (v : Visit) : Bool := (v.met.drop 1).any (·.dead) || !decide v.before.Acyclic

/-- The gate has lost its entry, or came without one. -/
def Loosens (v : Visit) (n : Nat) : Prop := ¬v.before.Unlisted n ∧ v.after.Unlisted n

theorem calm_of_not_overtaken {v : Visit} (calm : v.overtaken = false) :
    v.before.Acyclic ∧ ∀ e ∈ v.met.drop 1, e.dead = false := by
  simp only [overtaken, Bool.or_eq_false_iff, List.any_eq_false, Bool.not_eq_false',
    decide_eq_true_eq] at calm
  exact ⟨calm.2, fun e member => Bool.eq_false_iff.2 (calm.1 e member)⟩

/-- Why a gate may lose its entry in a visit: it came back while a live gate held the entry, or it was
    itself replaced in an overtaken visit. -/
def Explains (v : Visit) (n : Nat) : Prop :=
  n ∈ v.doubles ∨ (v.overtaken = true ∧ n ∈ v.replaced)

theorem explains_of_met {v : Visit} {n : Nat} {before : Prop}
    (calm : v.overtaken = false → before ∨ ∃ e ∈ v.met, n ∈ e.doubles)
    (any : before ∨ ∃ e ∈ v.met, n ∈ e.doubles ∨ n = e.old) : before ∨ v.Explains n := by
  cases overtaken : v.overtaken with
  | false => exact (calm overtaken).imp_right fun back => .inl (List.mem_flatMap.2 back)
  | true =>
    refine any.imp_right ?_
    rintro ⟨e, met, back | rfl⟩
    · exact .inl (List.mem_flatMap.2 ⟨e, met, back⟩)
    · exact .inr ⟨overtaken, List.mem_map.2 ⟨e, met, rfl⟩⟩

end Visit

theorem Command.unlisted {c : Command} (consistent : net.Consistent)
    (admissible : c.Admissible net) (run : Edit.Gives c.edit net () net') {n : Nat}
    (loose : net'.Unlisted n) :
    net.Unlisted n ∨ (⟨net, c.encounters net, net'⟩ : Visit).Explains n := by
  cases carried consistent admissible run with
  | addInput =>
    exact .inl (loose.of_kept (gate?_appendInput _ _ n)
      (by rw [isDead_appendInput]; exact id) fun _ _ entry => entry)
  | addOutput =>
    exact .inl (loose.of_kept (gate?_congr (body?_appendOutput _ _ _ n))
      (by rw [isDead_appendOutput]; exact id) fun _ _ entry => entry)
  | created alive created => exact .inl (created.unlisted loose)
  | takenOut trimmed => exact .inl (trimmed.unlisted loose)
  | relevelled levels =>
    obtain ⟨_, _, rfl, -⟩ := levels
    exact .inl loose
  | substituted apart run =>
    refine Visit.explains_of_met (fun calm => ?_) (Edit.substituteNode_unlisted consistent run loose)
    obtain ⟨acyclic, met⟩ := Visit.calm_of_not_overtaken calm
    exact Edit.substituteNode_unlisted_of_calm consistent acyclic apart met run loose

theorem Inserted.unlisted {signals signals' : Array Signal} {gates : List (Gate Signal)}
    (inserted : Inserted net signals gates signals' net') {n : Nat} (loose : net'.Unlisted n) :
    net.Unlisted n := by
  induction inserted with
  | nil => exact loose
  | cons resolved kind alive created later ih => exact created.unlisted (ih loose)

theorem Worked.unlisted {params : Params} {f : Resynthesizer} {callback : Callback} {root : Nat}
    {met : List Encounter} (worked : Worked params f callback root net met net')
    (consistent : net.Consistent) {n : Nat} (loose : net'.Unlisted n) :
    net.Unlisted n ∨ (⟨net, met, net'⟩ : Visit).Explains n := by
  cases worked with
  | passed => exact .inl loose
  | installed substituting live same window chosen change =>
    cases change with
    | kept length inserted output same =>
      have after := inserted.consistent consistent
      exact .inl (inserted.unlisted ((removeUnusedFrom_spec after _).1.unlisted loose))
    | replaced length inserted output differ substituted =>
      have after := inserted.consistent consistent
      have swept := (Edit.substituteNode_consistent after substituted).1
      have loose := (removeUnusedFrom_spec swept _).1.unlisted loose
      refine Visit.explains_of_met (fun calm => ?_)
        ((Edit.substituteNode_unlisted after substituted loose).imp_left inserted.unlisted)
      obtain ⟨acyclic, calm⟩ := Visit.calm_of_not_overtaken calm
      obtain ⟨-, -, apart⟩ := chosen.apart window consistent acyclic inserted output
      exact (Edit.substituteNode_unlisted_of_calm after (inserted.acyclic consistent acyclic) apart
        calm substituted loose).imp_left inserted.unlisted

def Loosened (visits : List Visit) (n : Nat) : Prop :=
  ∃ earlier v later, visits = earlier ++ v :: later ∧ v.Loosens n ∧
    v.Explains n ∧ ∀ u ∈ later, u.before.Unlisted n

def Traced (net : Network) (visits : List Visit) (n : Nat) : Prop :=
  (net.Unlisted n ∧ ∀ u ∈ visits, u.before.Unlisted n) ∨ Loosened visits n

namespace Traced

variable {mid : Network} {n : Nat}

theorem append {first second : List Visit} (head : mid.Unlisted n → Traced net first n)
    (tail : Traced mid second n) : Traced net (first ++ second) n := by
  rcases tail with ⟨loose, all⟩ | ⟨earlier, v, later, rfl, lost⟩
  · rcases head loose with ⟨start, before⟩ | ⟨earlier, v, later, rfl, lost, reason, since⟩
    · exact .inl ⟨start, List.forall_mem_append.2 ⟨before, all⟩⟩
    · exact .inr ⟨earlier, v, later ++ second, by simp, lost, reason,
        List.forall_mem_append.2 ⟨since, all⟩⟩
  · exact .inr ⟨first ++ earlier, v, later, by simp, lost⟩

theorem visit {v : Visit} (loose : v.after.Unlisted n)
    (step : v.before.Unlisted n ∨ v.Explains n) : Traced v.before [v] n := by
  by_cases before : v.before.Unlisted n
  · exact .inl ⟨before, by simpa using before⟩
  · exact .inr ⟨[], v, [], rfl, ⟨before, loose⟩, step.resolve_left before, by simp⟩

theorem cons {v : Visit} {rest : List Visit}
    (step : v.after.Unlisted n → v.before.Unlisted n ∨ v.Explains n)
    (tail : Traced v.after rest n) : Traced v.before (v :: rest) n :=
  show Traced v.before ([v] ++ rest) n from
    append (fun loose => visit loose (step loose)) tail

end Traced

theorem Edit.rootsVisits_traced {params : Params} {f : Resynthesizer} {callback : Callback}
    {roots : List Nat} {s s' : PassState} (consistent : net.Consistent)
    (run : Gives (roots.foldlM (visitRoot solve params f callback) s) net s' net') {n : Nat}
    (loose : net'.Unlisted n) : Traced net (rootsVisits solve params f callback roots s net) n := by
  induction roots generalizing s net with
  | nil =>
    simp only [List.foldlM_nil, gives_pure] at run
    obtain ⟨-, rfl⟩ := run
    exact .inl ⟨loose, by simp [rootsVisits]⟩
  | cons root rest ih =>
    simp only [List.foldlM_cons, gives_bind] at run
    obtain ⟨middle, mid, visited, later⟩ := run
    have worked := visitRoot_gives consistent visited
    have ran : visitRoot solve params f callback s root net = .ok middle mid := visited
    simp only [rootsVisits, ran]
    exact Traced.cons (v := ⟨net, _, mid⟩)
      (fun loose => worked.unlisted consistent loose)
      (ih (worked.consistent consistent) later)

theorem Performed.traced {operations : List Operation} {visits : List Visit}
    (history : Performed net operations visits net') (consistent : net.Consistent) {n : Nat}
    (loose : net'.Unlisted n) : Traced net visits n := by
  induction history with
  | nil => exact .inl ⟨loose, by simp⟩
  | command admissible run later ih =>
    exact Traced.cons (v := ⟨_, _, _⟩)
      (fun loose => Command.unlisted consistent admissible run loose)
      (ih (Command.keeps consistent admissible run).1 loose)
  | pass run later ih =>
    refine .append (fun loose => ?_) (ih (Edit.resubstitute_consistent consistent run) loose)
    obtain ⟨-, -, -, id, begin, last, s, opened, visited, rfl⟩ := Edit.resubstitute_gives run
    have ran : Edit.subscribe passReaction false _ = .ok id begin := opened
    have traced := Edit.rootsVisits_traced (Edit.subscribe_consistent consistent opened) visited loose
    simp only [Edit.passVisits, ran]
    obtain ⟨-, rfl⟩ := Edit.subscribe_gives.1 opened
    exact traced

/-- Two live gates of a session that are the same: one of them has no entry in the table, and lost it
    in one visit, after which it never had one again. In that visit it came back from the dead while
    a live gate held the entry, or it was itself replaced after a target had died before its turn or
    the network had become cyclic. -/
theorem Performed.loosened_of_same {name : String} {operations : List Operation} {visits : List Visit}
    (history : Performed (empty name) operations visits net) {a b : Nat} {g : Gate Signal}
    (apart : a ≠ b) (first : net.gate? a = some g) (live : net.isDead a = false)
    (second : net.gate? b = some g) (live' : net.isDead b = false) :
    ∃ n, (n = a ∨ n = b) ∧ net.Unlisted n ∧ ∃ earlier v later, visits = earlier ++ v :: later ∧
      v.Loosens n ∧ (n ∈ v.doubles ∨ (v.overtaken = true ∧ n ∈ v.replaced)) ∧
      ∀ u ∈ later, u.before.Unlisted n := by
  have known (n : Nat) (loose : net.Unlisted n) : Loosened visits n := by
    refine (history.traced (consistent_empty name) loose).resolve_left fun start => ?_
    obtain ⟨⟨h, slot, -⟩, -⟩ := start
    cases n <;> simp [gate?, empty, Node.fresh, Node.gate?] at slot
  rcases unlisted_of_same apart first live second live' with loose | loose
  · exact ⟨a, .inl rfl, loose, known a loose⟩
  · exact ⟨b, .inr rfl, loose, known b loose⟩

/-- A conjunction dies together with its only reader and is built anew; then the reader takes the
    place of a live gate. -/
def rebuilt : List Operation :=
  (Command.load 3 [(.and2, [2, 4]), (.and2, [6, 8])] []).map .command ++
    [.command (.takeOut 5), .command (.createGate .and2 [.ofLiteral 2, .ofLiteral 4]),
      .command (.createGate .xor2 [.ofLiteral 2, .ofLiteral 6]),
      .command (.addOutput "a" (.ofLiteral 12)), .command (.addOutput "b" (.ofLiteral 14)),
      .command (.substitute 7 (.ofLiteral 10))]

/-- Nine majorities over four inputs. When the seventh is to be replaced by the eighth, that one has
    died, and it comes back with a reader of the first, which was replaced before. -/
def stranded : List Operation :=
  (Command.load 4
    [(.maj3, [3, 6, 8]), (.maj3, [3, 6, 10]), (.maj3, [5, 8, 10]), (.maj3, [5, 8, 14]),
     (.maj3, [3, 6, 14]), (.maj3, [5, 14, 16]), (.maj3, [5, 8, 16]), (.maj3, [3, 6, 20]),
     (.maj3, [8, 10, 22])]
    [24, 26, 26, 18]).map .command ++ [.command (.substitute 5 (.ofLiteral 8))]

/-- In the first session one of the two conjunctions came back. In the second nothing came back beside
    a live gate, and one of the two majorities was replaced. -/
theorem loosened_of_rebuilt :
    (∃ visits net, Performed (empty "rebuilt") rebuilt visits net ∧
      (∃ g, net.gate? 4 = some g ∧ net.gate? 6 = some g) ∧
      net.isDead 4 = false ∧ net.isDead 6 = false ∧ (∀ v ∈ visits, v.overtaken = false) ∧
      ∃ n, (n = 4 ∨ n = 6) ∧ net.Unlisted n ∧ ∃ v ∈ visits, v.Loosens n ∧ n ∈ v.doubles) ∧
    ∃ visits net, Performed (empty "stranded") stranded visits net ∧
      (∃ g, net.gate? 5 = some g ∧ net.gate? 6 = some g) ∧
      net.isDead 5 = false ∧ net.isDead 6 = false ∧ (∀ v ∈ visits, v.doubles = []) ∧
      ∃ n, (n = 5 ∨ n = 6) ∧ net.Unlisted n ∧
        ∃ v ∈ visits, v.Loosens n ∧ v.overtaken = true ∧ n ∈ v.replaced := by
  constructor
  · obtain ⟨visits, net, history, checks⟩ := Operation.exists_performed rebuilt (empty "rebuilt")
      (fun visits net => (net.gate? 4).isSome && decide (net.gate? 6 = net.gate? 4) &&
        !net.isDead 4 && !net.isDead 6 && visits.all (!·.overtaken)) (by decide +kernel)
    simp only [Bool.and_eq_true, decide_eq_true_eq, Bool.not_eq_true', List.all_eq_true,
      Option.isSome_iff_exists] at checks
    obtain ⟨⟨⟨⟨⟨g, slot⟩, same⟩, live⟩, live'⟩, calm⟩ := checks
    obtain ⟨n, which, loose, earlier, v, later, rfl, lost, reason, -⟩ :=
      Performed.loosened_of_same history (by decide) slot live (same.trans slot) live'
    have member : v ∈ earlier ++ v :: later := by simp
    refine ⟨_, net, history, ⟨g, slot, same.trans slot⟩, live, live', calm, n, which, loose, v,
      member, lost, reason.resolve_right fun ⟨overtaken, _⟩ => ?_⟩
    rw [calm v member] at overtaken
    cases overtaken
  · obtain ⟨visits, net, history, checks⟩ := Operation.exists_performed stranded (empty "stranded")
      (fun visits net => (net.gate? 5).isSome && decide (net.gate? 6 = net.gate? 5) &&
        !net.isDead 5 && !net.isDead 6 && visits.all (·.doubles == [])) (by decide +kernel)
    simp only [Bool.and_eq_true, decide_eq_true_eq, Bool.not_eq_true', List.all_eq_true,
      beq_iff_eq, Option.isSome_iff_exists] at checks
    obtain ⟨⟨⟨⟨⟨g, slot⟩, same⟩, live⟩, live'⟩, none⟩ := checks
    obtain ⟨n, which, loose, earlier, v, later, rfl, lost, reason, -⟩ :=
      Performed.loosened_of_same history (by decide) slot live (same.trans slot) live'
    have member : v ∈ earlier ++ v :: later := by simp
    refine ⟨_, net, history, ⟨g, slot, same.trans slot⟩, live, live', none, n, which, loose, v,
      member, lost, reason.resolve_left fun back => ?_⟩
    rw [none v member] at back
    cases back

/-- The reader brings the old conjunction back beside the new one. -/
theorem duplicates_of_rebuilt : ∃ visits net, Performed (empty "rebuilt") rebuilt visits net ∧
    (∃ g, net.gate? 4 = some g ∧ net.gate? 6 = some g) ∧
    net.isDead 4 = false ∧ net.isDead 6 = false ∧
    (∃ v ∈ visits, 4 ∈ v.doubles) ∧ ∀ v ∈ visits, v.overtaken = false := by
  obtain ⟨visits, net, history, checks⟩ := Operation.exists_performed rebuilt (empty "rebuilt")
    (fun visits net => (net.gate? 4).isSome && decide (net.gate? 6 = net.gate? 4) &&
      !net.isDead 4 && !net.isDead 6 && visits.any (·.doubles.contains 4) &&
      visits.all (!·.overtaken)) (by decide +kernel)
  simp only [Bool.and_eq_true, decide_eq_true_eq, Bool.not_eq_true', List.any_eq_true,
    List.all_eq_true, List.contains_iff_mem, Option.isSome_iff_exists] at checks
  obtain ⟨⟨⟨⟨⟨⟨g, slot⟩, same⟩, live⟩, live'⟩, back⟩, calm⟩ := checks
  exact ⟨visits, net, history, ⟨g, slot, same.trans slot⟩, live, live', back, calm⟩

end LogicOpt
