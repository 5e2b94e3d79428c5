import LogicOpt.Network.Substitution
import LogicOpt.Proofs.Revival
import LogicOpt.Proofs.Sharing
import LogicOpt.Proofs.Trimming

namespace LogicOpt

open Network

variable {net net' : Network}

namespace Replacements

theorem handles_enqueue (r : Replacements) (n : Nat) (target : Signal) (q : Nat) :
    (r.enqueue n target).handles q = (n == q || r.handles q) := by
  simp only [handles, enqueue, Std.TreeSet.contains_insert, Bool.or_assoc]
  congr 1
  rw [Bool.eq_iff_iff, beq_iff_eq, beq_iff_eq]
  exact Std.LawfulEqCmp.compare_eq_iff_eq

theorem handles_record (r : Replacements) (n : Nat) (new : Signal) (q : Nat) :
    (r.record n new).handles q = (n == q || r.handles q) := by
  have same : (compare n q == .eq) = (n == q) := by
    rw [Bool.eq_iff_iff, beq_iff_eq, beq_iff_eq]
    exact Std.LawfulEqCmp.compare_eq_iff_eq
  simp only [handles, record, Std.TreeMap.contains_insert, same]
  cases n == q <;> simp

theorem getElem?_record (r : Replacements) (n : Nat) (new : Signal) (q : Nat) :
    (r.record n new).replaced[q]? = if n = q then some new else r.replaced[q]? := by
  simp only [record, Std.TreeMap.getElem?_insert, Std.LawfulEqCmp.compare_eq_iff_eq]

end Replacements

/-- How a target becomes live. -/
inductive Awakened (net : Network) (s : Signal) : Signal → Network → Prop where
  | live (awake : net.isDead s.node = false) : Awakened net s s net
  | twin {n : Nat} (dead : net.isDead s.node = true) (found : net.liveTwin? s.node = some n) :
      Awakened net s ⟨n, s.negated⟩ net
  | revived {net' : Network} (dead : net.isDead s.node = true)
      (alone : net.liveTwin? s.node = none) (run : Edit.Gives (Edit.revive s.node) net () net') :
      Awakened net s s net'

/-- By what a consumer with gate `g` is to be replaced, if it cannot be redirected in place. -/
inductive Queued (old : Nat) (new : Signal) (r : Replacements) (consumer : Nat) (net : Network)
    (g : Gate Signal) : Signal → Network → Prop where
  | folded {s : Signal} (shape : (g.redirect old new).normalize = .trivial s) :
      Queued old new r consumer net g s net
  | held {h : Gate Signal} {negated : Bool} {holder : Nat}
      (shape : (g.redirect old new).normalize = .gate h negated)
      (entry : net.table[h]? = some holder) : Queued old new r consumer net g ⟨holder, negated⟩ net
  | complemented {h k : Gate Signal} {s : Signal} {net' : Network}
      (shape : (g.redirect old new).normalize = .gate h true)
      (resolved : h.operands.mapM r.resolve = .ok k.operands) (kind : k.kind = h.kind)
      (alive : ∀ m ∈ k.nodes, m < net.size ∧ net.isDead m = false)
      (created : Created net k s net') : Queued old new r consumer net g s.negate net'

/-- What becomes of one entry of the fanout list of `old`. -/
inductive Visited (old : Nat) (new : Signal) (r : Replacements) (consumer : Nat) (net : Network) :
    Replacements → Network → Prop where
  | passed (reason : net.isDead consumer = true ∨ r.handles consumer = true ∨
      ¬net.Feeds old consumer) : Visited old new r consumer net r net
  | queued {g : Gate Signal} {s : Signal} {net' : Network} (slot : net.gate? consumer = some g)
      (awake : net.isDead consumer = false) (free : r.handles consumer = false)
      (was : old ∈ g.nodes) (target : Queued old new r consumer net g s net') :
      Visited old new r consumer net (r.enqueue consumer s) net'
  | rewired {g h : Gate Signal} {net' : Network} (slot : net.gate? consumer = some g)
      (awake : net.isDead consumer = false) (free : r.handles consumer = false)
      (was : old ∈ g.nodes) (shape : (g.redirect old new).normalize = .gate h false)
      (change : Rewired net net' consumer g h old new.node)
      (holders : ∀ m, net.table[h]? = some m → m = old ∨ m = consumer)
      (announced : Announced net net') : Visited old new r consumer net r net'

def Network.settle (net : Network) (old : Nat) : Network :=
  if net.fanoutCount old = 0 then net.takeOut old else net

inductive Replaced (r : Replacements) (old : Nat) (target : Signal) (net : Network) :
    Replacements → Network → Prop where
  | dropped {s new : Signal} {net' : Network} (resolved : r.resolve target = .ok s)
      (inside : s.node < net.size) (awakened : Awakened net s new net') (same : old = new.node) :
      Replaced r old target net r net'
  | recorded {s new : Signal} {net' : Network} (resolved : r.resolve target = .ok s)
      (inside : s.node < net.size) (awakened : Awakened net s new net')
      (differ : old ≠ new.node) (dead : net'.isDead old = true) :
      Replaced r old target net (r.record old new) net'
  | moved {s new : Signal} {mid swept : Network} {r' : Replacements}
      (resolved : r.resolve target = .ok s) (inside : s.node < net.size)
      (awakened : Awakened net s new mid) (differ : old ≠ new.node) (present : old < mid.size)
      (awake : mid.isDead old = false)
      (visits : Edit.Gives ((mid.fanouts old).foldlM (Edit.visitConsumer old new) r) mid r' swept) :
      Replaced r old target net (r'.record old new) ((swept.redirectOutputs old new).settle old)

namespace Edit

theorem liveTarget_gives {s new : Signal} (run : Gives (liveTarget s) net new net') :
    s.node < net.size ∧ Awakened net s new net' := by
  simp only [liveTarget, gives_bind, gives_get, gives_ofExcept, require, ensure_eq_ok,
    decide_eq_true_eq] at run
  obtain ⟨_, _, ⟨rfl, rfl⟩, _, _, ⟨inside, rfl⟩, run⟩ := run
  refine ⟨inside, ?_⟩
  split at run
  · rename_i dead
    cases found : net.liveTwin? s.node with
    | some n =>
      simp only [found, gives_pure] at run
      obtain ⟨rfl, rfl⟩ := run
      exact .twin dead found
    | none =>
      simp only [found, gives_bind, gives_pure] at run
      obtain ⟨⟨⟩, _, revived, rfl, rfl⟩ := run
      exact .revived dead found revived
  · rename_i awake
    obtain ⟨rfl, rfl⟩ := gives_pure.1 run
    exact .live (by simpa using awake)

theorem redirectConsumer_gives {r : Replacements} {consumer old : Nat} {new : Signal}
    {g : Gate Signal} {answer : Option Signal} (tallied : net.Tallied)
    (slot : net.gate? consumer = some g) (awake : net.isDead consumer = false)
    (was : old ∈ g.nodes) (differ : old ≠ new.node) (inside : new.node < net.size)
    (run : Gives (redirectConsumer r consumer g old new) net answer net') :
    (∃ s, answer = some s ∧ Queued old new r consumer net g s net') ∨
      ∃ h, answer = none ∧ (g.redirect old new).normalize = .gate h false ∧
        Rewired net net' consumer g h old new.node ∧
        (∀ m, net.table[h]? = some m → m = old ∨ m = consumer) ∧ Announced net net' := by
  cases shape : (g.redirect old new).normalize with
  | trivial s =>
    simp only [redirectConsumer, shape, gives_pure] at run
    obtain ⟨rfl, rfl⟩ := run
    exact .inl ⟨s, rfl, .folded shape⟩
  | gate h negated =>
    simp only [redirectConsumer, shape, gives_bind, gives_get] at run
    obtain ⟨_, _, ⟨rfl, rfl⟩, run⟩ := run
    cases entry : net.table[h]?.filter fun n => n != old && n != consumer with
    | some holder =>
      simp only [entry, gives_pure] at run
      obtain ⟨rfl, rfl⟩ := run
      exact .inl ⟨_, rfl, .held shape (Option.eq_some_of_filter_eq_some entry)⟩
    | none =>
      simp only [entry] at run
      cases negated with
      | true =>
        simp only [↓reduceIte, gives_bind, gives_ofExcept, gives_pure] at run
        obtain ⟨fanins, _, ⟨resolved, rfl⟩, s, _, created, rfl, rfl⟩ := run
        obtain ⟨alive, k, kind, rfl, outcome⟩ := createGate_gives tallied created
        refine .inl ⟨_, rfl, .complemented shape resolved kind (fun m member => ?_) outcome⟩
        obtain ⟨f, there, rfl⟩ := Gate.mem_nodes.1 member
        exact alive f there
      | false =>
        simp only [Bool.false_eq_true, ↓reduceIte, gives_bind, gives_check, gives_update,
          gives_pure] at run
        obtain ⟨_, _, ⟨-, rfl⟩, _, _, rfl, _, _, rfl, rfl, rfl⟩ := run
        have unread : consumer ∉ net.fanouts new.node := by
          intro listed
          have feeds := (tallied.mem_fanouts.1 listed).2
          exact (redirected_reads was differ shape).1 ((mem_fanins slot).1 feeds)
        have change := rewired_rewireGate (h := h) slot differ inside unread
        refine .inr ⟨h, rfl, rfl, change.relevel (relevelled_notify ..), fun m held => ?_,
          announced_rewire slot awake change⟩
        rw [held] at entry
        by_contra! other
        simp [other] at entry

theorem visitConsumer_gives {r r' : Replacements} {consumer old : Nat} {new : Signal}
    (tallied : net.Tallied) (differ : old ≠ new.node) (inside : new.node < net.size)
    (run : Gives (visitConsumer old new r consumer) net r' net') :
    Visited old new r consumer net r' net' := by
  simp only [visitConsumer, gives_bind, gives_get] at run
  obtain ⟨_, _, ⟨rfl, rfl⟩, run⟩ := run
  split at run
  · rename_i skipped
    obtain ⟨rfl, rfl⟩ := gives_pure.1 run
    rw [Bool.or_eq_true] at skipped
    exact .passed (skipped.imp_right .inl)
  · rename_i taken
    simp only [Bool.or_eq_true, not_or, Bool.not_eq_true] at taken
    obtain ⟨awake, free⟩ := taken
    cases slot : (net.gate? consumer).filter (·.reads old) with
    | none =>
      simp only [slot, gives_pure] at run
      obtain ⟨rfl, rfl⟩ := run
      refine .passed (.inr (.inr fun feeds => ?_))
      obtain ⟨g, there, member⟩ := feeds_iff.1 feeds
      rw [there, Option.filter_some, Gate.reads_eq_true.2 member] at slot
      cases slot
    | some g =>
      simp only [slot, gives_bind] at run
      obtain ⟨answer, mid, redirected, run⟩ := run
      obtain ⟨there, reads⟩ := Option.filter_eq_some_iff.1 slot
      have was := Gate.reads_eq_true.1 reads
      rcases redirectConsumer_gives tallied there awake was differ inside redirected with
        ⟨s, rfl, target⟩ | ⟨h, rfl, shape, change, holders, announced⟩
      · obtain ⟨rfl, rfl⟩ := gives_pure.1 run
        exact .queued there awake free was target
      · obtain ⟨rfl, rfl⟩ := gives_pure.1 run
        exact .rewired there awake free was shape change holders announced

theorem replace_gives {r r' : Replacements} {old : Nat} {target : Signal}
    (run : Gives (replace r old target) net r' net') : Replaced r old target net r' net' := by
  simp only [replace, gives_bind, gives_ofExcept] at run
  obtain ⟨s, _, ⟨resolved, rfl⟩, new, mid, awakening, run⟩ := run
  obtain ⟨inside, awakened⟩ := liveTarget_gives awakening
  split at run
  · rename_i same
    obtain ⟨rfl, rfl⟩ := gives_pure.1 run
    exact .dropped resolved inside awakened same
  · rename_i differ
    simp only [gives_bind, gives_check, gives_get, require, ensure_eq_ok, decide_eq_true_eq] at run
    obtain ⟨_, _, ⟨present, rfl⟩, _, _, ⟨rfl, rfl⟩, run⟩ := run
    split at run
    · rename_i dead
      obtain ⟨rfl, rfl⟩ := gives_pure.1 run
      exact .recorded resolved inside awakened differ dead
    · rename_i awake
      simp only [gives_bind, gives_get, moveOutputs, gives_check, gives_update] at run
      obtain ⟨_, _, ⟨rfl, rfl⟩, r', swept, visits, _, _, ⟨_, _, ⟨-, rfl⟩, rfl⟩, run⟩ := run
      obtain ⟨_, _, ⟨rfl, rfl⟩, run⟩ := run
      have moved := Replaced.moved resolved inside awakened differ present (by simpa using awake)
        visits
      unfold settle at moved
      split at run
      · rename_i unread
        simp only [gives_bind, gives_update, gives_pure] at run
        obtain ⟨_, _, rfl, rfl, rfl⟩ := run
        rwa [if_pos unread] at moved
      · rename_i read
        obtain ⟨rfl, rfl⟩ := gives_pure.1 run
        rwa [if_neg read] at moved

end Edit

end LogicOpt
