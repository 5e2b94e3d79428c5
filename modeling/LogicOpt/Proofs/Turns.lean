import LogicOpt.Proofs.Settling

/-!
The turns of a substitution. A node is queued at most once, so it has one turn at most, and the
replacements done form chains. A chain closes only where a dead target is exchanged for a twin from
which the replacements done lead to the node whose turn it is; as long as none has closed, following
them comes to an end.
-/

namespace LogicOpt

open Relation Network

def Fault.isLoop : Fault → Bool
  | .endless => true
  | .cyclicReplacement _ => true
  | _ => false

namespace Replacements

def Yields (r : Replacements) (a b : Nat) : Prop := ∃ s, r.replaced[a]? = some s ∧ s.node = b

/-- No replaced node leads back to itself. -/
def Acyclic (r : Replacements) : Prop := ∀ n, ¬TransGen r.Yields n n

variable {r r' : Replacements}

theorem yields_congr (same : r'.replaced = r.replaced) : r'.Yields = r.Yields := by
  unfold Yields
  rw [same]

theorem acyclic_congr (same : r'.replaced = r.replaced) : r'.Acyclic ↔ r.Acyclic := by
  unfold Acyclic
  rw [yields_congr same]

theorem acyclic_start (old : Nat) (new : Signal) : (start old new).Acyclic := by
  intro n path
  obtain ⟨m, ⟨s, entry, -⟩, -⟩ := TransGen.head'_iff.1 path
  simp [start] at entry

theorem yields_record {n : Nat} {new : Signal} (absent : r.replaced[n]? = none) :
    (r.record n new).Yields = fun a b => r.Yields a b ∨ (a = n ∧ b = new.node) := by
  funext a b
  simp only [Yields, getElem?_record, eq_iff_iff]
  by_cases same : n = a
  · subst same
    simp [absent, eq_comm]
  · simp [same, Ne.symm same]

/-- A replacement closes a chain exactly if the replacements done lead from its target to it. -/
theorem acyclic_record {n : Nat} {new : Signal} (absent : r.replaced[n]? = none) :
    (r.record n new).Acyclic ↔ r.Acyclic ∧ ¬ReflTransGen r.Yields new.node n := by
  simp only [Acyclic, yields_record absent, transGen_insert, not_or, not_and, forall_and]
  refine and_congr_right fun _ => ⟨fun apart back => apart n .refl back, fun apart m there back => ?_⟩
  exact apart (back.trans there)

/-- Replacements that cannot be followed to an end contain a chain longer than the hops allowed. -/
theorem follow_fails {hops : Nat} {s : Signal} {fault : Fault}
    (run : follow r.replaced hops s = .error fault) :
    ∃ chain : List Nat, (s.node :: chain).IsChain r.Yields ∧
      (∀ m ∈ s.node :: chain, m ∈ r.replaced) ∧ chain.length = hops := by
  induction hops generalizing s with
  | zero =>
    unfold follow at run
    split at run
    · cases run
    · rename_i next entry
      refine ⟨[], .singleton _, fun m member => ?_, rfl⟩
      rw [List.mem_singleton.1 member]
      exact Std.TreeMap.isSome_getElem?_iff_mem.1 (by rw [entry]; rfl)
  | succ hops ih =>
    unfold follow at run
    split at run
    · cases run
    · rename_i next entry
      obtain ⟨chain, linked, known, length⟩ := ih (s := next.negateIf s.negated) run
      rw [Signal.node_negateIf] at linked known
      refine ⟨next.node :: chain, .cons_cons ⟨next, entry, rfl⟩ linked, ?_, by simp [length]⟩
      rw [List.forall_mem_cons]
      exact ⟨Std.TreeMap.isSome_getElem?_iff_mem.1 (by rw [entry]; rfl), known⟩

theorem exists_resolve (acyclic : r.Acyclic) (s : Signal) : ∃ answer, r.resolve s = .ok answer := by
  cases run : r.resolve s with
  | ok answer => exact ⟨answer, rfl⟩
  | error fault =>
    obtain ⟨chain, linked, known, length⟩ := follow_fails run
    have apart : (s.node :: chain).Nodup := by
      have ordered := List.isChain_iff_pairwise.1 (linked.imp fun _ _ => TransGen.single)
      refine ordered.imp ?_
      rintro a b path rfl
      exact acyclic a path
    have bound := (apart.subperm fun m member =>
      Std.TreeMap.mem_keys.2 (known m member)).length_le
    rw [Std.TreeMap.length_keys, List.length_cons] at bound
    omega

theorem exists_resolveAll (acyclic : r.Acyclic) (signals : List Signal) :
    ∃ answers, signals.mapM r.resolve = .ok answers := by
  induction signals with
  | nil => exact ⟨[], rfl⟩
  | cons s rest ih =>
    obtain ⟨answer, head⟩ := exists_resolve acyclic s
    obtain ⟨answers, tail⟩ := ih
    exact ⟨answer :: answers, by rw [List.mapM_cons, head, tail]; rfl⟩

inductive Grown (r : Replacements) : Replacements → Prop where
  | refl : Grown r r
  | enqueue {r' : Replacements} {n : Nat} (grown : Grown r r') (free : r'.handles n = false)
      (target : Signal) : Grown r (r'.enqueue n target)

theorem Grown.trans {r'' : Replacements} (first : Grown r r') (second : Grown r' r'') :
    Grown r r'' := by
  induction second with
  | refl => exact first
  | enqueue _ free target ih => exact ih.enqueue free target

theorem Grown.replaced (grown : Grown r r') : r'.replaced = r.replaced := by
  induction grown with
  | refl => rfl
  | enqueue _ _ _ ih => exact ih

def line (past : List Nat) (r : Replacements) : List Nat := past ++ r.queue.map (·.1)

/-- Nobody stands in line twice, and only the nodes whose turn was are replaced. -/
structure Lined (past : List Nat) (r : Replacements) : Prop where
  nodup : (r.line past).Nodup
  handled : ∀ n ∈ r.line past, r.handles n = true
  replaced : ∀ n s, r.replaced[n]? = some s → n ∈ past

namespace Lined

variable {past : List Nat}

theorem start (old : Nat) (new : Signal) : Lined [] (.start old new) where
  nodup := by simp [line, Replacements.start]
  handled := by simp [line, Replacements.start, handles]
  replaced := fun n s entry => by simp [Replacements.start] at entry

theorem grow (lined : Lined past r) (grown : Grown r r') : Lined past r' := by
  induction grown with
  | refl => exact lined
  | @enqueue mid n _ free target ih =>
    have line : (mid.enqueue n target).line past = mid.line past ++ [n] := by
      simp [line, enqueue]
    refine ⟨?_, fun m member => ?_, ih.replaced⟩
    · rw [line]
      refine nodup_append_singleton ih.nodup fun member => ?_
      rw [ih.handled n member] at free
      cases free
    · rw [handles_enqueue, Bool.or_eq_true, beq_iff_eq]
      rw [line, List.mem_append, List.mem_singleton] at member
      exact member.symm.imp Eq.symm (ih.handled m)

theorem pop {old : Nat} {target : Signal} {rest : List (Nat × Signal)} (lined : Lined past r)
    (queue : r.queue = (old, target) :: rest) :
    Lined (past ++ [old]) { r with queue := rest } ∧
      ({ r with queue := rest } : Replacements).replaced[old]? = none := by
  have line : Replacements.line (past ++ [old]) { r with queue := rest } = r.line past := by
    simp [Replacements.line, queue]
  refine ⟨⟨by rw [line]; exact lined.nodup, by rw [line]; exact lined.handled,
    fun n s entry => List.mem_append_left _ (lined.replaced n s entry)⟩, ?_⟩
  by_contra present
  obtain ⟨s, entry⟩ := Option.ne_none_iff_exists'.1 present
  have apart := lined.nodup
  rw [Replacements.line, queue, List.map_cons] at apart
  exact (List.nodup_append.1 apart).2.2 old (lined.replaced old s entry) old (by simp) rfl

theorem record {n : Nat} {new : Signal} (lined : Lined past r) (member : n ∈ past) :
    Lined past (r.record n new) := by
  refine ⟨lined.nodup, fun m there => ?_, fun m s entry => ?_⟩
  · rw [handles_record, lined.handled m there, Bool.or_true]
  · rw [getElem?_record] at entry
    split at entry
    · rename_i same
      rwa [← same]
    · exact lined.replaced m s entry

end Lined

end Replacements

namespace Edit

variable {net net' : Network} {r r' : Replacements} {old : Nat} {new : Signal}

theorem visitConsumer_grown {consumer : Nat}
    (run : Gives (visitConsumer old new r consumer) net r' net') : r.Grown r' := by
  simp only [visitConsumer, gives_bind, gives_get] at run
  obtain ⟨_, _, ⟨rfl, rfl⟩, run⟩ := run
  split at run
  · obtain ⟨rfl, -⟩ := gives_pure.1 run
    exact .refl
  · rename_i taken
    simp only [Bool.or_eq_true, not_or, Bool.not_eq_true] at taken
    split at run
    · obtain ⟨rfl, -⟩ := gives_pure.1 run
      exact .refl
    · obtain ⟨answer, mid, -, run⟩ := gives_bind.1 run
      cases answer with
      | none =>
        obtain ⟨rfl, -⟩ := gives_pure.1 run
        exact .refl
      | some target =>
        obtain ⟨rfl, -⟩ := gives_pure.1 run
        exact .enqueue .refl taken.2 target

theorem visits_grown {consumers : List Nat}
    (run : Gives (consumers.foldlM (visitConsumer old new) r) net r' net') : r.Grown r' :=
  foldlM_invariant (fun _ current _ => r.Grown current)
    (fun _ _ _ _ _ _ before visit => before.trans (visitConsumer_grown visit)) .refl run

end Edit

/-- A replacement whose turn has come, and the other replacements at that moment. -/
structure Turn where
  others : Replacements
  node : Nat
  target : Signal
  net : Network

namespace Turn

/-- A live twin stands in for the dead target. -/
def TakesTwin (t : Turn) : Prop :=
  ∃ s, t.others.resolve t.target = .ok s ∧ (⟨t.net, t.node, s.node⟩ : Encounter).takesTwin = true

/-- From the twin that stands in for the dead target, the replacements done lead to the node whose
    turn it is. -/
def LeadsBack (t : Turn) : Prop :=
  ∃ s twin, t.others.resolve t.target = .ok s ∧ t.net.isDead s.node = true ∧
    t.net.liveTwin? s.node = some twin ∧ TransGen t.others.Yields twin t.node

variable {t : Turn} {s : Signal}

theorem takesTwin_iff (resolved : t.others.resolve t.target = .ok s) :
    t.TakesTwin ↔ (⟨t.net, t.node, s.node⟩ : Encounter).takesTwin = true := by
  simp [TakesTwin, resolved]

theorem leadsBack_iff (resolved : t.others.resolve t.target = .ok s) :
    t.LeadsBack ↔ ∃ twin, t.net.isDead s.node = true ∧ t.net.liveTwin? s.node = some twin ∧
      TransGen t.others.Yields twin t.node := by
  simp [LeadsBack, resolved]

theorem LeadsBack.takesTwin (back : t.LeadsBack) : t.TakesTwin := by
  obtain ⟨s, twin, resolved, dead, found, -⟩ := back
  rw [takesTwin_iff resolved]
  simp [Encounter.takesTwin, Encounter.dead, dead, found]

end Turn

/-- The substitution of `new` for `old` has had these turns, and these replacements are left in this
    network. -/
inductive Underway (net : Network) (old : Nat) (new : Signal) :
    List Turn → Replacements → Network → Prop where
  | start : Underway net old new [] (.start old new) net
  | turn {turns : List Turn} {r r' : Replacements} {current next : Network} {node : Nat}
      {target : Signal} {rest : List (Nat × Signal)} (before : Underway net old new turns r current)
      (queue : r.queue = (node, target) :: rest)
      (run : Edit.Gives (Edit.replace { r with queue := rest } node target) current r' next) :
      Underway net old new (turns ++ [⟨{ r with queue := rest }, node, target, current⟩]) r' next

section Turns

variable {net net' current : Network} {old : Nat} {new : Signal} {turns : List Turn}
  {r r' : Replacements}

theorem Replaced.lined {past : List Nat} {target : Signal} (lined : r.Lined past)
    (member : old ∈ past) (replaced : Replaced r old target net r' net') : r'.Lined past := by
  cases replaced with
  | dropped => exact lined
  | recorded => exact lined.record member
  | moved resolved inside awakened differ present awake visits =>
    exact (lined.grow (Edit.visits_grown visits)).record member

theorem Underway.lined (underway : Underway net old new turns r current) :
    r.Lined (turns.map (·.node)) := by
  induction underway with
  | start => exact .start old new
  | turn before queue run ih =>
    rw [List.map_append]
    exact (Edit.replace_gives run).lined (ih.pop queue).1 (by simp)

theorem Awakened.leads_iff {target s : Signal} {node : Nat} (awakened : Awakened net s new net')
    (resolved : r.resolve target = .ok s) (differ : node ≠ new.node) :
    ReflTransGen r.Yields new.node node ↔ (⟨r, node, target, net⟩ : Turn).LeadsBack := by
  have stays : ReflTransGen r.Yields s.node node → s.node = node := by
    intro path
    refine path.cases_head.resolve_right ?_
    rintro ⟨m, ⟨t, entry, -⟩, -⟩
    rw [(Replacements.follow_spec resolved).1] at entry
    cases entry
  rw [Turn.leadsBack_iff resolved]
  cases awakened with
  | live awake =>
    refine ⟨fun path => absurd (stays path).symm differ, ?_⟩
    rintro ⟨twin, dead, -⟩
    exact absurd dead (by simp [awake])
  | twin dead found =>
    constructor
    · intro path
      exact ⟨_, dead, found, (reflTransGen_iff_eq_or_transGen.1 path).resolve_left differ⟩
    · rintro ⟨twin, -, found', path⟩
      cases found.symm.trans found'
      exact path.to_reflTransGen
  | revived dead alone =>
    refine ⟨fun path => absurd (stays path).symm differ, ?_⟩
    rintro ⟨twin, -, found, -⟩
    cases alone.symm.trans found

/-- A replacement closes a chain exactly if it takes a twin that leads back. -/
theorem Replaced.acyclic_iff {target : Signal} (absent : r.replaced[old]? = none)
    (replaced : Replaced r old target net r' net') :
    r'.Acyclic ↔ r.Acyclic ∧ ¬(⟨r, old, target, net⟩ : Turn).LeadsBack := by
  cases replaced with
  | @dropped s new net' resolved inside awakened same =>
    -- The node itself is not replaced yet, so nothing leads back from it.
    refine ⟨fun acyclic => ⟨acyclic, ?_⟩, And.left⟩
    rw [Turn.leadsBack_iff resolved]
    rintro ⟨twin, dead, found, path⟩
    cases awakened with
    | live awake => exact absurd dead (by simp [awake])
    | twin _ found' =>
      cases found.symm.trans found'
      obtain ⟨m, ⟨t, entry, -⟩, -⟩ := TransGen.head'_iff.1 path
      rw [show twin = old from same.symm, absent] at entry
      cases entry
    | revived _ alone => cases alone.symm.trans found
  | recorded resolved inside awakened differ dead =>
    rw [Replacements.acyclic_record absent, awakened.leads_iff resolved differ]
  | moved resolved inside awakened differ present awake visits =>
    have same := (Edit.visits_grown visits).replaced
    rw [Replacements.acyclic_record (by rw [same]; exact absent), Replacements.acyclic_congr same,
      Replacements.yields_congr same, awakened.leads_iff resolved differ]

theorem Underway.acyclic_iff (underway : Underway net old new turns r current) :
    r.Acyclic ↔ ∀ t ∈ turns, ¬t.LeadsBack := by
  induction underway with
  | start => simpa using Replacements.acyclic_start old new
  | turn before queue run ih =>
    rw [(Edit.replace_gives run).acyclic_iff (before.lined.pop queue).2, List.forall_mem_append,
      ← ih, List.forall_mem_singleton]
    rfl

end Turns

theorem isLoop_of_ensure {condition : Bool} {fault failed : Fault} (harmless : fault.isLoop = false)
    (run : ensure condition fault = .error failed) : failed.isLoop = false := by
  unfold ensure at run
  split at run
  · cases run
  · cases run
    exact harmless

namespace Edit

variable {α β σ : Type} {net net' : Network}

def LoopFree (op : Edit α) : Prop :=
  ∀ net fault net', op net = .error fault net' → fault.isLoop = false

namespace LoopFree

theorem pure (a : α) : LoopFree (pure a) := by
  intro net fault net' run
  cases run

theorem get : LoopFree (get : Edit Network) := by
  intro net fault net' run
  cases run

theorem update (f : Network → Network) : LoopFree (update f) := by
  intro net fault net' run
  cases run

theorem bind {op : Edit α} {f : α → Edit β} (head : LoopFree op)
    (tail : ∀ net a net', Gives op net a net' → LoopFree (f a)) : LoopFree (op >>= f) := by
  intro net fault net' run
  cases ran : op net with
  | ok a mid =>
    rw [Gives.bind_eq ran] at run
    exact tail net a mid ran mid fault net' run
  | error failed mid =>
    rw [bind_error ran] at run
    cases run
    exact head net _ _ ran

theorem ofExcept {result : Except Fault α}
    (harmless : ∀ fault, result = .error fault → fault.isLoop = false) :
    LoopFree (ofExcept result) := by
  intro net fault net' run
  cases result with
  | ok a => cases run
  | error failed =>
    cases run
    exact harmless _ rfl

theorem check {test : Network → Except Fault α}
    (harmless : ∀ net fault, test net = .error fault → fault.isLoop = false) :
    LoopFree (check test) :=
  bind get fun _ net _ _ => ofExcept (harmless net)

theorem forM {f : α → Edit PUnit} {xs : List α} (step : ∀ a, LoopFree (f a)) :
    LoopFree (xs.forM f) := by
  induction xs with
  | nil => exact pure _
  | cons a rest ih =>
    rw [List.forM_eq_forM, List.forM_cons]
    exact bind (step a) fun _ _ _ _ => ih

theorem foldlM {f : σ → α → Edit σ} (holds : σ → Prop)
    (step : ∀ s a, holds s → LoopFree (f s a))
    (keeps : ∀ s a net s' net', holds s → Gives (f s a) net s' net' → holds s') {xs : List α} {s : σ}
    (start : holds s) : LoopFree (xs.foldlM f s) := by
  induction xs generalizing s with
  | nil => exact pure s
  | cons a rest ih =>
    rw [List.foldlM_cons]
    exact bind (step s a start) fun net s' net' run => ih (keeps s a net s' net' start run)

end LoopFree

theorem loopFree_checkLevel (level : Nat) : LoopFree (ofExcept (Network.checkLevel level)) :=
  .ofExcept fun _ => isLoop_of_ensure rfl

theorem loopFree_createGate (kind : GateKind) (fanins : List Signal) :
    LoopFree (createGate kind fanins) := by
  have fanin (f : Signal) : LoopFree (check (·.checkFanin f)) := by
    refine .check fun net fault run => ?_
    unfold checkFanin at run
    cases inside : net.require f.node with
    | error failed =>
      rw [inside] at run
      cases run
      exact isLoop_of_ensure rfl inside
    | ok u =>
      rw [inside] at run
      exact isLoop_of_ensure rfl run
  have share (g : Gate Signal) : LoopFree (shareGate g) := by
    refine LoopFree.get.bind fun _ net _ _ => ?_
    split
    · exact (LoopFree.check fun _ _ => isLoop_of_ensure rfl).bind fun _ _ _ _ => .pure _
    · refine (loopFree_checkLevel _).bind fun _ _ _ _ => (LoopFree.update _).bind fun _ _ _ _ => ?_
      exact (LoopFree.update _).bind fun _ _ _ _ => .pure _
  refine (LoopFree.forM fanin).bind fun _ _ _ _ => ?_
  refine (LoopFree.ofExcept fun fault run => ?_).bind fun _ normal _ _ => ?_
  · unfold GateKind.normalize Gate.ofFanins at run
    split at run <;> cases run
    rfl
  · cases normal with
    | trivial s => exact .pure s
    | gate g negated => exact (share g).bind fun _ _ _ _ => .pure _

theorem loopFree_liveTarget (s : Signal) : LoopFree (liveTarget s) := by
  have restore (n : Nat) : LoopFree (reviveGate n) := by
    refine (LoopFree.update _).bind fun _ _ _ _ => LoopFree.get.bind fun _ _ _ _ => ?_
    exact (loopFree_checkLevel _).bind fun _ _ _ _ => .update _
  refine LoopFree.get.bind fun _ net _ _ => ?_
  refine (LoopFree.ofExcept fun _ => isLoop_of_ensure rfl).bind fun _ _ _ _ => ?_
  split
  · split
    · exact .pure _
    · refine (LoopFree.get.bind fun _ _ _ _ => ?_).bind fun _ _ _ _ => .pure _
      exact .forM restore
  · exact .pure _

theorem loopFree_of_ok {result : Except Fault α} (ok : ∃ a, result = .ok a) :
    LoopFree (ofExcept result) := by
  obtain ⟨a, rfl⟩ := ok
  exact .pure a

variable {r : Replacements}

theorem loopFree_visitConsumer (acyclic : r.Acyclic) (old : Nat) (new : Signal) (consumer : Nat) :
    LoopFree (visitConsumer old new r consumer) := by
  have redirect (g : Gate Signal) : LoopFree (redirectConsumer r consumer g old new) := by
    unfold redirectConsumer
    split
    · exact .pure _
    · refine LoopFree.get.bind fun _ net _ _ => ?_
      split
      · exact .pure _
      · split
        · refine (loopFree_of_ok (r.exists_resolveAll acyclic _)).bind fun _ _ _ _ => ?_
          exact (loopFree_createGate _ _).bind fun _ _ _ _ => .pure _
        · refine (LoopFree.check fun _ _ => isLoop_of_ensure rfl).bind fun _ _ _ _ => ?_
          refine (LoopFree.update _).bind fun _ _ _ _ => (LoopFree.update _).bind fun _ _ _ _ => ?_
          exact .pure _
  refine LoopFree.get.bind fun _ net _ _ => ?_
  split
  · exact .pure _
  · split
    · exact .pure _
    · refine (redirect _).bind fun _ answer _ _ => ?_
      split <;> exact .pure _

theorem loopFree_replace (acyclic : r.Acyclic) (old : Nat) (target : Signal) :
    LoopFree (replace r old target) := by
  refine (loopFree_of_ok (r.exists_resolve acyclic target)).bind fun _ _ _ _ => ?_
  refine (loopFree_liveTarget _).bind fun _ new _ _ => ?_
  split
  · exact .pure _
  · refine (LoopFree.check fun _ _ => isLoop_of_ensure rfl).bind fun _ _ _ _ => ?_
    refine LoopFree.get.bind fun _ net _ _ => ?_
    split
    · exact .pure _
    · refine LoopFree.get.bind fun _ _ _ _ => ?_
      refine (LoopFree.foldlM Replacements.Acyclic
        (fun r consumer acyclic => loopFree_visitConsumer acyclic old new consumer)
        (fun r _ _ r' _ acyclic run =>
          (Replacements.acyclic_congr (visitConsumer_grown run).replaced).2 acyclic)
        acyclic).bind fun _ _ _ _ => ?_
      refine LoopFree.bind ?_ fun _ _ _ _ => LoopFree.get.bind fun _ _ _ _ => ?_
      · exact (LoopFree.check fun _ _ => isLoop_of_ensure rfl).bind fun _ _ _ _ => .update _
      · split
        · exact (LoopFree.update _).bind fun _ _ _ _ => .pure _
        · exact .pure _

theorem replaceAll_nil {steps : Nat} (queue : r.queue = []) : replaceAll steps r = pure () := by
  rw [replaceAll, queue]

theorem replaceAll_zero {old : Nat} {target : Signal} {rest : List (Nat × Signal)}
    (queue : r.queue = (old, target) :: rest) : replaceAll 0 r = throw .endless := by
  rw [replaceAll, queue]

theorem replaceAll_succ {steps old : Nat} {target : Signal} {rest : List (Nat × Signal)}
    (queue : r.queue = (old, target) :: rest) :
    replaceAll (steps + 1) r = replace { r with queue := rest } old target >>= replaceAll steps := by
  rw [replaceAll, queue]

theorem replaceAll_stops {start : Network} {old : Nat} {new : Signal} {steps : Nat} {turns : List Turn}
    {fault : Fault} (underway : Underway start old new turns r net)
    (run : replaceAll steps r net = .error fault net') :
    ∃ later r' next, Underway start old new (turns ++ later) r' next ∧
      (∀ t ∈ later, t.TakesTwin → ∃ e ∈ encounters steps r net, e.takesTwin = true) ∧
      ∃ node target rest, r'.queue = (node, target) :: rest ∧
        ((later.length = steps ∧ fault = .endless) ∨
          replace { r' with queue := rest } node target next = .error fault net') := by
  induction steps generalizing turns r net with
  | zero =>
    cases queue : r.queue with
    | nil =>
      rw [replaceAll_nil queue] at run
      cases run
    | cons p rest =>
      obtain ⟨node, target⟩ := p
      rw [replaceAll_zero queue] at run
      cases run
      exact ⟨[], r, _, by simpa using underway, by simp, node, target, rest, queue,
        .inl ⟨rfl, rfl⟩⟩
  | succ steps ih =>
    cases queue : r.queue with
    | nil =>
      rw [replaceAll_nil queue] at run
      cases run
    | cons p rest =>
      obtain ⟨node, target⟩ := p
      rw [replaceAll_succ queue] at run
      cases ran : replace { r with queue := rest } node target net with
      | error failed mid =>
        rw [bind_error ran] at run
        cases run
        exact ⟨[], r, net, by simpa using underway, by simp, node, target, rest, queue, .inr ran⟩
      | ok r' mid =>
        rw [Gives.bind_eq ran] at run
        obtain ⟨later, last, next, after, twins, node', target', rest', queue', stop⟩ :=
          ih (underway.turn queue ran) run
        obtain ⟨s, resolved⟩ := (replace_gives ran).resolved
        refine ⟨⟨{ r with queue := rest }, node, target, net⟩ :: later, last, next,
          by simpa using after, ?_, node', target', rest', queue',
          stop.imp_left fun ⟨length, endless⟩ => ⟨by simp [length], endless⟩⟩
        rw [encounters_of_step queue resolved ran, List.forall_mem_cons]
        constructor
        · intro taken
          exact ⟨_, List.mem_cons_self, (Turn.takesTwin_iff resolved).1 taken⟩
        · intro t member taken
          obtain ⟨e, there, twin⟩ := twins t member taken
          exact ⟨e, List.mem_cons_of_mem _ there, twin⟩

end Edit

end LogicOpt
