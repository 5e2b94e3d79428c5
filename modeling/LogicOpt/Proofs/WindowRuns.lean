import LogicOpt.Proofs.Candidates
import LogicOpt.Proofs.ConeRuns
import LogicOpt.Proofs.DivisorPools
import LogicOpt.Proofs.Tables

namespace LogicOpt

open Network

variable {net : Network}

theorem TruthTable.checkVars_eq_ok {n : Nat} : checkVars n = .ok () ↔ n < 64 := by
  rw [checkVars, ensure_eq_ok, decide_eq_true_eq]

namespace Window

variable {numVars : Nat} {w : Window numVars}

def Valid (w : Window numVars) : Prop := ∀ n i, w.slot? n = some i → i < w.slots.size

def Holds (w : Window numVars) (n : Nat) : Prop := ∃ f, w.nodeFunction? n = some f

theorem Valid.holds_iff (valid : w.Valid) {n : Nat} : w.Holds n ↔ (w.slot? n).isSome = true := by
  constructor
  · rintro ⟨f, read⟩
    obtain ⟨i, slot, -⟩ := Option.bind_eq_some_iff.1 read
    simp [slot]
  · intro known
    obtain ⟨i, slot⟩ := Option.isSome_iff_exists.1 known
    have inside := valid n i slot
    simp [Holds, nodeFunction?, slot, function?, inside]

theorem Valid.push (valid : w.Valid) (n : Nat) (slot : WindowSlot numVars) :
    (w.push n slot).Valid := by
  intro k i entry
  rw [slot?_push] at entry
  simp only [Window.push, Array.size_push]
  split at entry
  · cases entry
    exact Nat.lt_succ_self _
  · exact Nat.lt_succ_of_lt (valid k i entry)

theorem Valid.holds_push (valid : w.Valid) {n k : Nat} (slot : WindowSlot numVars) :
    (w.push n slot).Holds k ↔ k = n ∨ w.Holds k := by
  rw [(valid.push n slot).holds_iff, valid.holds_iff, slot?_push]
  split
  · rename_i same
    simp [same]
  · rename_i other
    simp [Ne.symm other]

theorem valid_ofLeaves (leaves : List Nat) :
    (ofLeaves leaves).Valid ∧ ∀ n, (ofLeaves leaves).Holds n ↔ n = 0 ∨ n ∈ leaves := by
  have pushed (entries : List (Nat × Nat)) (w : Window leaves.length) (valid : w.Valid) :
      let last := entries.foldl (fun w e => w.push e.1 ⟨projection leaves.length e.2, false⟩) w
      last.Valid ∧ ∀ n, last.Holds n ↔ w.Holds n ∨ n ∈ entries.map (·.1) := by
    induction entries generalizing w with
    | nil => exact ⟨valid, by simp⟩
    | cons e rest ih =>
      obtain ⟨last, all⟩ := ih _ (valid.push e.1 ⟨projection leaves.length e.2, false⟩)
      refine ⟨last, fun n => (all n).trans ?_⟩
      rw [valid.holds_push, List.map_cons, List.mem_cons]
      tauto
  have empty : (⟨#[], ∅⟩ : Window leaves.length).Valid := fun n i entry => by simp [slot?] at entry
  obtain ⟨last, all⟩ := pushed leaves.zipIdx _ (empty.push 0 ⟨0, false⟩)
  refine ⟨last, fun n => (all n).trans ?_⟩
  have none : ¬(⟨#[], ∅⟩ : Window leaves.length).Holds n := by
    rw [empty.holds_iff]
    simp [slot?]
  rw [empty.holds_push, List.zipIdx_map_fst]
  tauto

variable {n : Nat} {normalize : Bool}

theorem Valid.addNodes_of_holds (valid : w.Valid) (holds : w.Holds n) (rest : List Nat) :
    addNodes net normalize w (n :: rest) = addNodes net normalize w rest := by
  rw [addNodes, if_pos (valid.holds_iff.1 holds)]

theorem Valid.addNodes_of_fanins (normalize : Bool) (valid : w.Valid) (new : ¬w.Holds n)
    (gate : net.isGate n = true) (fanins : ∀ m, net.Feeds m n → w.Holds m) : ∃ slot, ∀ rest,
      addNodes net normalize w (n :: rest) = addNodes net normalize (w.push n slot) rest := by
  obtain ⟨g, body⟩ := Option.isSome_iff_exists.1 gate
  have operands : ∀ f ∈ g.operands,
      ∃ x, (w.nodeFunction? f.node).map (GateValue.complementIf · f.negated) = some x := by
    intro f member
    obtain ⟨table, read⟩ := fanins f.node (feeds_of_gate? body (Gate.mem_nodes.2 ⟨f, member, rfl⟩))
    exact ⟨_, by rw [read]; rfl⟩
  obtain ⟨h, read⟩ := Gate.exists_mapM operands
  rw [valid.holds_iff] at new
  refine ⟨.ofFunction normalize h.eval, fun rest => ?_⟩
  rw [addNodes, if_neg new, if_pos (lt_size_of_gate? body), body]
  dsimp only
  rw [read]
  rfl

theorem Valid.addNodes_of_missing (valid : w.Valid) (new : ¬w.Holds n)
    (gate : net.isGate n = true) {m : Nat} (feeds : net.Feeds m n) (missing : ¬w.Holds m)
    (rest : List Nat) :
    addNodes net normalize w (n :: rest) = .ok (.error (.windowIncomplete n)) := by
  obtain ⟨g, body⟩ := Option.isSome_iff_exists.1 gate
  have unread : g.mapM (fun f =>
      (w.nodeFunction? f.node).map (GateValue.complementIf · f.negated)) = none := by
    refine Option.eq_none_iff_forall_ne_some.2 fun h read => missing ?_
    obtain ⟨g', slot, reads⟩ := feeds_iff.1 feeds
    rw [body] at slot
    cases slot
    obtain ⟨f, member, rfl⟩ := Gate.mem_nodes.1 reads
    obtain ⟨x, found⟩ := Gate.exists_of_mapM_some read f member
    obtain ⟨table, there, -⟩ := Option.map_eq_some_iff.1 found
    exact ⟨table, there⟩
  rw [valid.holds_iff] at new
  rw [addNodes, if_neg new, if_pos (lt_size_of_gate? body), body]
  dsimp only
  rw [unread]

theorem exists_addNodes {nodes : List Nat} {known : Nat → Prop} (normalize : Bool)
    (ordered : net.InOrder known nodes) (valid : w.Valid) (held : ∀ m, known m → w.Holds m)
    (gates : ∀ n ∈ nodes, net.isGate n = true ∨ w.Holds n) :
    ∃ w', addNodes net normalize w nodes = .ok (.ok w') ∧
      ∀ m, w.Holds m ∨ m ∈ nodes → w'.Holds m := by
  induction nodes generalizing w known with
  | nil => exact ⟨w, rfl, by simp⟩
  | cons n rest ih =>
    rw [List.forall_mem_cons] at gates
    by_cases here : w.Holds n
    · have met (m : Nat) (earlier : known m ∨ m = n) : w.Holds m := by
        rcases earlier with earlier | rfl
        · exact held m earlier
        · exact here
      obtain ⟨w', ran, all⟩ := ih ordered.2 valid met gates.2
      refine ⟨w', by rwa [valid.addNodes_of_holds here], fun m member => all m ?_⟩
      rw [List.mem_cons] at member
      rcases member with earlier | rfl | later
      · exact .inl earlier
      · exact .inl here
      · exact .inr later
    · obtain ⟨slot, added⟩ := valid.addNodes_of_fanins normalize here
        (gates.1.resolve_right here) fun m feeds => held m (ordered.1 m feeds)
      have kept {m : Nat} (earlier : m = n ∨ w.Holds m) : (w.push n slot).Holds m :=
        (valid.holds_push slot).2 earlier
      obtain ⟨w', ran, all⟩ := ih ordered.2 (valid.push n slot)
        (fun m earlier => kept (earlier.symm.imp_right (held m)))
        fun m member => (gates.2 m member).imp_right fun holds => kept (.inr holds)
      refine ⟨w', by rwa [added], fun m member => all m ?_⟩
      rw [List.mem_cons] at member
      rcases member with earlier | rfl | later
      · exact .inl (kept (.inr earlier))
      · exact .inl (kept (.inl rfl))
      · exact .inr later

theorem exists_simulate {leaves nodes : List Nat} (normalize : Bool) (few : leaves.length < 64)
    (ordered : net.InOrder (fun m => m = 0 ∨ m ∈ leaves) nodes)
    (gates : ∀ n ∈ nodes, n = 0 ∨ net.isGate n = true) :
    ∃ w, simulate net leaves nodes normalize = .ok (.ok w) ∧
      ∀ m, (m = 0 ∨ m ∈ leaves) ∨ m ∈ nodes → w.Holds m := by
  obtain ⟨valid, held⟩ := valid_ofLeaves leaves
  obtain ⟨w, ran, all⟩ := exists_addNodes normalize ordered valid (fun m => (held m).2)
    fun n member => (gates n member).symm.imp_right fun zero => (held n).2 (.inl zero)
  have room := TruthTable.checkVars_eq_ok.2 few
  refine ⟨w, ?_, fun m known => all m (known.imp_left (held m).2)⟩
  rw [simulate, room]
  exact ran

end Window

theorem Window.exists_mapM {numVars : Nat} {w : Window numVars} {nodes : List Nat}
    (held : ∀ n ∈ nodes, w.Holds n) : ∃ functions, nodes.mapM w.nodeFunction? = some functions := by
  induction nodes with
  | nil => exact ⟨[], rfl⟩
  | cons n rest ih =>
    rw [List.forall_mem_cons] at held
    obtain ⟨f, read⟩ := held.1
    obtain ⟨functions, later⟩ := ih held.2
    exact ⟨f :: functions, by simp [read, later]⟩

theorem dontCares_outcome {leaves : List Nat} {windowSize maxFanout : Nat}
    {found : Except PassError Cut} {c : Cutter} (inPlace : net.InPlace) (acyclic : net.Acyclic)
    (inside : ∀ n ∈ leaves, n < net.size) (few : leaves.length < 64)
    (grown : (Cutter.ofLimits windowSize maxFanout).run net leaves = .ok (found, c))
    (small : ∀ cut, found = .ok cut → cut.leaves.length < 64) :
    match found with
    | .error _ => dontCares net leaves windowSize maxFanout = .ok 0
    | .ok cut => ∃ nodes window functions,
        Window.simulate net cut.leaves nodes false = .ok (.ok window) ∧
        leaves.mapM window.nodeFunction? = some functions ∧
        dontCares net leaves windowSize maxFanout =
          .ok (~~~(occurring functions.reverse (BitVec.allOnes _)).setWidth _) := by
  have room := TruthTable.checkVars_eq_ok.2 few
  cases found with
  | error cause => simp [dontCares, room, grown, bind, Except.bind, pure, Except.pure]
  | ok cut =>
    obtain ⟨below, separates, -⟩ := Cutter.run_sound inPlace grown
    have sorted := orderFrom_of_acyclic acyclic leaves cut.leaves.contains
    have listed := listed_postorder net cut.leaves.contains leaves
    have gates := separates.gate_of_found inPlace acyclic inside listed.source
      fun m member leaf => by
        have kept := listed.kept m member
        simp [leaf] at kept
    obtain ⟨window, simulated, held⟩ := Window.exists_simulate false (small cut rfl)
      ((listed.ordered acyclic).mono fun _ _ m _ skipped => .inr (by simpa using skipped)) gates
    obtain ⟨functions, read⟩ := Window.exists_mapM fun n member =>
      held n ((listed.reached n member).imp_left fun skipped => .inr (by simpa using skipped))
    refine ⟨_, window, functions, simulated, read, ?_⟩
    simp [dontCares, room, grown, sorted, simulated, Window.leafAssignments?, read, bind,
      Except.bind, pure, Except.pure]

theorem exists_dontCares {leaves : List Nat} {windowSize : Nat} (maxFanout : Nat)
    (inPlace : net.InPlace) (acyclic : net.Acyclic) (inside : ∀ n ∈ leaves, n < net.size)
    (few : leaves.length < 64) (small : windowSize < 64) :
    ∃ mask, dontCares net leaves windowSize maxFanout = .ok mask := by
  have limit : (Cutter.ofLimits windowSize maxFanout).maxLeaves < Cutter.capacityLimit := by
    simp only [Cutter.ofLimits, Cutter.capacityLimit]
    omega
  obtain ⟨found, marks, grown⟩ := Cutter.exists_run _ leaves inPlace limit inside
  have outcome := dontCares_outcome inPlace acyclic inside few grown fun cut same => by
    rw [same] at grown
    exact Nat.lt_of_le_of_lt (Cutter.run_sound inPlace grown).2.2 small
  cases found with
  | error cause => exact ⟨_, outcome⟩
  | ok cut =>
    obtain ⟨_, _, _, -, -, run⟩ := outcome
    exact ⟨_, run⟩

structure Params.Fitting (params : Params) : Prop where
  some_leaves : 1 ≤ params.maxPis
  few_leaves : params.maxPis ≤ maxWindowVars
  divisors : params.maxPis ≤ params.maxDivisors
  window : params.useDontCares = true →
    params.maxPis ≤ params.windowSize ∧ params.windowSize ≤ maxWindowVars

theorem Params.fitting_of_valid {params : Params} (valid : params.validate = .ok ()) :
    params.Fitting := by
  have none : params.issue? = none := by
    unfold validate at valid
    split at valid
    · cases valid
    · assumption
  simp only [issue?] at none
  constructor <;> grind

namespace Edit

/-- What is handed on to simulate the window of a root: few leaves, and nodes in order. -/
structure WindowReady (net : Network) (params : Params) (leaves cone divisors : List Nat) : Prop where
  inside : ∀ n ∈ leaves, n < net.size
  few : leaves.length ≤ params.maxPis
  pool : ∃ rest, divisors = leaves ++ rest ∧
    net.InOrder (fun m => m = 0 ∨ m ∈ leaves) (rest ++ cone) ∧
    ∀ n ∈ rest ++ cone, net.isGate n = true

theorem exists_findDivisors {params : Params} {s : PassState} {root : Nat} (orderly : net.Orderly)
    (acyclic : net.Acyclic) (live : net.isLiveGate root = true)
    (limit : s.cutter.maxLeaves = params.maxPis) (small : params.maxPis < Cutter.capacityLimit) :
    ∃ answer s', Gives (findDivisors params s root) net (answer, s') net ∧
      s'.cutter.maxLeaves = params.maxPis ∧ ∀ leaves cone divisors,
        answer = some (leaves, cone, divisors) →
          WindowReady net params leaves cone.nodes divisors := by
  obtain ⟨cut, marks, grown⟩ := Cutter.exists_run s.cutter [root] orderly.inPlace
    (by rw [limit]; exact small) (by simpa using lt_of_isLiveGate live)
  simp only [findDivisors, gives_bind, gives_check]
  cases cut with
  | error cause =>
    exact ⟨_, _, ⟨_, _, ⟨grown, rfl⟩, gives_pure.2 ⟨rfl, rfl⟩⟩, limit, by simp⟩
  | ok cut =>
    obtain ⟨-, separates, length⟩ := Cutter.run_sound orderly.inPlace grown
    have reached := Cutter.reaches_of_run orderly.inPlace grown
    have slots : ∀ n ∈ cut.leaves, n < net.size := fun n member => (reached n member).1
    by_cases leaf : root ∈ cut.leaves
    · refine ⟨none, { s with cutter := { s.cutter with marks } }, ⟨_, _, ⟨grown, rfl⟩, ?_⟩, limit,
        by simp⟩
      rw [gives_ite]
      exact .inl ⟨by simpa using leaf, gives_pure.2 ⟨rfl, rfl⟩⟩
    · have apart : ¬cut.leaves.contains root = true := by simpa using leaf
      obtain ⟨cone, cones, _, found, released⟩ :=
        exists_runCone s.cones orderly.balanced acyclic live slots
      have free := fanoutFree_of_releasing orderly.balanced live released.state
      by_cases gain : cone.gain = 0
      · refine ⟨none, { s with cutter := { s.cutter with marks }, cones }, ⟨_, _, ⟨grown, rfl⟩, ?_⟩,
          limit, by simp⟩
        simp only [gives_ite, gives_pure, gives_bind]
        exact .inr ⟨apart, _, _, found, .inl ⟨gain, rfl, rfl⟩⟩
      · obtain ⟨pool, finder, ran, whole⟩ := DivisorFinder.exists_run s.divisors params orderly
          acyclic free separates leaf reached released.ordered
        let searched : PassState :=
          { s with cutter := { s.cutter with marks }, cones, divisors := finder }
        cases pool with
        | error cause =>
          refine ⟨none, searched.count .skipBudget, ⟨_, _, ⟨grown, rfl⟩, ?_⟩, limit, by simp⟩
          simp only [gives_ite, gives_pure, gives_bind, gives_check]
          exact .inr ⟨apart, _, _, found, .inr ⟨gain, _, _, ⟨ran, rfl⟩, gives_pure.2 ⟨rfl, rfl⟩⟩⟩
        | ok divisors =>
          refine ⟨some (cut.leaves, cone, divisors),
            searched.count (·.window cut.leaves.length divisors.length), ⟨_, _, ⟨grown, rfl⟩, ?_⟩,
            limit, fun leaves cone divisors same => ?_⟩
          · simp only [gives_ite, gives_pure, gives_bind, gives_check]
            exact .inr ⟨apart, _, _, found, .inr ⟨gain, _, _, ⟨ran, rfl⟩, gives_pure.2 ⟨rfl, rfl⟩⟩⟩
          · cases same
            exact ⟨slots, by rw [← limit]; exact length, whole _ rfl⟩

theorem exists_simulateRoot {params : Params} (root : Nat) {leaves divisors : List Nat} {cone : Cone}
    (inPlace : net.InPlace) (acyclic : net.Acyclic) (valid : params.validate = .ok ())
    (ready : WindowReady net params leaves cone.nodes divisors) :
    ∃ answer, Gives (simulateRoot params root leaves cone divisors) net answer net := by
  obtain ⟨rest, rfl, ordered, gates⟩ := ready.pool
  have few : leaves.length < 64 := by
    have := ready.few
    have := (Params.fitting_of_valid valid).few_leaves
    simp only [Params.maxWindowVars] at this
    omega
  obtain ⟨window, simulated, held⟩ := Window.exists_simulate true few ordered
    fun n member => .inr (gates n member)
  have nodes : (leaves ++ rest).drop leaves.length = rest := by simp
  have masked : ∃ mask, params.useDontCares = true →
      dontCares net leaves params.windowSize params.maxFanoutToExpand = .ok mask := by
    by_cases used : params.useDontCares = true
    · obtain ⟨mask, ran⟩ := exists_dontCares params.maxFanoutToExpand inPlace acyclic
        ready.inside few
        (Nat.lt_of_le_of_lt ((Params.fitting_of_valid valid).window used).2 (by decide))
      exact ⟨mask, fun _ => ran⟩
    · exact ⟨0, fun again => absurd again used⟩
  obtain ⟨mask, masked⟩ := masked
  have all : ((leaves ++ rest).filterMap window.nodeFunction?).length = (leaves ++ rest).length := by
    refine List.filterMap_length_eq_length.2 fun d member => ?_
    obtain ⟨f, read⟩ := held d (by
      rcases List.mem_append.1 member with leaf | later
      · exact .inl (.inr leaf)
      · exact .inr (List.mem_append_left _ later))
    simp [read]
  let functions := (leaves ++ rest).filterMap window.nodeFunction?
  simp only [simulateRoot, gives_bind, gives_check, nodes]
  cases target : window.nodeFunction? root with
  | none =>
    refine ⟨none, _, _, ⟨simulated, rfl⟩, ?_⟩
    simp only [target, gives_ite, gives_bind, gives_check, gives_pure]
    by_cases used : params.useDontCares = true
    · exact .inl ⟨used, mask, _, ⟨masked used, rfl⟩, trivial, rfl⟩
    · exact .inr ⟨used, 0, _, ⟨rfl, rfl⟩, trivial, rfl⟩
  | some function =>
    by_cases used : params.useDontCares = true
    · refine ⟨some ⟨root, leaves, leaves ++ rest, cone.gain, function, ~~~mask, functions⟩, _, _,
        ⟨simulated, rfl⟩, ?_⟩
      simp only [target, gives_ite, gives_bind, gives_check, gives_pure, gives_ofExcept,
        ensure_eq_ok, beq_iff_eq]
      exact .inl ⟨used, mask, _, ⟨masked used, rfl⟩, (), _, ⟨all, rfl⟩, rfl, rfl⟩
    · refine ⟨some ⟨root, leaves, leaves ++ rest, cone.gain, function, ~~~0, functions⟩, _, _,
        ⟨simulated, rfl⟩, ?_⟩
      simp only [target, gives_ite, gives_bind, gives_check, gives_pure, gives_ofExcept,
        ensure_eq_ok, beq_iff_eq]
      exact .inr ⟨used, 0, _, ⟨rfl, rfl⟩, (), _, ⟨all, rfl⟩, rfl, rfl⟩

theorem exists_buildWindow {params : Params} {s : PassState} {root : Nat} (orderly : net.Orderly)
    (acyclic : net.Acyclic) (live : net.isLiveGate root = true)
    (valid : params.validate = .ok ()) (limit : s.cutter.maxLeaves = params.maxPis) :
    ∃ answer s', Gives (buildWindow params s root) net (answer, s') net ∧
      s'.cutter.maxLeaves = params.maxPis := by
  have small : params.maxPis < Cutter.capacityLimit :=
    Nat.lt_of_le_of_lt (Params.fitting_of_valid valid).few_leaves (by decide)
  obtain ⟨found, s', searched, kept, ready⟩ :=
    exists_findDivisors orderly acyclic live limit small
  simp only [buildWindow, gives_bind]
  cases found with
  | none => exact ⟨_, _, ⟨_, _, searched, gives_pure.2 ⟨rfl, rfl⟩⟩, kept⟩
  | some found =>
    obtain ⟨leaves, cone, divisors⟩ := found
    obtain ⟨answer, simulated⟩ := exists_simulateRoot root orderly.inPlace acyclic valid
      (ready leaves cone divisors rfl)
    refine ⟨answer, s', ⟨_, _, searched, ?_⟩, kept⟩
    exact gives_bind.2 ⟨_, _, simulated, gives_pure.2 ⟨rfl, rfl⟩⟩

end Edit

end LogicOpt
