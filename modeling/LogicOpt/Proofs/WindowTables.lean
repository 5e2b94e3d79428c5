import LogicOpt.Proofs.AcceptedCandidates
import LogicOpt.Proofs.GreatestCones
import LogicOpt.Proofs.Simulations
import LogicOpt.Proofs.WindowRuns

namespace LogicOpt

open Network

variable {net : Network} {leaves : List Nat}

/-- The node is a leaf, or it reads the constant, leaves and earlier nodes only. -/
def Network.Fed (net : Network) (leaves earlier : List Nat) (n : Nat) : Prop :=
  n ∈ leaves ∨ ∀ m, net.Feeds m n → m = 0 ∨ m ∈ leaves ∨ m ∈ earlier

def Network.AllFed (net : Network) (leaves nodes : List Nat) : Prop :=
  ∀ earlier n, earlier ++ [n] <+: nodes → net.Fed leaves earlier n

/-- The first listed node that is not fed by those before it. -/
def Network.FirstUnfed (net : Network) (leaves nodes : List Nat) (n : Nat) : Prop :=
  ∃ earlier, earlier ++ [n] <+: nodes ∧ net.AllFed leaves earlier ∧ ¬net.Fed leaves earlier n

namespace Network

variable {earlier nodes : List Nat} {n k : Nat}

theorem Fed.mono {more : List Nat} (fed : net.Fed leaves earlier n) (subset : earlier ⊆ more) :
    net.Fed leaves more n :=
  fed.imp_right fun reads m feeds => (reads m feeds).imp_right (Or.imp_right (@subset m))

theorem allFed_nil : net.AllFed leaves [] := by
  intro earlier n here
  simp at here

theorem AllFed.concat (all : net.AllFed leaves nodes) (fed : net.Fed leaves nodes n) :
    net.AllFed leaves (nodes ++ [n]) := by
  intro earlier k here
  rcases List.prefix_concat_iff.1 here with same | before
  · obtain ⟨rfl, last⟩ := List.append_inj' same rfl
    obtain rfl := List.singleton_inj.1 last
    exact fed
  · exact all earlier k before

theorem AllFed.fed_of_mem (all : net.AllFed leaves nodes) (member : n ∈ nodes) :
    net.Fed leaves nodes n := by
  obtain ⟨before, after, rfl⟩ := List.append_of_mem member
  exact (all before n ⟨after, by simp⟩).mono (List.subset_append_left _ _)

theorem FirstUnfed.not_allFed (first : net.FirstUnfed leaves nodes n) : ¬net.AllFed leaves nodes := by
  obtain ⟨earlier, here, -, unfed⟩ := first
  exact fun all => unfed (all earlier n here)

theorem FirstUnfed.unique (first : net.FirstUnfed leaves nodes n)
    (other : net.FirstUnfed leaves nodes k) : n = k := by
  obtain ⟨earlier, here, fed, unfed⟩ := first
  obtain ⟨earlier', here', fed', unfed'⟩ := other
  rcases List.prefix_or_prefix_of_prefix here here' with shorter | shorter
  · rcases List.prefix_concat_iff.1 shorter with same | before
    · exact List.singleton_inj.1 (List.append_inj' same rfl).2
    · exact absurd (fed' earlier n before) unfed
  · rcases List.prefix_concat_iff.1 shorter with same | before
    · exact (List.singleton_inj.1 (List.append_inj' same rfl).2).symm
    · exact absurd (fed earlier' k before) unfed'

end Network

namespace Window

variable {numVars : Nat} {w : Window numVars}

theorem addNodes_outcome (normalize : Bool) {earlier nodes : List Nat} (valid : w.Valid)
    (held : ∀ m, w.Holds m ↔ m = 0 ∨ m ∈ leaves ∨ m ∈ earlier) (fed : net.AllFed leaves earlier)
    (inPlace : net.InPlace) (gates : ∀ n ∈ nodes, net.isGate n = true) :
    (net.AllFed leaves (earlier ++ nodes) ∧ ∃ w', addNodes net normalize w nodes = .ok (.ok w') ∧
        ∀ m, w'.Holds m ↔ m = 0 ∨ m ∈ leaves ∨ m ∈ earlier ++ nodes) ∨
      ∃ n, net.FirstUnfed leaves (earlier ++ nodes) n ∧
        addNodes net normalize w nodes = .ok (.error (.windowIncomplete n)) := by
  -- What is held grows with the nodes that have been passed, whether or not a slot is added.
  induction nodes generalizing w earlier with
  | nil => exact .inl ⟨by simpa using fed, w, rfl, by simpa using held⟩
  | cons n rest ih =>
    rw [List.forall_mem_cons] at gates
    by_cases next : net.Fed leaves earlier n
    · rw [List.append_cons]
      have more (m : Nat) : m = 0 ∨ m ∈ leaves ∨ m ∈ earlier ++ [n] ↔ m = n ∨ w.Holds m := by
        rw [held, List.mem_append, List.mem_singleton]
        tauto
      by_cases here : w.Holds n
      · rw [valid.addNodes_of_holds here]
        refine ih valid (fun m => ?_) (fed.concat next) gates.2
        rw [more]
        exact ⟨.inr, fun known => known.elim (fun same => same ▸ here) id⟩
      · have reads := next.resolve_left fun leaf => here ((held n).2 (.inr (.inl leaf)))
        obtain ⟨slot, added⟩ := valid.addNodes_of_fanins normalize here gates.1
          fun m feeds => (held m).2 (reads m feeds)
        rw [added]
        exact ih (valid.push n slot) (fun m => (valid.holds_push slot).trans (more m).symm)
          (fed.concat next) gates.2
    · refine .inr ⟨n, ⟨earlier, ⟨rest, by simp⟩, fed, next⟩, ?_⟩
      obtain ⟨outside, missing⟩ := not_or.1 next
      push Not at missing
      obtain ⟨m, feeds, missing⟩ := missing
      refine valid.addNodes_of_missing ?_ gates.1 feeds (by rw [held]; tauto) rest
      rw [held]
      rintro (zero | leaf | listed)
      · exact inPlace.ne_zero_of_isGate gates.1 zero
      · exact outside leaf
      · exact next (fed.fed_of_mem listed)

theorem simulate_outcome (normalize : Bool) {nodes : List Nat} (inPlace : net.InPlace)
    (few : leaves.length < 64) (gates : ∀ n ∈ nodes, net.isGate n = true) :
    (net.AllFed leaves nodes ∧ ∃ w, simulate net leaves nodes normalize = .ok (.ok w) ∧
        ∀ m, w.Holds m ↔ m = 0 ∨ m ∈ leaves ∨ m ∈ nodes) ∨
      ∃ n, net.FirstUnfed leaves nodes n ∧
        simulate net leaves nodes normalize = .ok (.error (.windowIncomplete n)) := by
  obtain ⟨valid, held⟩ := valid_ofLeaves leaves
  simp only [simulate, TruthTable.checkVars_eq_ok.2 few, bind, Except.bind]
  simpa using addNodes_outcome normalize valid (by simpa using held) allFed_nil inPlace gates

/-- The window with no table stored complemented. -/
def plain (w : Window numVars) : Window numVars :=
  ⟨w.slots.map fun s => ⟨s.function, false⟩, w.slotOf⟩

theorem slot?_plain (w : Window numVars) (n : Nat) : w.plain.slot? n = w.slot? n := rfl

theorem nodeFunction?_plain (w : Window numVars) (n : Nat) :
    w.plain.nodeFunction? n = w.nodeFunction? n := by
  rw [nodeFunction?, slot?_plain, nodeFunction?]
  congr 1
  funext i
  simp only [function?, plain, Array.getElem?_map, Option.map_map]
  rfl

theorem plain_push (w : Window numVars) (n : Nat) (slot : WindowSlot numVars) :
    (w.push n slot).plain = w.plain.push n ⟨slot.function, false⟩ := by
  simp [push, plain]

theorem plain_ofLeaves (leaves : List Nat) : (ofLeaves leaves).plain = ofLeaves leaves := by
  refine List.foldlRecOn (motive := fun w : Window leaves.length => w.plain = w) leaves.zipIdx _ ?_
    fun w same e _ => ?_
  · simp [plain, push, WindowSlot.function]
  · rw [plain_push, same]
    rfl

theorem addNodes_plain (net : Network) (normalize : Bool) (w : Window numVars) (nodes : List Nat) :
    addNodes net false w.plain nodes = (addNodes net normalize w nodes).map (·.map plain) := by
  induction nodes generalizing w with
  | nil => rfl
  | cons n rest ih =>
    simp only [addNodes, slot?_plain, nodeFunction?_plain]
    split
    · exact ih w
    · split
      · split
        · rfl
        · split
          · rfl
          · rename_i values read
            rw [← ih, plain_push, WindowSlot.function_ofFunction]
            rfl
      · rfl

/-- Storing tables complemented changes neither the outcome nor the function of any node. -/
theorem simulate_plain (net : Network) (leaves nodes : List Nat) (normalize : Bool) :
    simulate net leaves nodes false =
      (simulate net leaves nodes normalize).map (·.map plain) := by
  unfold simulate
  cases TruthTable.checkVars leaves.length with
  | error _ => rfl
  | ok _ =>
    have added := addNodes_plain net normalize (ofLeaves leaves) nodes
    rwa [plain_ofLeaves] at added

def Normal (w : Window numVars) : Prop := ∀ s ∈ w.slots, s.stored.getLsbD 0 = false

theorem Normal.push (normal : w.Normal) (n : Nat) {slot : WindowSlot numVars}
    (low : slot.stored.getLsbD 0 = false) : (w.push n slot).Normal := by
  intro s member
  rcases Array.mem_push.1 member with earlier | rfl
  · exact normal s earlier
  · exact low

theorem normal_ofLeaves (leaves : List Nat) : (ofLeaves leaves).Normal := by
  have empty : (⟨#[], ∅⟩ : Window leaves.length).Normal := fun s member => by simp at member
  refine List.foldlRecOn (motive := Normal) leaves.zipIdx _ (empty.push 0 (by simp))
    fun w normal e member => normal.push e.1 ?_
  have position : e.2 < leaves.length := (List.mem_zipIdx_iff_getElem?.1 member |>
    List.getElem?_eq_some_iff.1).1
  rw [getLsbD_projection position (by rw [tableWidth_eq]; exact Nat.two_pow_pos _)]
  exact Nat.zero_testBit _

theorem normal_simulate {nodes : List Nat} {w : Window leaves.length}
    (run : simulate net leaves nodes true = .ok (.ok w)) : w.Normal := by
  obtain ⟨_, -, run⟩ := bind_eq_ok.1 run
  refine addNodes_keeps Normal run (normal_ofLeaves leaves) fun w n g values normal _ _ _ =>
    normal.push n ?_
  cases low : values.eval.getLsbD 0 <;> simp [WindowSlot.ofFunction, low]

end Window

/-- On slots that were built by the operations, without cycles, a window over fewer than 64 live
    leaves is incomplete at a listed live gate exactly if that gate is the first that is not fed, and
    complete if there is none. The functions of a complete window do not depend on how tables are
    stored, and normalized tables are stored false at the first assignment. Whatever the inputs are,
    the function of a node has at the values of the leaves the value of the node. -/
theorem simulate_window {nodes : List Nat} (inPlace : net.InPlace) (acyclic : net.Acyclic)
    (few : leaves.length < 64) (known : ∀ n ∈ leaves, n < net.size ∧ net.isDead n = false)
    (gates : ∀ n ∈ nodes, net.isLiveGate n = true) :
    (∀ normalize n, Window.simulate net leaves nodes normalize = .ok (.error (.windowIncomplete n)) ↔
      net.FirstUnfed leaves nodes n) ∧
    (net.AllFed leaves nodes → ∃ plain normal,
      Window.simulate net leaves nodes false = .ok (.ok plain) ∧
      Window.simulate net leaves nodes true = .ok (.ok normal) ∧
      (∀ n, normal.nodeFunction? n = plain.nodeFunction? n) ∧
      (∀ s ∈ normal.slots, s.stored.getLsbD 0 = false) ∧
      ∀ inputs, inputs.length = net.inputs.length →
        ∃ values, net.simulateValues inputs = .ok values ∧ ∀ n ∈ nodes,
          ∃ f, plain.nodeFunction? n = some f ∧
            f.getLsbD (assignment (leaves.map fun m => values[m]?.getD false)) =
              values[n]?.getD false) := by
  have isGate (n : Nat) (member : n ∈ nodes) : net.isGate n = true :=
    (Bool.and_eq_true_iff.1 (gates n member)).1
  refine ⟨fun normalize n => ?incomplete, fun fed => ?complete⟩
  case incomplete =>
    rcases Window.simulate_outcome normalize inPlace few isGate with
      ⟨fed, w, ran, -⟩ | ⟨k, first, ran⟩
    · rw [ran]
      exact ⟨nofun, fun first => absurd fed first.not_allFed⟩
    · rw [ran]
      refine ⟨fun same => ?_, fun other => by rw [first.unique other]⟩
      cases same
      exact first
  case complete =>
    have complete (normalize : Bool) :=
      (Window.simulate_outcome normalize inPlace few isGate).resolve_right
        fun ⟨n, first, _⟩ => first.not_allFed fed
    obtain ⟨-, w, ran, held⟩ := complete false
    obtain ⟨-, normal, stored, -⟩ := complete true
    have same := Window.simulate_plain net leaves nodes true
    rw [ran, stored] at same
    obtain rfl : w = normal.plain := Except.ok.inj (Except.ok.inj same)
    refine ⟨_, normal, ran, stored, fun n => (normal.nodeFunction?_plain n).symm,
      Window.normal_simulate stored, fun inputs length => ?_⟩
    obtain ⟨value, fits, rfl⟩ := exists_valuation_of_inputs inPlace acyclic length
    obtain ⟨values, simulated, right⟩ := simulateValues_of_fits inPlace acyclic fits
    refine ⟨values, simulated, fun n member => ?_⟩
    have slots : (leaves.map fun m => values[m]?.getD false) = leaves.map value :=
      List.map_congr_left fun m leaf => right m (known m leaf).1 (known m leaf).2
    obtain ⟨f, read⟩ := (held n).2 (.inr (.inr member))
    have sound := Window.soundAt_simulate fits inPlace.size_pos (fun m leaf => (known m leaf).1) ran
    have awake := (isLiveGate_eq_true.1 (gates n member)).2
    refine ⟨f, read, ?_⟩
    rw [slots, sound.sound n f read]
    exact (right n (lt_of_isLiveGate (gates n member)) awake).symm

/-- Leaf 6 is computed from leaf 5. With gates 7 and 8 the window is complete, whereas gate 10 reads
    gate 9, which is listed too late. -/
theorem window_of_reconvergence : ∃ stages net plain normal,
    Completed (empty "windows") (reconvergent [20]) stages net ∧ net.WellFormed ∧
    net.FirstUnfed [6, 5, 4] [7, 8, 10, 9] 10 ∧
    Window.simulate net [6, 5, 4] [6, 7, 8] false = .ok (.ok plain) ∧
    Window.simulate net [6, 5, 4] [6, 7, 8] true = .ok (.ok normal) ∧
    normal.nodeFunction? 8 = some 8 ∧
    ∀ inputs, inputs.length = net.inputs.length → ∃ values,
      net.simulateValues inputs = .ok values ∧
        (8 : Table 3).getLsbD (assignment ([6, 5, 4].map fun m => values[m]?.getD false)) =
          values[8]?.getD false := by
  obtain ⟨stages, net, history, checks⟩ := Command.exists_completed (reconvergent [20])
    (empty "windows")
    (fun _ net => decide net.Acyclic &&
      decide (∀ n ∈ ([6, 5, 4] : List Nat), n < net.size ∧ net.isDead n = false) &&
      decide (∀ n ∈ ([7, 8, 10, 9] : List Nat), net.isLiveGate n = true) &&
      decide (∀ n ∈ ([6, 7, 8] : List Nat), net.isLiveGate n = true) &&
      (Window.simulate net [6, 5, 4] [7, 8, 10, 9] true).toOption.any
        (fun (r : Except PassError (Window 3)) =>
          decide (r.map (fun _ => ()) = .error (.windowIncomplete 10))) &&
      (Window.simulate net [6, 5, 4] [6, 7, 8] true).toOption.any
        fun (r : Except PassError (Window 3)) =>
          r.toOption.any fun (w : Window 3) => w.nodeFunction? 8 == some 8)
    (by decide +kernel)
  simp only [Bool.and_eq_true, decide_eq_true_eq] at checks
  obtain ⟨⟨⟨⟨⟨acyclic, known⟩, late⟩, gates⟩, incomplete⟩, complete⟩ := checks
  have valid := history.wellFormed acyclic
  have few : ([6, 5, 4] : List Nat).length < 64 := by decide
  obtain ⟨first, -⟩ := simulate_window valid.inPlace acyclic few known late
  obtain ⟨-, tables⟩ := simulate_window valid.inPlace acyclic few known gates
  obtain ⟨r, ran, failed⟩ := exists_of_any incomplete
  obtain ⟨_, simulated, complete⟩ := exists_of_any complete
  obtain ⟨w, rfl, eighth⟩ := exists_of_any complete
  have outcome := Window.simulate_outcome true valid.inPlace few fun n member =>
    (Bool.and_eq_true_iff.1 (gates n member)).1
  rw [simulated] at outcome
  have fed := (outcome.resolve_right (by simp)).1
  obtain ⟨plain, normal, same, stored, functions, -, right⟩ := tables fed
  rw [simulated] at stored
  cases stored
  cases r with
  | ok w => cases of_decide_eq_true failed
  | error cause =>
    cases of_decide_eq_true failed
    rw [beq_iff_eq] at eighth
    refine ⟨stages, net, plain, w, history, valid, (first true 10).1 ran, same, simulated, eighth,
      fun inputs length => ?_⟩
    obtain ⟨values, simulated, all⟩ := right inputs length
    obtain ⟨f, read, bit⟩ := all 8 (by decide)
    rw [← functions, eighth] at read
    cases read
    exact ⟨values, simulated, bit⟩

end LogicOpt
