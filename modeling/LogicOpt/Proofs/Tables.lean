import LogicOpt.Network.Semantics
import LogicOpt.Proofs.Cuts
import LogicOpt.Proofs.Valuations
import LogicOpt.Window.DontCare

namespace LogicOpt

open Network

/-- The number whose lowest bit is the first value. -/
def assignment : List Bool → Nat
  | [] => 0
  | b :: rest => b.toNat + 2 * assignment rest

theorem tableWidth_eq (n : Nat) : tableWidth n = 2 ^ n := by
  simp [tableWidth, Nat.shiftLeft_eq]

theorem assignment_lt (bits : List Bool) : assignment bits < tableWidth bits.length := by
  rw [tableWidth_eq]
  induction bits with
  | nil => simp [assignment]
  | cons b rest ih =>
    have := Bool.toNat_le b
    rw [assignment, List.length_cons, Nat.pow_succ]
    omega

theorem testBit_assignment {bits : List Bool} {i : Nat} {b : Bool} (entry : bits[i]? = some b) :
    (assignment bits).testBit i = b := by
  induction bits generalizing i with
  | nil => simp at entry
  | cons first rest ih =>
    cases i with
    | zero =>
      rw [List.getElem?_cons_zero] at entry
      cases entry
      cases b <;> simp [assignment, Nat.testBit_zero]
    | succ i =>
      rw [List.getElem?_cons_succ] at entry
      rw [Nat.testBit_succ, ← ih entry, assignment]
      congr 1
      have := Bool.toNat_le first
      omega

theorem assignment_concat (bits : List Bool) (b : Bool) :
    assignment (bits ++ [b]) = assignment bits + b.toNat * tableWidth bits.length := by
  rw [tableWidth_eq]
  induction bits with
  | nil => simp [assignment]
  | cons first rest ih =>
    rw [List.cons_append, assignment, ih, assignment, List.length_cons, Nat.pow_succ]
    cases b <;> simp
    omega

theorem Gate.map_of_mapM {α β γ : Type} {f : α → Option β} {h : β → γ} {k : α → γ} {g : Gate α}
    {g' : Gate β} (point : ∀ a b, f a = some b → h b = k a) (run : g.mapM f = some g') :
    g'.map h = g.map k := by
  cases g <;> simp only [mapM, Option.bind_eq_bind, Option.bind_eq_some_iff, Option.pure_def,
    Option.some.injEq] at run
  · obtain ⟨a, left, b, right, rfl⟩ := run
    simp only [map, point _ _ left, point _ _ right]
  · obtain ⟨a, left, b, right, rfl⟩ := run
    simp only [map, point _ _ left, point _ _ right]
  · obtain ⟨a, left, b, middle, c, right, rfl⟩ := run
    simp only [map, point _ _ left, point _ _ middle, point _ _ right]

theorem Gate.exists_of_mapM_some {α β : Type} {f : α → Option β} {g : Gate α} {g' : Gate β}
    (run : g.mapM f = some g') : ∀ a ∈ g.operands, ∃ b, f a = some b := by
  cases g <;> simp only [mapM, Option.bind_eq_bind, Option.bind_eq_some_iff, Option.pure_def,
    Option.some.injEq] at run <;> simp only [operands, List.forall_mem_cons]
  · obtain ⟨a, left, b, right, -⟩ := run
    exact ⟨⟨a, left⟩, ⟨b, right⟩, by simp⟩
  · obtain ⟨a, left, b, right, -⟩ := run
    exact ⟨⟨a, left⟩, ⟨b, right⟩, by simp⟩
  · obtain ⟨a, left, b, middle, c, right, -⟩ := run
    exact ⟨⟨a, left⟩, ⟨b, middle⟩, ⟨c, right⟩, by simp⟩

theorem Gate.getLsbD_eval {w : Nat} (m : Nat) (g : Gate (BitVec w)) :
    g.eval.getLsbD m = (g.map (·.getLsbD m)).eval := by
  cases g <;> simp [eval, map, GateValue.and2, GateValue.xor2, GateValue.maj3]

theorem getLsbD_complementIf {w m : Nat} (inside : m < w) (x : BitVec w) (flip : Bool) :
    (GateValue.complementIf x flip).getLsbD m = (x.getLsbD m ^^ flip) := by
  cases flip <;> simp [GateValue.complementIf, GateValue.complement, inside]

namespace Window

variable {net : Network} {value : Nat → Bool} {numVars : Nat} {m : Nat}

theorem function?_push (w : Window numVars) (n : Nat) (slot : WindowSlot numVars) (i : Nat) :
    (w.push n slot).function? i =
      if i = w.slots.size then some slot.function else w.function? i := by
  simp only [function?, push, Array.getElem?_push]
  split <;> rfl

theorem slot?_push (w : Window numVars) (n : Nat) (slot : WindowSlot numVars) (k : Nat) :
    (w.push n slot).slot? k = if n = k then some w.slots.size else w.slot? k := by
  simp only [slot?, push, Std.TreeMap.getElem?_insert, Std.LawfulEqCmp.compare_eq_iff_eq]

structure SoundAt (w : Window numVars) (net : Network) (value : Nat → Bool) (m : Nat) : Prop where
  slots : ∀ n i, w.slot? n = some i → i < w.slots.size ∧ n < net.size
  sound : ∀ n f, w.nodeFunction? n = some f → f.getLsbD m = value n

theorem SoundAt.push {w : Window numVars} (sound : w.SoundAt net value m) {n : Nat}
    {slot : WindowSlot numVars} (inside : n < net.size)
    (here : slot.function.getLsbD m = value n) : (w.push n slot).SoundAt net value m where
  slots := fun k i entry => by
    rw [slot?_push] at entry
    simp only [Window.push, Array.size_push]
    split at entry
    · rename_i same
      cases entry
      exact ⟨Nat.lt_succ_self _, same ▸ inside⟩
    · obtain ⟨below, known⟩ := sound.slots k i entry
      exact ⟨Nat.lt_succ_of_lt below, known⟩
  sound := fun k f entry => by
    obtain ⟨i, there, table⟩ := Option.bind_eq_some_iff.1 entry
    rw [slot?_push] at there
    rw [function?_push] at table
    split at there
    · rename_i same
      cases there
      rw [if_pos rfl] at table
      cases table
      rw [← same, here]
    · rw [if_neg (Nat.ne_of_lt (sound.slots k i there).1)] at table
      exact sound.sound k f (Option.bind_eq_some_iff.2 ⟨i, there, table⟩)

theorem soundAt_ofLeaves {leaves : List Nat} (fits : net.Fits value) (start : 0 < net.size)
    (inside : ∀ n ∈ leaves, n < net.size) :
    (ofLeaves leaves).SoundAt net value (assignment (leaves.map value)) := by
  have bound : assignment (leaves.map value) < tableWidth leaves.length := by
    simpa using assignment_lt (leaves.map value)
  have base : ((⟨#[], ∅⟩ : Window leaves.length).push 0 ⟨0, false⟩).SoundAt net value
      (assignment (leaves.map value)) := by
    refine SoundAt.push ⟨by simp [slot?], fun n f entry => ?_⟩ start ?_
    · simp [nodeFunction?, slot?] at entry
    · simp [WindowSlot.function, fits.zero]
  refine List.foldlRecOn (motive := fun w : Window leaves.length =>
    w.SoundAt net value (assignment (leaves.map value))) leaves.zipIdx _ base
    fun w sound entry member => ?_
  obtain ⟨n, i⟩ := entry
  have there : leaves[i]? = some n := List.mk_mem_zipIdx_iff_getElem?.1 member
  have position : i < leaves.length := (List.getElem?_eq_some_iff.1 there).1
  refine sound.push (inside n (List.mem_of_getElem? there)) ?_
  simp only [WindowSlot.function, Bool.false_eq_true, ↓reduceIte]
  rw [getLsbD_projection position bound]
  exact testBit_assignment (by rw [List.getElem?_map, there]; rfl)

theorem addNodes_keeps {nodes : List Nat} {normalize : Bool} {w w' : Window numVars}
    (holds : Window numVars → Prop)
    (run : addNodes net normalize w nodes = .ok (.ok w')) (start : holds w)
    (step : ∀ w n g values, holds w → n < net.size → net.gate? n = some g →
      g.mapM (fun f => (w.nodeFunction? f.node).map (GateValue.complementIf · f.negated)) =
        some values → holds (w.push n (.ofFunction normalize values.eval))) : holds w' := by
  induction nodes generalizing w with
  | nil =>
    cases run
    exact start
  | cons n rest ih =>
    unfold addNodes at run
    split at run
    · exact ih run start
    · split at run
      · rename_i inside
        split at run
        · cases run
        · rename_i g slot
          split at run
          · cases run
          · rename_i values read
            exact ih run (step w n g values start inside slot read)
      · cases run

theorem SoundAt.addNodes {nodes : List Nat} {normalize : Bool} {w w' : Window numVars}
    (fits : net.Fits value) (bound : m < tableWidth numVars) (sound : w.SoundAt net value m)
    (run : Window.addNodes net normalize w nodes = .ok (.ok w')) : w'.SoundAt net value m := by
  refine addNodes_keeps (fun w => w.SoundAt net value m) run sound
    fun w n g values sound inside slot read => sound.push inside ?_
  rw [WindowSlot.function_ofFunction, Gate.getLsbD_eval, fits.gate n g slot, Gate.evalUnder_bool]
  refine congrArg Gate.eval (Gate.map_of_mapM (fun f x found => ?_) read)
  obtain ⟨table, there, rfl⟩ := Option.map_eq_some_iff.1 found
  rw [getLsbD_complementIf bound, sound.sound f.node table there, signalUnder]

theorem soundAt_simulate {leaves nodes : List Nat} {normalize : Bool}
    {w : Window leaves.length} (fits : net.Fits value) (start : 0 < net.size)
    (inside : ∀ n ∈ leaves, n < net.size)
    (run : simulate net leaves nodes normalize = .ok (.ok w)) :
    w.SoundAt net value (assignment (leaves.map value)) := by
  simp only [simulate, bind_eq_ok] at run
  obtain ⟨_, -, run⟩ := run
  refine (soundAt_ofLeaves fits start inside).addNodes fits ?_ run
  simpa using assignment_lt (leaves.map value)

theorem SoundAt.map_functions {w : Window numVars} (sound : w.SoundAt net value m)
    {nodes : List Nat} {functions : List (Table numVars)}
    (read : nodes.mapM w.nodeFunction? = some functions) :
    functions.map (·.getLsbD m) = nodes.map value := by
  induction nodes generalizing functions with
  | nil =>
    cases read
    rfl
  | cons n rest ih =>
    simp only [List.mapM_cons, Option.bind_eq_bind, Option.bind_eq_some_iff, Option.pure_def,
      Option.some.injEq] at read
    obtain ⟨f, here, others, tail, rfl⟩ := read
    rw [List.map_cons, List.map_cons, sound.sound n f here, ih tail]

end Window

theorem getLsbD_occurring {w k : Nat} (functions : List (BitVec w)) (within : BitVec w) :
    (occurring functions within).getLsbD k = true ↔ ∃ m, within.getLsbD m = true ∧
      assignment (functions.map (·.getLsbD m)).reverse = k := by
  induction functions generalizing within k with
  | nil =>
    by_cases zero : within = 0
    · simp [occurring, zero]
    · obtain ⟨m, set⟩ : ∃ m, within.getLsbD m = true := by
        simpa using mt BitVec.zero_iff_eq_false.2 zero
      have only : (1 : Table 0).getLsbD k = true ↔ k = 0 := by
        simp [tableWidth, BitVec.getLsbD_one]
      rw [occurring, if_neg zero, only]
      constructor
      · exact fun first => ⟨m, set, first.symm⟩
      · rintro ⟨_, _, first⟩
        exact first.symm
  | cons f rest ih =>
    have length (m : Nat) : (rest.map (·.getLsbD m)).reverse.length = rest.length := by simp
    have bound (m : Nat) : assignment (rest.map (·.getLsbD m)).reverse < tableWidth rest.length :=
      length m ▸ assignment_lt _
    simp only [List.map_cons, List.reverse_cons, assignment_concat, length, occurring,
      BitVec.getLsbD_cast, BitVec.getLsbD_append]
    split
    · rw [ih]
      refine exists_congr fun m => ?_
      have := bound m
      cases set : f.getLsbD m with
      | true => simp [set]; omega
      | false => simpa [set] using fun _ here => BitVec.lt_of_getLsbD here
    · rw [ih]
      refine exists_congr fun m => ?_
      have := bound m
      cases set : f.getLsbD m with
      | true => simp [set]; omega
      | false => simp [set]; omega

variable {net : Network} {value : Nat → Bool}

/-- What the leaves are under a valuation is never a don't-care. -/
theorem dontCares_sound {leaves : List Nat} {windowSize maxFanout : Nat}
    {unreachable : Table leaves.length} (inPlace : net.InPlace) (fits : net.Fits value)
    (run : dontCares net leaves windowSize maxFanout = .ok unreachable) :
    unreachable.getLsbD (assignment (leaves.map value)) = false := by
  simp only [dontCares, bind_eq_ok] at run
  obtain ⟨_, -, ⟨found, cutter⟩, grown, run⟩ := run
  cases found with
  | error cause =>
    cases run
    simp
  | ok cut =>
    simp only [bind_eq_ok] at run
    obtain ⟨order, -, simulated, tables, run⟩ := run
    cases simulated with
    | error cause =>
      cases run
      simp
    | ok window =>
      have sound := Window.soundAt_simulate fits inPlace.size_pos
        (fun n member => ((Cutter.run_sound inPlace grown).1 n member).1) tables
      simp only at run
      split at run
      · cases run
        simp
      · rename_i care found
        cases run
        unfold Window.leafAssignments? at found
        split at found
        · cases found
        · rename_i functions looked
          cases found
          have bits : functions.map (·.getLsbD (assignment (cut.leaves.map value))) =
              leaves.map value :=
            sound.map_functions looked
          have occurs : (occurring functions.reverse (BitVec.allOnes _)).getLsbD
              (assignment (leaves.map value)) = true := by
            refine (getLsbD_occurring _ _).2 ⟨assignment (cut.leaves.map value), ?_, ?_⟩
            · simpa using assignment_lt (cut.leaves.map value)
            · rw [List.map_reverse, List.reverse_reverse, bits]
          have bound := assignment_lt (leaves.map value)
          rw [List.length_map] at bound
          simp [bound, occurs]

namespace Candidate

variable {w : Nat}

theorem readSignal_bit {m : Nat} {values : Array (BitVec w)} {s : Signal} {x : BitVec w}
    (inside : m < w) (run : readSignal values s = .ok x) :
    readSignal (values.map (·.getLsbD m)) s = .ok (x.getLsbD m) := by
  unfold readSignal at run ⊢
  rw [Array.getElem?_map]
  split at run
  · rename_i v entry
    cases run
    rw [entry, getLsbD_complementIf inside]
    cases s.negated <;> simp [GateValue.complementIf, GateValue.complement]
  · cases run

theorem evaluateGates_bit {m : Nat} {gates : List (Gate Signal)} {values values' : Array (BitVec w)}
    (inside : m < w) (run : gates.foldlM evaluateGate values = .ok values') :
    gates.foldlM evaluateGate (values.map (·.getLsbD m)) = .ok (values'.map (·.getLsbD m)) := by
  induction gates generalizing values with
  | nil =>
    cases run
    rfl
  | cons g rest ih =>
    simp only [List.foldlM_cons, bind_eq_ok] at run ⊢
    obtain ⟨middle, head, tail⟩ := run
    refine ⟨middle.map (·.getLsbD m), ?_, ih tail⟩
    simp only [evaluateGate, bind_eq_ok] at head ⊢
    obtain ⟨h, read, x, applied, same⟩ := head
    cases same
    rw [Gate.apply_of_alike fun _ _ => rfl] at applied
    cases applied
    refine ⟨h.map (·.getLsbD m), Gate.mapM_map (fun f t => readSignal_bit inside) read, _,
      Gate.apply_of_alike (fun _ _ => rfl) _, ?_⟩
    rw [Array.map_push, Gate.getLsbD_eval]
    rfl

theorem evaluate_bit {c : Candidate} {functions : List (BitVec w)} {f : BitVec w} {m : Nat}
    (inside : m < w) (run : c.evaluate 0 functions = .ok f) :
    c.evaluate false (functions.map (·.getLsbD m)) = .ok (f.getLsbD m) := by
  simp only [evaluate, bind_eq_ok, ensure_eq_ok, beq_iff_eq] at run ⊢
  obtain ⟨_, length, values, ran, output⟩ := run
  refine ⟨(), by rw [List.length_map, length], values.map (·.getLsbD m), ?_,
    readSignal_bit inside output⟩
  have ran := evaluateGates_bit inside ran
  simpa using ran

end Candidate

end LogicOpt
