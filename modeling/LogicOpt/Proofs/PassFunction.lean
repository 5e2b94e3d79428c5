import LogicOpt.Proofs.PassRuns
import LogicOpt.Proofs.Tables

namespace LogicOpt

open Network

variable {net net' : Network} {solve : Solver} {value : Nat → Bool}

theorem Problem.resynthesize_eq_ok {w : Nat} {p : Problem w} {basis : Basis} {maxInserts : Nat}
    {stats stats' : ResynStats} {c : Candidate}
    (run : p.resynthesize basis maxInserts stats = .ok (some c, stats')) :
    ∃ f, c.evaluate 0 p.divisors = .ok f ∧ p.accepts f = true := by
  unfold resynthesize at run
  split at run
  · cases run
  · simp only [verified, bind_eq_ok] at run
    obtain ⟨answer, ⟨f, evaluated, checked⟩, same⟩ := run
    split at checked
    · rename_i accepted
      cases checked
      cases same
      exact ⟨f, evaluated, accepted⟩
    · cases checked

namespace Windowed

variable {params : Params} {w : RootWindow} {cone : List Nat}

theorem leaves_inside (window : Windowed params net w cone) (counted : net.Counted) :
    ∀ n ∈ w.leaves, n < net.size := by
  obtain ⟨c, c', interior, grown⟩ := window.cut
  exact fun n member => ((Cutter.run_sound counted.inPlace grown).1 n member).1

theorem tables (window : Windowed params net w cone) (counted : net.Counted)
    (fits : net.Fits value) :
    (∀ d ∈ w.divisors, d < net.size) ∧
      w.functions.map (·.getLsbD (assignment (w.leaves.map value))) = w.divisors.map value ∧
      w.target.getLsbD (assignment (w.leaves.map value)) = value w.root := by
  obtain ⟨table, simulated, target, functions, length⟩ := window.simulated
  have sound := Window.soundAt_simulate fits counted.inPlace.size_pos
    (window.leaves_inside counted) simulated
  rw [functions] at length
  have known := List.filterMap_length_eq_length.1 length
  refine ⟨fun d member => ?_, ?_, sound.sound w.root w.target target⟩
  · obtain ⟨f, found⟩ := Option.isSome_iff_exists.1 (known d member)
    obtain ⟨i, slot, -⟩ := Option.bind_eq_some_iff.1 found
    exact (sound.slots d i slot).2
  · have same : ∀ d ∈ w.divisors, (table.nodeFunction? d).map
        (·.getLsbD (assignment (w.leaves.map value))) = some (value d) := by
      intro d member
      obtain ⟨f, found⟩ := Option.isSome_iff_exists.1 (known d member)
      rw [found, Option.map_some, sound.sound d f found]
    rw [functions, List.map_filterMap, List.filterMap_congr same]
    exact congrFun List.filterMap_eq_map w.divisors

theorem care_assignment (window : Windowed params net w cone) (counted : net.Counted)
    (fits : net.Fits value) : w.care.getLsbD (assignment (w.leaves.map value)) = true := by
  obtain ⟨unreachable, care, zero | masked⟩ := window.care
  · have bound := assignment_lt (w.leaves.map value)
    rw [List.length_map] at bound
    simp [care, zero, bound]
  · have bound := assignment_lt (w.leaves.map value)
    rw [List.length_map] at bound
    rw [care, BitVec.getLsbD_not, dontCares_sound counted.inPlace fits masked]
    simp [bound]

end Windowed

theorem Chosen.sound {params : Params} {basis : Basis} {w : RootWindow} {cone : List Nat}
    {a : Accepted} (chosen : Chosen params basis.resynthesizer w a)
    (window : Windowed params net w cone) (counted : net.Counted) (fits : net.Fits value) :
    a.candidate.evaluate false (a.divisors.map value) = .ok (value a.root) := by
  cases chosen with
  | @found care c stats stats' same small grown search =>
    obtain ⟨f, evaluated, accepted⟩ := Problem.resynthesize_eq_ok search
    obtain ⟨-, functions, target⟩ := window.tables counted fits
    have bound := assignment_lt (w.leaves.map value)
    rw [List.length_map] at bound
    have bits := Candidate.evaluate_bit bound evaluated
    have agree := agreeOn_iff.1 accepted _ bound (grown _ (window.care_assignment counted fits))
    simp only [RootWindow.problem] at bits agree
    rw [functions, agree, target] at bits
    rw [same]
    exact bits

theorem Installed.refined {a : Accepted} {met : List Encounter}
    (installed : Installed a net met net') (consistent : net.Consistent) (fits : net.Fits value)
    (root : a.root < net.size) (inside : ∀ d ∈ a.divisors, d < net.size)
    (sound : a.candidate.evaluate false (a.divisors.map value) = .ok (value a.root)) :
    ∃ value', Refined net value net' value' := by
  have within : ∀ d ∈ a.divisors.map Signal.ofNode, d.node < net.size := by
    intro d member
    obtain ⟨n, there, rfl⟩ := List.mem_map.1 member
    exact inside n there
  have number (length : a.divisors.length = a.candidate.numDivisors) :
      (a.divisors.map Signal.ofNode).length = a.candidate.numDivisors := by
    rw [List.length_map, length]
  cases installed with
  | kept length inserted output same =>
    obtain ⟨value', first, -, -⟩ :=
      inserted.output output (number length) consistent fits within
    have trimmed := (removeUnusedFrom_spec (inserted.consistent consistent) net.size).1
    exact ⟨value', first.trans (trimmed.refined first.fits)⟩
  | @replaced signals s mid swept length inserted output differ substituted =>
    obtain ⟨value', first, below, result⟩ :=
      inserted.output output (number length) consistent fits within
    have middle := inserted.consistent consistent
    have equal : value' a.root = signalUnder value' s := by
      have plain : signalUnder value ∘ Signal.ofNode = value := funext (signalUnder_ofNode value)
      rw [List.map_map, plain, sound] at result
      rw [first.kept a.root root]
      exact Except.ok.inj result
    obtain ⟨last, second⟩ := Edit.substituteNode_refined middle first.fits
      (Nat.lt_of_lt_of_le root first.size_le) below equal substituted
    have after := (Edit.substituteNode_consistent middle substituted).1
    have trimmed := (removeUnusedFrom_spec after net.size).1
    exact ⟨last, (first.trans second).trans (trimmed.refined second.fits)⟩

theorem Worked.refined {params : Params} {basis : Basis} {callback : Callback} {root : Nat}
    {met : List Encounter} (worked : Worked params basis.resynthesizer callback root net met net')
    (consistent : net.Consistent) (fits : net.Fits value) :
    ∃ value', Refined net value net' value' := by
  cases worked with
  | passed => exact ⟨value, .refl fits⟩
  | installed substituting live same window chosen change =>
    have sound := chosen.sound window consistent.toCounted fits
    obtain ⟨root, divisors⟩ := chosen.root
    refine change.refined consistent fits ?_ ?_ sound
    · rw [root, same]
      exact lt_of_isLiveGate live
    · rw [divisors]
      exact (window.tables consistent.toCounted fits).1

theorem Network.Refined.resubscribe {subscriptions : List Subscription} {next : Nat}
    {value' : Nat → Bool} (refined : Refined net value net' value') :
    Refined net value { net' with subscriptions, nextSubscription := next } value' :=
  ⟨⟨refined.fits.zero, refined.fits.gate⟩, refined.kept, refined.size_le,
    ⟨refined.sources.inputs, refined.sources.names⟩, refined.outputs⟩

/-- A pass carries every valuation over, and with it the values of the outputs. -/
theorem Edit.resubstitute_refined {params : Params} {basis : Basis} {callback : Callback}
    {resyn : ResynStats} {stats : PassStats} (consistent : net.Consistent) (fits : net.Fits value)
    (run : Gives (resubstituteWith solve params basis.resynthesizer callback resyn) net
        (.ok stats) net') :
    net'.Consistent ∧ ∃ value', Refined net value net' value' :=
  resubstitute_invariant (fun current => ∃ value', Refined net value current value')
    (fun _ => True) (fun _ _ _ ⟨value', refined⟩ => ⟨value', refined.resubscribe⟩)
    (fun consistent ⟨value', refined⟩ worked _ => by
      obtain ⟨last, more⟩ := worked.refined consistent refined.fits
      exact ⟨last, refined.trans more⟩)
    consistent ⟨value, .refl fits⟩ (fun _ _ => trivial) run

end LogicOpt
