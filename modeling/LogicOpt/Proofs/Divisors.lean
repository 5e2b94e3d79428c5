import LogicOpt.Proofs.Cuts
import LogicOpt.Proofs.Ranking
import LogicOpt.Proofs.Roots

namespace LogicOpt

open Network

variable {net : Network} {root : Nat} {cone : List Nat}

theorem Marks.isMarked_markAll {m : Marks} (started : m.current ≠ 0) (nodes : List Nat) (n : Nat) :
    (m.markAll nodes).isMarked n = true ↔ m.isMarked n = true ∨ n ∈ nodes := by
  induction nodes generalizing m with
  | nil => simp [markAll]
  | cons a rest ih =>
    have mark : (m.markAll (a :: rest)) = (m.mark a).markAll rest := rfl
    rw [mark, ih (m := m.mark a) started, isMarked_mark started]
    simp only [Bool.or_eq_true, beq_iff_eq, List.mem_cons]
    tauto

namespace DivisorFinder

def Pool.joined (p : Pool) (n : Nat) : Pool := ⟨p.visited.mark n, p.divisors ++ [n]⟩

theorem Pool.mem_joined {p : Pool} {n m : Nat} :
    m ∈ (p.joined n).divisors ↔ m ∈ p.divisors ∨ m = n := by
  simp [joined]

theorem Pool.length_joined (p : Pool) (n : Nat) :
    (p.joined n).divisors.length = p.divisors.length + 1 := by
  simp [joined]

theorem Pool.isMarked_joined {p : Pool} (started : p.visited.current ≠ 0) {n m : Nat} :
    (p.joined n).visited.isMarked m = true ↔ m = n ∨ p.visited.isMarked m = true := by
  simp [joined, Marks.isMarked_mark started]

/-- Live gates that were admissible when their turns came joined the pool one after another. Only a
    pool below its limit goes on after a gate has joined. -/
inductive Pool.Widened (net : Network) (limits : SideLimits) (limit : Nat) : Pool → Pool → Prop where
  | refl (p : Pool) : Widened net limits limit p p
  | join {p p' : Pool} {n : Nat} (live : net.isLiveGate n = true)
      (admitted : p.admits net limits n = true)
      (room : p' = p.joined n ∨ (p.joined n).divisors.length < limit)
      (later : Widened net limits limit (p.joined n) p') : Widened net limits limit p p'

namespace Pool.Widened

variable {limits : SideLimits} {limit : Nat} {p q p' : Pool}

theorem keeps (widened : Widened net limits limit p p') (holds : Pool → Prop) (start : holds p)
    (step : ∀ q n, holds q → net.isLiveGate n = true → q.admits net limits n = true →
      holds (q.joined n)) : holds p' := by
  induction widened with
  | refl => exact start
  | join live admitted _ _ ih => exact ih (step _ _ start live admitted)

theorem length_ge (widened : Widened net limits limit p p') :
    p.divisors.length ≤ p'.divisors.length := by
  refine widened.keeps (fun q => p.divisors.length ≤ q.divisors.length) (Nat.le_refl _) ?_
  intro q n ge _ _
  rw [length_joined]
  omega

theorem length_le (widened : Widened net limits limit p p') :
    p'.divisors.length ≤ max limit (p.divisors.length + 1) := by
  induction widened with
  | refl => omega
  | @join p p' n _ _ room _ ih =>
    rcases room with rfl | below
    · rw [length_joined]
      omega
    · omega

theorem trans (first : Widened net limits limit p q) (below : q.divisors.length < limit)
    (second : Widened net limits limit q p') : Widened net limits limit p p' := by
  induction first with
  | refl => exact second
  | join live admitted _ later ih =>
    exact .join live admitted (.inr (Nat.lt_of_le_of_lt later.length_ge below)) (ih below second)

end Pool.Widened

theorem Pool.widened_addSides (limits : SideLimits) (limit : Nat) (p : Pool) (nodes : List Nat)
    (live : ∀ n ∈ nodes, net.isLiveGate n = true) :
    p.Widened net limits limit (addSides net limits limit p nodes).1 ∧
      ((addSides net limits limit p nodes).2 = false →
        (addSides net limits limit p nodes).1 = p ∨
          (addSides net limits limit p nodes).1.divisors.length < limit) := by
  induction nodes generalizing p with
  | nil => exact ⟨.refl p, fun _ => .inl rfl⟩
  | cons n rest ih =>
    rw [List.forall_mem_cons] at live
    unfold addSides
    split
    · rename_i admitted
      dsimp only
      split
      · exact ⟨.join live.1 admitted (.inl rfl) (.refl _), by simp⟩
      · rename_i below
        have below : (p.joined n).divisors.length < limit := Nat.lt_of_not_le below
        obtain ⟨widened, outcome⟩ := ih (p.joined n) live.2
        refine ⟨.join live.1 admitted (.inr below) widened, fun unstopped => .inr ?_⟩
        rcases outcome unstopped with same | less
        · rw [← same] at below
          exact below
        · exact less
    · exact ih p live.2

theorem Pool.exists_widen (limits : SideLimits) (limit steps i : Nat) (inPlace : net.InPlace)
    {p : Pool} (slots : ∀ d ∈ p.divisors, d < net.size) :
    ∃ p', widen net limits limit steps i p = .ok p' ∧ p.Widened net limits limit p' := by
  induction steps generalizing p i with
  | zero => exact ⟨p, rfl, .refl p⟩
  | succ steps ih =>
    unfold widen
    split
    · exact ⟨p, rfl, .refl p⟩
    · rename_i d entry
      have passed : net.require d = .ok () := require_eq_ok.2 (slots d (List.mem_of_getElem? entry))
      obtain ⟨widened, outcome⟩ := widened_addSides limits limit p (net.fanouts d)
        fun n member => (inPlace.reader_of_fanout d n member).1
      simp only [passed, bind, Except.bind]
      split
      · exact ⟨_, rfl, widened⟩
      · rename_i unstopped
        have grown : ∀ k ∈ (addSides net limits limit p (net.fanouts d)).1.divisors,
            k < net.size := by
          refine widened.keeps (fun q => ∀ d ∈ q.divisors, d < net.size) slots ?_
          intro q n inside live _ k member
          rcases mem_joined.1 member with earlier | rfl
          · exact inside k earlier
          · exact lt_of_isLiveGate live
        obtain ⟨p', ran, later⟩ := ih (i + 1) grown
        refine ⟨p', ran, ?_⟩
        rcases outcome (Bool.eq_false_iff.2 unstopped) with same | below
        · rwa [same] at later
        · exact widened.trans below later

theorem Pool.foldl_addLeaf (leaves : List Nat) (p : Pool) (started : p.visited.current ≠ 0)
    (nodup : leaves.Nodup) (fresh : ∀ n ∈ leaves, p.visited.isMarked n = false) :
    (leaves.foldl Pool.addLeaf p).visited.current ≠ 0 ∧
      (∀ m, (leaves.foldl Pool.addLeaf p).visited.isMarked m = true ↔
        p.visited.isMarked m = true ∨ m ∈ leaves) ∧
      (leaves.foldl Pool.addLeaf p).divisors = p.divisors ++ leaves := by
  induction leaves generalizing p with
  | nil => simp [started]
  | cons n rest ih =>
    rw [List.nodup_cons] at nodup
    rw [List.forall_mem_cons] at fresh
    have added : p.addLeaf n = p.joined n := by
      rw [addLeaf, Marks.isFresh_eq_not_isMarked started, fresh.1]
      rfl
    obtain ⟨running, marks, pool⟩ := ih (p.joined n) started nodup.2 fun m member => by
      rw [Bool.eq_false_iff, Ne, isMarked_joined started, fresh.2 m member]
      exact fun same => nodup.1 (same.resolve_right Bool.false_ne_true ▸ member)
    rw [List.foldl_cons, added]
    refine ⟨running, fun m => ?_, by rw [pool, joined, List.append_assoc, List.singleton_append]⟩
    rw [marks, isMarked_joined started, List.mem_cons]
    tauto

structure Between (net : Network) (root : Nat) (leaves found : List Nat) : Prop where
  nodup : found.Nodup
  apart : ∀ m ∈ found, m ∉ leaves
  first : root ∈ leaves ∨ root ∈ found
  closed : ∀ m ∈ found, ∀ k, net.Feeds k m → k ∈ leaves ∨ k ∈ found
  source : ∀ m ∈ found, m = root ∨ ∃ k ∈ found, net.Feeds m k
  below : ∀ m ∈ found, net.Reaches root m
  ordered : net.Acyclic → net.InOrder (· ∈ leaves) found

structure Pool.Begun (p : Pool) (net : Network) (root : Nat) (leaves cone found : List Nat) : Prop
    extends Between net root leaves found where
  started : p.visited.current ≠ 0
  marked : ∀ m, p.visited.isMarked m = true ↔ m ∈ leaves ∨ m ∈ found
  divisors : p.divisors = leaves ++ found.filter fun m => decide (m ∉ cone) && m != 0

theorem Pool.begun_addCone (root : Nat) {leaves : List Nat} {p : Pool} {inCone : Marks}
    (started : p.visited.current ≠ 0) (window : ∀ m, p.visited.isMarked m = true ↔ m ∈ leaves)
    (pool : p.divisors = leaves) (inside : ∀ m, inCone.isMarked m = true ↔ m ∈ cone) :
    ∃ found, (p.addCone net inCone root).Begun net root leaves cone found := by
  obtain ⟨found, swept⟩ := sweep_spec net (fun _ => false) net.depthBound
    ⟨p.visited, #[]⟩ root started (length_unmarked_lt_depthBound net _)
  have marked (m : Nat) : (p.addCone net inCone root).visited.isMarked m = true ↔
      m ∈ leaves ∨ m ∈ found := by
    rw [← window]
    exact swept.marked m
  have outside (m : Nat) : (!inCone.isMarked m) = decide (m ∉ cone) := by
    rw [Bool.eq_iff_iff, Bool.not_eq_true', decide_eq_true_eq, ← inside, Bool.not_eq_true]
  refine ⟨found, ⟨swept.nodup, fun m member leaf => ?_, ?_, fun m member k feeds => ?_,
    fun m member => ?_, fun m member => ?_, fun acyclic => ?_⟩, swept.started, marked, ?_⟩
  · have fresh := (swept.fresh m member).1
    rw [(window m).2 leaf] at fresh
    cases fresh
  · exact (marked root).1 ((swept.reached root (by simp)).resolve_left (by simp))
  · exact (marked k).1 ((swept.closed m member k feeds).resolve_left (by simp))
  · simpa using swept.source m member
  · simpa using swept.below member
  · refine (swept.ordered acyclic).mono fun _ _ m _ known => ?_
    exact (window m).1 (known.resolve_left (by simp))
  · simp only [addCone, pool, swept.order, List.nil_append, outside]

structure Pool.Clear (p : Pool) (net : Network) (root : Nat) (cone : List Nat) : Prop where
  started : p.visited.current ≠ 0
  held : ∀ m ∈ cone, p.visited.isMarked m = true
  behind : ∀ m, p.visited.isMarked m = true → m ≠ root → ¬net.Reaches m root
  divisors : ∀ d ∈ p.divisors, p.visited.isMarked d = true ∧ d ∉ cone
  live : ∀ d ∈ p.divisors, net.isDead d = false

theorem Pool.Begun.clear {leaves found : List Nat} {p : Pool}
    (begun : p.Begun net root leaves cone found) (orderly : net.Orderly) (acyclic : net.Acyclic)
    (free : FanoutFree net root leaves cone) (apart : root ∉ leaves)
    (below : ∀ n ∈ leaves, net.Reaches root n) : p.Clear net root cone := by
  have outside (m : Nat) (member : m ∈ cone) : m ∉ leaves := by
    by_cases same : m = root
    · rwa [same]
    · exact free.apart m member same
  have path (m : Nat) (member : m ∈ leaves ∨ m ∈ found) : net.Reaches root m := by
    rcases member with leaf | listed
    · exact below m leaf
    · exact begun.below m listed
  have origin (d : Nat) (member : d ∈ p.divisors) : d ∈ leaves ∨ d ∈ found ∧ d ∉ cone := by
    rw [begun.divisors, List.mem_append, List.mem_filter, Bool.and_eq_true,
      decide_eq_true_eq] at member
    tauto
  constructor
  case started => exact begun.started
  case held =>
    refine free.reached _ ((begun.marked root).2 begun.first) ?_
    intro n there reached m member feeds
    have listed := ((begun.marked n).1 reached).resolve_left (outside n there)
    exact (begun.marked m).2 (begun.closed n listed m feeds)
  case behind =>
    intro m visited other back
    exact other (back.antisymm acyclic (path m ((begun.marked m).1 visited)))
  case divisors =>
    intro d member
    rcases origin d member with leaf | ⟨there, other⟩
    · exact ⟨(begun.marked d).2 (.inl leaf), fun there => outside d there leaf⟩
    · exact ⟨(begun.marked d).2 (.inr there), other⟩
  case live =>
    intro d member
    have running := free.inner root free.first
    exact (path d ((origin d member).imp_right And.left)).live orderly.balanced
      (isLiveGate_eq_true.1 running).2

theorem Pool.Clear.join {p : Pool} {limits : SideLimits} (clear : p.Clear net root cone)
    (same : limits.root = root) {n : Nat} (admitted : p.admits net limits n = true) :
    (p.joined n).Clear net root cone := by
  simp only [admits, Bool.and_eq_true, Bool.not_eq_true', List.all_eq_true, List.any_eq_false,
    beq_iff_eq, same] at admitted
  obtain ⟨⟨⟨⟨⟨fresh, live⟩, -⟩, -⟩, window⟩, other⟩ := admitted
  have marked (m : Nat) : (p.joined n).visited.isMarked m = true ↔
      m = n ∨ p.visited.isMarked m = true := isMarked_joined clear.started
  have absent : n ∉ cone := fun member => by
    rw [clear.held n member] at fresh
    cases fresh
  constructor
  case started => exact clear.started
  case held => exact fun m member => (marked m).2 (.inr (clear.held m member))
  case behind =>
    intro m visited apart path
    rcases (marked m).1 visited with rfl | earlier
    · rcases path.cases_head with here | ⟨k, ⟨f, member, rfl⟩, rest⟩
      · exact apart here
      · exact clear.behind f.node (window f member) (other f member) rest
    · exact clear.behind m earlier apart path
  case divisors =>
    intro d member
    rcases mem_joined.1 member with earlier | rfl
    · obtain ⟨visited, outside⟩ := clear.divisors d earlier
      exact ⟨(marked d).2 (.inr visited), outside⟩
    · exact ⟨(marked d).2 (.inl rfl), absent⟩
  case live =>
    intro d member
    rcases mem_joined.1 member with earlier | rfl
    · exact clear.live d earlier
    · exact live

end DivisorFinder

end LogicOpt
