import LogicOpt.Proofs.Ranking
import LogicOpt.Proofs.Substitution

/-!
Why a substitution closes no cycle as long as it takes no twin. The replacements it ever schedules
form a relation beside the fanins, and the two together stay acyclic. A node is scheduled to be
replaced by something below its own fanins, or by a gate over lighter fanins from there; a scheduled
node keeps its fanins, and through them it leads to the node replaced first.
-/

namespace LogicOpt

open Relation Network

def Gate.weight (rank : Nat → Nat) (g : Gate Signal) : Nat := (g.nodes.map rank).sum

/-- Node `a` is computed from `b`, or is to be replaced by it. -/
def Leads (net : Network) (swap : Nat → Nat → Prop) (a b : Nat) : Prop := net.Feeds b a ∨ swap a b

/-- Node `m` is among what `n` reads, or a replacement of that. -/
def Within (net : Network) (swap : Nat → Nat → Prop) (n m : Nat) : Prop :=
  ∃ f, net.Feeds f n ∧ ReflTransGen swap f m

def Lightens (net : Network) (swap : Nat → Nat → Prop) (n : Nat) (k : Gate Signal) : Prop :=
  (∀ m ∈ k.nodes, Within net swap n m) ∧
    ∃ g, net.gate? n = some g ∧ ∀ rank, Ranks rank swap → k.weight rank < g.weight rank

/-- Why `q` may be replaced by `t`. -/
inductive Backed (net : Network) (swap : Nat → Nat → Prop) (q t : Nat) : Prop where
  | zero (constant : t = 0)
  | within (below : Within net swap q t)
  | lighter {k : Gate Signal} (slot : net.gate? t = some k) (lightens : Lightens net swap q k)

/-- The replacements of a substitution that started at `first`, all that were ever scheduled. -/
structure Schedule (first : Nat) (net : Network) (r : Replacements) (swap : Nat → Nat → Prop) :
    Prop where
  ranks : ∃ rank, Ranks rank (Leads net swap)
  queue : ∀ p ∈ r.queue, swap p.1 p.2.node
  replaced : ∀ n s, r.replaced[n]? = some s → TransGen swap n s.node
  handled : ∀ q t, swap q t → r.handles q = true
  once : ∀ q t u, swap q t → swap q u → t = u
  inside : ∀ q t, swap q t → q < net.size ∧ t < net.size
  chained : ∀ q t, swap q t → q = first ∨ ∃ p u, swap p u ∧ net.Feeds p q
  backed : ∀ q t, swap q t → q = first ∨ Backed net swap q t

variable {net net' : Network} {swap swap' : Nat → Nat → Prop} {first : Nat} {r : Replacements}

theorem Within.extend {n m k : Nat} (within : Within net swap n m)
    (path : ReflTransGen swap m k) : Within net swap n k := by
  obtain ⟨f, feeds, before⟩ := within
  exact ⟨f, feeds, before.trans path⟩

theorem Within.mono {n m : Nat} (within : Within net swap n m)
    (feeds : ∀ f, net.Feeds f n → net'.Feeds f n) (more : ∀ a b, swap a b → swap' a b) :
    Within net' swap' n m := by
  obtain ⟨f, reads, path⟩ := within
  exact ⟨f, feeds f reads, ReflTransGen.mono more f m path⟩

theorem Lightens.mono {n : Nat} {k : Gate Signal} (lightens : Lightens net swap n k)
    (same : net'.gate? n = net.gate? n) (more : ∀ a b, swap a b → swap' a b) :
    Lightens net' swap' n k := by
  obtain ⟨below, g, slot, lighter⟩ := lightens
  refine ⟨fun m member => (below m member).mono (fun f feeds => ?_) more, g, by rw [same, slot],
    fun rank ranks => lighter rank (ranks.mono more)⟩
  rw [feeds_iff] at feeds ⊢
  rwa [same]

theorem Backed.mono {q t : Nat} (backed : Backed net swap q t)
    (source : net'.gate? q = net.gate? q) (target : net'.gate? t = net.gate? t)
    (more : ∀ a b, swap a b → swap' a b) : Backed net' swap' q t := by
  cases backed with
  | zero constant => exact .zero constant
  | within below =>
    refine .within (below.mono (fun f feeds => ?_) more)
    rw [feeds_iff] at feeds ⊢
    rwa [source]
  | lighter slot lightens => exact .lighter (by rw [target, slot]) (lightens.mono source more)

theorem leads_of_within {n m : Nat} (within : Within net swap n m) :
    TransGen (Leads net swap) n m := by
  obtain ⟨f, feeds, path⟩ := within
  exact .head' (.inl feeds) (ReflTransGen.mono (fun _ _ step => .inr step) f m path)

theorem Gate.weight_perm {rank : Nat → Nat} {g h : Gate Signal} (perm : g.nodes.Perm h.nodes) :
    g.weight rank = h.weight rank :=
  (perm.map rank).sum_eq

theorem mem_redirected {g h : Gate Signal} {old m : Nat} {new : Signal} {negated : Bool}
    (shape : (g.redirect old new).normalize = .gate h negated) (member : m ∈ h.nodes) :
    m = new.node ∨ m ∈ g.nodes := by
  have there := (Gate.normalize_gate shape).2.2.mem_iff.1 member
  rw [Gate.nodes_redirect] at there
  obtain ⟨k, source, rfl⟩ := List.mem_map.1 there
  split
  · exact .inl rfl
  · exact .inr source

theorem sum_map_replace_le {rank : Nat → Nat} {old new : Nat} (lower : rank new < rank old)
    (nodes : List Nat) :
    ((nodes.map fun m => if m = old then new else m).map rank).sum ≤ (nodes.map rank).sum ∧
      (old ∈ nodes →
        ((nodes.map fun m => if m = old then new else m).map rank).sum < (nodes.map rank).sum) := by
  induction nodes with
  | nil => simp
  | cons m rest ih =>
    obtain ⟨le, lt⟩ := ih
    simp only [List.map_cons, List.sum_cons, List.mem_cons]
    by_cases hit : m = old
    · subst hit
      simp only [↓reduceIte, true_or, true_implies]
      constructor <;> omega
    · have other : ¬old = m := fun same => hit same.symm
      simp only [hit, other, ↓reduceIte, false_or]
      exact ⟨by omega, fun member => by have := lt member; omega⟩

theorem weight_redirected_lt {rank : Nat → Nat} {g h : Gate Signal} {old : Nat} {new : Signal}
    {negated : Bool} (was : old ∈ g.nodes)
    (shape : (g.redirect old new).normalize = .gate h negated)
    (lower : rank new.node < rank old) : h.weight rank < g.weight rank := by
  rw [Gate.weight_perm (Gate.normalize_gate shape).2.2, Gate.weight, Gate.nodes_redirect]
  exact (sum_map_replace_le lower g.nodes).2 was

namespace Schedule

theorem reads_first (schedule : Schedule first net r swap) {q t : Nat} (swapped : swap q t) :
    ReflTransGen (fun a b => net.Feeds b a) q first := by
  obtain ⟨rank, ranks⟩ := schedule.ranks
  induction h : rank q using Nat.strong_induction_on generalizing q t with
  | _ height ih =>
    rcases schedule.chained q t swapped with rfl | ⟨p, u, next, feeds⟩
    · exact .refl
    · exact .head feeds (ih (rank p) (h ▸ ranks q p (.inl feeds)) next rfl)

theorem no_return (schedule : Schedule first net r swap) {consumer old t : Nat}
    (constant : net.gate? 0 = none) (reads : net.Feeds old consumer) {u : Nat}
    (swapped : swap old u) (backed : Backed net swap consumer t) :
    ¬ReflTransGen (Leads net swap) t consumer := by
  obtain ⟨rank, ranks⟩ := schedule.ranks
  have notWithin {m : Nat} (within : Within net swap consumer m) :
      ¬ReflTransGen (Leads net swap) m consumer := by
    intro back
    have below := ranks.lt (leads_of_within within)
    have above := ranks.le back
    omega
  have notFirst : ¬ReflTransGen (Leads net swap) first consumer := by
    intro back
    have below := (ranks.mono fun _ _ => .inl).le (schedule.reads_first swapped)
    have step := ranks consumer old (.inl reads)
    have above := ranks.le back
    omega
  have notZero : ¬ReflTransGen (Leads net swap) 0 consumer := by
    intro back
    rcases back.cases_head with same | ⟨next, feeds | swapped, rest⟩
    · obtain ⟨g, slot, -⟩ := feeds_iff.1 reads
      rw [← same, constant] at slot
      cases slot
    · obtain ⟨g, slot, -⟩ := feeds_iff.1 feeds
      rw [constant] at slot
      cases slot
    · rcases schedule.chained 0 next swapped with rfl | ⟨p, u, -, feeds⟩
      · exact notFirst back
      · obtain ⟨g, slot, -⟩ := feeds_iff.1 feeds
        rw [constant] at slot
        cases slot
  -- Along the way back every gate is lighter than the consumer's, which the consumer's is not.
  have notLighter {m : Nat} {k : Gate Signal} (slot : net.gate? m = some k)
      (lightens : Lightens net swap consumer k) (back : ReflTransGen (Leads net swap) m consumer) :
      False := by
    induction back using ReflTransGen.head_induction_on generalizing k with
    | refl =>
      obtain ⟨-, g, there, lighter⟩ := lightens
      rw [slot] at there
      cases there
      exact Nat.lt_irrefl _ (lighter rank (ranks.mono fun _ _ => .inr))
    | head step rest ih =>
      rename_i x y
      rcases step with feeds | swapped
      · exact notWithin (lightens.1 y ((mem_fanins slot).1 feeds)) rest
      · rcases schedule.backed x y swapped with rfl | backed
        · exact notFirst (.head (.inr swapped) rest)
        · cases backed with
          | zero constant => exact notZero (constant ▸ rest)
          | within below =>
            obtain ⟨f, feeds, path⟩ := below
            exact notWithin ((lightens.1 f ((mem_fanins slot).1 feeds)).extend path) rest
          | lighter slot' lightens' =>
            refine ih slot' ⟨fun m member => ?_, ?_⟩
            · obtain ⟨f, feeds, path⟩ := lightens'.1 m member
              exact (lightens.1 f ((mem_fanins slot).1 feeds)).extend path
            · obtain ⟨-, g, there, lighter⟩ := lightens
              obtain ⟨-, g', there', lighter'⟩ := lightens'
              rw [slot] at there'
              cases there'
              exact ⟨g, there, fun rank ranks =>
                Nat.lt_trans (lighter' rank ranks) (lighter rank ranks)⟩
  cases backed with
  | zero constant => exact constant ▸ notZero
  | within below => exact notWithin below
  | lighter slot lightens => exact notLighter slot lightens

theorem pop (schedule : Schedule first net r swap) {old : Nat} {target : Signal}
    {rest : List (Nat × Signal)} (queue : r.queue = (old, target) :: rest) :
    Schedule first net { r with queue := rest } swap ∧ swap old target.node :=
  ⟨{ schedule with queue := fun p member => schedule.queue p (by rw [queue]; simp [member]) },
    schedule.queue (old, target) (by rw [queue]; simp)⟩

theorem follow {replaced : Std.TreeMap Nat Signal} {hops : Nat} {s answer : Signal}
    (known : ∀ n s, replaced[n]? = some s → TransGen swap n s.node)
    (run : Replacements.follow replaced hops s = .ok answer) :
    ReflTransGen swap s.node answer.node := by
  induction hops generalizing s with
  | zero =>
    unfold Replacements.follow at run
    split at run
    · cases run
      exact .refl
    · cases run
  | succ hops ih =>
    unfold Replacements.follow at run
    split at run
    · cases run
      exact .refl
    · rename_i next entry
      exact (known s.node next entry).to_reflTransGen.trans (ih (s := next.negateIf s.negated) run)

theorem resolve (schedule : Schedule first net r swap) {s answer : Signal}
    (run : r.resolve s = .ok answer) : ReflTransGen swap s.node answer.node :=
  follow schedule.replaced run

theorem of_bodies (schedule : Schedule first net r swap) (size : net'.size = net.size)
    (bodies : ∀ m, net'.body? m = net.body? m) : Schedule first net' r swap := by
  have feeds (a b : Nat) : net'.Feeds b a ↔ net.Feeds b a := feeds_congr (bodies a)
  have gates (m : Nat) : net'.gate? m = net.gate? m := gate?_congr (bodies m)
  refine { schedule with ranks := ?_, inside := ?_, chained := ?_, backed := ?_ }
  · obtain ⟨rank, ranks⟩ := schedule.ranks
    exact ⟨rank, ranks.mono fun a b => .imp_left (feeds a b).1⟩
  · rw [size]
    exact schedule.inside
  · intro q t swapped
    refine (schedule.chained q t swapped).imp_right ?_
    rintro ⟨p, u, next, reads⟩
    exact ⟨p, u, next, (feeds q p).2 reads⟩
  · intro q t swapped
    exact (schedule.backed q t swapped).imp_right fun backed =>
      backed.mono (gates q) (gates t) fun _ _ => id

theorem record (schedule : Schedule first net r swap) {old : Nat} {new : Signal}
    (path : TransGen swap old new.node) : Schedule first net (r.record old new) swap := by
  refine { schedule with replaced := fun n s entry => ?_, handled := fun q t swapped => ?_ }
  · simp only [Replacements.record, Std.TreeMap.getElem?_insert,
      Std.LawfulEqCmp.compare_eq_iff_eq] at entry
    split at entry
    · rename_i same
      cases entry
      rwa [← same]
    · exact schedule.replaced n s entry
  · have handled := schedule.handled q t swapped
    simp only [Replacements.handles, Replacements.record, Std.TreeMap.contains_insert] at handled ⊢
    revert handled
    cases r.queued.contains q <;> simp +contextual

theorem append (schedule : Schedule first net r swap) {g : Gate Signal} (tallied : net.Tallied)
    (change : Appended net net' g) (below : ∀ m ∈ g.nodes, m < net.size) :
    Schedule first net' r swap := by
  have gates {m : Nat} (inside : m < net.size) : net'.gate? m = net.gate? m := by
    rw [change.gate?, if_neg (Nat.ne_of_lt inside)]
  refine { schedule with ranks := ?_, inside := ?_, chained := ?_, backed := ?_ }
  · obtain ⟨rank, ranks⟩ := schedule.ranks
    refine ⟨fun m => if m = net.size then g.weight rank + 1 else rank m, ?_⟩
    have old {a : Nat} (inside : a < net.size) : ¬a = net.size := Nat.ne_of_lt inside
    rintro a b (feeds | swapped)
    · rcases change.feeds.1 feeds with ⟨rfl, member⟩ | feeds
      · simp only [old (below b member), ↓reduceIte]
        exact Nat.lt_succ_of_le (List.le_sum_of_mem (List.mem_map_of_mem member))
      · obtain ⟨h, slot, -⟩ := feeds_iff.1 feeds
        simp only [old (lt_size_of_gate? slot), old (tallied.lt_of_feeds feeds), ↓reduceIte]
        exact ranks a b (.inl feeds)
    · obtain ⟨source, target⟩ := schedule.inside a b swapped
      simp only [old source, old target, ↓reduceIte]
      exact ranks a b (.inr swapped)
  · intro q t swapped
    obtain ⟨source, target⟩ := schedule.inside q t swapped
    rw [change.size]
    omega
  · intro q t swapped
    refine (schedule.chained q t swapped).imp_right ?_
    rintro ⟨p, u, next, reads⟩
    exact ⟨p, u, next, change.feeds.2 (.inr reads)⟩
  · intro q t swapped
    obtain ⟨source, target⟩ := schedule.inside q t swapped
    exact (schedule.backed q t swapped).imp_right fun backed =>
      backed.mono (gates source) (gates target) fun _ _ => id

theorem rewire (schedule : Schedule first net r swap) {consumer old : Nat} {new : Signal}
    {g h : Gate Signal} (change : Rewired net net' consumer g h old new.node)
    (slot : net.gate? consumer = some g) (free : r.handles consumer = false)
    (was : old ∈ g.nodes) (shape : (g.redirect old new).normalize = .gate h false)
    (path : TransGen swap old new.node) : Schedule first net' r swap := by
  have other {q t : Nat} (swapped : swap q t) : q ≠ consumer := by
    rintro rfl
    rw [schedule.handled q t swapped] at free
    cases free
  have feeds {q m : Nat} (apart : q ≠ consumer) : net'.Feeds m q ↔ net.Feeds m q := by
    rw [change.feeds, if_neg apart]
  have gates {q : Nat} (apart : q ≠ consumer) : net'.gate? q = net.gate? q := by
    rw [change.gate?, if_neg apart]
  have within {q m : Nat} (apart : q ≠ consumer) (below : Within net swap q m) :
      Within net' swap q m :=
    below.mono (fun f reads => (feeds apart).2 reads) fun _ _ => id
  refine { schedule with ranks := ?_, inside := ?_, chained := ?_, backed := ?_ }
  · obtain ⟨rank, ranks⟩ := schedule.ranks
    refine ⟨rank, ?_⟩
    rintro a b (reads | swapped)
    · rw [change.feeds] at reads
      split at reads
      · rename_i self
        subst self
        rcases mem_redirected shape reads with rfl | member
        · have below := ranks.lt (TransGen.mono (fun _ _ step => .inr step) _ _ path)
          have above := ranks a old (.inl (feeds_of_gate? slot was))
          omega
        · exact ranks a b (.inl (feeds_of_gate? slot member))
      · exact ranks a b (.inl reads)
    · exact ranks a b (.inr swapped)
  · rw [change.size]
    exact schedule.inside
  · intro q t swapped
    refine (schedule.chained q t swapped).imp_right ?_
    rintro ⟨p, u, next, reads⟩
    exact ⟨p, u, next, (feeds (other swapped)).2 reads⟩
  · intro q t swapped
    have apart := other swapped
    refine (schedule.backed q t swapped).imp_right fun backed => ?_
    cases backed with
    | zero constant => exact .zero constant
    | within below => exact .within (within apart below)
    | lighter there lightens =>
      by_cases self : t = consumer
      · subst self
        rw [slot] at there
        cases there
        obtain ⟨below, k, source, lighter⟩ := lightens
        refine .lighter (k := h) (by rw [change.gate?, if_pos rfl]) ⟨fun m member => ?_, k, ?_, ?_⟩
        · rcases mem_redirected shape member with rfl | member
          · exact within apart ((below old was).extend path.to_reflTransGen)
          · exact within apart (below m member)
        · rw [gates apart, source]
        · intro rank ranks
          exact Nat.lt_trans (weight_redirected_lt was shape (ranks.lt path)) (lighter rank ranks)
      · exact .lighter (by rw [gates self, there]) (lightens.mono (gates apart) fun _ _ => id)

theorem enqueue (schedule : Schedule first net r swap) {consumer old u : Nat} {s : Signal}
    (constant : net.gate? 0 = none) (reads : net.Feeds old consumer) (swapped : swap old u)
    (free : r.handles consumer = false) (inside : consumer < net.size) (target : s.node < net.size)
    (backed : Backed net swap consumer s.node) :
    Schedule first net (r.enqueue consumer s)
      fun a b => swap a b ∨ (a = consumer ∧ b = s.node) := by
  have more (a b : Nat) (step : swap a b) : swap a b ∨ (a = consumer ∧ b = s.node) := .inl step
  constructor
  case ranks =>
    obtain ⟨rank, ranks⟩ := schedule.ranks
    obtain ⟨raised, ranks⟩ := ranks.insert (schedule.no_return constant reads swapped backed)
    refine ⟨raised, ranks.mono fun a b step => ?_⟩
    rcases step with feeds | swapped | last
    · exact .inl (.inl feeds)
    · exact .inl (.inr swapped)
    · exact .inr last
  case queue =>
    intro p member
    rcases List.mem_append.1 member with member | member
    · exact .inl (schedule.queue p member)
    · rw [List.mem_singleton.1 member]
      exact .inr ⟨rfl, rfl⟩
  case replaced => exact fun n s entry => TransGen.mono more n s.node (schedule.replaced n s entry)
  case handled =>
    intro q t swapped
    simp only [Replacements.handles, Replacements.enqueue, Std.TreeSet.contains_insert]
    rcases swapped with swapped | ⟨rfl, -⟩
    · have handled := schedule.handled q t swapped
      simp only [Replacements.handles] at handled
      revert handled
      cases r.queued.contains q <;> simp +contextual
    · simp
  case once =>
    have other {q t : Nat} (swapped : swap q t) : q ≠ consumer := by
      rintro rfl
      rw [schedule.handled q t swapped] at free
      cases free
    rintro q t u (left | ⟨rfl, rfl⟩) (right | ⟨same, rfl⟩)
    · exact schedule.once q t u left right
    · exact absurd same (other left)
    · exact absurd rfl (other right)
    · rfl
  case inside =>
    rintro q t (swapped | ⟨rfl, rfl⟩)
    · exact schedule.inside q t swapped
    · exact ⟨inside, target⟩
  case chained =>
    rintro q t (step | ⟨rfl, rfl⟩)
    · refine (schedule.chained q t step).imp_right ?_
      rintro ⟨p, u, next, reads⟩
      exact ⟨p, u, .inl next, reads⟩
    · exact .inr ⟨old, u, .inl swapped, reads⟩
  case backed =>
    rintro q t (step | ⟨rfl, rfl⟩)
    · exact (schedule.backed q t step).imp_right fun backed => backed.mono rfl rfl more
    · exact .inr (backed.mono rfl rfl more)

theorem lightens_redirect {consumer old : Nat} {new : Signal} {g : Gate Signal}
    (slot : net.gate? consumer = some g) (was : old ∈ g.nodes)
    (path : TransGen swap old new.node) : Lightens net swap consumer (g.redirect old new) := by
  refine ⟨fun m member => ?_, g, slot, fun rank ranks => ?_⟩
  · rw [Gate.nodes_redirect] at member
    obtain ⟨p, source, rfl⟩ := List.mem_map.1 member
    split
    · exact ⟨old, feeds_of_gate? slot was, path.to_reflTransGen⟩
    · exact ⟨p, feeds_of_gate? slot source, .refl⟩
  · rw [Gate.weight, Gate.nodes_redirect]
    exact (sum_map_replace_le (ranks.lt path) g.nodes).2 was

theorem resolve_all (schedule : Schedule first net r swap) {fanins answers : List Signal}
    (run : fanins.mapM r.resolve = .ok answers) :
    (∀ k ∈ answers, ∃ f ∈ fanins, ReflTransGen swap f.node k.node) ∧
      ∀ rank, Ranks rank swap →
        ((answers.map (·.node)).map rank).sum ≤ ((fanins.map (·.node)).map rank).sum := by
  induction fanins generalizing answers with
  | nil =>
    simp only [List.mapM_nil, pure, Except.pure, Except.ok.injEq] at run
    subst run
    simp
  | cons f rest ih =>
    simp only [List.mapM_cons, bind_eq_ok, pure, Except.pure, Except.ok.injEq] at run
    obtain ⟨k, resolved, others, run, rfl⟩ := run
    obtain ⟨paths, sums⟩ := ih run
    have path := schedule.resolve resolved
    refine ⟨fun m member => ?_, fun rank ranks => ?_⟩
    · rcases List.mem_cons.1 member with rfl | member
      · exact ⟨f, by simp, path⟩
      · obtain ⟨source, there, path⟩ := paths m member
        exact ⟨source, by simp [there], path⟩
    · have := ranks.le path
      have := sums rank ranks
      simp only [List.map_cons, List.sum_cons]
      omega

theorem lightens_resolved (schedule : Schedule first net r swap) {consumer : Nat}
    {h k : Gate Signal} (resolved : h.operands.mapM r.resolve = .ok k.operands)
    (lightens : Lightens net swap consumer h) : Lightens net swap consumer k := by
  obtain ⟨paths, sums⟩ := schedule.resolve_all resolved
  obtain ⟨below, g, slot, lighter⟩ := lightens
  refine ⟨fun m member => ?_, g, slot, fun rank ranks => ?_⟩
  · obtain ⟨f, there, rfl⟩ := Gate.mem_nodes.1 member
    obtain ⟨source, reads, path⟩ := paths f there
    exact (below source.node (Gate.mem_nodes.2 ⟨source, reads, rfl⟩)).extend path
  · exact Nat.lt_of_le_of_lt (sums rank ranks) (lighter rank ranks)

theorem lightens_perm {consumer : Nat} {h k : Gate Signal} (perm : h.nodes.Perm k.nodes)
    (lightens : Lightens net swap consumer k) : Lightens net swap consumer h := by
  obtain ⟨below, g, slot, lighter⟩ := lightens
  refine ⟨fun m member => below m (perm.subset member), g, slot, fun rank ranks => ?_⟩
  rw [Gate.weight_perm perm]
  exact lighter rank ranks

/-- Whatever becomes of a lighter gate may replace the consumer. -/
theorem backed_of_created {consumer : Nat} {k : Gate Signal} {s : Signal}
    (consistent : net.Consistent) (lightens : Lightens net swap consumer k)
    (created : Created net k s net') : Backed net' swap consumer s.node := by
  cases created with
  | folded shape =>
    rcases Gate.normalize_trivial shape with zero | member
    · exact .zero zero
    · exact .within (lightens.1 _ member)
  | shared shape entry =>
    exact .lighter (consistent.table _ _ entry).1
      (lightens_perm (Gate.normalize_gate shape).2.2 lightens)
  | appended shape absent change =>
    obtain ⟨below, g, slot, lighter⟩ := lightens_perm (Gate.normalize_gate shape).2.2 lightens
    have same : net'.gate? consumer = net.gate? consumer := by
      rw [change.gate?, if_neg (Nat.ne_of_lt (lt_size_of_gate? slot))]
    exact .lighter (by rw [change.gate?, if_pos rfl])
      (Lightens.mono ⟨below, g, slot, lighter⟩ same fun _ _ => id)

theorem of_created (schedule : Schedule first net r swap) {k : Gate Signal} {s : Signal}
    (consistent : net.Consistent) (inside : ∀ m ∈ k.nodes, m < net.size)
    (created : Created net k s net') : Schedule first net' r swap := by
  cases created with
  | folded => exact schedule
  | shared => exact schedule
  | appended shape absent change =>
    exact schedule.append consistent.toTallied change fun m member =>
      inside m ((Gate.normalize_gate shape).2.2.subset member)

theorem visit (schedule : Schedule first net r swap) {r' : Replacements} {old u consumer : Nat}
    {new : Signal} (consistent : net.Consistent) (differ : old ≠ new.node)
    (inside : new.node < net.size) (live : net.isDead new.node = false) (swapped : swap old u)
    (path : TransGen swap old new.node) (visited : Visited old new r consumer net r' net') :
    ∃ swap', (∀ a b, swap a b → swap' a b) ∧ Schedule first net' r' swap' := by
  have after := visited.consistent consistent differ inside live
  cases visited with
  | passed => exact ⟨swap, fun _ _ => id, schedule⟩
  | rewired slot awake free was shape change =>
    exact ⟨swap, fun _ _ => id, schedule.rewire change slot free was shape path⟩
  | queued slot awake free was target =>
    rename_i g s
    have consumer_lt := lt_size_of_gate? slot
    have light := lightens_redirect slot was path
    have old_lt : ∀ m ∈ (g.redirect old new).nodes, m < net.size := by
      intro m member
      rw [Gate.nodes_redirect] at member
      obtain ⟨p, source, rfl⟩ := List.mem_map.1 member
      split
      · exact inside
      · exact consistent.toTallied.lt_of_feeds (feeds_of_gate? slot source)
    refine ⟨fun a b => swap a b ∨ (a = consumer ∧ b = s.node), fun a b => .inl, ?_⟩
    cases target with
    | folded shape =>
      have backed := backed_of_created consistent light (.folded shape)
      refine schedule.enqueue consistent.inPlace.gate?_zero (feeds_of_gate? slot was) swapped free
        consumer_lt ?_ backed
      rcases Gate.normalize_trivial shape with zero | member
      · rw [zero]
        exact consistent.inPlace.size_pos
      · exact old_lt _ member
    | held shape entry =>
      have backed := backed_of_created consistent light (.shared shape entry)
      exact schedule.enqueue consistent.inPlace.gate?_zero (feeds_of_gate? slot was) swapped free
        consumer_lt (lt_size_of_gate? (consistent.table _ _ entry).1) backed
    | complemented shape resolved kind alive created =>
      rename_i h k s
      have lighter := schedule.lightens_resolved resolved
        (lightens_perm (Gate.normalize_gate shape).2.2 light)
      have backed := backed_of_created consistent lighter created
      have grown := schedule.of_created consistent (fun m member => (alive m member).1) created
      have reads : net'.Feeds old consumer :=
        (feeds_congr (created.body consumer_lt)).2 (feeds_of_gate? slot was)
      have target := (created.live consistent.toTallied (fun m member => (alive m member).1)
        fun m member => (alive m member).2).1
      exact grown.enqueue after.inPlace.gate?_zero reads swapped free
        (Nat.lt_of_lt_of_le consumer_lt created.size_le) target backed

theorem path_of_awakened (schedule : Schedule first net r swap) {old : Nat} {target s new : Signal}
    (swapped : swap old target.node) (resolved : r.resolve target = .ok s)
    (twinless : (⟨net, old, s.node⟩ : Encounter).takesTwin = false)
    (awakened : Awakened net s new net') :
    TransGen swap old new.node := by
  have path := TransGen.head' swapped (schedule.resolve resolved)
  cases awakened with
  | live => exact path
  | twin dead found => simp [Encounter.takesTwin, Encounter.dead, dead, found] at twinless
  | revived => exact path

theorem replace_invariant (holds : (Nat → Nat → Prop) → Replacements → Network → Prop)
    (scheduled : ∀ {swap r net}, holds swap r net → Schedule first net r swap)
    (of_bodies : ∀ {swap r net net'}, holds swap r net → net'.size = net.size →
      (∀ m, net'.body? m = net.body? m) → holds swap r net')
    (record : ∀ {swap r net} {old : Nat} {new : Signal}, holds swap r net →
      TransGen swap old new.node → holds swap (r.record old new) net)
    (visit : ∀ {swap r r' net net'} {old u consumer : Nat} {new : Signal}, holds swap r net →
      net.Consistent → old ≠ new.node → new.node < net.size → net.isDead new.node = false →
      swap old u → TransGen swap old new.node → Visited old new r consumer net r' net' →
      ∃ swap', (∀ a b, swap a b → swap' a b) ∧ holds swap' r' net')
    {r r' : Replacements} {old : Nat} {target : Signal} (start : holds swap r net)
    (consistent : net.Consistent) (swapped : swap old target.node)
    (twinless : ∀ s, r.resolve target = .ok s → (⟨net, old, s.node⟩ : Encounter).takesTwin = false)
    (replaced : Replaced r old target net r' net') : ∃ swap', holds swap' r' net' := by
  have awaken {s new : Signal} {mid : Network} (resolved : r.resolve target = .ok s)
      (awakened : Awakened net s new mid) : holds swap r mid ∧ TransGen swap old new.node :=
    ⟨of_bodies start (awakened.size consistent) (awakened.body consistent),
      (scheduled start).path_of_awakened swapped resolved (twinless s resolved) awakened⟩
  cases replaced with
  | dropped resolved inside awakened same => exact ⟨swap, (awaken resolved awakened).1⟩
  | recorded resolved inside awakened differ dead =>
    obtain ⟨kept, path⟩ := awaken resolved awakened
    exact ⟨swap, record kept path⟩
  | @moved s new mid swept r' resolved inside awakened differ present awake visits =>
    obtain ⟨kept, path⟩ := awaken resolved awakened
    obtain ⟨below, live⟩ := awakened.new_live consistent inside
    obtain ⟨after, le, dead, grown, more, kept⟩ := visits_invariant
      (fun _ r current => ∃ grown, (∀ a b, swap a b → grown a b) ∧ holds grown r current) differ
      (by
        rintro consumer rest r r' net net' consistent below live ⟨grown, more, kept⟩ visited
        obtain ⟨swap', further, kept⟩ := visit kept consistent differ below live (more _ _ swapped)
          (TransGen.mono more _ _ path) visited
        exact ⟨swap', fun a b step => further a b (more a b step), kept⟩)
      (awakened.consistent consistent) below live ⟨swap, fun _ _ => id, kept⟩ visits
    obtain ⟨change, -, trimmed, -⟩ := moved_consistent after differ (by omega)
      (by rw [dead]; exact live) (by omega)
    refine ⟨grown, record (of_bodies kept (trimmed.size.trans change.size) fun m => ?_)
      (TransGen.mono more _ _ path)⟩
    rw [trimmed.body, change.body]

theorem replace {r r' : Replacements} {old : Nat} {target : Signal} {rest : List (Nat × Signal)}
    (schedule : Schedule first net r swap) (consistent : net.Consistent)
    (queue : r.queue = (old, target) :: rest)
    (twinless : ∀ s, ({ r with queue := rest } : Replacements).resolve target = .ok s →
      (⟨net, old, s.node⟩ : Encounter).takesTwin = false)
    (replaced : Replaced { r with queue := rest } old target net r' net') :
    ∃ swap', Schedule first net' r' swap' := by
  obtain ⟨popped, swapped⟩ := schedule.pop queue
  exact replace_invariant (fun swap r net => Schedule first net r swap) id of_bodies
    (fun schedule => schedule.record) (fun schedule => schedule.visit) popped consistent swapped
    twinless replaced

end Schedule

namespace Edit

theorem resolve_start (old : Nat) (new : Signal) :
    ({ Replacements.start old new with queue := [] } : Replacements).resolve new = .ok new := by
  change Replacements.follow ∅ 0 new = .ok new
  unfold Replacements.follow
  simp

theorem substituteNode_first {old : Nat} {new : Signal}
    (run : Gives (substituteNode old new) net () net') :
    ∃ steps r mid, Replaced { Replacements.start old new with queue := [] } old new net r mid ∧
      Gives (replaceAll steps r) mid () net' ∧
      substitutionEncounters old new net = ⟨net, old, new.node⟩ :: encounters steps r mid := by
  simp only [substituteNode, gives_bind, gives_get] at run
  obtain ⟨_, _, ⟨rfl, rfl⟩, run⟩ := run
  obtain ⟨steps, bound⟩ : ∃ steps, replacementBound net = steps + 1 :=
    Nat.exists_eq_add_one_of_ne_zero (Nat.pos_iff_ne_zero.1 (Nat.pow_pos (by omega)))
  rw [bound, replaceAll] at run
  obtain ⟨r, mid, head, tail⟩ := gives_bind.1 run
  have ran : replace { Replacements.start old new with queue := [] } old new net = .ok r mid := head
  have queue : (Replacements.start old new).queue = [(old, new)] := rfl
  refine ⟨steps, r, mid, replace_gives head, tail, ?_⟩
  rw [substitutionEncounters, bound, encounters]
  simp only [queue, resolve_start, ran]

theorem substituteNode_inside {old : Nat} {new : Signal} (consistent : net.Consistent)
    (differ : old ≠ new.node) (run : Gives (substituteNode old new) net () net') :
    old < net.size ∧ new.node < net.size := by
  obtain ⟨steps, r, mid, head, -⟩ := substituteNode_first run
  have resolved := resolve_start old new
  cases head with
  | dropped found inside awakened same =>
    rw [resolved] at found
    cases found
    cases awakened with
    | live => exact absurd same differ
    | twin dead twin =>
      obtain ⟨g, slot, entry, -⟩ := liveTwin?_eq_some twin
      rw [same]
      exact ⟨lt_size_of_gate? (consistent.table g _ entry).1, inside⟩
    | revived => exact absurd same differ
  | recorded found inside awakened apart dead =>
    rw [resolved] at found
    cases found
    rw [← awakened.size consistent]
    refine ⟨?_, by rw [awakened.size consistent]; exact inside⟩
    obtain ⟨g, slot⟩ := (awakened.consistent consistent).gate_of_dead dead
    exact lt_size_of_gate? slot
  | moved found inside awakened apart present awake visits =>
    rw [resolved] at found
    cases found
    rw [← awakened.size consistent]
    exact ⟨present, by rw [awakened.size consistent]; exact inside⟩

theorem schedule_start {old : Nat} {new : Signal} (acyclic : net.Acyclic)
    (apart : ¬net.Reaches new.node old) (inside : old < net.size ∧ new.node < net.size) :
    Schedule old net (.start old new) fun a b => a = old ∧ b = new.node := by
  constructor
  case ranks =>
    obtain ⟨rank, ranks⟩ := exists_ranks acyclic
    exact ranks.insert fun path => apart (reaches_iff.2 path)
  case queue =>
    intro p member
    rw [List.mem_singleton.1 member]
    exact ⟨rfl, rfl⟩
  case replaced =>
    intro n s entry
    simp [Replacements.start] at entry
  case handled =>
    rintro q t ⟨rfl, -⟩
    simp [Replacements.handles, Replacements.start]
  case once => exact fun q t u left right => left.2.trans right.2.symm
  case inside =>
    rintro q t ⟨rfl, rfl⟩
    exact inside
  case chained => exact fun q t swapped => .inl swapped.1
  case backed => exact fun q t swapped => .inl swapped.1

/-- A substitution that takes no twin keeps an acyclic network acyclic. -/
theorem substituteNode_acyclic {old : Nat} {new : Signal} (consistent : net.Consistent)
    (acyclic : net.Acyclic) (apart : ¬net.Reaches new.node old)
    (twinless : ∀ e ∈ substitutionEncounters old new net, e.takesTwin = false)
    (run : Gives (substituteNode old new) net () net') : net'.Acyclic := by
  have differ : old ≠ new.node := fun same => apart (same ▸ .refl _)
  have inside := substituteNode_inside consistent differ run
  simp only [substituteNode, gives_bind, gives_get] at run
  obtain ⟨_, _, ⟨rfl, rfl⟩, run⟩ := run
  obtain ⟨r, -, -, swap, schedule⟩ := replaceAll_invariant
    (fun e => e.takesTwin = false)
    (fun r current => current.Consistent ∧ ∃ swap, Schedule old current r swap)
    (by
      rintro r old' target rest net net' r' queue ⟨consistent, swap, schedule⟩ met replaced
      exact ⟨(replaced.consistent consistent).1,
        schedule.replace consistent queue met replaced⟩)
    ⟨consistent, _, schedule_start acyclic apart inside⟩ twinless run
  obtain ⟨rank, ranks⟩ := schedule.ranks
  exact acyclic_of_ranks rank (ranks.mono fun _ _ => .inl)

end Edit

end LogicOpt
