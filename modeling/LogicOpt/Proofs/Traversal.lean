import LogicOpt.Network.Order
import LogicOpt.Proofs.Runs
import LogicOpt.Proofs.Upkeep
import Mathlib.Data.List.Perm.Subperm
import Mathlib.Logic.Relation
import Mathlib.Order.WellFounded

/-!
What a traversal finds. From its starts it enters every node that is neither marked nor skipped and
lists it once; whatever a listed node reads is listed, skipped or was marked before. Only the order
needs the network to be acyclic: then every node is listed after what it reads.
-/

namespace LogicOpt

namespace Network

variable {net : Network} {skip : Nat → Bool}

theorem Reaches.not_feeds {a b : Nat} (path : net.Reaches a b) (acyclic : net.Acyclic) :
    ¬net.Feeds a b := by
  have up : Relation.ReflTransGen net.Feeds b a := by
    induction path with
    | refl => exact .refl
    | step _ last ih => exact .head last ih
  exact fun feeds => acyclic.transGen.irrefl.irrefl b (.tail' up feeds)

/-- A path along fanins from `n` to `m` on which no node is skipped, the two ends included. -/
inductive FreePath (net : Network) (skip : Nat → Bool) : Nat → Nat → Prop where
  | refl {n : Nat} : skip n = false → FreePath net skip n n
  | step {n m k : Nat} : FreePath net skip n m → net.Feeds k m → skip k = false →
      FreePath net skip n k

theorem FreePath.head {a b c : Nat} (free : skip a = false) (feeds : net.Feeds b a)
    (path : net.FreePath skip b c) : net.FreePath skip a c := by
  induction path with
  | refl end_free => exact .step (.refl free) feeds end_free
  | step _ last end_free ih => exact .step ih last end_free

theorem FreePath.reaches {a b : Nat} (path : net.FreePath skip a b) : net.Reaches a b := by
  induction path with
  | refl _ => exact .refl a
  | step _ last _ ih => exact .step ih last

/-- Every listed node comes after what it reads, known nodes apart. -/
def InOrder (net : Network) : (known : Nat → Prop) → List Nat → Prop
  | _, [] => True
  | known, n :: rest =>
    (∀ m, net.Feeds m n → known m) ∧ net.InOrder (fun m => known m ∨ m = n) rest

theorem InOrder.mono {known known' : Nat → Prop} {order : List Nat}
    (ordered : net.InOrder known order)
    (more : ∀ n ∈ order, ∀ m, net.Feeds m n → known m → known' m) : net.InOrder known' order := by
  induction order generalizing known known' with
  | nil => trivial
  | cons n rest ih =>
    refine ⟨fun m feeds => more n (by simp) m feeds (ordered.1 m feeds), ih ordered.2 ?_⟩
    exact fun k member m feeds =>
      Or.imp_left (more k (List.mem_cons_of_mem _ member) m feeds)

theorem InOrder.congr {known known' : Nat → Prop} {order : List Nat}
    (same : ∀ m, known m ↔ known' m) : net.InOrder known order ↔ net.InOrder known' order :=
  ⟨fun ordered => ordered.mono fun _ _ m _ => (same m).1,
    fun ordered => ordered.mono fun _ _ m _ => (same m).2⟩

theorem InOrder.append {known : Nat → Prop} {xs ys : List Nat} (first : net.InOrder known xs)
    (second : net.InOrder (fun m => known m ∨ m ∈ xs) ys) : net.InOrder known (xs ++ ys) := by
  induction xs generalizing known with
  | nil => exact second.mono fun _ _ m _ => by simp
  | cons n rest ih =>
    refine ⟨first.1, ih first.2 (second.mono fun _ _ m _ => ?_)⟩
    simp [or_assoc]

theorem InOrder.known {known : Nat → Prop} {before after : List Nat} {n m : Nat}
    (ordered : net.InOrder known (before ++ n :: after)) (feeds : net.Feeds m n) :
    known m ∨ m ∈ before := by
  induction before generalizing known with
  | nil => exact .inl (ordered.1 m feeds)
  | cons k rest ih =>
    have earlier := ih ordered.2
    rw [List.mem_cons]
    tauto

theorem InOrder.filter {known known' : Nat → Prop} {order : List Nat} {keep : Nat → Bool}
    (ordered : net.InOrder known order)
    (outer : ∀ n ∈ order, keep n = true → ∀ m, net.Feeds m n → known m → known' m)
    (inner : ∀ n ∈ order, keep n = true → ∀ m ∈ order, net.Feeds m n → keep m = true ∨ known' m) :
    net.InOrder known' (order.filter keep) := by
  induction order generalizing known known' with
  | nil => trivial
  | cons a rest ih =>
    have later {n : Nat} (member : n ∈ rest) : n ∈ a :: rest := List.mem_cons_of_mem _ member
    cases kept : keep a with
    | true =>
      rw [List.filter_cons_of_pos kept]
      refine ⟨fun m feeds => outer a (by simp) kept m feeds (ordered.1 m feeds), ih ordered.2 ?_ ?_⟩
      · exact fun n member there m feeds => Or.imp_left (outer n (later member) there m feeds)
      · exact fun n member there m earlier feeds =>
          (inner n (later member) there m (later earlier) feeds).imp_right .inl
    | false =>
      rw [List.filter_cons_of_neg (by simp [kept])]
      refine ih ordered.2 (fun n member there m feeds known => ?_) fun n member there m earlier =>
        inner n (later member) there m (later earlier)
      rcases known with known | rfl
      · exact outer n (later member) there m feeds known
      · refine (inner n (later member) there m (by simp) feeds).resolve_left ?_
        rw [kept]
        exact Bool.false_ne_true

/-- A traversal from `starts` went from `s` to `s'` and listed `found`. -/
structure Swept (net : Network) (skip : Nat → Bool) (starts : List Nat) (s s' : Sweep)
    (found : List Nat) : Prop where
  started : s'.marks.current ≠ 0
  order : s'.order.toList = s.order.toList ++ found
  nodup : found.Nodup
  marked : ∀ m, s'.marks.isMarked m = true ↔ s.marks.isMarked m = true ∨ m ∈ found
  fresh : ∀ m ∈ found, s.marks.isMarked m = false ∧ skip m = false
  closed : ∀ m ∈ found, ∀ k, net.Feeds k m → skip k = true ∨ s'.marks.isMarked k = true
  reached : ∀ n ∈ starts, skip n = true ∨ s'.marks.isMarked n = true
  source : ∀ m ∈ found, m ∈ starts ∨ ∃ k ∈ found, net.Feeds m k
  met : ∀ m ∈ found, ∃ n ∈ starts, net.FreePath skip n m
  ordered : net.Acyclic → net.InOrder (fun m => skip m = true ∨ s.marks.isMarked m = true) found

theorem Swept.below {s s' : Sweep} {starts found : List Nat}
    (swept : Swept net skip starts s s' found) {m : Nat} (member : m ∈ found) :
    ∃ n ∈ starts, net.Reaches n m := by
  obtain ⟨n, start, path⟩ := swept.met m member
  exact ⟨n, start, path.reaches⟩

theorem Swept.nil {s : Sweep} (started : s.marks.current ≠ 0) :
    Swept net skip [] s s [] where
  started := started
  order := by simp
  nodup := List.nodup_nil
  marked := by simp
  fresh := by simp
  closed := by simp
  reached := by simp
  source := by simp
  met := by simp
  ordered := fun _ => trivial

theorem Swept.append {s mid s' : Sweep} {starts rest found more : List Nat}
    (head : Swept net skip starts s mid found) (tail : Swept net skip rest mid s' more) :
    Swept net skip (starts ++ rest) s s' (found ++ more) where
  started := tail.started
  order := by rw [tail.order, head.order, List.append_assoc]
  nodup := by
    refine List.nodup_append.2 ⟨head.nodup, tail.nodup, fun m member k there => ?_⟩
    rintro rfl
    have earlier := (head.marked m).2 (.inr member)
    rw [(tail.fresh m there).1] at earlier
    cases earlier
  marked := fun m => by rw [tail.marked, head.marked, List.mem_append, or_assoc]
  fresh := by
    intro m member
    rcases List.mem_append.1 member with member | member
    · exact head.fresh m member
    · obtain ⟨unmarked, kept⟩ := tail.fresh m member
      refine ⟨Bool.eq_false_iff.2 fun marked => ?_, kept⟩
      rw [(head.marked m).2 (.inl marked)] at unmarked
      cases unmarked
  closed := by
    intro m member k feeds
    rcases List.mem_append.1 member with member | member
    · exact (head.closed m member k feeds).imp_right fun marked => (tail.marked k).2 (.inl marked)
    · exact tail.closed m member k feeds
  reached := by
    intro n member
    rcases List.mem_append.1 member with member | member
    · exact (head.reached n member).imp_right fun marked => (tail.marked n).2 (.inl marked)
    · exact tail.reached n member
  source := by
    intro m member
    rcases List.mem_append.1 member with member | member
    · rcases head.source m member with start | ⟨k, there, feeds⟩
      · exact .inl (List.mem_append_left _ start)
      · exact .inr ⟨k, List.mem_append_left _ there, feeds⟩
    · rcases tail.source m member with start | ⟨k, there, feeds⟩
      · exact .inl (List.mem_append_right _ start)
      · exact .inr ⟨k, List.mem_append_right _ there, feeds⟩
  met := by
    intro m member
    rcases List.mem_append.1 member with member | member
    · obtain ⟨n, start, path⟩ := head.met m member
      exact ⟨n, List.mem_append_left _ start, path⟩
    · obtain ⟨n, start, path⟩ := tail.met m member
      exact ⟨n, List.mem_append_right _ start, path⟩
  ordered := fun acyclic => (head.ordered acyclic).append <|
    (tail.ordered acyclic).mono fun _ _ m _ => by rw [head.marked, or_assoc]; exact id

def unmarked (net : Network) (marks : Marks) : List Nat :=
  (List.range net.size).filter fun m => !marks.isMarked m

theorem length_unmarked_le {marks marks' : Marks}
    (grown : ∀ m, marks.isMarked m = true → marks'.isMarked m = true) :
    (net.unmarked marks').length ≤ (net.unmarked marks).length := by
  have subset : net.unmarked marks' ⊆ net.unmarked marks := by
    intro m member
    obtain ⟨inside, free⟩ := List.mem_filter.1 member
    refine List.mem_filter.2 ⟨inside, ?_⟩
    rw [Bool.not_eq_true'] at free ⊢
    refine Bool.eq_false_iff.2 fun marked => ?_
    rw [grown m marked] at free
    cases free
  exact ((List.nodup_range.filter _).subperm subset).length_le

theorem length_unmarked_mark {marks : Marks} (started : marks.current ≠ 0) {n : Nat}
    (inside : n < net.size) (fresh : marks.isMarked n = false) :
    (net.unmarked (marks.mark n)).length < (net.unmarked marks).length := by
  have one := length_filter_range (p := fun m => !marks.isMarked m)
    (q := fun m => !(marks.mark n).isMarked m) inside
    ⟨by simp [fresh], by simp [Marks.isMarked_mark started]⟩
    fun m other => by simp [Marks.isMarked_mark started, other]
  rw [unmarked, unmarked]
  omega

theorem fanins_eq_nil_of_size_le {n : Nat} (outside : net.size ≤ n) : net.fanins n = [] := by
  have none : net.nodes[n]? = none := Array.getElem?_eq_none outside
  simp [fanins, none]

/-- A node that is skipped or marked is passed over. -/
theorem Swept.pass {s : Sweep} {n : Nat} (started : s.marks.current ≠ 0)
    (passed : skip n = true ∨ s.marks.isMarked n = true) : Swept net skip [n] s s [] where
  __ := Swept.nil started
  reached := fun m member => by rwa [List.mem_singleton.1 member]
  source := by simp
  met := by simp

/-- A node that is entered is marked before its fanins are visited and listed after them. -/
theorem Swept.enter {s t : Sweep} {n : Nat} {found : List Nat} (started : s.marks.current ≠ 0)
    (fresh : s.marks.isMarked n = false) (kept : skip n = false)
    (below : Swept net skip ((net.fanins n).map (·.node)) { s with marks := s.marks.mark n } t
      found) :
    Swept net skip [n] s { t with order := t.order.push n } (found ++ [n]) := by
  have self (m : Nat) : (s.marks.mark n).isMarked m = true ↔ m = n ∨ s.marks.isMarked m = true := by
    rw [Marks.isMarked_mark started]
    simp
  have outside : n ∉ found := fun member => by
    have unmarked := (below.fresh n member).1
    rw [(self n).2 (.inl rfl)] at unmarked
    cases unmarked
  constructor
  case started => exact below.started
  case order => rw [Array.toList_push, below.order, List.append_assoc]
  case nodup => exact nodup_append_singleton below.nodup outside
  case marked =>
    intro m
    rw [below.marked, self, List.mem_append, List.mem_singleton]
    grind
  case fresh =>
    intro m member
    rcases List.mem_append.1 member with member | member
    · obtain ⟨unmarked, free⟩ := below.fresh m member
      refine ⟨Bool.eq_false_iff.2 fun marked => ?_, free⟩
      rw [(self m).2 (.inr marked)] at unmarked
      cases unmarked
    · rw [List.mem_singleton.1 member]
      exact ⟨fresh, kept⟩
  case closed =>
    intro m member k feeds
    rcases List.mem_append.1 member with member | member
    · exact below.closed m member k feeds
    · rw [List.mem_singleton.1 member] at feeds
      obtain ⟨f, there, rfl⟩ := feeds
      exact below.reached f.node (List.mem_map_of_mem there)
  case reached =>
    intro m member
    rw [List.mem_singleton.1 member]
    exact .inr ((below.marked n).2 (.inl ((self n).2 (.inl rfl))))
  case source =>
    intro m member
    rcases List.mem_append.1 member with member | member
    · rcases below.source m member with start | ⟨k, there, feeds⟩
      · obtain ⟨f, there, rfl⟩ := List.mem_map.1 start
        exact .inr ⟨n, by simp, f, there, rfl⟩
      · exact .inr ⟨k, List.mem_append_left _ there, feeds⟩
    · exact .inl member
  case met =>
    intro m member
    refine ⟨n, by simp, ?_⟩
    rcases List.mem_append.1 member with member | member
    · obtain ⟨start, there, path⟩ := below.met m member
      obtain ⟨f, reads, rfl⟩ := List.mem_map.1 there
      exact .head kept ⟨f, reads, rfl⟩ path
    · rw [List.mem_singleton.1 member]
      exact .refl kept
  case ordered =>
    intro acyclic
    have under (m : Nat) (member : m ∈ found) : net.Reaches n m := by
      obtain ⟨start, there, path⟩ := below.below member
      obtain ⟨f, reads, rfl⟩ := List.mem_map.1 there
      exact .head ⟨f, reads, rfl⟩ path
    -- What is listed below `n` does not read it, so the mark of `n` itself is not needed.
    refine ((below.ordered acyclic).mono fun m member k feeds => ?_).append
      ⟨fun m feeds => ?_, trivial⟩
    · rw [self]
      have apart : k ≠ n := fun same => (under m member).not_feeds acyclic (same ▸ feeds)
      simp [apart]
    · obtain ⟨f, there, rfl⟩ := feeds
      have apart : f.node ≠ n := fun same =>
        (Reaches.refl n).not_feeds acyclic ⟨f, there, same⟩
      have entered := below.reached f.node (List.mem_map_of_mem there)
      rw [below.marked, self] at entered
      simpa [apart, or_assoc] using entered

/-- Marks are only added on the way through a list of fanins, so the depth that one visit needs is
    enough for all of them. -/
theorem exists_swept_fanins {depth : Nat} {fanins : List Signal} {s : Sweep}
    (visit : ∀ (s : Sweep) (n : Nat), s.marks.current ≠ 0 → (net.unmarked s.marks).length < depth →
      ∃ found, Swept net skip [n] s (net.sweep skip depth s n) found)
    (started : s.marks.current ≠ 0)
    (room : fanins = [] ∨ (net.unmarked s.marks).length < depth) :
    ∃ found, Swept net skip (fanins.map (·.node)) s
      (fanins.foldl (fun s f => net.sweep skip depth s f.node) s) found := by
  induction fanins generalizing s with
  | nil => exact ⟨[], .nil started⟩
  | cons f rest ih =>
    have room := room.resolve_left (by simp)
    obtain ⟨first, head⟩ := visit s f.node started room
    have fewer : (net.unmarked (net.sweep skip depth s f.node).marks).length ≤
        (net.unmarked s.marks).length :=
      length_unmarked_le fun m marked => (head.marked m).2 (.inl marked)
    obtain ⟨more, tail⟩ := ih head.started (.inr (by omega))
    exact ⟨first ++ more, head.append tail⟩

/-- Every nested visit marks a slot, so a depth above the number of unmarked slots suffices. -/
theorem sweep_spec (net : Network) (skip : Nat → Bool) (depth : Nat) (s : Sweep) (n : Nat)
    (started : s.marks.current ≠ 0) (deep : (net.unmarked s.marks).length < depth) :
    ∃ found, Swept net skip [n] s (net.sweep skip depth s n) found := by
  induction depth generalizing s n with
  | zero => omega
  | succ depth ih =>
    rw [sweep]
    split
    · rename_i passed
      exact ⟨[], .pass started (by simpa [or_comm] using passed)⟩
    · rename_i entered
      simp only [Bool.or_eq_true, not_or, Bool.not_eq_true] at entered
      obtain ⟨fresh, kept⟩ := entered
      have room : net.fanins n = [] ∨ (net.unmarked (s.marks.mark n)).length < depth := by
        by_cases inside : n < net.size
        · have fewer : (net.unmarked (s.marks.mark n)).length < (net.unmarked s.marks).length :=
            length_unmarked_mark started inside fresh
          exact .inr (by omega)
        · exact .inl (fanins_eq_nil_of_size_le (by omega))
      obtain ⟨found, below⟩ := exists_swept_fanins ih (s := { s with marks := s.marks.mark n })
        started room
      exact ⟨found ++ [n], below.enter started fresh kept⟩

theorem length_unmarked_lt_depthBound (net : Network) (marks : Marks) :
    (net.unmarked marks).length < net.depthBound := by
  have := List.length_filter_le (fun m => !marks.isMarked m) (List.range net.size)
  rw [List.length_range] at this
  rw [unmarked, depthBound]
  omega

/-- What a postorder lists: the nodes met from the starts without entering skipped nodes. -/
structure Listed (net : Network) (skip : Nat → Bool) (starts order : List Nat) : Prop where
  nodup : order.Nodup
  kept : ∀ m ∈ order, skip m = false
  closed : ∀ m ∈ order, ∀ k, net.Feeds k m → skip k = true ∨ k ∈ order
  reached : ∀ n ∈ starts, skip n = true ∨ n ∈ order
  source : ∀ m ∈ order, m ∈ starts ∨ ∃ k ∈ order, net.Feeds m k
  met : ∀ m ∈ order, ∃ n ∈ starts, net.FreePath skip n m
  ordered : net.Acyclic → net.InOrder (fun m => skip m = true) order

theorem Listed.below {starts order : List Nat} (listed : Listed net skip starts order) {m : Nat}
    (member : m ∈ order) : ∃ n ∈ starts, net.Reaches n m := by
  obtain ⟨n, start, path⟩ := listed.met m member
  exact ⟨n, start, path.reaches⟩

theorem foldl_sweep (net : Network) (skip : Nat → Bool) (starts : List Nat) (s : Sweep)
    (started : s.marks.current ≠ 0) :
    ∃ found, Swept net skip starts s (starts.foldl (net.sweep skip net.depthBound) s) found := by
  induction starts generalizing s with
  | nil => exact ⟨[], .nil started⟩
  | cons n rest ih =>
    obtain ⟨first, head⟩ := sweep_spec net skip net.depthBound s n started
      (length_unmarked_lt_depthBound net s.marks)
    obtain ⟨more, tail⟩ := ih _ head.started
    exact ⟨first ++ more, head.append tail⟩

theorem isMarked_start (marks : Marks) (m : Nat) : (Sweep.start marks).marks.isMarked m = false :=
  Marks.isMarked_newTraversal marks m

theorem Swept.listed {starts found : List Nat} {marks : Marks} {s' : Sweep}
    (swept : Swept net skip starts (.start marks) s' found) :
    s'.order.toList = found ∧ Listed net skip starts found := by
  have marked (m : Nat) : s'.marks.isMarked m = true ↔ m ∈ found := by
    rw [swept.marked, isMarked_start]
    simp
  refine ⟨by rw [swept.order]; simp [Sweep.start], ⟨swept.nodup, fun m member =>
    (swept.fresh m member).2, ?_, ?_, swept.source, swept.met, fun acyclic =>
    (swept.ordered acyclic).mono fun _ _ m _ => by simp [isMarked_start]⟩⟩
  · intro m member k feeds
    exact (swept.closed m member k feeds).imp_right (marked k).1
  · intro n member
    exact (swept.reached n member).imp_right (marked n).1

theorem listed_postorder (net : Network) (skip : Nat → Bool) (starts : List Nat) :
    Listed net skip starts (net.postorder starts skip) := by
  obtain ⟨found, swept⟩ := foldl_sweep net skip starts (.start .empty)
    (Marks.current_newTraversal_ne_zero _)
  obtain ⟨same, listed⟩ := swept.listed
  rwa [postorder, same]

theorem inOrder_eq_true {marks : Marks} {order : List Nat} (started : marks.current ≠ 0) :
    net.inOrder skip marks order = true ↔
      net.InOrder (fun m => skip m = true ∨ marks.isMarked m = true) order := by
  induction order generalizing marks with
  | nil => simp [inOrder, InOrder]
  | cons n rest ih =>
    have known : (∀ f ∈ net.fanins n, skip f.node = true ∨ marks.isMarked f.node = true) ↔
        ∀ m, net.Feeds m n → skip m = true ∨ marks.isMarked m = true :=
      ⟨fun all m ⟨f, member, same⟩ => same ▸ all f member,
        fun all f member => all f.node ⟨f, member, rfl⟩⟩
    have later := ih (show (marks.mark n).current ≠ 0 from started)
    simp only [inOrder, Bool.and_eq_true, List.all_eq_true, Bool.or_eq_true, known, later]
    refine and_congr_right fun _ => InOrder.congr fun m => ?_
    simp only [Marks.isMarked_mark started, Bool.or_eq_true, beq_iff_eq]
    tauto

theorem orderFrom_eq_ok {starts order : List Nat} :
    net.orderFrom starts skip = .ok order ↔
      order = net.postorder starts skip ∧ net.InOrder (fun m => skip m = true) order := by
  simp only [orderFrom, bind_eq_ok, ensure_eq_ok,
    inOrder_eq_true (Marks.current_newTraversal_ne_zero _), Marks.isMarked_newTraversal,
    Bool.false_eq_true, or_false]
  constructor
  · rintro ⟨-, ordered, same⟩
    cases same
    exact ⟨rfl, ordered⟩
  · rintro ⟨rfl, ordered⟩
    exact ⟨(), ordered, rfl⟩

theorem orderFrom_of_acyclic (acyclic : net.Acyclic) (starts : List Nat) (skip : Nat → Bool) :
    net.orderFrom starts skip = .ok (net.postorder starts skip) :=
  orderFrom_eq_ok.2 ⟨rfl, (listed_postorder net skip starts).ordered acyclic⟩

/-- What is listed are the nodes on paths from the starts that touch no skipped node. -/
theorem Listed.mem_iff_freePath {starts order : List Nat} (listed : Listed net skip starts order)
    {n : Nat} : n ∈ order ↔ ∃ start ∈ starts, net.FreePath skip start n := by
  constructor
  · exact listed.met n
  · rintro ⟨start, given, path⟩
    induction path with
    | refl free => exact (listed.reached start given).resolve_left (by simp [free])
    | step _ feeds free ih => exact (listed.closed _ ih _ feeds).resolve_left (by simp [free])

theorem Listed.mem_iff {starts order : List Nat}
    (listed : Listed net (fun _ => false) starts order) {n : Nat} :
    n ∈ order ↔ ∃ start ∈ starts, net.Reaches start n := by
  constructor
  · exact listed.below
  · rintro ⟨start, given, path⟩
    induction path with
    | refl => exact (listed.reached start given).resolve_left Bool.false_ne_true
    | step _ feeds ih => exact (listed.closed _ ih _ feeds).resolve_left Bool.false_ne_true

theorem reaches_iff_mem_postorder {a b : Nat} :
    net.Reaches a b ↔ b ∈ net.postorder [a] fun _ => false := by
  rw [(listed_postorder net _ [a]).mem_iff]
  simp

instance (a b : Nat) : Decidable (net.Reaches a b) :=
  decidable_of_iff _ reaches_iff_mem_postorder.symm

end Network

end LogicOpt
