import LogicOpt.Network.Basic

namespace LogicOpt

@[simp]
theorem ensure_eq_ok {condition : Bool} {fault : Fault} {u : Unit} :
    ensure condition fault = .ok u ↔ condition = true := by
  cases condition <;> simp [ensure]

namespace Network

theorem require_eq_ok {net : Network} {n : Nat} {u : Unit} :
    net.require n = .ok u ↔ n < net.size := by
  rw [require, ensure_eq_ok, decide_eq_true_eq]

theorem requireAll_eq_ok {net : Network} {nodes : List Nat} {u : Unit} :
    net.requireAll nodes = .ok u ↔ ∀ n ∈ nodes, n < net.size := by
  simp only [requireAll, ensure_eq_ok, List.all_eq_true, decide_eq_true_eq]

end Network

namespace Edit

variable {α β σ : Type} {net net' : Network}

/-- The operation succeeds with this answer and leaves this network. -/
def Gives (op : Edit α) (net : Network) (answer : α) (net' : Network) : Prop :=
  op net = .ok answer net'

@[simp]
theorem gives_pure {a b : α} : Gives (pure a) net b net' ↔ a = b ∧ net = net' := by
  simp [Gives, pure, EStateM.pure]

theorem gives_bind {op : Edit α} {f : α → Edit β} {b : β} :
    Gives (op >>= f) net b net' ↔ ∃ a mid, Gives op net a mid ∧ Gives (f a) mid b net' := by
  simp only [Gives, bind, EStateM.bind]
  cases op net <;> simp [and_assoc]

@[simp]
theorem gives_get {a : Network} : Gives get net a net' ↔ net = a ∧ net = net' := by
  show EStateM.Result.ok net net = .ok a net' ↔ _
  simp

@[simp]
theorem gives_set {a : Network} {u : PUnit} : Gives (set a) net u net' ↔ a = net' := by
  show EStateM.Result.ok PUnit.unit a = .ok u net' ↔ _
  simp

@[simp]
theorem gives_throw {fault : Fault} {a : α} : ¬Gives (throw fault) net a net' := by
  show ¬EStateM.Result.error fault net = .ok a net'
  simp

@[simp]
theorem gives_ofExcept {result : Except Fault α} {a : α} :
    Gives (ofExcept result) net a net' ↔ result = .ok a ∧ net = net' := by
  cases result <;> simp [ofExcept]

@[simp]
theorem gives_check {test : Network → Except Fault α} {a : α} :
    Gives (check test) net a net' ↔ test net = .ok a ∧ net = net' := by
  simp [check, gives_bind, and_assoc, and_comm]

@[simp]
theorem gives_update {f : Network → Network} {u : Unit} :
    Gives (update f) net u net' ↔ f net = net' := by
  show EStateM.Result.ok () (f net) = .ok u net' ↔ _
  simp

theorem gives_get_bind {f : Network → Edit β} {b : β} :
    Gives (get >>= f) net b net' ↔ Gives (f net) net b net' := by
  simp [gives_bind, and_assoc]

@[simp]
theorem gives_ite {condition : Prop} [Decidable condition] {left right : Edit α} {a : α} :
    Gives (if condition then left else right) net a net' ↔
      (condition ∧ Gives left net a net') ∨ (¬condition ∧ Gives right net a net') := by
  by_cases h : condition <;> simp [h]

theorem Gives.unique {op : Edit α} {a b : α} {left right : Network} (hl : Gives op net a left)
    (hr : Gives op net b right) : a = b ∧ left = right := by
  unfold Gives at hl hr
  rw [hl] at hr
  cases hr
  exact ⟨rfl, rfl⟩

theorem Gives.bind_eq {op : Edit α} {a : α} (run : Gives op net a net') (f : α → Edit β) :
    (op >>= f) net = f a net' := by
  show EStateM.bind op f net = f a net'
  rw [EStateM.bind, show op net = .ok a net' from run]

theorem bind_error {op : Edit α} {fault : Fault} (run : op net = .error fault net')
    (f : α → Edit β) : (op >>= f) net = .error fault net' := by
  show EStateM.bind op f net = .error fault net'
  rw [EStateM.bind, run]

/-- Whether an operation succeeds, with an answer and a network as asked for. -/
def yields (op : Edit α) (holds : α → Network → Bool) (net : Network) : Bool :=
  match op net with
  | .ok a net' => holds a net'
  | .error _ _ => false

theorem exists_gives {op : Edit α} {holds : α → Network → Bool}
    (yielded : yields op holds net = true) :
    ∃ a net', Gives op net a net' ∧ holds a net' = true := by
  unfold yields at yielded
  split at yielded
  · rename_i a net' run
    exact ⟨a, net', run, yielded⟩
  · cases yielded

def stops (op : Edit α) (holds : Fault → Bool) (net : Network) : Bool :=
  match op net with
  | .ok _ _ => false
  | .error fault _ => holds fault

theorem exists_error {op : Edit α} {holds : Fault → Bool} (stopped : stops op holds net = true) :
    ∃ fault net', op net = .error fault net' ∧ holds fault = true := by
  unfold stops at stopped
  split at stopped
  · cases stopped
  · rename_i fault net' run
    exact ⟨fault, net', run, stopped⟩

/-- What holds at the start and is kept by every step of a loop holds at its end. -/
theorem foldlM_invariant {f : σ → α → Edit σ} (holds : List α → σ → Network → Prop)
    (step : ∀ a rest s net s' net', holds (a :: rest) s net → Gives (f s a) net s' net' →
      holds rest s' net') :
    ∀ {xs : List α} {s s' : σ} {net net' : Network}, holds xs s net →
      Gives (xs.foldlM f s) net s' net' → holds [] s' net' := by
  intro xs
  induction xs with
  | nil =>
    intro s s' net net' start run
    simp only [List.foldlM_nil, gives_pure] at run
    obtain ⟨rfl, rfl⟩ := run
    exact start
  | cons a rest ih =>
    intro s s' net net' start run
    simp only [List.foldlM_cons, gives_bind] at run
    obtain ⟨mid, middle, head, tail⟩ := run
    exact ih (step a rest s net mid middle start head) tail

end Edit

theorem bind_eq_ok {α β : Type} {x : Except Fault α} {f : α → Except Fault β} {b : β} :
    (x >>= f) = .ok b ↔ ∃ a, x = .ok a ∧ f a = .ok b := by
  cases x <;> simp [bind, Except.bind]

theorem exists_of_any {ε α : Type} {run : Except ε α} {holds : α → Bool}
    (passed : run.toOption.any holds = true) : ∃ a, run = .ok a ∧ holds a = true := by
  cases run with
  | error _ => cases passed
  | ok a => exact ⟨a, rfl, passed⟩

end LogicOpt
