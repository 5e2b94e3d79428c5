import LogicOpt.Network.WellFormed

namespace LogicOpt

namespace Network

structure Valuation (net : Network) (input value : Nat → Bool) : Prop where
  constant : value 0 = false
  input : ∀ n, net.isInput n = true → value n = input n
  gate : ∀ n g, net.gate? n = some g → value n = g.evalUnder value

def signalUnder (value : Nat → Bool) (s : Signal) : Bool := value s.node ^^ s.negated

/-- Two valuations that agree on the inputs agree on every slot that holds something. -/
theorem Valuation.unique {net : Network} {input left right : Nat → Bool} (acyclic : net.Acyclic)
    (inPlace : net.InPlace) (hl : net.Valuation input left) (hr : net.Valuation input right) :
    ∀ n, n < net.size → left n = right n := by
  intro n
  induction n using acyclic.induction with
  | _ n ih =>
    intro (bound : n < net.nodes.size)
    cases body : net.nodes[n].body with
    | constant =>
      have first : n = 0 := (inPlace.constant_iff n).1 (by
        simp [body?, Array.getElem?_eq_getElem bound, body])
      rw [first, hl.constant, hr.constant]
    | input name =>
      have isInput : net.isInput n = true := by
        simp [isInput, Array.getElem?_eq_getElem bound, Node.isInput, body]
      rw [hl.input n isInput, hr.input n isInput]
    | gate g =>
      have slot : net.gate? n = some g := by
        simp [gate?, Array.getElem?_eq_getElem bound, Node.gate?, body]
      have operands := fanins_eq_operands slot
      have same (f : Signal) (member : f ∈ g.operands) : left f.node = right f.node := by
        rw [← operands] at member
        exact ih f.node ⟨f, member, rfl⟩ (inPlace.fanin_lt n f member)
      rw [hl.gate n g slot, hr.gate n g slot]
      cases g <;> simp_all [Gate.evalUnder, Gate.map, Gate.operands]

end Network

end LogicOpt
