import LogicOpt.Resynthesis.Problem

namespace LogicOpt

namespace Problem

variable {w : Nat} (p : Problem w)

def maxPairPool : Nat := 64

def maxMajPool : Nat := 48

def findConstant : Option Candidate :=
  if p.careOn == 0 then some (.constant p.numDivisors false)
  else if entails p.care p.target then some (.constant p.numDivisors true)
  else none

def findDivisor : Option Candidate :=
  p.divisors.zipIdx.findSome? fun (f, i) =>
    if p.accepts f then some (.divisor p.numDivisors i false)
    else if p.accepts (~~~f) then some (.divisor p.numDivisors i true)
    else none

def literals : List (Literal w) := p.divisors.zipIdx.flatMap fun (f, i) => Literal.both i f

/-- Literals that imply the target on the care set, usable under a disjunction. -/
def positive : List (Literal w) :=
  p.literals.filter fun l => entails (l.function &&& p.care) p.target

/-- Literals that the target implies on the care set, usable under a conjunction. -/
def negative : List (Literal w) := p.literals.filter fun l => entails p.careOn l.function

/-- The literals of the first divisors, as many as fit the bound. -/
def pool (bound : Nat) : List (Literal w) := p.literals.take (bound / 2 * 2)

def firstGate : Nat := p.numDivisors + 1

def oneGate (g : Gate Signal) (negated : Bool) : Candidate :=
  ⟨p.numDivisors, [g], ⟨p.firstGate, negated⟩⟩

def orCandidate (a b : Literal w) : Candidate :=
  p.oneGate (.and2 a.signal.negate b.signal.negate) true

def andCandidate (a b : Literal w) : Candidate := p.oneGate (.and2 a.signal b.signal) false

def findOr (positive : List (Literal w)) : Option Candidate :=
  findPair?
    (fun a b => if p.accepts (a.function ||| b.function) then some (p.orCandidate a b) else none)
    positive

def findAnd (negative : List (Literal w)) : Option Candidate :=
  findPair?
    (fun a b => if p.accepts (a.function &&& b.function) then some (p.andCandidate a b) else none)
    negative

def xorCandidate (a b : Literal w) (negated : Bool) : Candidate :=
  p.oneGate (.xor2 a.signal b.signal) negated

def findXor : Option Candidate :=
  findPair?
    (fun (a, i) (b, j) =>
      let x := a ^^^ b
      let la := Literal.ofDivisor i a false
      let lb := Literal.ofDivisor j b false
      if p.accepts x then some (p.xorCandidate la lb false)
      else if p.accepts (~~~x) then some (p.xorCandidate la lb true)
      else none)
    (p.divisors.zipIdx.take maxPairPool)

def majCandidate (a b c : Literal w) : Candidate :=
  p.oneGate (.maj3 a.signal b.signal c.signal) false

/-- The third operand of a majority, which decides where `a` and `b` differ. -/
def findThird (third : List (Literal w)) (a b : Literal w) : Option Candidate :=
  if a.sameDivisor b then none
  else
    let differ := (a.function ^^^ b.function) &&& p.care
    let agree := ~~~(a.function ^^^ b.function) &&& p.care
    if agreeOn a.function p.target agree then
      (third.find? fun c =>
        !c.sameDivisor a && !c.sameDivisor b && agreeOn c.function p.target differ).map
          (p.majCandidate a b)
    else none

def findMaj : Option Candidate :=
  let pool := p.pool maxMajPool
  findPair? (p.findThird (.constant false :: .constant true :: pool)) pool

structure LiteralPair (w : Nat) where
  left : Literal w
  right : Literal w
  function : BitVec w

def pairsOf (op : BitVec w → BitVec w → BitVec w) : List (Literal w) → List (LiteralPair w)
  | [] => []
  | a :: rest =>
    (rest.filter fun b => !a.sameDivisor b).map (fun b => ⟨a, b, op a.function b.function⟩)
      ++ pairsOf op rest

def products : List (LiteralPair w) :=
  (pairsOf (· &&& ·) (p.pool maxPairPool)).filter fun q => entails (q.function &&& p.care) p.target

def sums : List (LiteralPair w) :=
  (pairsOf (· ||| ·) (p.pool maxPairPool)).filter fun q => entails p.careOn q.function

def orAndCandidate (a : Literal w) (q : LiteralPair w) : Candidate :=
  ⟨p.numDivisors,
    [.and2 q.left.signal q.right.signal, .and2 a.signal.negate ⟨p.firstGate, true⟩],
    ⟨p.firstGate + 1, true⟩⟩

def andOrCandidate (a : Literal w) (q : LiteralPair w) : Candidate :=
  ⟨p.numDivisors,
    [.and2 q.left.signal.negate q.right.signal.negate, .and2 a.signal ⟨p.firstGate, true⟩],
    ⟨p.firstGate + 1, false⟩⟩

def findOrAnd (positive : List (Literal w)) (products : List (LiteralPair w)) :
    Option Candidate :=
  positive.findSome? fun a =>
    (products.find? fun q => p.accepts (a.function ||| q.function)).map (p.orAndCandidate a)

def findAndOr (negative : List (Literal w)) (sums : List (LiteralPair w)) : Option Candidate :=
  negative.findSome? fun a =>
    (sums.find? fun q => p.accepts (a.function &&& q.function)).map (p.andOrCandidate a)

end Problem

end LogicOpt
