import LogicOpt.Random.Draws

namespace LogicOpt

structure Xoshiro where
  s0 : UInt64
  s1 : UInt64
  s2 : UInt64
  s3 : UInt64
deriving DecidableEq

namespace Xoshiro

def rotateLeft (x : UInt64) (k : UInt64) : UInt64 := (x <<< k) ||| (x >>> (64 - k))

def mix (counter : UInt64) : UInt64 :=
  let z := (counter ^^^ (counter >>> 30)) * 0xbf58476d1ce4e5b9
  let z := (z ^^^ (z >>> 27)) * 0x94d049bb133111eb
  z ^^^ (z >>> 31)

def ofSeed (seed : UInt64) : Xoshiro :=
  let step : UInt64 := 0x9e3779b97f4a7c15
  ⟨mix (seed + step), mix (seed + 2 * step), mix (seed + 3 * step), mix (seed + 4 * step)⟩

def next (g : Xoshiro) : UInt64 × Xoshiro :=
  let output := rotateLeft (g.s0 + g.s3) 23 + g.s0
  let s2 := g.s2 ^^^ g.s0
  let s3 := g.s3 ^^^ g.s1
  let s1 := g.s1 ^^^ s2
  let s0 := g.s0 ^^^ s3
  (output, ⟨s0, s1, s2 ^^^ (g.s1 <<< 17), rotateLeft s3 45⟩)

def wordCount : Nat := 0x10000000000000000

/-- The largest multiple of `bound` by a power of two that fits a word, less one. -/
def acceptance (bound : Nat) : Nat := (bound <<< (63 - bound.log2)) - 1

/-- A number below `bound`: the high word of `output * bound`, drawn again while the low word is
    past the acceptance limit. A draw is refused in less than half of all cases; after `tries`
    refusals the last draw is taken. -/
def drawBelow (bound : Nat) : (tries : Nat) → Xoshiro → Nat × Xoshiro
  | 0, g =>
    let (output, g) := g.next
    (output.toNat * bound / wordCount, g)
  | tries + 1, g =>
    let (output, g) := g.next
    let product := output.toNat * bound
    if product % wordCount ≤ acceptance bound then (product / wordCount, g)
    else drawBelow bound tries g

theorem drawBelow_lt (bound tries : Nat) (g : Xoshiro) (positive : 0 < bound) :
    (drawBelow bound tries g).1 < bound := by
  have high (output : UInt64) : output.toNat * bound / wordCount < bound := by
    rw [Nat.div_lt_iff_lt_mul (by decide), Nat.mul_comm]
    exact Nat.mul_lt_mul_of_pos_left output.toNat_lt positive
  induction tries generalizing g with
  | zero => exact high _
  | succ tries ih =>
    simp only [drawBelow]
    split
    · exact high _
    · exact ih _

def maxTries : Nat := 4096

/-- The outputs below this bound are seven tenths of all. -/
def biasedBound : UInt64 := 12912720851596685312

def draws : Draws Xoshiro where
  below bound g := drawBelow bound maxTries g
  biased g := let (output, g) := g.next; (output < biasedBound, g)
  fair g := let (output, g) := g.next; (output >>> 63 == 1, g)
  below_lt bound g positive := drawBelow_lt bound maxTries g positive

def words : (count : Nat) → Xoshiro → List UInt64 × Xoshiro
  | 0, g => ([], g)
  | count + 1, g =>
    let (output, g) := g.next
    let (rest, g) := words count g
    (output :: rest, g)

end Xoshiro

end LogicOpt
