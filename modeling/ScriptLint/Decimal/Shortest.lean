import ScriptLint.Decimal.Binary64

/-!
The shortest decimal numeral of a binary number.

The reals that round to `f * 2 ^ q` form an interval around it, with both ends in it when
`f` is even. On the grid of numerals with `n` digits only the two neighbours of the number
can be the nearest numeral in the interval. The first `n` for which one of them lies in the
interval gives the digits, and of two the nearer; which of two equally near is for the
format to say.

All quantities are multiples of one power of two and one power of ten, so the comparisons
are between natural numbers.
-/

namespace ScriptLint

inductive Tie where
  | up
  | even
deriving DecidableEq, Repr

def Tie.takesLower : Tie → (below : Nat) → Bool
  | up, _ => false
  | even, below => below % 2 == 0

/-- The number `digits * 10 ^ exponent`. -/
structure Numeral where
  digits : Nat
  exponent : Int
deriving DecidableEq, Inhabited, Repr

namespace Numeral

def dropZeros : (fuel : Nat) → Numeral → Numeral
  | 0, d => d
  | fuel + 1, d =>
    if d.digits % 10 = 0 then dropZeros fuel ⟨d.digits / 10, d.exponent + 1⟩ else d

def normalize (d : Numeral) : Numeral :=
  if d.digits = 0 then ⟨0, 0⟩ else d.dropZeros (Nat.toDigits 10 d.digits).length

def digitText (d : Numeral) : List Char := Nat.toDigits 10 d.digits

/-- The place of the point, counted from before the first digit. -/
def point (d : Numeral) : Int := d.digitText.length + d.exponent

end Numeral

/-- A positive number between two others, all multiples of `2 ^ exponent`: the reals from
`low` to `high` round to it, with the ends if `closed`. -/
structure RoundingInterval where
  low : Nat
  value : Nat
  high : Nat
  exponent : Int
  closed : Bool
deriving DecidableEq, Repr

namespace RoundingInterval

/-- The reals that round to a finite number other than zero, in quarters of its last bit. -/
def ofBinary64 (x : Binary64) : RoundingInterval where
  low := 4 * x.significand - (if x.isSpacingChange then 1 else 2)
  value := 4 * x.significand
  high := 4 * x.significand + 2
  exponent := x.exponent - 2
  closed := x.significand % 2 == 0

/-- What a multiple of `2 ^ exponent` is multiplied by when it is counted in steps of
`10 ^ k`. -/
def factor (r : RoundingInterval) (k : Int) : Nat :=
  Nat.pow 2 r.exponent.toNat * Nat.pow 10 (-k).toNat

def divisor (r : RoundingInterval) (k : Int) : Nat :=
  Nat.pow 2 (-r.exponent).toNat * Nat.pow 10 k.toNat

def covers (r : RoundingInterval) (k : Int) (d : Nat) : Bool :=
  let low := r.low * r.factor k
  let high := r.high * r.factor k
  let place := d * r.divisor k
  if r.closed then low ≤ place && place ≤ high else low < place && place < high

/-- The place of the point of the number: the least `p` with the number below `10 ^ p`. -/
def point (r : RoundingInterval) : Int :=
  let num := r.value * r.factor 0
  let den := r.divisor 0
  if den ≤ num then (Nat.toDigits 10 (num / den)).length
  else
    let k := (Nat.toDigits 10 (den / num)).length
    if den = num * Nat.pow 10 (k - 1) then 2 - (k : Int) else 1 - (k : Int)

/-- The nearer of the two neighbours of the number on the grid `10 ^ k` that lie in the
interval. -/
def nearest? (r : RoundingInterval) (tie : Tie) (k : Int) : Option Numeral :=
  let num := r.value * r.factor k
  let den := r.divisor k
  let below := num / den
  let above := below + 1
  match r.covers k below, r.covers k above with
  | true, true =>
    let isLower := 2 * (num % den) < den || (2 * (num % den) == den && tie.takesLower below)
    some ⟨if isLower then below else above, k⟩
  | true, false => some ⟨below, k⟩
  | false, true => some ⟨above, k⟩
  | false, false => none

/-- Seventeen digits are enough to tell any two numbers apart. -/
def maxDigits : Nat := 17

def shortest (r : RoundingInterval) (tie : Tie) : Numeral :=
  let grids := (List.range maxDigits).map fun n : Nat => r.point - ((n : Int) + 1)
  ((grids.findSome? (r.nearest? tie)).getD ⟨r.value, r.exponent⟩).normalize

end RoundingInterval

def Binary64.shortest (x : Binary64) (tie : Tie) : Numeral :=
  if x.isZero then ⟨0, 0⟩ else (RoundingInterval.ofBinary64 x).shortest tie

end ScriptLint
