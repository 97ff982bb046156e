import StorageProof.Text.Utf8

/-!
# Doubles as text

A finite double is `m * 2 ^ q` for natural `m`. The reals that round to it form an interval, closed if
`m` is even. Its text has the fewest digits that lie in that interval, and of those the nearest to it;
the search is exact, in natural numbers, on the grids of one to seventeen digits. Where the point goes
is a matter of `Notation`.
-/

namespace StorageProof.Binary64

/-- A positive double and its neighbours, as multiples of `2 ^ exponent`: four times its significand,
and the bounds of the interval that rounds to it. -/
structure Interval where
  value : Nat
  low : Nat
  high : Nat
  exponent : Int
  closed : Bool

/-- The interval of the positive finite double with the given fields. The gap below a power of two is
half the gap above it. -/
def Interval.ofFields (exponentField fraction : Nat) : Interval :=
  let m := if exponentField = 0 then fraction else Nat.pow 2 52 + fraction
  let q : Int := (if exponentField = 0 then 1 else exponentField : Nat) - 1075
  let low := if fraction = 0 ∧ 1 < exponentField then 4 * m - 1 else 4 * m - 2
  ⟨4 * m, low, 4 * m + 2, q - 2, m % 2 = 0⟩

/-- The interval as numerators over one denominator. -/
def Interval.over (i : Interval) : Nat × Nat × Nat × Nat :=
  let scale := Nat.pow 2 i.exponent.toNat
  (i.low * scale, i.value * scale, i.high * scale, Nat.pow 2 (-i.exponent).toNat)

/-- The least `k` from `k` on with `denominator ≤ numerator * 10 ^ k`, looking at no more than `fuel`. -/
def leadingPlace (numerator denominator : Nat) : (fuel k : Nat) → Nat
  | 0, k => k
  | fuel + 1, k =>
    if denominator ≤ numerator * Nat.pow 10 k then k else leadingPlace numerator denominator fuel (k + 1)

/-- The power of ten of the first digit of a positive quotient. A double needs no more than 324 places. -/
def leadingPower (numerator denominator : Nat) : Int :=
  if denominator ≤ numerator then ((Nat.toDigits 10 (numerator / denominator)).length : Int) - 1
  else -(leadingPlace numerator denominator 400 1 : Int)

/-- The point of the grid `10 ^ power` in the interval that is nearest to the value; of two equally near
ones the even one. -/
def nearest? (i : Interval) (power : Int) : Option Nat :=
  let (low, value, high, denominator) := i.over
  let up := Nat.pow 10 (-power).toNat
  let unit := denominator * Nat.pow 10 power.toNat
  let inside (n : Nat) : Bool :=
    if i.closed then low * up ≤ n * unit && n * unit ≤ high * up
    else low * up < n * unit && n * unit < high * up
  let below := value * up / unit
  let above := below + 1
  match inside below, inside above with
  | true, true =>
    let down := value * up - below * unit
    let rise := above * unit - value * up
    if down < rise ∨ (down = rise ∧ below % 2 = 0) then some below else some above
  | true, false => some below
  | false, true => some above
  | false, false => none

/-- The digits and the power of ten of their unit, on the coarsest grid that has a point in the interval. -/
def shortestFrom (i : Interval) (leading : Int) : (fuel count : Nat) → Nat × Int
  | 0, count => ((nearest? i (leading - count)).getD 0, leading - count)
  | fuel + 1, count =>
    match nearest? i (leading - count) with
    | some n => (n, leading - count)
    | none => shortestFrom i leading fuel (count + 1)

/-- Digits without zeros at the end, and the power of ten of the last of them. -/
def withoutZeros (n : Nat) (power : Int) : Nat × Int :=
  if _h : n ≠ 0 ∧ n % 10 = 0 then withoutZeros (n / 10) (power + 1) else (n, power)
termination_by n

/-- The fewest digits that read back as a positive finite double, and the power of ten of the last. -/
def shortest (i : Interval) : Nat × Int :=
  let (_, value, _, denominator) := i.over
  let (n, power) := shortestFrom i (leadingPower value denominator) 16 0
  withoutZeros n power

/-- Where the point of a number goes. Between the two bounds on the place of the point, counted from the
first digit, every place is written; otherwise the first digit is followed by an exponent. -/
structure Notation where
  fewest : Option Int
  most : Option Int

/-- Plain places from one hundred-thousandth up to sixteen digits before the point. -/
def compactNotation : Notation := ⟨some (-5), some 16⟩

/-- Plain places always. -/
def positionalNotation : Notation := ⟨none, none⟩

/-- The text of digits with the point after `place` of them. -/
def Notation.digits (style : Notation) (digits : List Char) (place : Int) : List Char :=
  let count : Int := digits.length
  if style.fewest.all (· < place) ∧ style.most.all (place ≤ ·) then
    if count ≤ place then digits ++ List.replicate (place - count).toNat '0' ++ ['.', '0']
    else if 0 < place then digits.take place.toNat ++ '.' :: digits.drop place.toNat
    else '0' :: '.' :: List.replicate (-place).toNat '0' ++ digits
  else
    let mantissa := match digits with
      | [] => []
      | [d] => [d]
      | d :: more => d :: '.' :: more
    mantissa ++ 'e' :: (ToString.toString (place - 1)).toList

/-- The text of the double with the given bits. -/
def text (style : Notation) (bits : UInt64) : String :=
  let n := bits.toNat
  let sign := if n / Nat.pow 2 63 = 1 then "-" else ""
  let exponentField := n / Nat.pow 2 52 % 2048
  let fraction := n % Nat.pow 2 52
  if exponentField = 2047 then
    if fraction = 0 then sign ++ "inf" else "NaN"
  else if exponentField = 0 ∧ fraction = 0 then sign ++ "0.0"
  else
    let (digits, power) := shortest (Interval.ofFields exponentField fraction)
    let cs := Nat.toDigits 10 digits
    sign ++ String.ofList (style.digits cs (cs.length + power))

end StorageProof.Binary64
