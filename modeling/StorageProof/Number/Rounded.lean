import StorageProof.Number.Binary64

/-!
# Decimal numbers as doubles

A decimal number is rounded to the nearest double, and a tie goes to the one with the even significand. The
quotient is taken exactly, in natural numbers. What lies beyond the largest double becomes infinite.
-/

namespace StorageProof.Binary64

/-- The quotient rounded to the nearest natural number, a tie to the even one. -/
def divideEvenly (numerator denominator : Nat) : Nat :=
  let q := numerator / denominator
  let twice := 2 * (numerator % denominator)
  if denominator < twice ∨ (twice = denominator ∧ q % 2 = 1) then q + 1 else q

def infinityBits : Nat := 2047 * Nat.pow 2 52

/-- The bits of the double nearest to a positive quotient. The significand gets fifty-three binary digits, or
fewer where the exponent cannot fall any further; one that rounds up to the next power of two carries into
the exponent by itself. -/
def bitsOfQuotient (numerator denominator : Nat) : Nat :=
  let estimate : Int := (Nat.log2 numerator : Int) - Nat.log2 denominator
  let below := numerator * Nat.pow 2 (-estimate).toNat < denominator * Nat.pow 2 estimate.toNat
  let power := max ((if below then estimate - 1 else estimate) - 52) (-1074)
  let n := divideEvenly (numerator * Nat.pow 2 (-power).toNat) (denominator * Nat.pow 2 power.toNat)
  let bits := (power + 1074).toNat * Nat.pow 2 52 + n
  if infinityBits < bits then infinityBits else bits

/-- The bits of the double nearest to `digits * 10 ^ power`, where `count` is the number of decimal digits.
What is far out of the range of doubles is not worked out. -/
def ofDecimal (negative : Bool) (digits count : Nat) (power : Int) : UInt64 :=
  let bits :=
    if digits = 0 ∨ count + power < -400 then 0
    else if 400 < power then infinityBits
    else bitsOfQuotient (digits * Nat.pow 10 power.toNat) (Nat.pow 10 (-power).toNat)
  UInt64.ofNat (if negative then Nat.pow 2 63 + bits else bits)

end StorageProof.Binary64
