/-!
# The parts of a binary64 number

A number is taken apart through its 64 bits: one sign bit, eleven bits of exponent field and
52 bits of fraction. A finite number is `± mantissa · 2 ^ exponent` over the naturals, with the
hidden bit put back for a normal number, so everything the text of a number needs is exact
arithmetic on naturals. The sign of a zero is kept; all NaNs are one.
-/

namespace RootFinding.Decimal

inductive Parts where
  | nan
  | infinite (negative : Bool)
  | finite (negative : Bool) (mantissa : Nat) (exponent : Int)
  deriving DecidableEq, Repr

/-- The unit of the exponent field, and the hidden bit of a normal mantissa. -/
def fieldUnit : Nat := 1 <<< 52

def signUnit : Nat := 1 <<< 63

def Parts.ofWord (word : Nat) : Parts :=
  let negative := decide (signUnit ≤ word)
  let field : Nat := word / fieldUnit % 2048
  let fraction : Nat := word % fieldUnit
  if field = 2047 then
    if fraction = 0 then .infinite negative else .nan
  else if field = 0 then .finite negative fraction (-1074)
  else .finite negative (fieldUnit + fraction) ((field : Int) - 1075)

def parts (x : Float) : Parts := .ofWord x.toBits.toNat

/-- A ratio of naturals; the denominator is meant to be positive. -/
structure Ratio where
  num : Nat
  den : Nat
  deriving DecidableEq, Repr

def Ratio.dyadic (mantissa : Nat) (exponent : Int) : Ratio :=
  ⟨mantissa <<< exponent.toNat, 1 <<< (-exponent).toNat⟩

def tenPower (n : Nat) : Nat := Nat.pow 10 n

def Ratio.inUnits (r : Ratio) (place : Int) : Ratio :=
  ⟨r.num * tenPower (-place).toNat, r.den * tenPower place.toNat⟩

theorem tenPower_pos (n : Nat) : 0 < tenPower n := Nat.pow_pos (by decide)

theorem Ratio.dyadic_den_pos (m : Nat) (q : Int) : 0 < (Ratio.dyadic m q).den := by
  simp only [Ratio.dyadic, Nat.shiftLeft_eq, Nat.one_mul]
  exact Nat.two_pow_pos _

theorem Ratio.inUnits_den_pos {r : Ratio} (h : 0 < r.den) (place : Int) :
    0 < (r.inUnits place).den :=
  Nat.mul_pos h (tenPower_pos _)

/-- The decimal place of the leading digit: the greatest `k` with `10 ^ k ≤ r`, for a positive
ratio. Below one the place is read off the reciprocal, which is a power of ten itself only
where the ratio is one. -/
def Ratio.leadingPlace (r : Ratio) : Int :=
  if r.den ≤ r.num then ((Nat.toDigits 10 (r.num / r.den)).length : Int) - 1
  else
    let length := (Nat.toDigits 10 (r.den / r.num)).length
    if r.den = r.num * tenPower (length - 1) then 1 - (length : Int) else -(length : Int)

end RootFinding.Decimal
