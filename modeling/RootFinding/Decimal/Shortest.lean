import RootFinding.Decimal.Rounding

/-!
# The shortest decimal that reads back

Every positive binary64 number owns the interval of reals that are nearer to it than to its
neighbours. The interval reaches half way to each neighbour, its lower half is shorter by a
factor of two where the number is the least of its binade, and its ends belong to it exactly
when the mantissa is even, because reading rounds a tie to the even mantissa.

`shortest` tries the grids of one, two, up to seventeen significant digits in this order. On a
grid only the two neighbours of the number can lie in the interval; the first grid with a hit
wins, of two hits the nearer is taken, and a number half way between them goes up. Seventeen
digits always suffice; the exact expansion that stands behind the search keeps the function
total and lies in the interval as well.
-/

namespace RootFinding.Decimal

/-- The reals that read back as one number, as numerators over a common denominator. -/
structure Interval where
  low : Nat
  value : Nat
  high : Nat
  den : Nat
  closed : Bool
  deriving DecidableEq, Repr

/-- The interval of `mantissa · 2 ^ exponent`, in quarters of its last binary place. -/
def Interval.around (mantissa : Nat) (exponent : Int) : Interval :=
  let scale := 1 <<< (exponent - 2).toNat
  let below := if mantissa = fieldUnit ∧ -1074 < exponent then 1 else 2
  { low := (4 * mantissa - below) * scale
    value := 4 * mantissa * scale
    high := (4 * mantissa + 2) * scale
    den := 1 <<< (2 - exponent).toNat
    closed := mantissa % 2 = 0 }

def Interval.contains (i : Interval) (s : Scaled) : Bool :=
  let unit := i.den * tenPower s.place.toNat
  let scale := tenPower (-s.place).toNat
  let point := s.coefficient * unit
  if i.closed then decide (i.low * scale ≤ point ∧ point ≤ i.high * scale)
  else decide (i.low * scale < point ∧ point < i.high * scale)

/-- The neighbour of the number on the grid of multiples of `10 ^ place` that lies in the
interval, the nearer one if both do, the upper one if both are equally near. -/
def Interval.onGrid? (i : Interval) (place : Int) : Option Scaled :=
  let unit := i.den * tenPower place.toNat
  let value := i.value * tenPower (-place).toNat
  let lower : Scaled := ⟨value / unit, place⟩
  let upper : Scaled := ⟨value / unit + 1, place⟩
  match i.contains lower, i.contains upper with
  | true, true => if unit ≤ 2 * (value % unit) then some upper else some lower
  | true, false => some lower
  | false, true => some upper
  | false, false => none

def exact (mantissa : Nat) (exponent : Int) : Scaled :=
  if 0 ≤ exponent then ⟨mantissa <<< exponent.toNat, 0⟩
  else ⟨mantissa * Nat.pow 5 (-exponent).toNat, exponent⟩

def shortest (mantissa : Nat) (exponent : Int) : Scaled :=
  let interval := Interval.around mantissa exponent
  let place := (Ratio.dyadic mantissa exponent).leadingPlace
  ((List.range 17).findSome? fun n : Nat => interval.onGrid? (place - n)).getD
    (exact mantissa exponent)

theorem Interval.contains_of_onGrid? {i : Interval} {place : Int} {s : Scaled}
    (h : i.onGrid? place = some s) : i.contains s = true := by
  unfold Interval.onGrid? at h
  dsimp only at h
  split at h
  · next hl hu =>
    split at h
    · exact Option.some.inj h ▸ hu
    · exact Option.some.inj h ▸ hl
  · next hl _ => exact Option.some.inj h ▸ hl
  · next _ hu => exact Option.some.inj h ▸ hu
  · exact absurd h (by simp)

end RootFinding.Decimal
