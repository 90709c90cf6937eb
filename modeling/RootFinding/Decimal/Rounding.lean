import RootFinding.Decimal.Binary64

/-!
# Rounding a ratio to a whole number

The quotient is rounded to the nearest natural, and a tie goes to the even one. Fixed and
scientific texts of a number are this rounding on a decimal grid, applied to the exact value of
the number, so no digit is lost on the way.
-/

namespace RootFinding.Decimal

def Ratio.round (r : Ratio) : Nat :=
  let quotient := r.num / r.den
  let remainder := r.num % r.den
  if r.den < 2 * remainder ∨ (2 * remainder = r.den ∧ quotient % 2 = 1) then quotient + 1
  else quotient

theorem Ratio.round_eq (r : Ratio) :
    r.round = r.num / r.den ∨ r.round = r.num / r.den + 1 := by
  unfold Ratio.round
  dsimp only
  split <;> simp

theorem Ratio.round_near {r : Ratio} (h : 0 < r.den) :
    2 * r.num ≤ 2 * (r.round * r.den) + r.den ∧ 2 * (r.round * r.den) ≤ 2 * r.num + r.den := by
  have hdiv := Nat.div_add_mod r.num r.den
  have hmod := Nat.mod_lt r.num h
  have hcomm : r.num / r.den * r.den = r.den * (r.num / r.den) := Nat.mul_comm _ _
  unfold Ratio.round
  dsimp only
  split
  · rw [Nat.add_mul, Nat.one_mul]
    omega
  · omega

/-- The value `coefficient · 10 ^ place`. -/
structure Scaled where
  coefficient : Nat
  place : Int
  deriving DecidableEq, Repr

/-- The value of a positive ratio to `digits + 1` significant digits. A coefficient that rounds
up to the next power of ten moves the place instead. -/
def Ratio.toSignificant (r : Ratio) (digits : Nat) : Scaled :=
  let place := r.leadingPlace - digits
  let coefficient := (r.inUnits place).round
  if coefficient = tenPower (digits + 1) then ⟨tenPower digits, place + 1⟩ else ⟨coefficient, place⟩

end RootFinding.Decimal
