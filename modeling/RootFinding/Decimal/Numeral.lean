import RootFinding.Decimal.Shortest

/-!
# The written forms of a number

A finite number is written either with the fewest digits that read back, or rounded to a
stated number of digits with ties to even.

* `plain` never uses an exponent and writes a whole number without a fraction.
* `entry`, for the components of a vector, keeps one fraction digit on a whole number and turns
  to an exponent below `10 ^ -4` and from `10 ^ 16` on, zero excepted.
* `scientific` has one digit before the point, a stated number after it, and an exponent
  without a plus sign or leading zeros.
* `fixed` has all whole digits and a stated number of fraction digits.

In all of them a minus sign stands in front of every negative number, a negative zero
included, and `NaN`, `inf` and `-inf` are words.
-/

namespace RootFinding.Decimal

/-- The decimal `0.d₁d₂…dₙ · 10 ^ point`, without zeros at its end. -/
structure Digits where
  digits : List Char
  point : Int
  deriving DecidableEq, Repr

def Scaled.toDigits (s : Scaled) : Digits :=
  let all := Nat.toDigits 10 s.coefficient
  ⟨(all.reverse.dropWhile (· == '0')).reverse, all.length + s.place⟩

def Digits.whole (d : Digits) : List Char :=
  if d.point ≤ 0 then ['0']
  else d.digits.take d.point.toNat ++ List.replicate (d.point.toNat - d.digits.length) '0'

def Digits.fraction (d : Digits) : List Char :=
  List.replicate (-d.point).toNat '0' ++ d.digits.drop d.point.toNat

def natural (n : Nat) : List Char := Nat.toDigits 10 n

def integer (i : Int) : List Char :=
  if i < 0 then '-' :: natural i.natAbs else natural i.natAbs

def afterPoint : List Char → List Char
  | [] => []
  | digits => '.' :: digits

structure Style where
  /-- whether a number with this point is written without an exponent -/
  positional : Int → Bool
  /-- what stands after the point of a whole number -/
  wholeFraction : List Char

def plainStyle : Style := ⟨fun _ => true, []⟩

def entryStyle : Style := ⟨fun point => -3 ≤ point && point ≤ 16, ['0']⟩

def Digits.exponential (d : Digits) : List Char :=
  d.digits.take 1 ++ afterPoint (d.digits.drop 1) ++ 'e' :: integer (d.point - 1)

def Digits.layOut (style : Style) (d : Digits) : List Char :=
  if style.positional d.point then
    d.whole ++ afterPoint (if d.fraction = [] then style.wholeFraction else d.fraction)
  else d.exponential

def signed (finite : Nat → Int → List Char) : Parts → List Char
  | .nan => ['N', 'a', 'N']
  | .infinite negative => (if negative then ['-'] else []) ++ ['i', 'n', 'f']
  | .finite negative m q => (if negative then ['-'] else []) ++ finite m q

/-- Zero has no digits and the point of a one-digit number. -/
def shortestDigits (mantissa : Nat) (exponent : Int) : Digits :=
  if mantissa = 0 then ⟨[], 1⟩ else (shortest mantissa exponent).toDigits

def Style.write (style : Style) (x : Float) : List Char :=
  signed (fun m q => (shortestDigits m q).layOut style) (parts x)

def plain (x : Float) : List Char := plainStyle.write x

def entry (x : Float) : List Char := entryStyle.write x

def significant (places mantissa : Nat) (exponent : Int) : Scaled :=
  if mantissa = 0 then ⟨0, -(places : Int)⟩
  else (Ratio.dyadic mantissa exponent).toSignificant places

def padded (length n : Nat) : List Char :=
  List.replicate (length - (natural n).length) '0' ++ natural n

def scientific (places : Nat) (x : Float) : List Char :=
  signed (fun m q =>
    let s := significant places m q
    let digits := padded (places + 1) s.coefficient
    digits.take 1 ++ afterPoint (digits.drop 1) ++ 'e' :: integer (s.place + places)) (parts x)

def fixed (places : Nat) (x : Float) : List Char :=
  signed (fun m q =>
    let digits := padded (places + 1) (((Ratio.dyadic m q).inUnits (-(places : Int))).round)
    digits.take (digits.length - places) ++ afterPoint (digits.drop (digits.length - places)))
    (parts x)

/-- Moved to the right end of a column; a longer text is left as it is. -/
def column (width : Nat) (text : List Char) : List Char :=
  List.replicate (width - text.length) ' ' ++ text

theorem length_column (width : Nat) (text : List Char) :
    (column width text).length = max width text.length := by
  simp only [column, List.length_append, List.length_replicate]
  omega

end RootFinding.Decimal
