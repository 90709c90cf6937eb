import Mathlib.Algebra.Order.Ring.Nat
import RootFinding.Report.Diagnostics

/-!
# The order of names

Names are compared by their code points, one after the other, and the UTF-8 bytes of two names are
in the same order. A greater code point has the greater first byte, or it has the same first byte,
as many bytes after it, and in these the digits of the greater number to the base 64, the highest
first.
-/

namespace RootFinding

def bytes (name : String) : List UInt8 := name.toUTF8.data.toList

theorem bytes_ofList (l : List Char) :
    bytes (String.ofList l) = l.flatMap String.utf8EncodeChar := by
  rw [bytes, String.toUTF8_eq_toByteArray, String.toByteArray_ofList]
  exact List.toList_data_toByteArray

theorem bytes_eq (name : String) : bytes name = name.toList.flatMap String.utf8EncodeChar := by
  rw [← bytes_ofList, String.ofList_toList]

def leadByte (v : Nat) : Nat :=
  if v ≤ 127 then v
  else if v ≤ 2047 then v / 64 + 192
  else if v ≤ 65535 then v / 4096 + 224
  else v / 262144 + 240

def trailLength (v : Nat) : Nat :=
  if v ≤ 127 then 0 else if v ≤ 2047 then 1 else if v ≤ 65535 then 2 else 3

/-- The last `n` digits of `v` to the base 64, each in a byte. -/
def trail : Nat → Nat → List UInt8
  | 0, _ => []
  | n + 1, v => UInt8.ofNat (v / 64 ^ n % 64 + 128) :: trail n v

theorem char_lt_limit (c : Char) : c.val.toNat < 1114112 := by
  have hvalid : c.val.toNat < 55296 ∨ 57343 < c.val.toNat ∧ c.val.toNat < 1114112 := c.valid
  omega

theorem utf8EncodeChar_eq (c : Char) :
    String.utf8EncodeChar c =
      UInt8.ofNat (leadByte c.val.toNat) :: trail (trailLength c.val.toNat) c.val.toNat := by
  have hlimit := char_lt_limit c
  simp only [String.utf8EncodeChar]
  generalize c.val.toNat = v at hlimit
  unfold leadByte trailLength
  split
  · rfl
  · split
    · have hlead : v / 64 % 32 = v / 64 := by omega
      simp [hlead, trail]
    · split
      · have hlead : v / 4096 % 16 = v / 4096 := by omega
        simp [hlead, trail]
      · have hlead : v / 262144 % 8 = v / 262144 := by omega
        simp [hlead, trail]

theorem leadByte_lt {v : Nat} (h : v < 1114112) : leadByte v < UInt8.size := by
  unfold leadByte UInt8.size
  split
  · omega
  · split
    · omega
    · split <;> omega

theorem leadByte_lt_or {v w : Nat} (h : v < w) (hw : w < 1114112) :
    leadByte v < leadByte w ∨ leadByte v = leadByte w ∧ trailLength v = trailLength w ∧
      v % 64 ^ trailLength w < w % 64 ^ trailLength w := by
  unfold leadByte trailLength
  by_cases hw₁ : w ≤ 127
  · have hv₁ : v ≤ 127 := by omega
    simp only [if_pos hw₁, if_pos hv₁]
    exact .inl h
  · by_cases hw₂ : w ≤ 2047
    · have hv₂ : v ≤ 2047 := by omega
      simp only [if_neg hw₁, if_pos hw₂, if_pos hv₂]
      split <;> omega
    · by_cases hw₃ : w ≤ 65535
      · have hv₃ : v ≤ 65535 := by omega
        simp only [if_neg hw₁, if_neg hw₂, if_pos hw₃, if_pos hv₃]
        split
        · omega
        · split <;> omega
      · simp only [if_neg hw₁, if_neg hw₂, if_neg hw₃]
        split
        · omega
        · split
          · omega
          · split <;> omega

theorem digit_lt_or {n v w : Nat} (h : v % 64 ^ (n + 1) < w % 64 ^ (n + 1)) :
    v / 64 ^ n % 64 < w / 64 ^ n % 64 ∨
      v / 64 ^ n % 64 = w / 64 ^ n % 64 ∧ v % 64 ^ n < w % 64 ^ n := by
  rw [Nat.pow_succ, Nat.mod_mul, Nat.mod_mul] at h
  have hlow : w % 64 ^ n < 64 ^ n := Nat.mod_lt _ (Nat.pow_pos (by decide))
  rcases Nat.lt_trichotomy (v / 64 ^ n % 64) (w / 64 ^ n % 64) with hlt | heq | hgt
  · exact .inl hlt
  · rw [heq] at h
    exact .inr ⟨heq, Nat.lt_of_add_lt_add_right h⟩
  · have hmul : 64 ^ n * (w / 64 ^ n % 64 + 1) ≤ 64 ^ n * (v / 64 ^ n % 64) :=
      Nat.mul_le_mul_left _ hgt
    rw [Nat.mul_add, Nat.mul_one] at hmul
    omega

section Append

variable (x y : List UInt8)

theorem trail_append_lt {n v w : Nat} (h : v % 64 ^ n < w % 64 ^ n) :
    trail n v ++ x < trail n w ++ y := by
  induction n with
  | zero => omega
  | succ n ih =>
    rw [trail, trail, List.cons_append, List.cons_append, List.cons_lt_cons_iff]
    have hsize (u : Nat) : u / 64 ^ n % 64 + 128 < UInt8.size := by
      unfold UInt8.size
      omega
    rcases digit_lt_or h with hdigit | ⟨hdigit, hrest⟩
    · exact .inl ((UInt8.ofNat_lt_iff_lt (hsize v) (hsize w)).2 (Nat.add_lt_add_right hdigit 128))
    · rw [hdigit]
      exact .inr ⟨rfl, ih hrest⟩

theorem utf8EncodeChar_append_lt {c d : Char} (h : c < d) :
    String.utf8EncodeChar c ++ x < String.utf8EncodeChar d ++ y := by
  have hlt : c.val.toNat < d.val.toNat := h
  have hc := char_lt_limit c
  have hd := char_lt_limit d
  rw [utf8EncodeChar_eq, utf8EncodeChar_eq]
  generalize c.val.toNat = v at hlt hc
  generalize d.val.toNat = w at hlt hd
  rw [List.cons_append, List.cons_append, List.cons_lt_cons_iff]
  rcases leadByte_lt_or hlt hd with hlead | ⟨hlead, hlength, hdigits⟩
  · exact .inl ((UInt8.ofNat_lt_iff_lt (leadByte_lt hc) (leadByte_lt hd)).2 hlead)
  · rw [hlength, hlead]
    exact .inr ⟨rfl, trail_append_lt x y hdigits⟩

end Append

theorem flatMap_utf8EncodeChar_lt {l l' : List Char} (h : l < l') :
    l.flatMap String.utf8EncodeChar < l'.flatMap String.utf8EncodeChar := by
  induction l generalizing l' with
  | nil =>
    cases l' with
    | nil => exact absurd h (List.not_lt_nil [])
    | cons d l' =>
      rw [List.flatMap_cons, utf8EncodeChar_eq]
      exact List.nil_lt_cons _ _
  | cons c l ih =>
    cases l' with
    | nil => exact absurd h (List.not_lt_nil _)
    | cons d l' =>
      rw [List.flatMap_cons, List.flatMap_cons]
      rcases List.cons_lt_cons_iff.1 h with hcd | ⟨rfl, htail⟩
      · exact utf8EncodeChar_append_lt _ _ hcd
      · exact List.append_left_lt (ih htail)

theorem bytes_lt {a b : String} (h : a.toList < b.toList) : bytes a < bytes b := by
  rw [bytes_eq, bytes_eq]
  exact flatMap_utf8EncodeChar_lt h

end RootFinding
