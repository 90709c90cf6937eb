import RootFinding.Proofs.Binary64.Unpacked

/-!
# Signs and infinities through the operations

An operation packs what it has computed. Packing may turn a large number into infinity, but it keeps
the sign, makes no NaN, and makes nothing finite that was not. So a sum and a square root of numbers
without a sign have none, nor has a square; and a sum is finite only if its terms are, a quotient
only if its numerator is. A sum with an infinity is that infinity again, or NaN if the other term is
NaN or the opposite infinity.

A sum, a product and a quotient are NaN as soon as one argument is. A product with a zero is zero
or, if the other factor is infinite, NaN; so what is made of zeros and NaN by sums and by products
with any numbers is again zero or NaN.
-/

namespace RootFinding.Binary64

open Float.Model Float.Model.UnpackedFloat

def signBit (a : Float) : Bool := a.toBits.toBitVec.msb

/-- A number of the given sign, and not NaN. -/
inductive Signed (s : Sign) : UnpackedFloat → Prop
  | infinity : Signed s (.infinity s)
  | zero : Signed s (.zero s)
  | finite {m : Nat} {e : Int} (hm : 0 < m) : Signed s (.finite s m e hm)

theorem Signed.isNaN {s : Sign} {u : UnpackedFloat} (h : Signed s u) : u.isNaN = false := by
  cases h <;> rfl

theorem signed_unpack_packComponents (s : Sign) {e : BitVec 11} (he : e ≠ -1#11) (m : BitVec 52) :
    Signed s (UnpackedFloat.unpack .binary64 (packComponents .binary64 s e m)) := by
  unfold UnpackedFloat.unpack
  simp only [unpackExponent_packComponents, unpackSign_packComponents, ofBitVec_toBitVec]
  rw [if_neg he]
  split
  · split
    · exact .zero
    · exact .finite _
  · exact .finite _

theorem Signed.repack {s : Sign} {u : UnpackedFloat} (h : Signed s u) :
    Signed s (UnpackedFloat.unpack .binary64 (UnpackedFloat.pack .binary64 u)) := by
  cases h with
  | infinity => cases s <;> exact .infinity
  | zero => cases s <;> exact .zero
  | finite hm =>
    unfold UnpackedFloat.pack
    dsimp only
    split
    · cases s <;> exact .infinity
    · next hfits =>
      split
      · refine signed_unpack_packComponents s ?_ _
        intro hall
        have hword := congrArg BitVec.toNat hall
        simp only [BitVec.toNat_ofNat] at hword
        change _ = 2047 at hword
        omega
      · exact signed_unpack_packComponents s (by decide) _

theorem isFinite_repack {u : UnpackedFloat}
    (h : (UnpackedFloat.unpack .binary64 (UnpackedFloat.pack .binary64 u)).isFinite = true) :
    u.isFinite = true := by
  cases u with
  | infinity s => cases s <;> cases h
  | notANumber => cases h
  | zero s => rfl
  | finite s m e hm => rfl

theorem Signed.ofBitVec_unpackSign {s : Sign} {b : BitVec Format.binary64.numBits}
    (h : Signed s (UnpackedFloat.unpack .binary64 b)) : Sign.ofBitVec (unpackSign b) = s := by
  unfold UnpackedFloat.unpack at h
  dsimp only at h
  split at h
  · split at h
    · cases h
      rfl
    · cases h
  · split at h
    · split at h
      · cases h
        rfl
      · cases h
        rfl
    · cases h
      rfl

theorem Signed.msb {b : BitVec Format.binary64.numBits}
    (h : Signed .positive (UnpackedFloat.unpack .binary64 b)) : b.msb = false := by
  have hsign : unpackSign b = 0#1 := by
    by_contra hne
    have hnegative : Sign.ofBitVec (unpackSign b) = .negative := if_neg hne
    rw [h.ofBitVec_unpackSign] at hnegative
    cases hnegative
  have htop := congrArg (·.getLsbD 0) hsign
  simpa [unpackSign, BitVec.msb_eq_getLsbD_last] using htop

def Unsigned (a : Float) : Prop := Signed .positive (unpacked a)

theorem unsigned_zero : Unsigned 0 := Signed.zero

theorem Unsigned.isNaN {a : Float} (h : Unsigned a) : a.isNaN = false := Signed.isNaN h

theorem Unsigned.signBit {a : Float} (h : Unsigned a) : signBit a = false := Signed.msb h

theorem signed_roundWithAccuracy (s : Sign) (m : Nat) (e : Int) (accuracy : Accuracy) :
    Signed s (roundWithAccuracy .binary64 s m e accuracy) := by
  unfold roundWithAccuracy
  dsimp only
  split
  · exact .zero
  · exact .finite _

theorem signed_normalize {m : Int} (hm : 0 < m) (e : Int) (zeroSign : Sign) :
    Signed .positive (UnpackedFloat.normalize .binary64 m e zeroSign) := by
  have hcompare : compare m 0 = .gt := compare_gt_iff_gt.2 hm
  unfold UnpackedFloat.normalize
  rw [hcompare]
  exact signed_roundWithAccuracy _ _ _ _

theorem Signed.add {u v : UnpackedFloat} (hu : Signed .positive u) (hv : Signed .positive v) :
    Signed .positive (UnpackedFloat.add .binary64 u v) := by
  cases hu with
  | infinity => cases hv <;> exact .infinity
  | zero =>
    cases hv with
    | infinity => exact .infinity
    | zero => exact .zero
    | finite hn => exact .finite hn
  | finite hm =>
    cases hv with
    | infinity => exact .infinity
    | zero => exact .finite hm
    | finite hn =>
      refine signed_normalize ?_ _ _
      simp only [Sign.apply, Nat.shiftLeft_eq]
      positivity

theorem Unsigned.add {a b : Float} (ha : Unsigned a) (hb : Unsigned b) : Unsigned (a + b) :=
  (Signed.add ha hb).repack

theorem unsigned_mul_self {a : Float} (ha : a.isNaN = false) : Unsigned (a * a) := by
  have hsquare : Signed .positive (UnpackedFloat.mul .binary64 (unpacked a) (unpacked a)) := by
    change (unpacked a).isNaN = false at ha
    cases hu : unpacked a with
    | notANumber => simp [hu, UnpackedFloat.isNaN] at ha
    | infinity s => cases s <;> exact .infinity
    | zero s => cases s <;> exact .zero
    | finite s m e hm => cases s <;> exact signed_roundWithAccuracy _ _ _ _
  exact hsquare.repack

theorem Unsigned.sqrt {a : Float} (ha : Unsigned a) : Unsigned a.sqrt := by
  have hroot : Signed .positive (UnpackedFloat.sqrt .binary64 (unpacked a)) := by
    unfold Unsigned at ha
    generalize unpacked a = u at ha
    cases ha with
    | infinity => exact .infinity
    | zero => exact .zero
    | finite hm => exact signed_roundWithAccuracy _ _ _ _
  exact hroot.repack

theorem unsigned_abs {a : Float} (ha : a.isNaN = false) : Unsigned a.abs := by
  change (unpacked a).isNaN = false at ha
  rw [Unsigned, unpacked_abs]
  cases hu : unpacked a with
  | notANumber => simp [hu, UnpackedFloat.isNaN] at ha
  | infinity s => exact .infinity
  | zero s => exact .zero
  | finite s m e hm => exact .finite hm

theorem isFinite_of_div {a b : Float} (h : (a / b).isFinite = true) : a.isFinite = true := by
  have hquotient : (UnpackedFloat.div .binary64 (unpacked a) (unpacked b)).isFinite = true :=
    isFinite_repack h
  change (unpacked a).isFinite = true
  generalize unpacked a = u at hquotient ⊢
  generalize unpacked b = v at hquotient
  cases u with
  | zero s => rfl
  | finite s m e hm => rfl
  | notANumber => cases hquotient
  | infinity s => cases v <;> cases hquotient

/-- The order of the terms decides neither the sum nor the sign of a zero. -/
theorem sum_comm (a b : Float) : a + b = b + a := by
  have hcomm (u v : UnpackedFloat) :
      UnpackedFloat.add .binary64 u v = UnpackedFloat.add .binary64 v u := by
    cases u with
    | notANumber => cases v <;> rfl
    | infinity s =>
      cases v with
      | infinity t => cases s <;> cases t <;> rfl
      | _ => rfl
    | zero s =>
      cases v with
      | zero t => cases s <;> cases t <;> rfl
      | _ => rfl
    | finite s m e hm =>
      cases v with
      | finite t n d hn =>
        unfold UnpackedFloat.add decreaseExponent
        dsimp only
        rw [min_comm d e, add_comm]
      | _ => rfl
  exact congrArg (fun u => Float.ofModel (Float.Model.pack u)) (hcomm (unpacked a) (unpacked b))

theorem sub_eq_add (a b : Float) : a - b = a + -b := by
  have hsub (u v : UnpackedFloat) :
      UnpackedFloat.sub .binary64 u v = UnpackedFloat.add .binary64 u v.neg := by
    cases u with
    | finite s m e hm =>
      cases v with
      | finite t n d hn =>
        have hsign (k : ℤ) : (-t).apply k = -t.apply k := by cases t <;> simp [Sign.apply]
        simp only [UnpackedFloat.sub, UnpackedFloat.add, UnpackedFloat.neg, hsign]
        rfl
      | _ => rfl
    | _ => cases v <;> rfl
  have hsum := hsub (unpacked a) (unpacked b)
  rw [← unpacked_neg] at hsum
  exact congrArg (fun u => Float.ofModel (Float.Model.pack u)) hsum

theorem infinity_add {a b : Float} (ha : unpacked a = .infinity .positive)
    (hb : b.isFinite = true ∨ unpacked b = .infinity .positive) :
    unpacked (a + b) = .infinity .positive := by
  change UnpackedFloat.unpack .binary64 (UnpackedFloat.pack .binary64
    (UnpackedFloat.add .binary64 (unpacked a) (unpacked b))) = _
  change (unpacked b).isFinite = true ∨ unpacked b = .infinity .positive at hb
  rw [ha]
  generalize unpacked b = v at hb
  rcases hb with hfinite | rfl
  · cases v with
    | infinity s => cases hfinite
    | notANumber => cases hfinite
    | _ => exact unpack_pack (u := .infinity .positive) trivial
  · rfl

theorem isNaN_add_of_infinities {a b : Float} {s : Sign} (ha : unpacked a = .infinity s)
    (hb : unpacked b = .infinity (-s)) : (a + b).isNaN = true := by
  change (UnpackedFloat.unpack .binary64 (UnpackedFloat.pack .binary64
    (UnpackedFloat.add .binary64 (unpacked a) (unpacked b)))).isNaN = true
  rw [ha, hb]
  cases s <;> rfl

theorem infinity_sub {a b : Float} (ha : unpacked a = .infinity .positive)
    (hb : b.isFinite = true ∨ unpacked b = .infinity .negative) :
    unpacked (a - b) = .infinity .positive := by
  rw [sub_eq_add]
  exact infinity_add ha (hb.imp (isFinite_neg b).trans neg_eq_infinity_iff.2)

theorem sub_negative_infinity {a b : Float} (ha : a.isFinite = true)
    (hb : unpacked b = .infinity .negative) : unpacked (a - b) = .infinity .positive := by
  rw [sub_eq_add, sum_comm]
  exact infinity_add (neg_eq_infinity_iff.2 hb) (Or.inl ha)

theorem isNaN_repack {u : UnpackedFloat}
    (h : (UnpackedFloat.unpack .binary64 (UnpackedFloat.pack .binary64 u)).isNaN = false) :
    u.isNaN = false := by
  cases u with
  | notANumber => cases h
  | _ => rfl

structure KeepsNaN (op : UnpackedFloat → UnpackedFloat → UnpackedFloat) : Prop where
  left : ∀ v, op .notANumber v = .notANumber
  right : ∀ u, op u .notANumber = .notANumber

theorem KeepsNaN.not_isNaN {op : UnpackedFloat → UnpackedFloat → UnpackedFloat}
    (hop : KeepsNaN op) {u v : UnpackedFloat}
    (h : (UnpackedFloat.unpack .binary64 (UnpackedFloat.pack .binary64 (op u v))).isNaN = false) :
    u.isNaN = false ∧ v.isNaN = false := by
  have hresult := isNaN_repack h
  constructor
  · cases u with
    | notANumber =>
      rw [hop.left] at hresult
      cases hresult
    | _ => rfl
  · cases v with
    | notANumber =>
      rw [hop.right] at hresult
      cases hresult
    | _ => rfl

theorem keepsNaN_add : KeepsNaN (UnpackedFloat.add .binary64) :=
  ⟨fun _ => rfl, fun u => by cases u <;> rfl⟩

theorem keepsNaN_sub : KeepsNaN (UnpackedFloat.sub .binary64) :=
  ⟨fun _ => rfl, fun u => by cases u <;> rfl⟩

theorem keepsNaN_mul : KeepsNaN (UnpackedFloat.mul .binary64) :=
  ⟨fun _ => rfl, fun u => by cases u <;> rfl⟩

theorem keepsNaN_div : KeepsNaN (UnpackedFloat.div .binary64) :=
  ⟨fun _ => rfl, fun u => by cases u <;> rfl⟩

structure KeepsInfinity (op : UnpackedFloat → UnpackedFloat → UnpackedFloat) : Prop
    extends KeepsNaN op where
  infinity_left : ∀ s v, (op (.infinity s) v).isFinite = false
  infinity_right : ∀ u s, (op u (.infinity s)).isFinite = false

theorem KeepsInfinity.isFinite {op : UnpackedFloat → UnpackedFloat → UnpackedFloat}
    (hop : KeepsInfinity op) {u v : UnpackedFloat}
    (h : (UnpackedFloat.unpack .binary64 (UnpackedFloat.pack .binary64 (op u v))).isFinite = true) :
    u.isFinite = true ∧ v.isFinite = true := by
  have hresult := isFinite_repack h
  constructor
  · cases u with
    | notANumber =>
      rw [hop.left] at hresult
      cases hresult
    | infinity s =>
      rw [hop.infinity_left] at hresult
      cases hresult
    | _ => rfl
  · cases v with
    | notANumber =>
      rw [hop.right] at hresult
      cases hresult
    | infinity s =>
      rw [hop.infinity_right] at hresult
      cases hresult
    | _ => rfl

theorem keepsInfinity_add : KeepsInfinity (UnpackedFloat.add .binary64) where
  toKeepsNaN := keepsNaN_add
  infinity_left s v := by
    cases v with
    | infinity t => cases s <;> cases t <;> rfl
    | _ => rfl
  infinity_right u t := by
    cases u with
    | infinity s => cases s <;> cases t <;> rfl
    | _ => rfl

theorem keepsInfinity_mul : KeepsInfinity (UnpackedFloat.mul .binary64) where
  toKeepsNaN := keepsNaN_mul
  infinity_left s v := by cases v <;> rfl
  infinity_right u t := by cases u <;> rfl

theorem isFinite_of_add {a b : Float} (h : (a + b).isFinite = true) :
    a.isFinite = true ∧ b.isFinite = true := keepsInfinity_add.isFinite h

theorem isFinite_of_mul {a b : Float} (h : (a * b).isFinite = true) :
    a.isFinite = true ∧ b.isFinite = true := keepsInfinity_mul.isFinite h

theorem not_isNaN_of_add {a b : Float} (h : (a + b).isNaN = false) :
    a.isNaN = false ∧ b.isNaN = false := keepsNaN_add.not_isNaN h

theorem not_isNaN_of_sub {a b : Float} (h : (a - b).isNaN = false) :
    a.isNaN = false ∧ b.isNaN = false := keepsNaN_sub.not_isNaN h

theorem not_isNaN_of_mul {a b : Float} (h : (a * b).isNaN = false) :
    a.isNaN = false ∧ b.isNaN = false := keepsNaN_mul.not_isNaN h

theorem not_isNaN_of_div {a b : Float} (h : (a / b).isNaN = false) :
    a.isNaN = false ∧ b.isNaN = false := keepsNaN_div.not_isNaN h

/-- Zero of either sign, or NaN. -/
inductive Void : UnpackedFloat → Prop
  | zero (s : Sign) : Void (.zero s)
  | notANumber : Void .notANumber

theorem Void.repack {u : UnpackedFloat} (h : Void u) :
    Void (UnpackedFloat.unpack .binary64 (UnpackedFloat.pack .binary64 u)) := by
  cases h with
  | zero s => cases s <;> exact .zero _
  | notANumber => exact .notANumber

theorem Void.add {u v : UnpackedFloat} (hu : Void u) (hv : Void v) :
    Void (UnpackedFloat.add .binary64 u v) := by
  cases hu with
  | notANumber => exact .notANumber
  | zero s =>
    cases hv with
    | notANumber => exact .notANumber
    | zero t => cases s <;> cases t <;> exact .zero _

theorem Void.mul {u v : UnpackedFloat} (h : Void u ∨ Void v) :
    Void (UnpackedFloat.mul .binary64 u v) := by
  rcases h with h | h
  · cases h with
    | notANumber => exact .notANumber
    | zero s => cases v <;> first | exact .zero _ | exact .notANumber
  · cases h with
    | notANumber => cases u <;> exact .notANumber
    | zero s => cases u <;> first | exact .zero _ | exact .notANumber

theorem Void.neg {u : UnpackedFloat} (h : Void u) : Void u.neg := by
  cases h with
  | zero s => exact .zero _
  | notANumber => exact .notANumber

def ZeroOrNaN (a : Float) : Prop := Void (unpacked a)

theorem zeroOrNaN_zero : ZeroOrNaN 0 := Void.zero .positive

theorem zeroOrNaN_of_beq {a : Float} (h : (a == 0) = true) : ZeroOrNaN a := by
  obtain ⟨-, -, rfl | ⟨rfl, -⟩ | ⟨rfl, -⟩⟩ := Float.beq_iff_ne_nan_and_eq.1 h
  all_goals exact .zero _

theorem ZeroOrNaN.isNaN_or_beq {a : Float} (h : ZeroOrNaN a) :
    a.isNaN = true ∨ (a == 0) = true := by
  change (unpacked a).isNaN = true ∨ ((unpacked a).compare (unpacked 0) == some .eq) = true
  unfold ZeroOrNaN at h
  generalize unpacked a = u at h
  cases h with
  | zero s => exact Or.inr rfl
  | notANumber => exact Or.inl rfl

theorem ZeroOrNaN.add {a b : Float} (ha : ZeroOrNaN a) (hb : ZeroOrNaN b) : ZeroOrNaN (a + b) :=
  (Void.add ha hb).repack

theorem ZeroOrNaN.mul_right {a : Float} (ha : ZeroOrNaN a) (b : Float) : ZeroOrNaN (a * b) :=
  (Void.mul (Or.inl ha)).repack

theorem ZeroOrNaN.mul_left {b : Float} (hb : ZeroOrNaN b) (a : Float) : ZeroOrNaN (a * b) :=
  (Void.mul (Or.inr hb)).repack

theorem ZeroOrNaN.neg {a : Float} (ha : ZeroOrNaN a) : ZeroOrNaN (-a) := (Void.neg ha).repack

end RootFinding.Binary64
