import RootFinding.Proofs.Decimal.ReadsAs

/-!
# Reading a number text

A number text is read by cutting it at the exponent mark and at the point: its digits are one
natural number, which the exponent and the digits behind the point scale by a power of ten. However
the digits of a decimal are laid out, with or without an exponent, reading the text gives the
decimal back.
-/

namespace RootFinding.Decimal

def upTo (mark : Char) (text : List Char) : List Char := text.takeWhile (· != mark)

def past (mark : Char) (text : List Char) : List Char := (text.dropWhile (· != mark)).tail

section Cut

variable {mark : Char} {l : List Char}

theorem ne_of_notMem (h : mark ∉ l) : ∀ c ∈ l, (c != mark) = true := by
  intro c hc
  exact bne_iff_ne.2 fun heq => h (heq ▸ hc)

theorem upTo_append_cons (h : mark ∉ l) (r : List Char) : upTo mark (l ++ mark :: r) = l := by
  rw [upTo, List.takeWhile_append_of_pos (ne_of_notMem h), List.takeWhile_cons_of_neg (by simp),
    List.append_nil]

theorem past_append_cons (h : mark ∉ l) (r : List Char) : past mark (l ++ mark :: r) = r := by
  rw [past, List.dropWhile_append_of_pos (ne_of_notMem h), List.dropWhile_cons_of_neg (by simp)]
  rfl

theorem upTo_of_notMem (h : mark ∉ l) : upTo mark l = l :=
  List.takeWhile_eq_self_iff.2 (ne_of_notMem h)

theorem past_of_notMem (h : mark ∉ l) : past mark l = [] := by
  rw [past, List.dropWhile_eq_nil_iff.2 (ne_of_notMem h)]
  rfl

end Cut

def IsDigits (l : List Char) : Prop := ∀ c ∈ l, c.isDigit = true

def digitsValue (digits : List Char) : Nat := Nat.ofDigitChars 10 digits 0

section Digits

variable {l r : List Char}

theorem IsDigits.append (hl : IsDigits l) (hr : IsDigits r) : IsDigits (l ++ r) := by
  intro c hc
  exact (List.mem_append.1 hc).elim (hl c) (hr c)

theorem IsDigits.subset (hr : IsDigits r) (h : l ⊆ r) : IsDigits l := fun c hc => hr c (h hc)

theorem IsDigits.notMem {mark : Char} (h : IsDigits l) (hmark : mark.isDigit = false) :
    mark ∉ l := by
  intro hmem
  rw [h mark hmem] at hmark
  cases hmark

theorem isDigits_zeros (n : Nat) : IsDigits (List.replicate n '0') := by
  intro c hc
  rw [List.eq_of_mem_replicate hc]
  rfl

theorem isDigits_natural (n : Nat) : IsDigits (natural n) := fun _ hc =>
  Nat.isDigit_of_mem_toDigits (by decide) (by decide) hc

theorem digitsValue_append (l r : List Char) :
    digitsValue (l ++ r) = digitsValue l * 10 ^ r.length + digitsValue r := by
  rw [digitsValue, Nat.ofDigitChars_append, Nat.ofDigitChars_eq_ofDigitChars_zero, mul_comm]
  rfl

theorem digitsValue_zeros (n : Nat) : digitsValue (List.replicate n '0') = 0 :=
  Nat.ofDigitChars_replicate_zero

theorem digitsValue_append_zeros (l : List Char) (n : Nat) :
    digitsValue (l ++ List.replicate n '0') = digitsValue l * 10 ^ n := by
  rw [digitsValue_append, digitsValue_zeros, List.length_replicate, Nat.add_zero]

theorem digitsValue_zeros_append (l : List Char) (n : Nat) :
    digitsValue (List.replicate n '0' ++ l) = digitsValue l := by
  rw [digitsValue_append, digitsValue_zeros, Nat.zero_mul, Nat.zero_add]

theorem digitsValue_natural (n : Nat) : digitsValue (natural n) = n :=
  Nat.ofDigitChars_ten_toDigits

end Digits

def readInteger : List Char → Int
  | '-' :: digits => -(digitsValue digits : Int)
  | digits => digitsValue digits

theorem readInteger_of_isDigits {l : List Char} (h : IsDigits l) :
    readInteger l = digitsValue l := by
  unfold readInteger
  split
  · next digits =>
    have hminus : '-' ∉ '-' :: digits := h.notMem rfl
    exact absurd List.mem_cons_self hminus
  · rfl

theorem readInteger_integer (i : Int) : readInteger (integer i) = i := by
  unfold integer
  split
  · next hneg =>
    rw [readInteger, digitsValue_natural]
    omega
  · next hneg =>
    rw [readInteger_of_isDigits (isDigits_natural _), digitsValue_natural]
    omega

def readNumber (text : List Char) : ℚ :=
  digitsValue (upTo '.' (upTo 'e' text) ++ past '.' (upTo 'e' text)) *
    10 ^ (readInteger (past 'e' text) - (past '.' (upTo 'e' text)).length)

section Read

variable {whole fraction : List Char}

theorem upTo_afterPoint (hwhole : IsDigits whole) (fraction : List Char) :
    upTo '.' (whole ++ afterPoint fraction) = whole := by
  cases fraction with
  | nil =>
    rw [afterPoint, List.append_nil]
    exact upTo_of_notMem (hwhole.notMem rfl)
  | cons c rest => exact upTo_append_cons (hwhole.notMem rfl) _

theorem past_afterPoint (hwhole : IsDigits whole) (fraction : List Char) :
    past '.' (whole ++ afterPoint fraction) = fraction := by
  cases fraction with
  | nil =>
    rw [afterPoint, List.append_nil]
    exact past_of_notMem (hwhole.notMem rfl)
  | cons c rest => exact past_append_cons (hwhole.notMem rfl) _

theorem e_notMem_afterPoint (hwhole : IsDigits whole) (hfraction : IsDigits fraction) :
    'e' ∉ whole ++ afterPoint fraction := by
  intro hmem
  rcases List.mem_append.1 hmem with hmem | hmem
  · exact hwhole.notMem rfl hmem
  · cases fraction with
    | nil => cases hmem
    | cons c rest =>
      rcases List.mem_cons.1 hmem with hpoint | hmem
      · cases hpoint
      · exact hfraction.notMem rfl hmem

theorem readNumber_positional (hwhole : IsDigits whole) (hfraction : IsDigits fraction) :
    readNumber (whole ++ afterPoint fraction) =
      digitsValue (whole ++ fraction) * 10 ^ (-(fraction.length : Int)) := by
  have hmark := e_notMem_afterPoint hwhole hfraction
  rw [readNumber, upTo_of_notMem hmark, past_of_notMem hmark, upTo_afterPoint hwhole,
    past_afterPoint hwhole, readInteger_of_isDigits (l := []) (by simp [IsDigits])]
  rw [show digitsValue [] = 0 from rfl, Nat.cast_zero, zero_sub]

theorem readNumber_exponential (hwhole : IsDigits whole) (hfraction : IsDigits fraction)
    (i : Int) :
    readNumber (whole ++ afterPoint fraction ++ 'e' :: integer i) =
      digitsValue (whole ++ fraction) * 10 ^ (i - fraction.length) := by
  have hmark := e_notMem_afterPoint hwhole hfraction
  rw [readNumber, upTo_append_cons hmark, past_append_cons hmark, upTo_afterPoint hwhole,
    past_afterPoint hwhole, readInteger_integer]

end Read

def Digits.value (d : Digits) : ℚ := digitsValue d.digits * 10 ^ (d.point - d.digits.length)

section Value

variable {d : Digits}

theorem Digits.isDigits_whole (h : IsDigits d.digits) : IsDigits d.whole := by
  unfold whole
  split
  · exact isDigits_zeros 1
  · exact (h.subset (List.take_subset _ _)).append (isDigits_zeros _)

theorem Digits.isDigits_fraction (h : IsDigits d.digits) : IsDigits d.fraction :=
  (isDigits_zeros _).append (h.subset (List.drop_subset _ _))

theorem Digits.whole_ne_nil (d : Digits) : d.whole ≠ [] := by
  intro hnil
  have hlength := congrArg List.length hnil
  unfold whole at hlength
  split at hlength
  · cases hlength
  · next hpoint =>
    rw [List.length_append, List.length_take, List.length_replicate, List.length_nil] at hlength
    omega

theorem Digits.value_eq (d : Digits) :
    digitsValue (d.whole ++ d.fraction) * 10 ^ (-(d.fraction.length : Int)) = d.value := by
  by_cases hpoint : d.point ≤ 0
  · have hwhole : d.whole = List.replicate 1 '0' := if_pos hpoint
    have hfraction : d.fraction = List.replicate (-d.point).toNat '0' ++ d.digits := by
      rw [fraction, Int.toNat_of_nonpos hpoint, List.drop_zero]
    rw [hwhole, hfraction, digitsValue_zeros_append, digitsValue_zeros_append, List.length_append,
      List.length_replicate, value]
    congr 2
    omega
  · have hwhole : d.whole = d.digits.take d.point.toNat ++
        List.replicate (d.point.toNat - d.digits.length) '0' := if_neg hpoint
    have hnone : (-d.point).toNat = 0 := by omega
    have hfraction : d.fraction = d.digits.drop d.point.toNat := by
      rw [fraction, hnone, List.replicate_zero, List.nil_append]
    by_cases hlong : d.digits.length ≤ d.point.toNat
    · rw [hwhole, hfraction, List.take_of_length_le hlong, List.drop_of_length_le hlong,
        List.append_nil, digitsValue_append_zeros, List.length_nil, Nat.cast_zero, neg_zero,
        zpow_zero, mul_one, value, Nat.cast_mul, Nat.cast_pow, Nat.cast_ofNat, ← zpow_natCast]
      congr 2
      omega
    · have hfull : d.point.toNat - d.digits.length = 0 := by omega
      rw [hwhole, hfraction, hfull, List.replicate_zero, List.append_nil, List.take_append_drop,
        List.length_drop, value]
      congr 2
      omega

structure Style.Legible (style : Style) : Prop where
  zeros : ∃ n, style.wholeFraction = List.replicate n '0'
  zero : style.positional 1 = true

theorem legible_plainStyle : plainStyle.Legible := ⟨⟨0, rfl⟩, rfl⟩

theorem legible_entryStyle : entryStyle.Legible := ⟨⟨1, rfl⟩, by decide⟩

theorem Digits.readNumber_positional {style : Style} (hstyle : style.Legible)
    (h : IsDigits d.digits) :
    readNumber (d.whole ++ afterPoint (if d.fraction = [] then style.wholeFraction
      else d.fraction)) = d.value := by
  have hwhole := isDigits_whole h
  rw [← d.value_eq]
  split
  · next hnone =>
    obtain ⟨n, hzeros⟩ := hstyle.zeros
    rw [hzeros, Decimal.readNumber_positional hwhole (isDigits_zeros n), digitsValue_append_zeros,
      hnone, List.append_nil, List.length_replicate, List.length_nil]
    push_cast
    rw [mul_assoc, ← zpow_natCast, ← zpow_add₀ (by norm_num), add_neg_cancel, zpow_zero]
  · exact Decimal.readNumber_positional hwhole (isDigits_fraction h)

theorem Digits.readNumber_exponential (h : IsDigits d.digits) (hne : d.digits ≠ []) :
    readNumber d.exponential = d.value := by
  obtain ⟨c, rest, hdigits⟩ := List.exists_cons_of_ne_nil hne
  have hwhole : IsDigits (d.digits.take 1) := h.subset (List.take_subset _ _)
  have hfraction : IsDigits (d.digits.drop 1) := h.subset (List.drop_subset _ _)
  rw [exponential, Decimal.readNumber_exponential hwhole hfraction, List.take_append_drop, value,
    hdigits, List.drop_one, List.tail_cons, List.length_cons]
  congr 2
  push_cast
  ring

theorem Digits.readNumber_layOut {style : Style} (hstyle : style.Legible) (h : IsDigits d.digits)
    (hd : d.digits ≠ [] ∨ d.point = 1) : readNumber (d.layOut style) = d.value := by
  unfold layOut
  split
  · exact readNumber_positional hstyle h
  · next hexponent =>
    refine readNumber_exponential h (hd.resolve_right fun hone => hexponent ?_)
    rw [hone]
    exact hstyle.zero

theorem eq_dropWhile_append_zeros (l : List Char) :
    ∃ n, l = (l.reverse.dropWhile (· == '0')).reverse ++ List.replicate n '0' := by
  have hzeros : ∀ c ∈ l.reverse.takeWhile (· == '0'), c = '0' := by
    intro c hc
    have hzero := List.mem_takeWhile_imp hc
    exact eq_of_beq hzero
  refine ⟨(l.reverse.takeWhile (· == '0')).length, ?_⟩
  rw [← List.reverse_replicate, ← List.eq_replicate_of_mem hzeros, ← List.reverse_append,
    List.takeWhile_append_dropWhile, List.reverse_reverse]

theorem Scaled.trailing_zeros (s : Scaled) :
    ∃ n, Nat.toDigits 10 s.coefficient = s.toDigits.digits ++ List.replicate n '0' :=
  eq_dropWhile_append_zeros _

theorem Scaled.isDigits_toDigits (s : Scaled) : IsDigits s.toDigits.digits := by
  obtain ⟨n, hdigits⟩ := s.trailing_zeros
  refine (isDigits_natural s.coefficient).subset ?_
  rw [natural, hdigits]
  exact List.subset_append_left _ _

theorem Scaled.value_toDigits (s : Scaled) : s.toDigits.value = s.value := by
  obtain ⟨n, hdigits⟩ := s.trailing_zeros
  have hcoefficient : s.coefficient = digitsValue s.toDigits.digits * 10 ^ n := by
    rw [← digitsValue_append_zeros, ← hdigits]
    exact (digitsValue_natural _).symm
  have hpoint : s.toDigits.point - s.toDigits.digits.length = n + s.place := by
    have hlength := congrArg List.length hdigits
    rw [List.length_append, List.length_replicate] at hlength
    have hall : s.toDigits.point = (Nat.toDigits 10 s.coefficient).length + s.place := rfl
    omega
  rw [Digits.value, hpoint, value, hcoefficient, zpow_add₀ (by norm_num), zpow_natCast]
  push_cast
  ring

end Value

end RootFinding.Decimal
