import RootFinding.Proofs.Decimal.Reading

/-!
# The text of a number belongs to that number alone

Reading the text of a finite number gives its shortest decimal, which reads as no other number. The
sign and the words for what is not finite begin with characters that no digits begin with. So two
numbers have the same text only if they are the same, in every style that puts nothing but zeros
behind a whole number. Beside digits a number text has few characters, and no separator is one.
-/

namespace RootFinding.Decimal

theorem shortestDigits_of_pos {m : Nat} (hm : 0 < m) (q : Int) :
    shortestDigits m q = (shortest m q).toDigits := if_neg (Nat.ne_of_gt hm)

theorem isDigits_shortestDigits (m : Nat) (q : Int) : IsDigits (shortestDigits m q).digits := by
  rcases Nat.eq_zero_or_pos m with rfl | hm
  · exact fun c hc => by cases hc
  · rw [shortestDigits_of_pos hm]
    exact Scaled.isDigits_toDigits _

theorem value_shortestDigits {m : Nat} (hm : 0 < m) (q : Int) :
    (shortestDigits m q).value = (shortest m q).value := by
  rw [shortestDigits_of_pos hm, Scaled.value_toDigits]

theorem shortestDigits_ne_nil_or (m : Nat) (q : Int) :
    (shortestDigits m q).digits ≠ [] ∨ (shortestDigits m q).point = 1 := by
  rcases Nat.eq_zero_or_pos m with rfl | hm
  · exact Or.inr rfl
  · refine Or.inl fun hnil => ?_
    have hpos := (readsAs_shortest (q := q) hm).pos hm
    rw [← value_shortestDigits hm, Digits.value, hnil] at hpos
    simp [digitsValue] at hpos

section Text

variable {style : Style} {m m' : Nat} {q q' : Int}

theorem readNumber_shortestDigits (hstyle : style.Legible) (m : Nat) (q : Int) :
    readNumber ((shortestDigits m q).layOut style) = (shortestDigits m q).value :=
  Digits.readNumber_layOut hstyle (isDigits_shortestDigits m q) (shortestDigits_ne_nil_or m q)

theorem layOut_inj (hstyle : style.Legible) (hm : Canonical m q) (hm' : Canonical m' q')
    (h : (shortestDigits m q).layOut style = (shortestDigits m' q').layOut style) :
    m = m' ∧ q = q' := by
  have hvalue := congrArg readNumber h
  rw [readNumber_shortestDigits hstyle, readNumber_shortestDigits hstyle] at hvalue
  have hzero (q : Int) : (shortestDigits 0 q).value = 0 := by simp [Digits.value, shortestDigits,
    digitsValue]
  rcases Nat.eq_zero_or_pos m with rfl | hpos
  · rcases Nat.eq_zero_or_pos m' with rfl | hpos'
    · have hq := hm.normal.resolve_left (by decide)
      have hq' := hm'.normal.resolve_left (by decide)
      exact ⟨rfl, hq.trans hq'.symm⟩
    · rw [hzero, value_shortestDigits hpos'] at hvalue
      exact absurd hvalue ((readsAs_shortest hpos').pos hpos').ne
  · rcases Nat.eq_zero_or_pos m' with rfl | hpos'
    · rw [hzero, value_shortestDigits hpos] at hvalue
      exact absurd hvalue ((readsAs_shortest hpos).pos hpos).ne'
    · rw [value_shortestDigits hpos, value_shortestDigits hpos'] at hvalue
      exact (readsAs_shortest hpos).unique (hvalue ▸ readsAs_shortest hpos') hm hm'

def StartsWithDigit (text : List Char) : Prop := ∃ c rest, text = c :: rest ∧ c.isDigit = true

theorem IsDigits.startsWithDigit {l : List Char} (h : IsDigits l) (hne : l ≠ []) (r : List Char) :
    StartsWithDigit (l ++ r) := by
  obtain ⟨c, rest, rfl⟩ := List.exists_cons_of_ne_nil hne
  exact ⟨c, rest ++ r, rfl, h c List.mem_cons_self⟩

theorem startsWithDigit_layOut (hstyle : style.Legible) (m : Nat) (q : Int) :
    StartsWithDigit ((shortestDigits m q).layOut style) := by
  have hdigits := isDigits_shortestDigits m q
  unfold Digits.layOut
  split
  · exact (Digits.isDigits_whole hdigits).startsWithDigit (Digits.whole_ne_nil _) _
  · next hexponent =>
    have hne : (shortestDigits m q).digits ≠ [] :=
      (shortestDigits_ne_nil_or m q).resolve_right fun hone => hexponent (hone ▸ hstyle.zero)
    have hfirst : (shortestDigits m q).digits.take 1 ≠ [] := by
      obtain ⟨c, rest, hcons⟩ := List.exists_cons_of_ne_nil hne
      rw [hcons]
      exact List.cons_ne_nil _ _
    rw [Digits.exponential, List.append_assoc]
    exact (hdigits.subset (List.take_subset _ _)).startsWithDigit hfirst _

theorem signed_inj {f : Nat → Int → List Char} (hf : ∀ m q, StartsWithDigit (f m q))
    {p p' : Parts} (h : signed f p = signed f p') :
    p = p' ∨ ∃ negative m q m' q', p = .finite negative m q ∧ p' = .finite negative m' q' ∧
      f m q = f m' q' := by
  have hne {c : Char} (hc : c.isDigit = true) : c ≠ 'N' ∧ c ≠ 'i' ∧ c ≠ '-' := by
    refine ⟨?_, ?_, ?_⟩ <;> (rintro rfl; cases hc)
  cases p with
  | nan =>
    cases p' with
    | nan => exact Or.inl rfl
    | infinite negative => cases negative <;> simp [signed] at h
    | finite negative m q =>
      obtain ⟨c, rest, htext, hc⟩ := hf m q
      cases negative <;> simp [signed, htext, (hne hc).1.symm] at h
  | infinite negative =>
    cases p' with
    | nan => cases negative <;> simp [signed] at h
    | infinite negative' => cases negative <;> cases negative' <;> simp [signed] at h ⊢
    | finite negative' m q =>
      obtain ⟨c, rest, htext, hc⟩ := hf m q
      cases negative <;> cases negative' <;>
        simp [signed, htext, (hne hc).2.1.symm, (hne hc).2.2.symm] at h
  | finite negative m q =>
    obtain ⟨c, rest, htext, hc⟩ := hf m q
    cases p' with
    | nan => cases negative <;> simp [signed, htext, (hne hc).1] at h
    | infinite negative' =>
      cases negative <;> cases negative' <;>
        simp [signed, htext, (hne hc).2.1, (hne hc).2.2] at h
    | finite negative' m' q' =>
      obtain ⟨c', rest', htext', hc'⟩ := hf m' q'
      cases negative with
      | true =>
        cases negative' with
        | true => exact Or.inr ⟨true, m, q, m', q', rfl, rfl, List.append_cancel_left h⟩
        | false => simp [signed, htext', (hne hc').2.2.symm] at h
      | false =>
        cases negative' with
        | true => simp [signed, htext, (hne hc).2.2] at h
        | false => exact Or.inr ⟨false, m, q, m', q', rfl, rfl, h⟩

theorem write_injective (hstyle : style.Legible) : Function.Injective style.write := by
  intro x y h
  refine parts_injective ?_
  rcases signed_inj (startsWithDigit_layOut hstyle) h with hsame |
    ⟨negative, m, q, m', q', hx, hy, htext⟩
  · exact hsame
  · obtain ⟨rfl, rfl⟩ :=
      layOut_inj hstyle (canonical_of_parts hx) (canonical_of_parts hy) htext
    rw [hx, hy]

end Text

def marks : List Char := ['-', '.', 'e', 'N', 'a', 'i', 'n', 'f']

def IsNumberText (text : List Char) : Prop := ∀ c ∈ text, c.isDigit = true ∨ c ∈ marks

section NumberText

variable {l r : List Char}

theorem IsNumberText.notMem {c : Char} (h : IsNumberText l) (hdigit : c.isDigit = false)
    (hmark : c ∉ marks) : c ∉ l := by
  intro hc
  rcases h c hc with hdigit' | hmark'
  · rw [hdigit'] at hdigit
    cases hdigit
  · exact hmark hmark'

theorem IsDigits.isNumberText (h : IsDigits l) : IsNumberText l := fun c hc => Or.inl (h c hc)

theorem IsNumberText.append (hl : IsNumberText l) (hr : IsNumberText r) :
    IsNumberText (l ++ r) := by
  intro c hc
  exact (List.mem_append.1 hc).elim (hl c) (hr c)

theorem IsNumberText.cons {c : Char} (hc : c ∈ marks) (hl : IsNumberText l) :
    IsNumberText (c :: l) := by
  intro c' hc'
  rcases List.mem_cons.1 hc' with rfl | hc'
  · exact Or.inr hc
  · exact hl c' hc'

theorem isNumberText_afterPoint (h : IsDigits l) : IsNumberText (afterPoint l) := by
  cases l with
  | nil => exact h.isNumberText
  | cons c rest => exact h.isNumberText.cons (by decide)

theorem isNumberText_integer (i : Int) : IsNumberText (integer i) := by
  unfold integer
  split
  · exact (isDigits_natural _).isNumberText.cons (by decide)
  · exact (isDigits_natural _).isNumberText

theorem isNumberText_exponential (h : IsDigits l) (i : Int) :
    IsNumberText (l.take 1 ++ afterPoint (l.drop 1) ++ 'e' :: integer i) := by
  have hwhole : IsDigits (l.take 1) := h.subset (List.take_subset _ _)
  have hfraction : IsDigits (l.drop 1) := h.subset (List.drop_subset _ _)
  exact (hwhole.isNumberText.append (isNumberText_afterPoint hfraction)).append
    ((isNumberText_integer i).cons (by decide))

theorem isNumberText_signed {f : Nat → Int → List Char} (hf : ∀ m q, IsNumberText (f m q))
    (p : Parts) : IsNumberText (signed f p) := by
  have hsign (negative : Bool) : IsNumberText (if negative = true then ['-'] else []) := by
    cases negative with
    | true => exact fun c hc => Or.inr (List.mem_singleton.1 hc ▸ by decide)
    | false => exact fun c hc => by cases hc
  have hword (word : List Char) (hword : word ⊆ marks) : IsNumberText word :=
    fun c hc => Or.inr (hword hc)
  cases p with
  | nan => exact hword ['N', 'a', 'N'] (by decide)
  | infinite negative => exact (hsign negative).append (hword _ (by decide))
  | finite negative m q => exact (hsign negative).append (hf m q)

theorem isNumberText_write {style : Style} (hstyle : style.Legible) (x : Float) :
    IsNumberText (style.write x) := by
  refine isNumberText_signed (fun m q => ?_) _
  have hdigits := isDigits_shortestDigits m q
  unfold Digits.layOut
  split
  · refine (Digits.isDigits_whole hdigits).isNumberText.append (isNumberText_afterPoint ?_)
    split
    · obtain ⟨n, hzeros⟩ := hstyle.zeros
      exact hzeros ▸ isDigits_zeros n
    · exact Digits.isDigits_fraction hdigits
  · exact isNumberText_exponential hdigits _

theorem isNumberText_scientific (places : Nat) (x : Float) :
    IsNumberText (scientific places x) := by
  refine isNumberText_signed (fun m q => ?_) _
  have hdigits : IsDigits (padded (places + 1) (significant places m q).coefficient) :=
    (isDigits_zeros _).append (isDigits_natural _)
  exact isNumberText_exponential hdigits _

theorem write_ne_nil {style : Style} (hstyle : style.Legible) (x : Float) : style.write x ≠ [] := by
  rw [Style.write]
  cases parts x with
  | nan => exact List.cons_ne_nil _ _
  | infinite negative => exact List.append_ne_nil_of_right_ne_nil _ (List.cons_ne_nil _ _)
  | finite negative m q =>
    obtain ⟨c, rest, htext, -⟩ := startsWithDigit_layOut hstyle m q
    refine List.append_ne_nil_of_right_ne_nil _ ?_
    dsimp only
    rw [htext]
    exact List.cons_ne_nil _ _

end NumberText

end RootFinding.Decimal
