import RootFinding.Proofs.Binary64.Arithmetic
import RootFinding.Proofs.Linear.Equation

/-!
# What a finite solution says of its system

Over binary64 numbers a solution may be anything, but one that is finite in every component vouches
for its system. A right-hand side is only added to, and at the end divided, so none of them was
infinite or NaN. A coefficient that is NaN would have made others NaN, and a right-hand side with
them, whether it led its equation, stood in the chosen one, or in any other. And no equation and no
unknown was without coefficients: zeros only turn to zeros or NaN, so at some step the pivot would
have been zero, or NaN.
-/

namespace RootFinding.Linear

open Binary64

section Equation

variable {first e : Equation Float} {known : List Float} {reciprocal : Float}

theorem not_isNaN_lead_of_resolve (h : (e.resolve known).isFinite = true) :
    e.lead.isNaN = false := (not_isNaN_of_div (isNaN_of_isFinite h)).2

theorem isFinite_of_resolve (h : (e.resolve known).isFinite = true) :
    e.value.isFinite = true ∧
      ∀ term ∈ List.zip e.coefficients.tail known, term.1.isNaN = false := by
  have hsum := isFinite_of_div h
  generalize List.zip e.coefficients.tail known = terms at hsum
  induction terms with
  | nil => exact ⟨hsum, List.forall_mem_nil _⟩
  | cons term terms ih =>
    obtain ⟨hvalue, hterms⟩ := ih (isFinite_of_add hsum).2
    have hproduct := (not_isNaN_of_add (isNaN_of_isFinite hsum)).1
    exact ⟨hvalue, List.forall_mem_cons.2 ⟨(not_isNaN_of_mul hproduct).2, hterms⟩⟩

theorem isFinite_value_of_reduce (h : (first.reduce reciprocal e).value.isFinite = true) :
    e.value.isFinite = true := (isFinite_of_add h).2

theorem not_isNaN_lead_of_reduce (h : (first.reduce reciprocal e).value.isFinite = true) :
    e.lead.isNaN = false := by
  have hproduct := (not_isNaN_of_add (isNaN_of_isFinite h)).1
  exact (not_isNaN_of_mul (not_isNaN_of_mul hproduct).2).1

theorem not_isNaN_tail_of_reduce
    (hwidth : first.coefficients.length = e.coefficients.length)
    (h : ∀ c ∈ (first.reduce reciprocal e).coefficients, c.isNaN = false) :
    ∀ a ∈ e.coefficients.tail, a.isNaN = false := by
  intro a ha
  obtain ⟨k, hk, rfl⟩ := List.mem_iff_getElem.1 ha
  have hlong : k < (first.reduce reciprocal e).coefficients.length := by
    simp only [Equation.reduce, List.length_zipWith, List.length_tail] at hk ⊢
    omega
  have hentry := h _ (List.getElem_mem hlong)
  simp only [Equation.reduce, List.getElem_zipWith] at hentry
  exact (not_isNaN_of_add hentry).2

end Equation

section Solution

variable {n : Nat} {system : List (Equation Float)} {d : List Float}

theorem isFinite_values (hlength : system.length = n) (h : solveSized n system = some d)
    (hd : ∀ a ∈ d, a.isFinite = true) : ∀ e ∈ system, e.value.isFinite = true := by
  induction n generalizing system d with
  | zero =>
    obtain rfl := List.length_eq_zero_iff.1 hlength
    simp
  | succ n ih =>
    obtain ⟨first, others, hchosen⟩ := exists_chosen hlength
    obtain ⟨-, known, hknown, rfl⟩ := hchosen.eq_some h
    obtain ⟨hfirst, hrest⟩ := List.forall_mem_cons.1 hd
    have hreduced := ih (hchosen.length_eliminate hlength) hknown hrest
    intro e he
    rcases hchosen.mem_iff.1 he with rfl | he
    · exact (isFinite_of_resolve hfirst).1
    · exact isFinite_value_of_reduce (hreduced _ (List.mem_map_of_mem he))

theorem not_isNaN_coefficients (hsquare : Square n system) (h : solveSized n system = some d)
    (hd : ∀ a ∈ d, a.isFinite = true) : ∀ e ∈ system, ∀ a ∈ e.coefficients, a.isNaN = false := by
  induction n generalizing system d with
  | zero =>
    obtain rfl := List.length_eq_zero_iff.1 hsquare.length
    simp
  | succ n ih =>
    obtain ⟨first, others, hchosen⟩ := exists_chosen hsquare.length
    obtain ⟨-, known, hknown, rfl⟩ := hchosen.eq_some h
    obtain ⟨hresolved, hrest⟩ := List.forall_mem_cons.1 hd
    have hreduced := hchosen.square hsquare
    have hvalues := isFinite_values hreduced.length hknown hrest
    have hentries := ih hreduced hknown hrest
    have hwidth := hsquare.width first (hchosen.mem_iff.2 (Or.inl rfl))
    intro e he
    rw [coefficients_eq (hsquare.width e he)]
    rcases hchosen.mem_iff.1 he with rfl | hother
    · refine List.forall_mem_cons.2 ⟨not_isNaN_lead_of_resolve hresolved, ?_⟩
      have hlengths : e.coefficients.tail.length = known.length := by
        rw [length_solveSized hreduced.length hknown, List.length_tail, hwidth, Nat.add_sub_cancel]
      intro a ha
      rw [← List.map_fst_zip hlengths.le] at ha
      obtain ⟨term, hterm, rfl⟩ := List.mem_map.1 ha
      exact (isFinite_of_resolve hresolved).2 term hterm
    · have hmem : first.reduce (1 / first.lead) e ∈ first.eliminate others :=
        List.mem_map_of_mem hother
      refine List.forall_mem_cons.2 ⟨not_isNaN_lead_of_reduce (hvalues _ hmem), ?_⟩
      exact not_isNaN_tail_of_reduce (hwidth.trans (hsquare.width e he).symm) (hentries _ hmem)

end Solution

section Missing

variable {n : Nat} {system : List (Equation Float)} {d : List Float}

theorem not_zeroOrNaN_lead {first : Equation Float} {others : List (Equation Float)}
    (hchosen : Chosen system first others) (h : solveSized (n + 1) system = some d)
    (hd : ∀ a ∈ d, a.isFinite = true) : ¬ ZeroOrNaN first.lead := by
  obtain ⟨hpivot, known, -, rfl⟩ := hchosen.eq_some h
  intro hvoid
  rcases hvoid.isNaN_or_beq with hnan | hzero
  · have hlead := not_isNaN_lead_of_resolve (hd _ List.mem_cons_self)
    rw [hnan] at hlead
    cases hlead
  · rw [show Magnitude.isZero first.lead = true from hzero] at hpivot
    cases hpivot

theorem zeroOrNaN_reduce {first e : Equation Float} {k : Nat} (reciprocal : Float)
    (h : ZeroOrNaN e.lead ∨ ZeroOrNaN (first.coefficients.getD (k + 1) 0))
    (he : ZeroOrNaN (e.coefficients.getD (k + 1) 0)) :
    ZeroOrNaN ((first.reduce reciprocal e).coefficients.getD k 0) := by
  simp only [Equation.reduce, List.getD_eq_getElem?_getD, List.getElem?_zipWith,
    List.getElem?_tail] at h he ⊢
  cases hfirst : first.coefficients[k + 1]? with
  | none => exact zeroOrNaN_zero
  | some t =>
    cases hentry : e.coefficients[k + 1]? with
    | none => exact zeroOrNaN_zero
    | some a =>
      rw [hfirst] at h
      rw [hentry] at he
      rcases h with hlead | hcoefficient
      · exact ((hlead.mul_right reciprocal).mul_left (-t)).add he
      · exact (hcoefficient.neg.mul_right (e.lead * reciprocal)).add he

theorem zeroOrNaN_lead {e : Equation Float} (h : ZeroOrNaN (e.coefficients.getD 0 0)) :
    ZeroOrNaN e.lead := by
  rwa [Equation.lead, List.headD_eq_head?_getD, List.head?_eq_getElem?,
    ← List.getD_eq_getElem?_getD]

theorem not_missing_equation (hlength : system.length = n) (h : solveSized n system = some d)
    (hd : ∀ a ∈ d, a.isFinite = true) :
    ∀ e ∈ system, ¬ ∀ k, ZeroOrNaN (e.coefficients.getD k 0) := by
  induction n generalizing system d with
  | zero =>
    obtain rfl := List.length_eq_zero_iff.1 hlength
    simp
  | succ n ih =>
    obtain ⟨first, others, hchosen⟩ := exists_chosen hlength
    obtain ⟨-, known, hknown, hsolution⟩ := hchosen.eq_some h
    have hrest : ∀ a ∈ known, a.isFinite = true := fun a ha =>
      hd a (hsolution ▸ List.mem_cons_of_mem _ ha)
    intro e he hmissing
    rcases hchosen.mem_iff.1 he with rfl | hother
    · exact not_zeroOrNaN_lead hchosen h hd (zeroOrNaN_lead (hmissing 0))
    · refine ih (hchosen.length_eliminate hlength) hknown hrest _
        (List.mem_map_of_mem hother) fun k => ?_
      exact zeroOrNaN_reduce _ (Or.inl (zeroOrNaN_lead (hmissing 0))) (hmissing (k + 1))

theorem not_unused_unknown (hlength : system.length = n) (h : solveSized n system = some d)
    (hd : ∀ a ∈ d, a.isFinite = true) {k : Nat} (hk : k < n) :
    ¬ ∀ e ∈ system, ZeroOrNaN (e.coefficients.getD k 0) := by
  induction n generalizing system d k with
  | zero => omega
  | succ n ih =>
    obtain ⟨first, others, hchosen⟩ := exists_chosen hlength
    obtain ⟨-, known, hknown, hsolution⟩ := hchosen.eq_some h
    have hrest : ∀ a ∈ known, a.isFinite = true := fun a ha =>
      hd a (hsolution ▸ List.mem_cons_of_mem _ ha)
    intro hunused
    have hfirst := hunused first (hchosen.mem_iff.2 (Or.inl rfl))
    cases k with
    | zero => exact not_zeroOrNaN_lead hchosen h hd (zeroOrNaN_lead hfirst)
    | succ k =>
      refine ih (hchosen.length_eliminate hlength) hknown hrest
        (Nat.lt_of_succ_lt_succ hk) fun e' he' => ?_
      obtain ⟨e, he, rfl⟩ := List.mem_map.1 he'
      exact zeroOrNaN_reduce _ (Or.inr hfirst) (hunused e (hchosen.mem_iff.2 (Or.inr he)))

end Missing

end RootFinding.Linear
