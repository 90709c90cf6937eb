import RootFinding.Proofs.Binary64.Rounding
import RootFinding.Proofs.Linear.Finite
import RootFinding.Proofs.Linear.InPlace
import RootFinding.Proofs.Norm

/-!
# Choices of an elimination

The equations that an elimination chooses, each with those it was chosen from. A zero pivot ends it.

If two equations have the same coefficients, they keep having the same ones as long as neither is
chosen. Once one of them is, its twin is left with the pivot times its reciprocal. If this is one,
nothing is left of the twin's coefficients, and a system with such an equation has no finite
solution. But with rounding it need not be one, and then what is left may be solved as if the two
had differed.

If each time one candidate is greater in magnitude than all others, the choices are the same in
whatever order the equations stand. The multiples that are taken away depend on the chosen equation
and on the one they are taken from alone, so the solution is the same as well, rounding included.
-/

namespace RootFinding.Linear

section Choices

variable {α : Type} [Add α] [Mul α] [Neg α] [OfNat α 0]

def Repeats (system : List (Equation α)) : Prop := ¬ (system.map Equation.coefficients).Nodup

theorem Repeats.reduce {system : List (Equation α)} (h : Repeats system) (first : Equation α)
    (reciprocal : α) : Repeats (system.map (first.reduce reciprocal)) := by
  have hsplit : Equation.coefficients ∘ first.reduce reciprocal =
      (fun c => (first.reduce reciprocal ⟨c, first.value⟩).coefficients) ∘
        Equation.coefficients := rfl
  intro hdistinct
  rw [List.map_map, hsplit, ← List.map_map] at hdistinct
  exact h hdistinct.of_map

variable [Div α] [OfNat α 1] [Magnitude α]

/-- For each unknown that is reached, the equation chosen to give it and the others. -/
def choices : Nat → List (Equation α) → List (Equation α × List (Equation α))
  | size + 1, top :: rest =>
    let chosen := pivot top rest
    chosen :: if Magnitude.isZero chosen.1.lead then [] else
      choices size (chosen.1.eliminate chosen.2)
  | _, _ => []

variable {system others : List (Equation α)} {first : Equation α}

theorem Chosen.choices_eq (h : Chosen system first others) (n : Nat) :
    choices (n + 1) system = (first, others) ::
      if Magnitude.isZero first.lead then [] else choices n (first.eliminate others) := by
  obtain ⟨top, rest, rfl, hpivot⟩ := h
  rw [choices, hpivot]

theorem Chosen.repeats (h : Chosen system first others) (hrepeats : Repeats system) :
    (∃ e ∈ others, e.coefficients = first.coefficients) ∨ Repeats (first.eliminate others) := by
  rw [Repeats, ← (h.perm.map _).nodup_iff, List.map_cons, List.nodup_cons, not_and_or,
    not_not] at hrepeats
  rcases hrepeats with htwin | hlater
  · exact Or.inl (List.mem_map.1 htwin)
  · exact Or.inr (Repeats.reduce hlater first _)

end Choices

open Binary64

/-- A number times its reciprocal is one, unless it is infinite or NaN. -/
def RoundTrips (a : Float) : Prop := (a * (1 / a)).isFinite = true → a * (1 / a) = 1

section Repeats

variable {n : Nat} {system others : List (Equation Float)} {first e : Equation Float}

theorem zeroOrNaN_reduce_twin (h : e.coefficients = first.coefficients)
    (htrip : first.lead * (1 / first.lead) = 1) (k : Nat) :
    ZeroOrNaN ((first.reduce (1 / first.lead) e).coefficients.getD k 0) := by
  have hlead : e.lead = first.lead := by simp only [Equation.lead, h]
  simp only [Equation.reduce, h, hlead, htrip, List.getD_eq_getElem?_getD, List.getElem?_zipWith]
  cases first.coefficients.tail[k]? with
  | none => exact zeroOrNaN_zero
  | some t => exact zeroOrNaN_neg_mul_one_add t

theorem isFinite_multiple {reciprocal : Float}
    (h : (first.reduce reciprocal e).value.isFinite = true) :
    (e.lead * reciprocal).isFinite = true := (isFinite_of_mul (isFinite_of_add h).1).2

theorem not_twin (hchosen : Chosen system first others) (hlength : system.length = n + 1)
    {d : List Float} (h : solveSized (n + 1) system = some d) (hd : ∀ a ∈ d, a.isFinite = true)
    (htrip : RoundTrips first.lead) : ¬ ∃ e ∈ others, e.coefficients = first.coefficients := by
  rintro ⟨e, he, htwin⟩
  obtain ⟨-, known, hknown, rfl⟩ := hchosen.eq_some h
  have hrest := (List.forall_mem_cons.1 hd).2
  have hreduced := hchosen.length_eliminate hlength
  have hmem : first.reduce (1 / first.lead) e ∈ first.eliminate others := List.mem_map_of_mem he
  have hmultiple := isFinite_multiple (isFinite_values hreduced hknown hrest _ hmem)
  have hlead : e.lead = first.lead := by simp only [Equation.lead, htwin]
  rw [hlead] at hmultiple
  exact not_missing_equation hreduced hknown hrest _ hmem
    (zeroOrNaN_reduce_twin htwin (htrip hmultiple))

theorem not_repeats (hlength : system.length = n) {d : List Float}
    (h : solveSized n system = some d) (hd : ∀ a ∈ d, a.isFinite = true)
    (htrips : ∀ c ∈ choices n system, (∃ e ∈ c.2, e.coefficients = c.1.coefficients) →
      RoundTrips c.1.lead) : ¬ Repeats system := by
  -- a repetition is passed on from stage to stage until one of the two equations is chosen
  induction n generalizing system d with
  | zero =>
    obtain rfl := List.length_eq_zero_iff.1 hlength
    simp [Repeats]
  | succ n ih =>
    obtain ⟨first, others, hchosen⟩ := exists_chosen hlength
    obtain ⟨hlead, known, hknown, hsolution⟩ := hchosen.eq_some h
    have hrest : ∀ a ∈ known, a.isFinite = true := fun a ha =>
      hd a (hsolution ▸ List.mem_cons_of_mem _ ha)
    simp only [hchosen.choices_eq, hlead, Bool.false_eq_true, if_false, List.forall_mem_cons]
      at htrips
    intro hrepeats
    rcases hchosen.repeats hrepeats with htwin | hlater
    · exact not_twin hchosen hlength h hd (htrips.1 htwin) htwin
    · exact ih (hchosen.length_eliminate hlength) hknown hrest htrips.2 hlater

end Repeats

section Order

variable {n : Nat} {system system' others others' : List (Equation Float)}
  {first first' : Equation Float}

theorem lead_pivot (top : Equation Float) (rest : List (Equation Float)) :
    (pivot top rest).1.lead = (rest.map Equation.lead).foldl
      (fun best a => if Magnitude.exceeds a best then a else best) top.lead := by
  have hplace := strongest_spec id top.lead (rest.map Equation.lead)
  rw [List.map_id] at hplace
  refine Option.some.inj (Eq.trans ?_ hplace)
  unfold pivot
  split
  · next hfirst =>
    rw [id, hfirst]
    rfl
  · next place hlater =>
    rw [id, hlater, List.getElem?_cons_succ, List.getElem?_map] at hplace ⊢
    rw [List.getD_eq_getElem?_getD]
    cases hequation : rest[place]? with
    | none =>
      rw [hequation] at hplace
      cases hplace
    | some e => rfl

theorem Chosen.lead_strongest (h : Chosen system first others)
    (hnumbers : ∀ e ∈ system, e.lead.isNaN = false) :
    ∀ e ∈ system, e.lead.abs ≤ first.lead.abs := by
  obtain ⟨top, rest, rfl, hpivot⟩ := h
  have hlead := lead_pivot top rest
  have hscan :
      first.lead.abs = (magnitudes (rest.map Equation.lead)).foldl larger top.lead.abs := by
    rw [hpivot] at hlead
    rw [hlead, ← foldl_larger_eq]
    refine (List.foldl_hom Float.abs fun best a => ?_).symm
    simp only [larger, Magnitude.exceeds, decide_eq_true_eq]
    split <;> rfl
  obtain ⟨htop, hrest⟩ := List.forall_mem_cons.1 hnumbers
  have hmagnitudes := not_isNaN_magnitudes (v := rest.map Equation.lead) (by simpa using hrest)
  obtain ⟨hstart, hall⟩ := le_foldl_larger ((isNaN_abs _).trans htop) hmagnitudes
  rw [← hscan] at hstart hall
  refine List.forall_mem_cons.2 ⟨hstart, fun e he => hall _ ?_⟩
  exact List.mem_map_of_mem (List.mem_map_of_mem he)

structure Decisive (candidates : List Float) : Prop where
  numbers : ∀ a ∈ candidates, a.isNaN = false
  unique : ∃ a others, candidates.Perm (a :: others) ∧ ∀ b ∈ others, b.abs < a.abs

theorem decisive_iff {candidates : List Float} : Decisive candidates ↔
    (∀ a ∈ candidates, a.isNaN = false) ∧
      ∃ i : Fin candidates.length, ∀ b ∈ candidates.eraseIdx i, b.abs < candidates[i].abs := by
  constructor
  · rintro ⟨hnumbers, a, others, hperm, hless⟩
    obtain ⟨i, hi, rfl⟩ := List.getElem_of_mem (hperm.mem_iff.2 List.mem_cons_self)
    have hothers := (List.getElem_cons_eraseIdx_perm hi).trans hperm
    exact ⟨hnumbers, ⟨i, hi⟩, fun b hb => hless b (hothers.cons_inv.mem_iff.1 hb)⟩
  · rintro ⟨hnumbers, i, hless⟩
    exact ⟨hnumbers, _, _, (List.getElem_cons_eraseIdx_perm i.isLt).symm, hless⟩

instance (candidates : List Float) : Decidable (Decisive candidates) :=
  decidable_of_iff _ decisive_iff.symm

theorem Chosen.exceeds_others (h : Chosen system first others)
    (hdecisive : Decisive ((first :: others).map Equation.lead)) :
    ∀ e ∈ others, e.lead.abs < first.lead.abs := by
  have hnumbers : ∀ e ∈ system, e.lead.isNaN = false := fun e he =>
    hdecisive.numbers _ (List.mem_map_of_mem (h.perm.mem_iff.2 he))
  have hstrongest := h.lead_strongest hnumbers
  obtain ⟨a, weaker, hperm, hweaker⟩ := hdecisive.unique
  rw [List.map_cons] at hperm
  have ha : a ∈ first.lead :: others.map Equation.lead := hperm.mem_iff.2 List.mem_cons_self
  rcases List.mem_cons.1 ha with rfl | hother
  · intro e he
    exact hweaker _ (hperm.cons_inv.mem_iff.1 (List.mem_map_of_mem he))
  · obtain ⟨e, he, rfl⟩ := List.mem_map.1 hother
    have hle := hstrongest e (h.mem_iff.2 (Or.inr he))
    have hfirst : first.lead ∈ e.lead :: weaker := hperm.mem_iff.1 List.mem_cons_self
    rcases List.mem_cons.1 hfirst with hsame | hless
    · rw [hsame] at hperm ⊢
      intro e' he'
      exact hweaker _ (hperm.cons_inv.mem_iff.1 (List.mem_map_of_mem he'))
    · exact absurd (hweaker _ hless) (not_lt_of_le hle)

theorem Chosen.eq_of_perm (h : Chosen system first others) (h' : Chosen system' first' others')
    (hperm : system.Perm system') (hdecisive : Decisive ((first :: others).map Equation.lead)) :
    first' = first ∧ others.Perm others' := by
  have hall : (first :: others).Perm (first' :: others') := h.perm.trans (hperm.trans h'.perm.symm)
  have hdecisive' : Decisive ((first' :: others').map Equation.lead) := by
    obtain ⟨a, weaker, hweaker⟩ := hdecisive.unique
    have hleads := hall.map Equation.lead
    exact ⟨fun b hb => hdecisive.numbers b (hleads.mem_iff.2 hb), a, weaker,
      hleads.symm.trans hweaker.1, hweaker.2⟩
  have hfirst : first' = first := by
    rcases List.mem_cons.1 (hall.mem_iff.2 List.mem_cons_self) with hsame | hother
    · exact hsame
    rcases List.mem_cons.1 (hall.mem_iff.1 List.mem_cons_self) with hsame | hother'
    · exact hsame.symm
    · have hless := h.exceeds_others hdecisive first' hother
      have hmore := h'.exceeds_others hdecisive' first hother'
      exact absurd hless (not_lt_of_le (le_of_lt hmore))
  subst hfirst
  exact ⟨rfl, hall.cons_inv⟩

/-- Reordered equations have the same solution, bit for bit, if no pivot is in doubt. -/
theorem solveSized_perm (hlength : system.length = n) (hperm : system.Perm system')
    (hdecisive : ∀ c ∈ choices n system, Decisive ((c.1 :: c.2).map Equation.lead)) :
    solveSized n system' = solveSized n system := by
  -- the same equation is chosen first, and the others are reduced one by one, in whatever order
  induction n generalizing system system' with
  | zero =>
    obtain rfl := List.length_eq_zero_iff.1 hlength
    obtain rfl := hperm.nil_eq
    rfl
  | succ n ih =>
    obtain ⟨first, others, hchosen⟩ := exists_chosen hlength
    obtain ⟨first', others', hchosen'⟩ := exists_chosen (hperm.length_eq.symm.trans hlength)
    rw [hchosen.choices_eq, List.forall_mem_cons] at hdecisive
    obtain ⟨rfl, hothers⟩ := hchosen.eq_of_perm hchosen' hperm hdecisive.1
    rw [hchosen.solveSized_eq, hchosen'.solveSized_eq]
    by_cases hzero : Magnitude.isZero first'.lead = true
    · rw [if_pos hzero, if_pos hzero]
    · rw [if_neg hzero] at hdecisive
      have hreduced : (first'.eliminate others).Perm (first'.eliminate others') := hothers.map _
      rw [if_neg hzero, if_neg hzero, ih (hchosen.length_eliminate hlength) hreduced hdecisive.2]

end Order

end RootFinding.Linear
