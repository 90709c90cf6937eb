import Mathlib.Data.List.Perm.Basic
import RootFinding.Linear.Equation

/-!
# One unknown after another

What one step of the elimination does, for any numbers: it chooses one equation, by which the
leading unknown is taken from all the others. These are solved by themselves, and the chosen
equation adds its own unknown to their solution. Choosing only reorders the equations, and a system
with as many unknowns as equations leaves one that has one less of each.
-/

namespace RootFinding.Linear

variable {α : Type} [OfNat α 0]

structure Square (n : Nat) (system : List (Equation α)) : Prop where
  length : system.length = n
  width : ∀ e ∈ system, e.coefficients.length = n

theorem coefficients_eq {e : Equation α} {n : Nat} (h : e.coefficients.length = n + 1) :
    e.coefficients = e.lead :: e.coefficients.tail := by
  obtain ⟨a, rest, hcoefficients⟩ := List.exists_cons_of_length_eq_add_one h
  rw [Equation.lead, hcoefficients]
  rfl

variable [Magnitude α]

theorem perm_pivot (top : Equation α) (rest : List (Equation α)) :
    ((pivot top rest).1 :: (pivot top rest).2).Perm (top :: rest) := by
  unfold pivot
  split
  · exact List.Perm.refl _
  · exact List.getD_set_perm_cons rest _ top

/-- `first` is chosen from the system to be used against the `others`. -/
def Chosen (system : List (Equation α)) (first : Equation α) (others : List (Equation α)) : Prop :=
  ∃ top rest, system = top :: rest ∧ pivot top rest = (first, others)

section Chosen

variable {system others : List (Equation α)} {first : Equation α} {n : Nat}

theorem exists_chosen (h : system.length = n + 1) : ∃ first others, Chosen system first others := by
  obtain ⟨top, rest, rfl⟩ := List.exists_cons_of_length_eq_add_one h
  exact ⟨_, _, top, rest, rfl, rfl⟩

theorem Chosen.perm (h : Chosen system first others) : (first :: others).Perm system := by
  obtain ⟨top, rest, rfl, hpivot⟩ := h
  have hperm := perm_pivot top rest
  rwa [hpivot] at hperm

theorem Chosen.mem_iff (h : Chosen system first others) {e : Equation α} :
    e ∈ system ↔ e = first ∨ e ∈ others := by
  rw [← h.perm.mem_iff, List.mem_cons]

theorem Chosen.length (h : Chosen system first others) (hlength : system.length = n + 1) :
    others.length = n := by
  have hsame := h.perm.length_eq
  rw [List.length_cons] at hsame
  omega

variable [Add α] [Mul α] [Neg α] [Div α] [OfNat α 1]

def Equation.eliminate (first : Equation α) (others : List (Equation α)) : List (Equation α) :=
  others.map (first.reduce (1 / first.lead))

theorem Chosen.solveSized_eq (h : Chosen system first others) (n : Nat) :
    solveSized (n + 1) system =
      if Magnitude.isZero first.lead then none
      else (solveSized n (first.eliminate others)).map fun known =>
        first.resolve known :: known := by
  obtain ⟨top, rest, rfl, hpivot⟩ := h
  rw [solveSized, hpivot]
  rfl

theorem Chosen.eq_some (h : Chosen system first others) {d : List α}
    (hd : solveSized (n + 1) system = some d) :
    Magnitude.isZero first.lead = false ∧
      ∃ known, solveSized n (first.eliminate others) = some known ∧
        d = first.resolve known :: known := by
  rw [h.solveSized_eq] at hd
  split at hd
  · cases hd
  · next hlead =>
    obtain ⟨known, hknown, rfl⟩ := Option.map_eq_some_iff.1 hd
    exact ⟨eq_false_of_ne_true hlead, known, hknown, rfl⟩

theorem Chosen.length_eliminate (h : Chosen system first others) (hlength : system.length = n + 1) :
    (first.eliminate others).length = n := by
  simp [Equation.eliminate, h.length hlength]

theorem Chosen.square (h : Chosen system first others) (hsystem : Square (n + 1) system) :
    Square n (first.eliminate others) := by
  refine ⟨h.length_eliminate hsystem.length, ?_⟩
  intro e' he'
  obtain ⟨e, he, rfl⟩ := List.mem_map.1 he'
  have hfirst := hsystem.width first (h.mem_iff.2 (Or.inl rfl))
  have hwidth := hsystem.width e (h.mem_iff.2 (Or.inr he))
  simp only [Equation.reduce, List.length_zipWith, List.length_tail]
  omega

end Chosen

section Solution

variable [Add α] [Mul α] [Neg α] [Div α] [OfNat α 1]

theorem length_solveSized {n : Nat} {system : List (Equation α)} {d : List α}
    (h : system.length = n) (hd : solveSized n system = some d) : d.length = n := by
  induction n generalizing system d with
  | zero =>
    obtain rfl : d = [] := by simpa [solveSized] using hd.symm
    rfl
  | succ n ih =>
    obtain ⟨first, others, hchosen⟩ := exists_chosen h
    obtain ⟨-, known, hknown, rfl⟩ := hchosen.eq_some hd
    rw [List.length_cons, ih (hchosen.length_eliminate h) hknown]

theorem length_solve {system : List (Equation α)} {d : List α} (hd : solve system = some d) :
    d.length = system.length := length_solveSized rfl hd

end Solution

end RootFinding.Linear
