import Mathlib.Data.Fin.Tuple.Basic
import Mathlib.Data.List.FinRange
import Mathlib.Logic.Equiv.Basic
import RootFinding.Proofs.Linear.Equation

/-!
# Elimination in place

The same elimination in one square array beside one column of right-hand sides. Each stage exchanges
two whole rows, packed multiples included, writes the multiples of its pivot row where the zeros
arise, and leaves a column without a pivot as it is. The right-hand sides are reduced only when the
array is factored, from the first row down, and the unknowns are then found from the last one up.

Reducing the right-hand sides of one stage commutes with every later stage of the factoring, so the
two passes may be made at once. A later stage touches neither the rows above it nor the columns
before it, so it does to the array without its first row and column what an earlier stage did to the
whole. Hence the array is solved as the list of its equations is, by the same operations in the same
order. A column without a pivot leaves a zero on the diagonal, and that is found on the way back.
-/

namespace RootFinding.Linear

@[ext] structure Tableau (n : Nat) (α : Type) where
  entry : Fin n → Fin n → α
  value : Fin n → α

class LawfulMagnitude (α : Type) [Magnitude α] : Prop where
  isZero_of_exceeds {a b : α} : Magnitude.exceeds a b = true → Magnitude.isZero a = false

theorem strongest_spec {α ι : Type} [Magnitude α] (f : ι → α) (p : ι)
    (places : List ι) :
    (p :: places)[strongest (f p) (places.map f)]? =
      some (places.foldl (fun p r => if Magnitude.exceeds (f r) (f p) then r else p) p) := by
  induction places generalizing p with
  | nil => rfl
  | cons r places ih =>
    rw [List.map_cons, strongest, List.foldl_cons]
    split
    · exact ih r
    · have hplace := ih p
      cases hstrongest : strongest (f p) (places.map f) with
      | zero =>
        rw [hstrongest] at hplace
        exact hplace
      | succ place =>
        rw [hstrongest] at hplace
        exact hplace

namespace Tableau

variable {α : Type} {n : Nat}

def swap (t : Tableau n α) (i p : Fin n) : Tableau n α where
  entry r := t.entry (Equiv.swap i p r)
  value r := t.value (Equiv.swap i p r)

def tail (t : Tableau (n + 1) α) : Tableau n α where
  entry r c := t.entry r.succ c.succ
  value r := t.value r.succ

section Stages

variable [Magnitude α]

/-- The better row for a pivot in the column: `p` unless `r` is below the diagonal and stronger. -/
def stronger (t : Tableau n α) (k p r : Fin n) : Fin n :=
  if k < r ∧ Magnitude.exceeds (t.entry r k) (t.entry p k) then r else p

def pivotRow (t : Tableau n α) (k : Fin n) : Fin n := (List.finRange n).foldl (t.stronger k) k

variable [Add α] [Mul α] [Neg α] [Div α] [OfNat α 1]

/-- Puts the multiples of a row into its column below it, and takes them from the rows there. -/
def pack (t : Tableau n α) (k : Fin n) : Tableau n α where
  entry r c :=
    let multiple := t.entry r k * (1 / t.entry k k)
    if k < r ∧ k ≤ c then
      if c = k then multiple else -t.entry k c * multiple + t.entry r c
    else t.entry r c
  value := t.value

def factor (t : Tableau n α) (k : Fin n) : Tableau n α :=
  if Magnitude.isZero (t.entry (t.pivotRow k) k) then t else (t.swap k (t.pivotRow k)).pack k

def forward (t : Tableau n α) (k : Fin n) : Tableau n α where
  entry := t.entry
  value r := if k < r then -t.value k * t.entry r k + t.value r else t.value r

def resolve (t : Tableau n α) (k : Fin n) (x : Fin n → α) : Fin n → α := fun r =>
  let known := x k / t.entry k k
  if r = k then known else if r < k then -known * t.entry r k + x r else x r

def backward (t : Tableau n α) (k : Fin n) (x : Fin n → α) : Option (Fin n → α) :=
  if Magnitude.isZero (t.entry k k) then none else some (t.resolve k x)

def factored (t : Tableau n α) : Tableau n α := (List.finRange n).foldl factor t

-- The last stage has no row below it and changes nothing.
def forwarded (t : Tableau n α) : Tableau n α := (List.finRange n).foldl forward t

def solve (t : Tableau n α) : Option (Fin n → α) :=
  let u := t.factored.forwarded
  (List.finRange n).foldrM u.backward u.value

end Stages

section Pivot

variable [Magnitude α]

theorem pivotRow_spec (t : Tableau n α) (k : Fin n) :
    t.pivotRow k = k ∨ k < t.pivotRow k ∧
      ∃ q, Magnitude.exceeds (t.entry (t.pivotRow k) k) (t.entry q k) = true := by
  refine List.foldlRecOn (motive := fun p => p = k ∨ k < p ∧
    ∃ q, Magnitude.exceeds (t.entry p k) (t.entry q k) = true) _ _ (Or.inl rfl) ?_
  intro p hp r _
  rw [stronger]
  split
  · next h => exact Or.inr ⟨h.1, p, h.2⟩
  · exact hp

theorem le_pivotRow (t : Tableau n α) (k : Fin n) : k ≤ t.pivotRow k := by
  rcases t.pivotRow_spec k with h | ⟨h, -⟩
  · exact h.ge
  · exact h.le

theorem pivotRow_eq_of_isZero [LawfulMagnitude α] (t : Tableau n α) (k : Fin n)
    (h : Magnitude.isZero (t.entry (t.pivotRow k) k) = true) : t.pivotRow k = k := by
  rcases t.pivotRow_spec k with hself | ⟨-, q, hexceeds⟩
  · exact hself
  · have hnonzero := LawfulMagnitude.isZero_of_exceeds hexceeds
    rw [hnonzero] at h
    cases h

theorem pivotRow_succ (t : Tableau (n + 1) α) (k : Fin n) :
    t.pivotRow k.succ = (t.tail.pivotRow k).succ := by
  have hfirst : t.stronger k.succ k.succ 0 = k.succ := if_neg fun h => Fin.not_lt_zero _ h.1
  rw [pivotRow, List.finRange_succ, List.foldl_cons, List.foldl_map, hfirst]
  refine List.foldl_hom Fin.succ fun p r => ?_
  rw [stronger, stronger, apply_ite Fin.succ]
  exact if_congr (and_congr_left' Fin.succ_lt_succ_iff) rfl rfl

theorem pivotRow_zero (t : Tableau (n + 1) α) :
    (t.pivotRow 0).val = strongest (t.entry 0 0) (List.ofFn fun r : Fin n => t.entry r.succ 0) := by
  have hscan : t.pivotRow 0 = ((List.finRange n).map Fin.succ).foldl
      (fun p r => if Magnitude.exceeds (t.entry r 0) (t.entry p 0) then r else p) 0 := by
    have hfirst : t.stronger 0 0 0 = 0 := ite_self _
    rw [pivotRow, List.finRange_succ, List.foldl_cons, hfirst]
    refine List.foldl_ext _ _ _ fun p r hr => ?_
    obtain ⟨r, -, rfl⟩ := List.mem_map.1 hr
    simp only [stronger, Fin.succ_pos, true_and]
  have hplace := strongest_spec (fun r => t.entry r 0) 0 ((List.finRange n).map Fin.succ)
  rw [← hscan, ← List.finRange_succ, List.map_map] at hplace
  obtain ⟨_, hplace⟩ := List.getElem?_eq_some_iff.1 hplace
  rw [← hplace, List.getElem_finRange, List.ofFn_eq_map]
  rfl

end Pivot

section Fusion

variable [Add α] [Mul α] [Neg α]

theorem forward_swap (t : Tableau n α) {j i p : Fin n} (hi : j < i) (hp : j < p) :
    (t.swap i p).forward j = (t.forward j).swap i p := by
  have hj : Equiv.swap i p j = j := Equiv.swap_apply_of_ne_of_ne hi.ne hp.ne
  have hbelow : ∀ r, j < r ↔ j < Equiv.swap i p r := by
    intro r
    rw [Equiv.swap_apply_def]
    split_ifs <;> simp_all
  ext r
  · rfl
  · simp only [forward, swap, hj, ← hbelow]

variable [Div α] [OfNat α 1]

theorem forward_pack (t : Tableau n α) {j k : Fin n} (h : j < k) :
    (t.pack k).forward j = (t.forward j).pack k := by
  ext r
  · rfl
  · simp [forward, pack, h.not_ge]

variable [Magnitude α]

theorem forward_factor (t : Tableau n α) {j k : Fin n} (h : j < k) :
    (t.factor k).forward j = (t.forward j).factor k := by
  have hpivot : (t.forward j).pivotRow k = t.pivotRow k := rfl
  have hentry : (t.forward j).entry = t.entry := rfl
  rw [factor, factor, hpivot, hentry]
  split
  · rfl
  · rw [forward_pack _ h, forward_swap t h (h.trans_le (t.le_pivotRow k))]

theorem forward_foldl_factor (t : Tableau n α) {j : Fin n} {stages : List (Fin n)}
    (h : ∀ k ∈ stages, j < k) :
    (stages.foldl factor t).forward j = stages.foldl factor (t.forward j) := by
  induction stages generalizing t with
  | nil => rfl
  | cons k stages ih =>
    rw [List.foldl_cons, List.foldl_cons, ih _ fun k' hk' => h k' (List.mem_cons_of_mem _ hk'),
      forward_factor t (h k List.mem_cons_self)]

def eliminate (t : Tableau n α) (k : Fin n) : Tableau n α := (t.factor k).forward k

def eliminated (t : Tableau n α) : Tableau n α := (List.finRange n).foldl eliminate t

theorem forwarded_factored (t : Tableau n α) : t.factored.forwarded = t.eliminated := by
  suffices h : ∀ (stages : List (Fin n)) (t : Tableau n α), stages.Pairwise (· < ·) →
      stages.foldl forward (stages.foldl factor t) = stages.foldl eliminate t from
    h _ t (List.pairwise_lt_finRange n)
  intro stages
  induction stages with
  | nil => exact fun t _ => rfl
  | cons k stages ih =>
    intro t hsorted
    obtain ⟨hbelow, hsorted⟩ := List.pairwise_cons.1 hsorted
    simp only [List.foldl_cons]
    rw [forward_foldl_factor _ hbelow, ih _ hsorted]
    rfl

end Fusion

theorem tail_swap (t : Tableau (n + 1) α) (i p : Fin n) :
    (t.swap i.succ p.succ).tail = t.tail.swap i p := by
  have hsucc := (Fin.succ_injective n).swap_apply i p
  ext r
  · simp only [tail, swap, hsucc]
  · simp only [tail, swap, hsucc]

theorem swap_succ_zero (i p : Fin n) : Equiv.swap i.succ p.succ 0 = 0 :=
  Equiv.swap_apply_of_ne_of_ne (Fin.succ_ne_zero i).symm (Fin.succ_ne_zero p).symm

def SameTop (t u : Tableau (n + 1) α) : Prop := t.entry 0 = u.entry 0 ∧ t.value 0 = u.value 0

section Tail

variable [Add α] [Mul α] [Neg α] [Div α]

def remainder (t : Tableau (n + 1) α) (later : List (Fin n)) (known : Fin n → α) : α :=
  later.foldr (fun j sum => -known j * t.entry 0 j.succ + sum) (t.value 0)

def prepend (t : Tableau (n + 1) α) (known : Fin n → α) : Fin (n + 1) → α :=
  Fin.cons (t.remainder (List.finRange n) known / t.entry 0 0) known

theorem SameTop.prepend_eq {t u : Tableau (n + 1) α} (h : SameTop t u) :
    t.prepend = u.prepend := by
  funext known
  rw [prepend, prepend, remainder, remainder, h.1, h.2]

theorem resolve_zero (t : Tableau (n + 1) α) (known : Fin n → α) :
    t.resolve 0 (Fin.cons (t.remainder (List.finRange n) known) known) = t.prepend known := by
  funext r
  refine Fin.cases ?_ (fun r => ?_) r
  · simp [resolve, prepend]
  · simp [resolve, prepend]

theorem resolve_succ (t : Tableau (n + 1) α) {k : Fin n} {later : List (Fin n)}
    (h : ∀ j ∈ later, k < j) (x : Fin n → α) :
    t.resolve k.succ (Fin.cons (t.remainder later x) x) =
      Fin.cons (t.remainder (k :: later) (t.tail.resolve k x)) (t.tail.resolve k x) := by
  have hknown : t.tail.resolve k x k = x k / t.entry k.succ k.succ := if_pos rfl
  -- Nothing found before is changed by the terms of one more unknown.
  have hlater : t.remainder later (t.tail.resolve k x) = t.remainder later x := by
    refine List.foldr_ext _ _ _ fun j hj sum => ?_
    simp [resolve, (h j hj).ne', (h j hj).not_gt]
  have htop : t.remainder (k :: later) (t.tail.resolve k x) =
      -t.tail.resolve k x k * t.entry 0 k.succ + t.remainder later (t.tail.resolve k x) := rfl
  funext r
  refine Fin.cases ?_ (fun r => ?_) r
  · rw [Fin.cons_zero, htop, hknown, hlater]
    simp [resolve, (Fin.succ_ne_zero k).symm]
  · simp [resolve, tail]

theorem foldrM_backward_succ [Magnitude α] (t : Tableau (n + 1) α) {later : List (Fin n)}
    (h : later.Pairwise (· < ·)) :
    (later.map Fin.succ).foldrM t.backward t.value =
      (later.foldrM t.tail.backward t.tail.value).map fun known =>
        Fin.cons (t.remainder later known) known := by
  induction later with
  | nil => exact congrArg some (Fin.cons_self_tail t.value).symm
  | cons k later ih =>
    obtain ⟨hbelow, hsorted⟩ := List.pairwise_cons.1 h
    have hentry : t.tail.entry k k = t.entry k.succ k.succ := rfl
    rw [List.map_cons, List.foldrM_cons, List.foldrM_cons, ih hsorted]
    cases later.foldrM t.tail.backward t.tail.value with
    | none => rfl
    | some known =>
      simp only [Option.map_some, Option.bind_eq_bind, Option.bind_some, backward, hentry,
        resolve_succ t hbelow]
      split <;> rfl

variable [OfNat α 1]

theorem tail_pack (t : Tableau (n + 1) α) (k : Fin n) : (t.pack k.succ).tail = t.tail.pack k := by
  ext r
  · simp only [tail, pack, Fin.succ_lt_succ_iff, Fin.succ_le_succ_iff, Fin.succ_inj]
  · rfl

variable [Magnitude α]

theorem tail_eliminate (t : Tableau (n + 1) α) (k : Fin n) :
    (t.eliminate k.succ).tail = t.tail.eliminate k := by
  have hfactor : (t.factor k.succ).tail = t.tail.factor k := by
    rw [factor, factor, pivotRow_succ, apply_ite tail, tail_pack, tail_swap]
    rfl
  rw [eliminate, eliminate, ← hfactor]
  ext r
  · rfl
  · simp only [tail, forward, Fin.succ_lt_succ_iff]

theorem sameTop_eliminate (t : Tableau (n + 1) α) (k : Fin n) :
    SameTop (t.eliminate k.succ) t := by
  have hfactor : SameTop (t.factor k.succ) t := by
    rw [factor, pivotRow_succ]
    split
    · exact ⟨rfl, rfl⟩
    · simp [SameTop, pack, swap, swap_succ_zero]
  refine ⟨hfactor.1, Eq.trans ?_ hfactor.2⟩
  simp only [eliminate, forward, Fin.not_lt_zero, if_false]

theorem tail_eliminated (t : Tableau (n + 1) α) :
    t.eliminated.tail = (t.eliminate 0).tail.eliminated := by
  rw [eliminated, List.finRange_succ, List.foldl_cons, List.foldl_map]
  exact (List.foldl_hom tail fun t k => (tail_eliminate t k).symm).symm

theorem sameTop_eliminated (t : Tableau (n + 1) α) : SameTop t.eliminated (t.eliminate 0) := by
  rw [eliminated, List.finRange_succ, List.foldl_cons, List.foldl_map]
  refine List.foldlRecOn (motive := fun u => SameTop u (t.eliminate 0)) _ _ ⟨rfl, rfl⟩ ?_
  intro u hu k _
  have hstage := sameTop_eliminate u k
  exact ⟨hstage.1.trans hu.1, hstage.2.trans hu.2⟩

end Tail

section Recursion

variable [Magnitude α]

def pivoted (t : Tableau (n + 1) α) : Tableau (n + 1) α := t.swap 0 (t.pivotRow 0)

theorem lead_pivoted (t : Tableau (n + 1) α) :
    t.pivoted.entry 0 0 = t.entry (t.pivotRow 0) 0 :=
  congrFun (congrArg t.entry (Equiv.swap_apply_left 0 (t.pivotRow 0))) 0

variable [Add α] [Mul α] [Neg α] [Div α] [OfNat α 1]

def rest (t : Tableau (n + 1) α) : Tableau n α := ((t.pack 0).forward 0).tail

theorem solve_eq_tail (t : Tableau (n + 1) α) :
    t.solve =
      if Magnitude.isZero ((t.eliminate 0).entry 0 0) then none
      else (t.eliminate 0).tail.solve.map (t.eliminate 0).prepend := by
  have htop := t.sameTop_eliminated
  have htail : (t.eliminate 0).tail.solve =
      (List.finRange n).foldrM t.eliminated.tail.backward t.eliminated.tail.value := by
    rw [solve, forwarded_factored, tail_eliminated]
  rw [solve, forwarded_factored, List.finRange_succ, List.foldrM_cons,
    foldrM_backward_succ _ (List.pairwise_lt_finRange n), htail, ← htop.prepend_eq, ← htop.1]
  cases (List.finRange n).foldrM t.eliminated.tail.backward t.eliminated.tail.value with
  | none => split <;> rfl
  | some known =>
    simp only [Option.map_some, Option.bind_eq_bind, Option.bind_some, backward, resolve_zero]

theorem solve_succ [LawfulMagnitude α] (t : Tableau (n + 1) α) :
    t.solve =
      if Magnitude.isZero (t.pivoted.entry 0 0) then none
      else t.pivoted.rest.solve.map t.pivoted.prepend := by
  rw [solve_eq_tail, lead_pivoted]
  by_cases hzero : Magnitude.isZero (t.entry (t.pivotRow 0) 0) = true
  -- No entry of the column exceeds another, so the zero already stands on the diagonal.
  · have hself := t.pivotRow_eq_of_isZero 0 hzero
    have hstays : (t.eliminate 0).entry 0 0 = t.entry 0 0 := by
      rw [eliminate, factor, if_pos hzero]
      rfl
    rw [hself] at hzero
    rw [hself, hstays, if_pos hzero, if_pos hzero]
  · have hstep : t.eliminate 0 = (t.pivoted.pack 0).forward 0 := by
      rw [eliminate, factor, if_neg hzero, pivoted]
    have htop : SameTop (t.eliminate 0) t.pivoted := by
      rw [hstep]
      simp [SameTop, pack, forward]
    rw [htop.prepend_eq, htop.1, lead_pivoted, hstep]
    rfl

end Recursion

def row (t : Tableau n α) (r : Fin n) : Equation α := ⟨List.ofFn (t.entry r), t.value r⟩

def equations (t : Tableau n α) : List (Equation α) := List.ofFn t.row

theorem equations_succ (t : Tableau (n + 1) α) :
    t.equations = t.row 0 :: List.ofFn fun r : Fin n => t.row r.succ := List.ofFn_succ

theorem row_swap (t : Tableau n α) (i p r : Fin n) :
    (t.swap i p).row r = t.row (Equiv.swap i p r) := rfl

theorem tail_row (t : Tableau (n + 1) α) (r : Fin (n + 1)) :
    (t.row r).coefficients.tail = List.ofFn fun c : Fin n => t.entry r c.succ := by
  rw [row, List.ofFn_succ, List.tail_cons]

theorem zipWith_ofFn {β γ δ : Type} (g : β → γ → δ) (a : Fin n → β) (b : Fin n → γ) :
    List.zipWith g (List.ofFn a) (List.ofFn b) = List.ofFn fun i => g (a i) (b i) := by
  apply List.ext_getElem <;> simp

section Equations

variable [OfNat α 0]

theorem lead_row (t : Tableau (n + 1) α) (r : Fin (n + 1)) : (t.row r).lead = t.entry r 0 := by
  rw [row, Equation.lead, List.ofFn_succ]
  rfl

theorem chosen_pivoted [Magnitude α] (t : Tableau (n + 1) α) :
    Chosen t.equations (t.pivoted.row 0) (List.ofFn fun r : Fin n => t.pivoted.row r.succ) := by
  refine ⟨_, _, t.equations_succ, ?_⟩
  have hstrongest : strongest (t.row 0).lead
      ((List.ofFn fun r : Fin n => t.row r.succ).map Equation.lead) = (t.pivotRow 0).val := by
    simp only [List.map_ofFn, Function.comp_def, lead_row, pivotRow_zero]
  rw [pivot, hstrongest, pivoted]
  refine Fin.cases ?_ (fun p => ?_) (t.pivotRow 0)
  · simp [row_swap]
  · have htop : (t.swap 0 p.succ).row 0 = t.row p.succ := by
      rw [row_swap, Equiv.swap_apply_left]
    have hbelow : (List.ofFn fun r : Fin n => t.row r.succ).set p (t.row 0) =
        List.ofFn fun r : Fin n => (t.swap 0 p.succ).row r.succ := by
      refine List.ext_getElem (by simp) fun i hi hi' => ?_
      rw [List.length_ofFn] at hi'
      simp only [List.getElem_set, List.getElem_ofFn, row_swap]
      by_cases hp : p.val = i
      · obtain rfl : p = ⟨i, hi'⟩ := Fin.ext hp
        rw [if_pos rfl, Equiv.swap_apply_right]
      · have hne : (⟨i, hi'⟩ : Fin n) ≠ p := fun h => hp (congrArg Fin.val h).symm
        rw [if_neg hp, Equiv.swap_apply_of_ne_of_ne (Fin.succ_ne_zero _)
          fun h => hne (Fin.succ_injective n h)]
    simp [htop, hbelow]

variable [Add α] [Mul α] [Neg α] [Div α]

theorem resolve_row (t : Tableau (n + 1) α) (known : Fin n → α) :
    (t.row 0).resolve (List.ofFn known) :: List.ofFn known = List.ofFn (t.prepend known) := by
  have hfirst : (t.row 0).resolve (List.ofFn known) =
      t.remainder (List.finRange n) known / t.entry 0 0 := by
    rw [Equation.resolve, lead_row, tail_row, List.zip, zipWith_ofFn, List.ofFn_eq_map,
      List.foldr_map]
    rfl
  rw [hfirst, prepend, List.ofFn_cons]

variable [OfNat α 1]

theorem eliminate_rows (t : Tableau (n + 1) α) :
    (t.row 0).eliminate (List.ofFn fun r : Fin n => t.row r.succ) = t.rest.equations := by
  rw [Equation.eliminate, List.map_ofFn, equations]
  refine congrArg List.ofFn (funext fun r => ?_)
  simp only [Function.comp_apply, Equation.reduce, lead_row, tail_row, zipWith_ofFn]
  simp [row, rest, tail, pack, forward]

theorem solveSized_equations [Magnitude α] [LawfulMagnitude α] (t : Tableau n α) :
    solveSized n t.equations = t.solve.map List.ofFn := by
  induction n with
  | zero => rfl
  | succ n ih =>
    rw [t.chosen_pivoted.solveSized_eq, eliminate_rows, ih, solve_succ, lead_row]
    split
    · rfl
    · rw [Option.map_map, Option.map_map]
      exact congrArg (Option.map · _) (funext fun known => t.pivoted.resolve_row known)

end Equations

end Tableau

end RootFinding.Linear
