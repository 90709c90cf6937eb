import RootFinding.Proofs.Newton.Refusal
import RootFinding.Proofs.Newton.Truncation

/-!
# The form of a stored history

A stored history of `N` iterations has the snapshots `0` to `N`. Only the first has no step, and the
length of every other step has no sign. No snapshot but the last one is of a point at which the
iteration could have come to rest. Its residual is finite as well: an infinity or a NaN among the
right-hand sides would have been left in the solution, and such a solution is no step.
-/

namespace RootFinding.Newton

variable {σ ε : Type}

namespace Point

theorem Follows.isFinite_residual {f : System σ ε} {p q : Point} {s s' : σ}
    (h : Follows f p s q s') {n : Nat} (hp : p.Square n) :
    p.residualNorm.isFinite = true := by
  refine isFinite_infNorm (isFinite_of_direction ?_ h.direction h.finite)
  rw [DenseMatrix.length_toRows, hp.rows, hp.length_residual]

def Paced (p : Point) : Prop :=
  if p.index = 0 then p.step.length = notANumber else Binary64.Unsigned p.step.length

theorem Starts.paced {f : System σ ε} {s s' : σ} {x : List Float} {p : Point}
    (h : Starts f s x p s') : p.Paced := by
  rw [Paced, if_pos h.index]
  exact h.length

theorem Follows.paced {f : System σ ε} {p q : Point} {s s' : σ} (h : Follows f p s q s') :
    q.Paced := by
  rw [Paced, if_neg (by simp [h.index]), h.length]
  exact unsigned_stepLength h.finite

theorem Paced.isNaN_iff {p : Point} (h : p.Paced) :
    p.step.length.isNaN = true ↔ p.index = 0 := by
  unfold Paced at h
  split at h
  · next hzero =>
    rw [h]
    exact iff_of_true rfl hzero
  · next hpos =>
    rw [h.isNaN]
    simpa using hpos

theorem Paced.signBit {p : Point} (h : p.Paced) (hpos : p.index ≠ 0) :
    Binary64.signBit p.step.length = false := by
  rw [Paced, if_neg hpos] at h
  exact h.signBit

theorem not_lt_of_moves {p : Point} {t : Tolerances} (h : p.rests t = false) :
    ¬ p.residualNorm < t.residual := by
  rw [rests, Bool.or_eq_false_iff, Verdict.converged, Bool.or_eq_false_iff] at h
  have hsmall := h.1.2
  rw [smallResidual_verdict] at hsmall
  exact of_decide_eq_false hsmall

end Point

theorem paced_of_isChain {f : System σ ε} {p : Point} {points : List Point}
    (h : List.IsChain (Point.Linked f) (p :: points)) (hp : p.Paced) :
    ∀ q ∈ p :: points, q.Paced :=
  h.induction Point.Paced _ (fun _ _ ⟨_, _, hnext⟩ _ => hnext.paced) fun _ => hp

theorem moves_of_trail {f : System σ ε} {t : Tolerances} {n : Nat} {s : σ} {p q : Point} {k : Nat}
    (hk : k < (trail f t n s p).points.length)
    (hq : (p :: (trail f t n s p).points)[k]? = some q) : q.rests t = false := by
  fun_induction trail f t n s p generalizing k with
  | case1 s p => cases hk
  | case2 n s p hrest => cases hk
  | case3 n s p hmoves e s' hnext => cases hk
  | case4 n s p hmoves next s' hnext ih =>
    cases k with
    | zero =>
      obtain rfl : p = q := Option.some.inj hq
      exact eq_false_of_ne_true hmoves
    | succ k => exact ih (Nat.lt_of_succ_lt_succ hk) hq

theorem isFinite_of_isChain {f : System σ ε} {p q : Point} {points : List Point} {n k : Nat}
    (h : List.IsChain (Point.Linked f) (p :: points)) (hp : p.Square n) (hk : k < points.length)
    (hq : (p :: points)[k]? = some q) : q.residualNorm.isFinite = true := by
  have hsquare := square_of_isChain h hp q (List.mem_of_getElem? hq)
  obtain ⟨hlt, rfl⟩ := List.getElem?_eq_some_iff.1 hq
  obtain ⟨s, s', hnext⟩ := List.isChain_iff_getElem.1 h k (by simpa using hk)
  exact hnext.isFinite_residual hsquare

structure Recorded (o : Settings) (r : Summary) (k : Nat) (shot : Snapshot) : Prop where
  iteration : shot.iteration = k
  isNaN_stepNorm : shot.stepNorm.isNaN = true ↔ k = 0
  signBit_stepNorm : k ≠ 0 → Binary64.signBit shot.stepNorm = false
  residualNorm : shot.residualNorm.isNaN = true ∨ Binary64.signBit shot.residualNorm = false
  isFinite_residualNorm : k < r.iterations → shot.residualNorm.isFinite = true
  not_lt_residualNorm : k < r.iterations → ¬ shot.residualNorm < o.tolerances.residual
  last : k = r.iterations → shot.residualNorm = r.residualNorm
  diagnostics : o.extendedTrace = false → shot.diagnostics = .empty

structure WellKept (o : Settings) (r : Summary) : Prop where
  iterations : r.history.iterations = List.range (r.iterations + 1)
  recorded : ∀ k shot, r.history.get k = .ok shot → Recorded o r k shot

theorem getElem?_of_get {h : History} {k : Nat} {shot : Snapshot} (hk : h.get k = .ok shot) :
    h.snapshots.toList[k]? = some shot := by
  rw [Array.getElem?_toList]
  unfold History.get at hk
  split at hk
  · next hshot => rw [hshot, Except.ok.inj hk]
  · cases hk

theorem index_points {f : System σ ε} {p : Point} {points : List Point}
    (h : List.IsChain (Point.Linked f) (p :: points)) (hp : p.index = 0) :
    (p :: points).map Point.index = List.range (points.length + 1) := by
  apply List.ext_getElem
  · simp
  · intro k hk hk'
    simp only [List.getElem_map, List.getElem_range]
    rw [index_of_isChain h (List.getElem?_eq_getElem (by simpa using hk)), hp, Nat.zero_add]

section Trail

variable {f : System σ ε} {s s' : σ} {start : List Float} {o : Settings} {p q : Point} {k : Nat}

theorem recorded_snapshot (hp : Point.Starts f s start p s') {r : Summary}
    (hr : EndsAt o start ((trail f o.tolerances o.iterations s' p).last p) r)
    (hq : (p :: (trail f o.tolerances o.iterations s' p).points)[k]? = some q) :
    Recorded o r k (q.snapshot o.extendedTrace) := by
  have hchain := isChain_trail f o.tolerances o.iterations s' p
  have hindex : q.index = k := by rw [index_of_isChain hchain hq, hp.index, Nat.zero_add]
  have hpaced := paced_of_isChain hchain hp.paced q (List.mem_of_getElem? hq)
  have hiterations := hr.iterations.trans (length_of_isChain hchain hp.index)
  refine
    { iteration := hindex
      isNaN_stepNorm := hindex ▸ hpaced.isNaN_iff
      signBit_stepNorm := fun hk => hpaced.signBit (hindex ▸ hk)
      residualNorm := ?residualNorm
      isFinite_residualNorm := ?isFinite
      not_lt_residualNorm := ?not_lt
      last := ?last
      diagnostics := ?diagnostics }
  case residualNorm =>
    change q.residualNorm.isNaN = true ∨ Binary64.signBit q.residualNorm = false
    cases hnan : q.residualNorm.isNaN with
    | true => exact Or.inl rfl
    | false => exact Or.inr (unsigned_infNorm hnan).signBit
  case isFinite =>
    intro hk
    exact isFinite_of_isChain hchain hp.square (hiterations ▸ hk) hq
  case not_lt =>
    intro hk
    exact Point.not_lt_of_moves (moves_of_trail (hiterations ▸ hk) hq)
  case last =>
    rintro rfl
    have hlast := getLast?_points p (trail f o.tolerances o.iterations s' p).points
    rw [List.getLast?_eq_getElem?, List.length_cons, Nat.add_sub_cancel, ← hiterations, hq] at hlast
    rw [hr.residualNorm, Trail.last, ← Option.some.inj hlast]
    rfl
  case diagnostics =>
    intro hplain
    rw [hplain]
    rfl

theorem wellKept_of_snapshots (hp : Point.Starts f s start p s') {r : Summary}
    (hr : EndsAt o start ((trail f o.tolerances o.iterations s' p).last p) r)
    (hsnapshots : r.history.snapshots.toList =
      (p :: (trail f o.tolerances o.iterations s' p).points).map
        (Point.snapshot · o.extendedTrace)) :
    WellKept o r where
  iterations := by
    have hchain := isChain_trail f o.tolerances o.iterations s' p
    have hiterations := hr.iterations.trans (length_of_isChain hchain hp.index)
    rw [History.iterations, hsnapshots, List.map_map, hiterations, ← index_points hchain hp.index]
    rfl
  recorded := by
    intro k shot hshot
    have hshot := getElem?_of_get hshot
    rw [hsnapshots, List.getElem?_map] at hshot
    obtain ⟨q, hq, rfl⟩ := Option.map_eq_some_iff.1 hshot
    exact recorded_snapshot hp hr hq

end Trail

theorem history_wellKept {f : System σ ε} {s : σ} {start : List Float} {o : Settings} {sink : Sink}
    {r : Summary} (h : (solve f s start o sink).result = .ok r) :
    (o.storeTrace = false → r.history = .empty) ∧ (o.storeTrace = true → WellKept o r) := by
  obtain ⟨p, s', hstart, -, -, hends, hhistory⟩ := trail_of_solve_ok h
  constructor
  · intro hstore
    have hsnapshots : r.history.snapshots.toList = [] := by
      rw [hhistory]
      exact snapshots_of_not_stored (by simp [hstore]) _ _ _
    exact congrArg History.mk (Array.toList_eq_nil_iff.1 hsnapshots)
  · intro hstore
    refine wellKept_of_snapshots (Point.starts_of_start hstart) hends ?_
    rw [hhistory]
    exact snapshots_of_trail hstore _ _ _

theorem history_diagonalOnCircle_wellKept :
    ∃ r, (solve diagonalOnCircle ((), .none) [1, 0.5] { sevenSteps with storeTrace := true }
        .unlimited).result = .ok r ∧ 1 < r.iterations ∧
      WellKept { sevenSteps with storeTrace := true } r := by
  obtain ⟨r, hr, hsteps⟩ := Outcome.ok_of_any (solve diagonalOnCircle ((), .none) [1, 0.5]
    { sevenSteps with storeTrace := true } .unlimited) (fun r => decide (1 < r.iterations))
    (by decide +kernel)
  exact ⟨r, hr, of_decide_eq_true hsteps, (history_wellKept hr).2 rfl⟩

end RootFinding.Newton
