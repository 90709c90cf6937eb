import RootFinding.Proofs.Linear.Choices
import RootFinding.Proofs.Newton.Evaluations
import RootFinding.Proofs.Newton.Refusal
import RootFinding.Proofs.Newton.StoredHistory
import RootFinding.Proofs.Newton.Transcript
import RootFinding.Proofs.Newton.Valued

/-!
# The order of the equations of a run

Two systems whose residuals and Jacobians have the same rows in another order are solved alike. At
points that differ only in this order the same step is taken, provided that no pivot is in doubt,
and it leads to points that again differ only in this order. The norm of the residual does not
depend on the order either, so both runs test their points alike and stop together.
-/

namespace RootFinding

def Snapshot.norms (shot : Snapshot) : Nat × Float × Float :=
  (shot.iteration, shot.residualNorm, shot.stepNorm)

namespace Newton

variable {σ τ ε : Type}

theorem perm_of_places {α : Type} {n : Nat} (ρ : Equiv.Perm (Fin n)) {l l' : List α}
    (hl : l.length = n) (hl' : l'.length = n)
    (h : ∀ i : Fin n, l'[(i : Nat)]? = l[(ρ i : Nat)]?) : l'.Perm l := by
  subst hl
  have hreordered : l' = List.ofFn (l.get ∘ ρ) := by
    refine List.ext_getElem (by simp [hl']) fun i hi hi' => ?_
    have hplace := h ⟨i, hl' ▸ hi⟩
    rw [List.getElem?_eq_getElem hi, List.getElem?_eq_getElem (ρ ⟨i, hl' ▸ hi⟩).isLt] at hplace
    simpa using hplace
  rw [hreordered]
  exact (ρ.ofFn_comp_perm l.get).trans (by rw [List.ofFn_get])

structure Reordered {n : Nat} (ρ : Equiv.Perm (Fin n)) (a b : List Float × DenseMatrix Float) :
    Prop where
  length : b.1.length = a.1.length
  residual : ∀ i : Fin n, b.1[(i : Nat)]? = a.1[(ρ i : Nat)]?
  rows : b.2.rows = a.2.rows
  cols : b.2.cols = a.2.cols
  entries : ∀ (i : Fin n) (j : Nat), b.2.get? i j = a.2.get? (ρ i) j

inductive Matched {α β : Type} (R : α → β → Prop) : Except ε α → Except ε β → Prop
  | error (e : ε) : Matched R (.error e) (.error e)
  | ok {a : α} {b : β} (h : R a b) : Matched R (.ok a) (.ok b)

namespace Point

def Decided (n : Nat) (p : Point) : Prop :=
  ∀ c ∈ Linear.choices n (equations p.jacobian.toRows p.residual),
    Linear.Decisive ((c.1 :: c.2).map Linear.Equation.lead)

instance (n : Nat) (p : Point) : Decidable (p.Decided n) :=
  inferInstanceAs (Decidable (∀ c ∈ Linear.choices _ _, Linear.Decisive _))

structure SameButOrder {n : Nat} (ρ : Equiv.Perm (Fin n)) (p q : Point) : Prop where
  square : p.Square n
  same : q = { p with residual := q.residual, jacobian := q.jacobian }
  reordered : Reordered ρ (p.residual, p.jacobian) (q.residual, q.jacobian)

section SameButOrder

variable {n : Nat} {ρ : Equiv.Perm (Fin n)} {p q : Point}

theorem SameButOrder.index (h : SameButOrder ρ p q) : q.index = p.index := by rw [h.same]

theorem SameButOrder.place (h : SameButOrder ρ p q) : q.x = p.x := by rw [h.same]

theorem SameButOrder.previous (h : SameButOrder ρ p q) : q.previous = p.previous := by rw [h.same]

theorem SameButOrder.step (h : SameButOrder ρ p q) : q.step = p.step := by rw [h.same]

theorem SameButOrder.evaluations (h : SameButOrder ρ p q) : q.evaluations = p.evaluations := by
  rw [h.same]

theorem SameButOrder.square_right (h : SameButOrder ρ p q) : q.Square n := by
  exact ⟨h.place ▸ h.square.length_x, h.reordered.length.trans h.square.length_residual,
    h.reordered.rows.trans h.square.rows, h.reordered.cols.trans h.square.cols⟩

theorem SameButOrder.perm_residual (h : SameButOrder ρ p q) : q.residual.Perm p.residual :=
  perm_of_places ρ h.square.length_residual h.square_right.length_residual h.reordered.residual

theorem SameButOrder.residualNorm (h : SameButOrder ρ p q) : q.residualNorm = p.residualNorm :=
  infNorm_perm h.perm_residual

theorem SameButOrder.verdict (h : SameButOrder ρ p q) (t : Tolerances) :
    q.verdict t = p.verdict t := by
  have hnorm : infNorm q.residual = infNorm p.residual := h.residualNorm
  simp only [Point.verdict, Tolerances.judge, Tolerances.judgeStart, Tolerances.acceptsResidual,
    h.index, h.place, h.previous, hnorm]

theorem SameButOrder.rests (h : SameButOrder ρ p q) (t : Tolerances) : q.rests t = p.rests t := by
  rw [Point.rests, Point.rests, h.verdict, h.residualNorm]

theorem SameButOrder.perm_equations (h : SameButOrder ρ p q) :
    (equations p.jacobian.toRows p.residual).Perm (equations q.jacobian.toRows q.residual) := by
  have hsquare := h.square_right
  refine (perm_of_places ρ h.square.equations.length hsquare.equations.length fun i => ?_).symm
  have hi : (i : Nat) < q.jacobian.rows := hsquare.rows.symm ▸ i.isLt
  have hi' : (ρ i : Nat) < p.jacobian.rows := h.square.rows.symm ▸ (ρ i).isLt
  have hrow : q.jacobian.row i = p.jacobian.row (ρ i) := by
    refine List.ext_getElem? fun j => ?_
    rw [DenseMatrix.getElem?_row hi, DenseMatrix.getElem?_row hi']
    exact h.reordered.entries i j
  have hvalue : q.residual[(i : Nat)]? = p.residual[(ρ i : Nat)]? := h.reordered.residual i
  rw [equations, equations, List.getElem?_zipWith, List.getElem?_zipWith,
    DenseMatrix.getElem?_toRows hi, DenseMatrix.getElem?_toRows hi', hrow, hvalue]

theorem SameButOrder.finiteStep_eq (h : SameButOrder ρ p q) (hdecided : p.Decided n) :
    finiteStep q.jacobian q.residual = finiteStep p.jacobian p.residual := by
  have hdirection : direction? q.jacobian.toRows q.residual =
      direction? p.jacobian.toRows p.residual := by
    rw [h.square_right.direction_eq, h.square.direction_eq]
    exact Linear.solveSized_perm h.square.equations.length h.perm_equations hdecided
  rw [finiteStep, finiteStep, hdirection]

theorem SameButOrder.advance (h : SameButOrder ρ p q) (hdecided : p.Decided n) :
    Matched (SameButOrder ρ) (p.advance : Except (Failure ε) Point) q.advance := by
  have hstep := h.finiteStep_eq hdecided
  have hsquare := fun p' => Point.square_advance (ε := ε) (q := p') h.square
  unfold Point.advance at hsquare ⊢
  rw [hstep]
  cases hfinite : finiteStep p.jacobian p.residual with
  | error fault =>
    rw [h.index]
    exact .error _
  | ok step =>
    refine .ok ⟨hsquare _ (by rw [hfinite]), ?_, h.reordered⟩
    simp only [h.index, h.place, h.evaluations]

theorem evaluated_matched (hsame : q = { p with residual := q.residual, jacobian := q.jacobian })
    (hlengths : p.x.length = n) {a b : Except ε (List Float × DenseMatrix Float)}
    (hab : Matched (Reordered ρ) a b) (hlength : ∀ c, a = .ok c → c.1.length = n) :
    Matched (SameButOrder ρ) (p.evaluated a) (q.evaluated b) := by
  have hplace : q.x = p.x := by rw [hsame]
  cases hab with
  | error e => exact .error _
  | @ok c d hcd =>
    obtain ⟨fx, jx⟩ := c
    obtain ⟨gx, kx⟩ := d
    have hrows : kx.rows = jx.rows := hcd.rows
    have hcols : kx.cols = jx.cols := hcd.cols
    have hiff : kx.IsSquare q.x.length ↔ jx.IsSquare p.x.length := by
      rw [DenseMatrix.IsSquare, DenseMatrix.IsSquare, hplace, hrows, hcols]
    dsimp only [Point.evaluated]
    by_cases hshape : jx.IsSquare p.x.length
    · have hfx : fx.length = n := hlength _ rfl
      rw [if_pos hshape, if_pos (hiff.2 hshape)]
      refine .ok ⟨⟨hlengths, hfx, hshape.1.trans hlengths, hshape.2.trans hlengths⟩, ?_, hcd⟩
      rw [hsame]
    · rw [if_neg hshape, if_neg (hiff.not.2 hshape), hplace, hrows, hcols]
      exact .error _

end SameButOrder

end Point

structure Permutes (f : System σ ε) (g : System τ ε) {n : Nat} (ρ : Equiv.Perm (Fin n))
    (value value' : List Float → Except ε (List Float × DenseMatrix Float)) : Prop where
  dimension : g.dimension = f.dimension
  left : f.both.run.Answers n (SquareBuffers n) value
  right : g.both.run.Answers n (SquareBuffers n) value'
  values : ∀ x, x.length = n → Matched (Reordered ρ) (value x) (value' x)

section Runs

variable {f : System σ ε} {g : System τ ε} {n : Nat} {ρ : Equiv.Perm (Fin n)}
  {value value' : List Float → Except ε (List Float × DenseMatrix Float)} {p q : Point}

theorem length_of_answers (h : f.both.run.Answers n (SquareBuffers n) value) (s : σ)
    {x : List Float}
    (hx : x.length = n) (c : List Float × DenseMatrix Float) (hc : value x = .ok c) :
    c.1.length = n := by
  have hbuffers : SquareBuffers n (List.replicate n 0, .filled n n 0) :=
    ⟨List.length_replicate, rfl, rfl⟩
  have hreply := h s x _ hx hbuffers
  rw [hc] at hreply
  have hlength := f.both.length_run s x (List.replicate n 0) (.filled n n 0)
  rw [hreply.2, List.length_replicate] at hlength
  exact hlength

theorem Permutes.next (h : Permutes f g ρ value value') (hpq : p.SameButOrder ρ q)
    (hdecided : p.Decided n) (s : σ) (t : τ) :
    Matched (Point.SameButOrder ρ) (p.next f s).1 (q.next g t).1 := by
  have hmoved := hpq.advance (ε := ε) hdecided
  rw [Point.next_fst h.left hpq.square s, Point.next_fst h.right hpq.square_right t,
    Point.successor, Point.successor]
  generalize (p.advance : Except (Failure ε) Point) = a at hmoved ⊢
  generalize (q.advance : Except (Failure ε) Point) = b at hmoved ⊢
  cases hmoved with
  | error e => exact .error e
  | @ok p' q' hmoved =>
    have hlengths := hmoved.square.length_x
    dsimp only
    rw [hmoved.place]
    exact Point.evaluated_matched hmoved.same hlengths (h.values p'.x hlengths)
      (length_of_answers h.left s hlengths)

theorem Permutes.trails (h : Permutes f g ρ value value') (t : Tolerances) (k : Nat)
    (hpq : p.SameButOrder ρ q) (s : σ) (s' : τ)
    (hdecided : ∀ r ∈ p :: (trail f t k s p).points, r.index < p.index + k →
      r.rests t = false → r.Decided n) :
    (trail g t k s' q).failure = (trail f t k s p).failure ∧
      List.Forall₂ (Point.SameButOrder ρ) (p :: (trail f t k s p).points)
        (q :: (trail g t k s' q).points) := by
  -- both points rest or neither does, and the states drop out of a step, so the runs keep in step
  induction k generalizing p q s s' with
  | zero => exact ⟨rfl, .cons hpq .nil⟩
  | succ k ih =>
    by_cases hrest : p.rests t = true
    · rw [trail_of_rests f hrest, trail_of_rests g ((hpq.rests t).trans hrest)]
      exact ⟨rfl, .cons hpq .nil⟩
    · have hmoves : p.rests t = false := eq_false_of_ne_true hrest
      have hmoves' : q.rests t = false := (hpq.rests t).trans hmoves
      have hfirst : p.Decided n := hdecided p List.mem_cons_self (by omega) hmoves
      have hmatched := h.next hpq hfirst s s'
      rcases hp : p.next f s with ⟨a, s₁⟩
      rcases hq : q.next g s' with ⟨b, s₂⟩
      rw [hp, hq] at hmatched
      cases hmatched with
      | error e =>
        rw [trail_of_error hmoves hp, trail_of_error hmoves' hq]
        exact ⟨rfl, .cons hpq .nil⟩
      | ok hnext =>
        rw [trail_of_ok hmoves hp] at hdecided ⊢
        rw [trail_of_ok hmoves' hq]
        have hindex := (Point.follows_of_next hp).index
        obtain ⟨hfailure, hpoints⟩ := ih hnext s₁ s₂ fun r hr hlt =>
          hdecided r (List.mem_cons_of_mem _ hr) (by omega)
        exact ⟨hfailure, .cons hpq hpoints⟩

theorem Permutes.start {x : List Float} {ρ : Equiv.Perm (Fin x.length)}
    (h : Permutes f g ρ value value') (s : σ) (s' : τ) :
    Matched (Point.SameButOrder ρ) (Point.start f s x).1 (Point.start g s' x).1 := by
  have hmatched := Point.evaluated_matched (p := .blank x) (q := .blank x) rfl rfl (h.values x rfl)
    (length_of_answers h.left s rfl)
  have hleft := Point.evaluate_fst h.left (Point.square_blank x) s
  have hright := Point.evaluate_fst h.right (Point.square_blank x) s'
  have hplace : (Point.blank x).x = x := rfl
  rw [hplace] at hleft hright
  rw [← hleft, ← hright] at hmatched
  unfold Point.start
  generalize (Point.blank x).evaluate f s = reply at hmatched ⊢
  generalize (Point.blank x).evaluate g s' = reply' at hmatched ⊢
  obtain ⟨a, s₁⟩ := reply
  obtain ⟨b, s₂⟩ := reply'
  dsimp only at hmatched
  cases hmatched with
  | error e => exact .error e
  | @ok p q hpq =>
    have hfinite : q.residual.all Float.isFinite = p.residual.all Float.isFinite :=
      hpq.perm_residual.all_eq
    dsimp only
    rw [hfinite]
    split
    · exact .ok hpq
    · exact .error _

end Runs

/-- The points agree in all that is computed from them, if not in their buffers. -/
structure Point.Agree (t : Tolerances) (p q : Point) : Prop where
  index : q.index = p.index
  x : q.x = p.x
  step : q.step = p.step
  residualNorm : q.residualNorm = p.residualNorm
  verdict : q.verdict t = p.verdict t

theorem Point.SameButOrder.agree {n : Nat} {ρ : Equiv.Perm (Fin n)} {p q : Point}
    (h : p.SameButOrder ρ q) (t : Tolerances) : p.Agree t q :=
  ⟨h.index, h.place, h.step, h.residualNorm, h.verdict t⟩

structure SameButShown (r r' : Summary) : Prop where
  summary : r'.withoutHistory = r.withoutHistory
  history : r'.history.snapshots.toList.map Snapshot.norms =
    r.history.snapshots.toList.map Snapshot.norms

structure SolvedAlike (f : System σ ε) (g : System τ ε) (s : σ) (s' : τ) (start : List Float)
    (o : Settings) : Prop where
  course : Option.Rel (List.Forall₂ (Point.Agree o.tolerances)) (course f s start o)
    (course g s' start o)
  result : ∀ sink sink', Matched SameButShown (solve f s start o sink).result
    (solve g s' start o sink').result

theorem last_of_forall₂ {α : Type} {R : α → α → Prop} {a b : α} {l l' : List α}
    (h : List.Forall₂ R (a :: l) (b :: l')) : R (l.getLastD a) (l'.getLastD b) := by
  induction l generalizing a b l' with
  | nil =>
    cases h with
    | cons hab htail =>
      cases htail
      exact hab
  | cons c l ih =>
    cases h with
    | cons hab htail =>
      cases htail with
      | cons hcd hrest =>
        rw [List.getLastD_cons, List.getLastD_cons]
        exact ih (.cons hcd hrest)

section Solves

variable {f : System σ ε} {g : System τ ε} {start : List Float} {o : Settings}
  {ρ : Equiv.Perm (Fin start.length)}
  {value value' : List Float → Except ε (List Float × DenseMatrix Float)}

theorem Point.SameButOrder.endsAt {p q : Point} (h : p.SameButOrder ρ q) {r : Summary}
    (hr : EndsAt o start q r) : EndsAt o start p r where
  method := hr.method
  start := hr.start
  zero := hr.zero.trans h.place
  residualNorm := hr.residualNorm.trans h.residualNorm
  iterations := hr.iterations.trans h.index
  verdict := hr.verdict.trans (h.verdict o.tolerances)
  tolerances := hr.tolerances
  residualCalls := hr.residualCalls.trans h.evaluations
  jacobianCalls := hr.jacobianCalls.trans h.evaluations

theorem norms_of_forall₂ {p q : Point} {points points' : List Point}
    (h : List.Forall₂ (Point.SameButOrder ρ) (p :: points) (q :: points')) (j j' : Journal) :
    (points'.foldl (Progress.reach o) (.begin o q j')).history.snapshots.toList.map
        Snapshot.norms =
      (points.foldl (Progress.reach o) (.begin o p j)).history.snapshots.toList.map
        Snapshot.norms := by
  by_cases hstore : o.storeTrace = true
  · have hnorms : List.Forall₂ (fun a b => a = b)
        ((q :: points').map fun q => (q.snapshot o.extendedTrace).norms)
        ((p :: points).map fun p => (p.snapshot o.extendedTrace).norms) := by
      rw [List.forall₂_map_left_iff, List.forall₂_map_right_iff]
      refine h.flip.imp fun q p hpq => ?_
      simp only [Snapshot.norms, Point.snapshot, hpq.index, hpq.residualNorm, hpq.step]
    rw [snapshots_of_trail hstore, snapshots_of_trail hstore, List.map_map, List.map_map]
    rwa [List.forall₂_eq_eq_eq] at hnorms
  · rw [snapshots_of_not_stored hstore, snapshots_of_not_stored hstore]

theorem solvedAlike_of_error {e : Failure ε} {s : σ} {s' : τ} (hcourse : course f s start o = none)
    (hcourse' : course g s' start o = none)
    (hresult : ∀ sink, (solve f s start o sink).result = .error e)
    (hresult' : ∀ sink, (solve g s' start o sink).result = .error e) :
    SolvedAlike f g s s' start o := by
  constructor
  · rw [hcourse, hcourse']
    exact .none
  · intro sink sink'
    rw [hresult, hresult']
    exact .error e

theorem Permutes.solvedAlike_of_start (h : Permutes f g ρ value value') {s s₁ : σ} {s' s₂ : τ}
    {p q : Point} (hcheck : precheck f o start = none) (hcheck' : precheck g o start = none)
    (hp : Point.start f s start = (.ok p, s₁)) (hq : Point.start g s' start = (.ok q, s₂))
    (hpq : p.SameButOrder ρ q)
    (hdecided : ∀ points ∈ course f s start o, ∀ p ∈ points, p.index < o.iterations →
      p.rests o.tolerances = false → p.Decided start.length) : SolvedAlike f g s s' start o := by
  have hindex : p.index = 0 := (Point.starts_of_start hp).index
  have hcourse := course_of_start hcheck hp
  obtain ⟨hfailure, hpoints⟩ := h.trails o.tolerances o.iterations hpq s₁ s₂
    fun r hr hlt => hdecided _ hcourse r hr (by omega)
  constructor
  · rw [hcourse, course_of_start hcheck' hq]
    exact .some (hpoints.imp fun _ _ hagree => hagree.agree o.tolerances)
  · intro sink sink'
    cases hfails : (trail f o.tolerances o.iterations s₁ p).failure with
    | some e =>
      rw [solve_error_of_trail sink hcheck hp hfails,
        solve_error_of_trail sink' hcheck' hq (hfailure.trans hfails)]
      exact .error e
    | none =>
      obtain ⟨r, hr, hends, hhistory⟩ := endsAt_of_trail sink hcheck hp hfails
      obtain ⟨r', hr', hends', hhistory'⟩ :=
        endsAt_of_trail sink' hcheck' hq (hfailure.trans hfails)
      have hlast : EndsAt o start ((trail f o.tolerances o.iterations s₁ p).last p) r' :=
        (last_of_forall₂ hpoints).endsAt hends'
      rw [hr, hr']
      refine .ok ⟨hlast.withoutHistory_eq rfl hends, ?_⟩
      rw [hhistory, hhistory']
      exact norms_of_forall₂ hpoints _ _

theorem Permutes.solvedAlike (h : Permutes f g ρ value value') (s : σ) (s' : τ)
    (hdecided : ∀ points ∈ course f s start o, ∀ p ∈ points, p.index < o.iterations →
      p.rests o.tolerances = false → p.Decided start.length) :
    SolvedAlike f g s s' start o := by
  have hchecks : precheck g o start = precheck f o start := by
    rw [precheck, precheck, h.dimension]
  cases hcheck : precheck f o start with
  | some e =>
    have hcheck' : precheck g o start = some e := hchecks.trans hcheck
    exact solvedAlike_of_error (course_of_precheck hcheck) (course_of_precheck hcheck')
      (fun sink => by rw [solve_of_precheck sink hcheck])
      fun sink => by rw [solve_of_precheck sink hcheck']
  | none =>
    have hcheck' : precheck g o start = none := hchecks.trans hcheck
    have hmatched := h.start s s'
    rcases hp : Point.start f s start with ⟨a, s₁⟩
    rcases hq : Point.start g s' start with ⟨b, s₂⟩
    rw [hp, hq] at hmatched
    cases hmatched with
    | error e =>
      exact solvedAlike_of_error (course_of_start_error hp) (course_of_start_error hq)
        (fun sink => by rw [solve_of_start_error sink hcheck hp])
        fun sink => by rw [solve_of_start_error sink hcheck' hq]
    | ok hpq => exact h.solvedAlike_of_start hcheck hcheck' hp hq hpq hdecided

end Solves

theorem equations_in_any_order :
    (∀ (n : Nat) (ρ : Equiv.Perm (Fin n)) (p q : Point), p.SameButOrder ρ q → p.Decided n →
      finiteStep q.jacobian q.residual = finiteStep p.jacobian p.residual) ∧
    ∀ (σ τ ε : Type) (f : System σ ε) (g : System τ ε) (s : σ) (s' : τ) (start : List Float)
      (o : Settings) (ρ : Equiv.Perm (Fin start.length))
      (value value' : List Float → Except ε (List Float × DenseMatrix Float)),
      Permutes f g ρ value value' →
      (∀ points ∈ course f s start o, ∀ p ∈ points, p.index < o.iterations →
        p.rests o.tolerances = false → p.Decided start.length) →
      SolvedAlike f g s s' start o :=
  ⟨fun _ _ _ _ h hdecided => h.finiteStep_eq hdecided,
    fun _ _ _ _ _ s s' _ _ _ _ _ h hdecided => h.solvedAlike s s' hdecided⟩

/-- Two equations at a point: the value of each, and its two derivatives. -/
abbrev TwoEquations := List Float → Fin 2 → Float × Float × Float

namespace TwoEquations

def values (e : TwoEquations) (x : List Float) : List Float := [(e x 0).1, (e x 1).1]

def slopes (e : TwoEquations) (x : List Float) : DenseMatrix Float :=
  .ofFn 2 2 fun i j =>
    let d := (e x (if i = 0 then 0 else 1)).2
    if j = 0 then d.1 else d.2

def system (e : TwoEquations) : System Unit String :=
  .plain ⟨fun s x fx => ⟨none, if fx.length = 2 then e.values x else fx, s⟩, by
      intro s x fx
      dsimp only
      split
      · next h => exact h.symm
      · rfl⟩
    fun s x _ => ⟨none, e.slopes x, s⟩

theorem answers_system (e : TwoEquations) :
    e.system.both.run.Answers 2 (SquareBuffers 2) fun x => .ok (e.values x, e.slopes x) := by
  rintro s x ⟨fx, jx⟩ - ⟨hfx, -⟩
  exact ⟨rfl, Prod.ext (if_pos hfx) rfl⟩

def swapped (e : TwoEquations) : TwoEquations := fun x i => e x (Equiv.swap 0 1 i)

theorem reordered_swapped (e : TwoEquations) (x : List Float) :
    Reordered (Equiv.swap (0 : Fin 2) 1) (e.values x, e.slopes x)
      (e.swapped.values x, e.swapped.slopes x) := by
  refine ⟨rfl, ?_, rfl, rfl, ?_⟩
  · intro i
    fin_cases i <;> rfl
  · intro i j
    by_cases hj : j < 2
    · interval_cases j <;> fin_cases i <;> rfl
    · rw [DenseMatrix.get?_eq_none fun h => hj h.2, DenseMatrix.get?_eq_none fun h => hj h.2]

theorem permutes_swapped (e : TwoEquations) :
    Permutes e.system e.swapped.system (Equiv.swap (0 : Fin 2) 1)
      (fun x => .ok (e.values x, e.slopes x))
      fun x => .ok (e.swapped.values x, e.swapped.slopes x) :=
  ⟨rfl, e.answers_system, e.swapped.answers_system, fun x _ => .ok (e.reordered_swapped x)⟩

def point (e : TwoEquations) (x : List Float) : Point :=
  { Point.blank x with residual := e.values x, jacobian := e.slopes x }

end TwoEquations

def circleThenDiagonal : TwoEquations := fun x i =>
  let a := x.getD 0 0
  let b := x.getD 1 0
  if i = 0 then (a * a + b * b - 1, 2 * a, 2 * b) else (a - b, 1, -1)

theorem circleThenDiagonal_in_any_order :
    (Point.SameButOrder (Equiv.swap (0 : Fin 2) 1) (circleThenDiagonal.point [1, 0.5])
        (circleThenDiagonal.swapped.point [1, 0.5]) ∧
      (circleThenDiagonal.point [1, 0.5]).Decided 2 ∧
      finiteStep (circleThenDiagonal.swapped.point [1, 0.5]).jacobian
          (circleThenDiagonal.swapped.point [1, 0.5]).residual =
        finiteStep (circleThenDiagonal.point [1, 0.5]).jacobian
          (circleThenDiagonal.point [1, 0.5]).residual) ∧
    (∃ r, (solve circleThenDiagonal.system () [1, 0.5] sevenSteps .unlimited).result = .ok r ∧
      1 < r.iterations ∧ r.converged = true) ∧
    (∀ points ∈ course circleThenDiagonal.system () [1, 0.5] sevenSteps, ∀ p ∈ points,
      p.index < sevenSteps.iterations → p.rests sevenSteps.tolerances = false → p.Decided 2) ∧
    SolvedAlike circleThenDiagonal.system circleThenDiagonal.swapped.system () () [1, 0.5]
      sevenSteps := by
  have hsame : Point.SameButOrder (Equiv.swap (0 : Fin 2) 1) (circleThenDiagonal.point [1, 0.5])
      (circleThenDiagonal.swapped.point [1, 0.5]) :=
    ⟨⟨rfl, rfl, rfl, rfl⟩, rfl, circleThenDiagonal.reordered_swapped [1, 0.5]⟩
  have hfirst : (circleThenDiagonal.point [1, 0.5]).Decided 2 := by decide +kernel
  obtain ⟨r, hr, htest⟩ := Outcome.ok_of_any
    (solve circleThenDiagonal.system () [1, 0.5] sevenSteps .unlimited)
    (fun r => decide (1 < r.iterations) && r.converged) (by decide +kernel)
  rw [Bool.and_eq_true, decide_eq_true_eq] at htest
  have hdecided : ∀ points ∈ course circleThenDiagonal.system () [1, 0.5] sevenSteps,
      ∀ p ∈ points, p.index < sevenSteps.iterations → p.rests sevenSteps.tolerances = false →
        p.Decided 2 := by decide +kernel
  exact ⟨⟨hsame, hfirst, equations_in_any_order.1 2 _ _ _ hsame hfirst⟩, ⟨r, hr, htest⟩, hdecided,
    equations_in_any_order.2 Unit Unit String _ _ () () _ _ _ _ _
      circleThenDiagonal.permutes_swapped hdecided⟩

end Newton

end RootFinding
