import RootFinding.Proofs.Newton.Evaluations
import RootFinding.Proofs.Newton.Truncation

/-!
# The start-up of a solve

Before its first step a solve looks for faults in a fixed order: the two tolerances, the dimension,
and then what the evaluation of the start comes to, which is its error, the shape of the Jacobian
and the components of the residual. The first fault that is found is the failure of the solve. It is
found before anything is written, and before anything is evaluated unless it is a fault of the first
evaluation. Later iterations can fail with some of the same errors, but not without a second
evaluation. Where the start is sound and nothing is left to be done, the solve tells of the start as
it was evaluated, and the Jacobian has no part in that.
-/

namespace RootFinding.Newton

variable {σ ε : Type}

def Unusable (tolerance : Float) : Prop := tolerance.isFinite = false ∨ tolerance < 0

structure Admitted (f : System σ ε) (start : List Float) (o : Settings) : Prop where
  step : ¬ Unusable o.tolerances.step
  residual : ¬ Unusable o.tolerances.residual
  dimension : ∀ found, f.dimension = some found → found = start.length

def firstReply (f : System σ ε) (s : σ) (start : List Float) :
    Reply σ ε (List Float × DenseMatrix Float) :=
  f.both.run s start (List.replicate start.length 0, .filled start.length start.length 0)

def firstEvaluation (f : System σ ε) (s : σ) (start : List Float) : Evaluation σ ε :=
  .both s start (List.replicate start.length 0, .filled start.length start.length 0)
    (firstReply f s start)

structure SoundStart (f : System σ ε) (s : σ) (start : List Float) : Prop where
  failure : (firstReply f s start).failure = none
  square : (firstReply f s start).buffer.2.IsSquare start.length
  finite : ∀ a ∈ (firstReply f s start).buffer.1, a.isFinite = true

/-- The faults of a start-up, each where those before it are absent, and the evaluations made by
then. -/
inductive StartFault (f : System σ ε) (s : σ) (start : List Float) (o : Settings) :
    Failure ε → List (Evaluation σ ε) → Prop
  | stepTolerance (h : Unusable o.tolerances.step) :
      StartFault f s start o (.settings .stepTolerance) []
  | residualTolerance (hstep : ¬ Unusable o.tolerances.step)
      (h : Unusable o.tolerances.residual) :
      StartFault f s start o (.settings .residualTolerance) []
  | dimension (hstep : ¬ Unusable o.tolerances.step)
      (hresidual : ¬ Unusable o.tolerances.residual) {found : Nat}
      (h : f.dimension = some found) (hne : found ≠ start.length) :
      StartFault f s start o (.dimensionMismatch start.length found) []
  | evaluation (hadmitted : Admitted f start o) {e : ε}
      (h : (firstReply f s start).failure = some e) :
      StartFault f s start o (.evaluation e) [firstEvaluation f s start]
  | jacobianShape (hadmitted : Admitted f start o) (h : (firstReply f s start).failure = none)
      (hshape : ¬ (firstReply f s start).buffer.2.IsSquare start.length) :
      StartFault f s start o
        (.jacobianShape start.length (firstReply f s start).buffer.2.rows
          (firstReply f s start).buffer.2.cols) [firstEvaluation f s start]
  | nonFiniteResidual (hadmitted : Admitted f start o)
      (h : (firstReply f s start).failure = none)
      (hshape : (firstReply f s start).buffer.2.IsSquare start.length) {a : Float}
      (ha : a ∈ (firstReply f s start).buffer.1) (hfinite : a.isFinite = false) :
      StartFault f s start o .nonFiniteResidual [firstEvaluation f s start]

section StartUp

variable {f : System σ ε} {s : σ} {start : List Float} {o : Settings}

theorem startFault_or_sound (f : System σ ε) (s : σ) (start : List Float) (o : Settings) :
    (∃ e evaluations, StartFault f s start o e evaluations) ∨
      (Admitted f start o ∧ SoundStart f s start) := by
  by_cases hstep : Unusable o.tolerances.step
  · exact Or.inl ⟨_, _, .stepTolerance hstep⟩
  by_cases hresidual : Unusable o.tolerances.residual
  · exact Or.inl ⟨_, _, .residualTolerance hstep hresidual⟩
  by_cases hdimension : ∀ found, f.dimension = some found → found = start.length
  · have hadmitted : Admitted f start o := ⟨hstep, hresidual, hdimension⟩
    cases hfailure : (firstReply f s start).failure with
    | some e => exact Or.inl ⟨_, _, .evaluation hadmitted hfailure⟩
    | none =>
      by_cases hshape : (firstReply f s start).buffer.2.IsSquare start.length
      · by_cases hfinite : ∀ a ∈ (firstReply f s start).buffer.1, a.isFinite = true
        · exact Or.inr ⟨hadmitted, hfailure, hshape, hfinite⟩
        · push Not at hfinite
          obtain ⟨a, ha, hinfinite⟩ := hfinite
          exact Or.inl ⟨_, _, .nonFiniteResidual hadmitted hfailure hshape ha
            (eq_false_of_ne_true hinfinite)⟩
      · exact Or.inl ⟨_, _, .jacobianShape hadmitted hfailure hshape⟩
  · push Not at hdimension
    obtain ⟨found, hfound, hne⟩ := hdimension
    exact Or.inl ⟨_, _, .dimension hstep hresidual hfound hne⟩

theorem usable_eq_false_iff {tolerance : Float} :
    usable tolerance = false ↔ Unusable tolerance := by
  rw [usable, Unusable, Bool.and_eq_false_iff, Bool.not_eq_false', decide_eq_true_iff]

theorem usable_eq_true_iff {tolerance : Float} :
    usable tolerance = true ↔ ¬ Unusable tolerance := by
  rw [← usable_eq_false_iff, Bool.not_eq_false]

theorem fault?_of_usable (hstep : ¬ Unusable o.tolerances.step)
    (hresidual : ¬ Unusable o.tolerances.residual) : o.fault? = none := by
  rw [Settings.fault?, usable_eq_true_iff.2 hstep, usable_eq_true_iff.2 hresidual]
  rfl

theorem precheck_of_unusable_step (h : Unusable o.tolerances.step) :
    precheck f o start = some (.settings .stepTolerance) := by
  rw [precheck, Settings.fault?, usable_eq_false_iff.2 h]
  rfl

theorem precheck_of_unusable_residual (hstep : ¬ Unusable o.tolerances.step)
    (h : Unusable o.tolerances.residual) :
    precheck f o start = some (.settings .residualTolerance) := by
  rw [precheck, Settings.fault?, usable_eq_true_iff.2 hstep, usable_eq_false_iff.2 h]
  rfl

theorem precheck_of_dimension_ne (hstep : ¬ Unusable o.tolerances.step)
    (hresidual : ¬ Unusable o.tolerances.residual) {found : Nat}
    (h : f.dimension = some found) (hne : found ≠ start.length) :
    precheck f o start = some (.dimensionMismatch start.length found) := by
  rw [precheck, fault?_of_usable hstep hresidual, h]
  exact if_neg hne

theorem Admitted.precheck (h : Admitted f start o) : precheck f o start = none :=
  precheck_eq_none (fault?_of_usable h.step h.residual) h.dimension

theorem run_observed_start (f : System σ ε) (s : σ) (start : List Float) :
    f.observed.both.run (s, []) start
        (List.replicate start.length 0, .filled start.length start.length 0) =
      ⟨(firstReply f s start).failure, (firstReply f s start).buffer,
        ((firstReply f s start).state, [firstEvaluation f s start])⟩ := rfl

theorem start_of_failure {e : ε} (h : (firstReply f s start).failure = some e) :
    Point.start f.observed (s, []) start =
      (.error (.evaluation e), ((firstReply f s start).state, [firstEvaluation f s start])) := by
  simp only [Point.start, Point.evaluate, Point.blank, run_observed_start, h]

theorem start_of_shape (h : (firstReply f s start).failure = none)
    (hshape : ¬ (firstReply f s start).buffer.2.IsSquare start.length) :
    Point.start f.observed (s, []) start =
      (.error (.jacobianShape start.length (firstReply f s start).buffer.2.rows
        (firstReply f s start).buffer.2.cols),
        ((firstReply f s start).state, [firstEvaluation f s start])) := by
  have hshape : ¬ ((firstReply f s start).buffer.2.rows = start.length ∧
    (firstReply f s start).buffer.2.cols = start.length) := hshape
  simp only [Point.start, Point.evaluate, Point.blank, run_observed_start, h, if_neg hshape]

theorem start_of_shaped (h : (firstReply f s start).failure = none)
    (hshape : (firstReply f s start).buffer.2.IsSquare start.length) :
    ∃ p : Point, p.residual = (firstReply f s start).buffer.1 ∧
      Point.start f.observed (s, []) start =
        (if p.residual.all Float.isFinite then .ok p else .error .nonFiniteResidual,
          ((firstReply f s start).state, [firstEvaluation f s start])) := by
  have hshape : (firstReply f s start).buffer.2.rows = start.length ∧
    (firstReply f s start).buffer.2.cols = start.length := hshape
  refine ⟨{ Point.blank start with
    residual := (firstReply f s start).buffer.1
    jacobian := (firstReply f s start).buffer.2
    evaluations := 1 }, rfl, ?_⟩
  simp only [Point.start, Point.evaluate, Point.blank, run_observed_start, h, if_pos hshape]
  split <;> rfl

theorem start_of_not_finite (h : (firstReply f s start).failure = none)
    (hshape : (firstReply f s start).buffer.2.IsSquare start.length) {a : Float}
    (ha : a ∈ (firstReply f s start).buffer.1) (hfinite : a.isFinite = false) :
    Point.start f.observed (s, []) start = (.error .nonFiniteResidual,
      ((firstReply f s start).state, [firstEvaluation f s start])) := by
  obtain ⟨p, hp, hstart⟩ := start_of_shaped h hshape
  have hnot : ¬ p.residual.all Float.isFinite = true := by
    intro hall
    rw [List.all_eq_true.1 hall a (hp ▸ ha)] at hfinite
    cases hfinite
  rw [hstart, if_neg hnot]

theorem start_of_sound (h : SoundStart f s start) :
    ∃ p : Point, p.residual = (firstReply f s start).buffer.1 ∧
      Point.start f.observed (s, []) start =
        (.ok p, ((firstReply f s start).state, [firstEvaluation f s start])) := by
  obtain ⟨p, hp, hstart⟩ := start_of_shaped h.failure h.square
  refine ⟨p, hp, ?_⟩
  rw [hstart, if_pos (List.all_eq_true.2 (hp ▸ h.finite))]

theorem StartFault.found {e : Failure ε} {evaluations : List (Evaluation σ ε)}
    (h : StartFault f s start o e evaluations) :
    (Newton.precheck f o start = some e ∧ evaluations = []) ∨
      (Newton.precheck f o start = none ∧
        ∃ s', Point.start f.observed (s, []) start = (.error e, (s', evaluations))) := by
  cases h with
  | stepTolerance h => exact Or.inl ⟨precheck_of_unusable_step h, rfl⟩
  | residualTolerance hstep h => exact Or.inl ⟨precheck_of_unusable_residual hstep h, rfl⟩
  | dimension hstep hresidual h hne =>
    exact Or.inl ⟨precheck_of_dimension_ne hstep hresidual h hne, rfl⟩
  | evaluation hadmitted h => exact Or.inr ⟨hadmitted.precheck, _, start_of_failure h⟩
  | jacobianShape hadmitted h hshape =>
    exact Or.inr ⟨hadmitted.precheck, _, start_of_shape h hshape⟩
  | nonFiniteResidual hadmitted h hshape ha hfinite =>
    exact Or.inr ⟨hadmitted.precheck, _, start_of_not_finite h hshape ha hfinite⟩

theorem StartFault.observe {e : Failure ε} {evaluations : List (Evaluation σ ε)}
    (h : StartFault f s start o e evaluations) (sink : Sink) :
    Newton.observe f s start o sink = ⟨.error e, evaluations, sink.received⟩ := by
  rw [observe_eq]
  rcases h.found with ⟨hcheck, rfl⟩ | ⟨hcheck, s', hstart⟩
  · have hcheck : Newton.precheck f.observed o start = some e := hcheck
    rw [solve_of_precheck sink hcheck]
    rfl
  · have hcheck : Newton.precheck f.observed o start = none := hcheck
    rw [solve_of_start_error sink hcheck hstart]
    rfl

theorem StartFault.sink_solve {e : Failure ε} {evaluations : List (Evaluation σ ε)}
    (h : StartFault f s start o e evaluations) (sink : Sink) :
    (solve f s start o sink).journal.sink = sink := by
  rcases h.found with ⟨hcheck, -⟩ | ⟨hcheck, s', hstart⟩
  · rw [solve_of_precheck sink hcheck]
    rfl
  · have hcheck : Newton.precheck f.observed o start = none := hcheck
    obtain ⟨-, hjournal, -⟩ := solve_observed f s [] start o sink
    rw [← hjournal, solve_of_start_error sink hcheck hstart]
    rfl

theorem StartFault.length_evaluations {e : Failure ε} {evaluations : List (Evaluation σ ε)}
    (h : StartFault f s start o e evaluations) : evaluations.length ≤ 1 := by
  cases h with
  | stepTolerance _ => exact Nat.zero_le 1
  | residualTolerance _ _ => exact Nat.zero_le 1
  | dimension _ _ _ _ => exact Nat.zero_le 1
  | evaluation _ _ => exact Nat.le_refl 1
  | jacobianShape _ _ _ => exact Nat.le_refl 1
  | nonFiniteResidual _ _ _ _ _ => exact Nat.le_refl 1

theorem breakdown_of_trail {t : Tolerances} {n : Nat} {s' : σ × List (Evaluation σ ε)} {p : Point}
    {e : Failure ε} (h : (trail f.observed t n s' p).failure = some e) :
    ∃ k before extra, (trail f.observed t n s' p).state.2 = s'.2 ++ before ++ extra ∧
      Breakdown k e extra := by
  obtain ⟨extra, hextra, hbreakdown⟩ := Breakdown.of_next (next_of_cut_trail h)
  obtain ⟨before, hbefore⟩ := seen_trail f t (trail f.observed t n s' p).points.length s' p
  rw [← hbefore] at hextra
  exact ⟨_, before, extra, hextra, hbreakdown⟩

theorem fault_or_breakdown {sink : Sink} {e : Failure ε}
    (h : (observe f s start o sink).result = .error e) :
    (∃ evaluations, StartFault f s start o e evaluations) ∨
      ∃ k later extra, (observe f s start o sink).evaluations =
        firstEvaluation f s start :: (later ++ extra) ∧ Breakdown k e extra := by
  rcases startFault_or_sound f s start o with ⟨e', evaluations, hfault⟩ | ⟨hadmitted, hsound⟩
  · rw [hfault.observe sink] at h
    obtain rfl := Except.error.inj h
    exact Or.inl ⟨evaluations, hfault⟩
  · obtain ⟨p, -, hstart⟩ := start_of_sound hsound
    have htold := told_of_start sink hadmitted.precheck hstart
    obtain ⟨k, later, extra, hstate, hbreakdown⟩ := breakdown_of_trail (htold.failure_of_error h)
    refine Or.inr ⟨k, later, extra, ?_, hbreakdown⟩
    rw [htold.evaluations, hstate, List.append_assoc]
    rfl

theorem evaluations_of_sound (sink : Sink) (hadmitted : Admitted f start o)
    (hsound : SoundStart f s start) :
    ∃ later, (observe f s start o sink).evaluations = firstEvaluation f s start :: later := by
  obtain ⟨p, -, hstart⟩ := start_of_sound hsound
  rw [(told_of_start sink hadmitted.precheck hstart).evaluations]
  obtain ⟨later, hlater⟩ := seen_trail f o.tolerances o.iterations
    ((firstReply f s start).state, [firstEvaluation f s start]) p
  exact ⟨later, hlater.symm⟩

def Point.nextBy (solver : DenseMatrix Float → List Float → Except StepFault Step) (p : Point)
    (f : System σ ε) (s : σ) : Except (Failure ε) Point × σ :=
  match solver p.jacobian p.residual with
  | .error fault => (.error (.ofStep fault (p.index + 1)), s)
  | .ok step =>
    Point.evaluate { p with
      index := p.index + 1
      x := List.zipWith (· + ·) p.x step.direction
      previous := p.x
      step := step } f s

def iterateBy (solver : DenseMatrix Float → List Float → Except StepFault Step) (f : System σ ε)
    (o : Settings) : Nat → σ → Progress → Ending σ ε
  | 0, s, r => ⟨none, r, s⟩
  | remaining + 1, s, r =>
    if r.verdict.converged then ⟨none, r, s⟩
    else
      match r.point.nextBy solver f s with
      | (.error e, s) => ⟨some e, r.warn e, s⟩
      | (.ok p, s) =>
        if p.residualNorm.isNaN then ⟨none, (r.reach o p).emit (.residualNaN p.index), s⟩
        else iterateBy solver f o remaining s (r.reach o p)

def solveBy (solver : DenseMatrix Float → List Float → Except StepFault Step) (f : System σ ε)
    (s : σ) (start : List Float) (o : Settings) (sink : Sink) : Outcome σ ε :=
  match precheck f o start with
  | some failure => ⟨.error failure, s, .start sink⟩
  | none =>
    match Point.start f s start with
    | (.error e, s) => ⟨.error e, s, opening o start sink⟩
    | (.ok p, s) =>
      (iterateBy solver f o o.iterations s (.begin o p (opening o start sink))).outcome o start

theorem Point.nextBy_finiteStep (p : Point) (f : System σ ε) (s : σ) :
    p.nextBy finiteStep f s = p.next f s := by
  unfold nextBy next advance
  cases finiteStep p.jacobian p.residual with
  | error fault => rfl
  | ok step => rfl

theorem iterateBy_finiteStep (f : System σ ε) (o : Settings) (n : Nat) (s : σ) (r : Progress) :
    iterateBy finiteStep f o n s r = iterate f o n s r := by
  induction n generalizing s r with
  | zero => rfl
  | succ n ih =>
    rw [iterateBy, iterate, Point.nextBy_finiteStep]
    by_cases hconverged : r.verdict.converged = true
    · rw [if_pos hconverged, if_pos hconverged]
    · rw [if_neg hconverged, if_neg hconverged]
      rcases r.point.next f s with ⟨e | p, s'⟩
      · rfl
      · dsimp only
        rw [ih]

theorem solveBy_finiteStep (f : System σ ε) (s : σ) (start : List Float) (o : Settings)
    (sink : Sink) : solveBy finiteStep f s start o sink = solve f s start o sink := by
  rw [solveBy, solve]
  cases precheck f o start with
  | some e => rfl
  | none =>
    rcases Point.start f s start with ⟨e | p, s'⟩
    · rfl
    · dsimp only
      rw [iterateBy_finiteStep]
      rfl

def Settled (f : System σ ε) (s : σ) (start : List Float) (o : Settings) : Prop :=
  o.iterations = 0 ∨ infNorm (firstReply f s start).buffer.1 < o.tolerances.residual

def summaryAtStart (f : System σ ε) (s : σ) (start : List Float) (o : Settings) : Summary where
  method := method
  start := start
  zero := start
  residualNorm := infNorm (firstReply f s start).buffer.1
  iterations := 0
  verdict := ⟨false, o.tolerances.acceptsResidual (firstReply f s start).buffer.1⟩
  tolerances := o.tolerances
  history := .empty
  residualCalls := 1
  jacobianCalls := 1

theorem Settled.iterateBy_eq (h : Settled f s start o) {r : Progress}
    (hr : r.verdict = o.tolerances.judgeStart (firstReply f s start).buffer.1)
    (solver : DenseMatrix Float → List Float → Except StepFault Step) (s' : σ) :
    iterateBy solver f o o.iterations s' r = ⟨none, r, s'⟩ := by
  cases hiterations : o.iterations with
  | zero => rfl
  | succ n =>
    have hsmall : infNorm (firstReply f s start).buffer.1 < o.tolerances.residual :=
      h.resolve_left (by rw [hiterations]; exact Nat.succ_ne_zero n)
    have hconverged : r.verdict.converged = true := by
      rw [hr, Verdict.converged]
      exact decide_eq_true hsmall
    rw [iterateBy, if_pos hconverged]

theorem Settled.solveBy_eq (h : Settled f s start o)
    (solver : DenseMatrix Float → List Float → Except StepFault Step) (sink : Sink) :
    solveBy solver f s start o sink = solve f s start o sink := by
  rw [← solveBy_finiteStep, solveBy, solveBy]
  cases precheck f o start with
  | some e => rfl
  | none =>
    rcases hstart : Point.start f s start with ⟨e | p, s'⟩
    · rfl
    · have hresidual : p.residual = (firstReply f s start).buffer.1 := by
        rw [firstReply, (Point.starts_of_start hstart).reply]
      have hverdict (j : Journal) : (Progress.begin o p j).verdict =
          o.tolerances.judgeStart (firstReply f s start).buffer.1 := by
        rw [← hresidual]
        rfl
      dsimp only
      rw [h.iterateBy_eq (hverdict _), h.iterateBy_eq (hverdict _)]

theorem Settled.observe (h : Settled f s start o) (sink : Sink) (hadmitted : Admitted f start o)
    (hsound : SoundStart f s start) :
    (Newton.observe f s start o sink).evaluations = [firstEvaluation f s start] ∧
      ∃ r, (Newton.observe f s start o sink).result = .ok r ∧
        r.withoutHistory = summaryAtStart f s start o := by
  obtain ⟨p, hp, hstart⟩ := start_of_sound hsound
  have hstarts := Point.starts_of_start hstart
  have hcheck : Newton.precheck f.observed o start = none := hadmitted.precheck
  have htrail : trail f.observed o.tolerances o.iterations
      ((firstReply f s start).state, [firstEvaluation f s start]) p =
      ⟨[], none, ((firstReply f s start).state, [firstEvaluation f s start])⟩ := by
    rcases h with hnone | hsmall
    · rw [hnone, trail]
    · refine trail_of_rests _ ?_ _ _
      rw [Point.rests, hstarts.verdict_eq, Verdict.converged, Tolerances.judgeStart, hp,
        Tolerances.acceptsResidual, decide_eq_true hsmall]
      rfl
  obtain ⟨r, hr, hends, -⟩ := endsAt_of_trail sink hcheck hstart (by rw [htrail])
  rw [htrail, Trail.last, List.getLastD_nil] at hends
  constructor
  · rw [(told_of_start sink hadmitted.precheck hstart).evaluations, htrail]
  · refine ⟨r, ?_, ?_⟩
    · rw [observe_eq]
      exact hr
    · obtain ⟨hmethod, hbegin, hzero, hnorm, hiterations, hverdict, htolerances, hcalls, hcalls'⟩ :=
        hends
      rw [Summary.withoutHistory, hmethod, hbegin, hzero, hnorm, hiterations, hverdict,
        htolerances, hcalls, hcalls', hstarts.place, hstarts.index, hstarts.evaluations,
        hstarts.verdict_eq, Point.residualNorm, hp]
      rfl

end StartUp

/-- What the start-up makes of a run. A later iteration can fail with the error of an evaluation or
for the shape of a Jacobian as well, but the start is not all that was evaluated then. -/
structure StartUp (f : System σ ε) (s : σ) (start : List Float) (o : Settings) (sink : Sink) :
    Prop where
  stepTolerance : (observe f s start o sink).result = .error (.settings .stepTolerance) ↔
    Unusable o.tolerances.step
  residualTolerance : ¬ Unusable o.tolerances.step →
    ((observe f s start o sink).result = .error (.settings .residualTolerance) ↔
      Unusable o.tolerances.residual)
  dimension : ¬ Unusable o.tolerances.step → ¬ Unusable o.tolerances.residual →
    ∀ expected found,
      (observe f s start o sink).result = .error (.dimensionMismatch expected found) ↔
        expected = start.length ∧ f.dimension = some found ∧ found ≠ start.length
  unevaluated : ¬ Admitted f start o →
    (∃ e, (observe f s start o sink).result = .error e) ∧
      (observe f s start o sink).evaluations = []
  evaluated : Admitted f start o →
    ∃ later, (observe f s start o sink).evaluations = firstEvaluation f s start :: later
  evaluation : Admitted f start o → ∀ e,
    (observe f s start o sink).result = .error (.evaluation e) ∧
        (observe f s start o sink).evaluations = [firstEvaluation f s start] ↔
      (firstReply f s start).failure = some e
  jacobianShape : Admitted f start o → (firstReply f s start).failure = none →
    ∀ expected rows cols,
      (observe f s start o sink).result = .error (.jacobianShape expected rows cols) ∧
          (observe f s start o sink).evaluations = [firstEvaluation f s start] ↔
        expected = start.length ∧ rows = (firstReply f s start).buffer.2.rows ∧
          cols = (firstReply f s start).buffer.2.cols ∧ ¬ (rows = expected ∧ cols = expected)
  nonFiniteResidual : Admitted f start o → (firstReply f s start).failure = none →
    (firstReply f s start).buffer.2.IsSquare start.length →
      ((observe f s start o sink).result = .error .nonFiniteResidual ↔
        ∃ a ∈ (firstReply f s start).buffer.1, a.isNaN = true ∨ a.isInf = true)
  silent : ¬ (Admitted f start o ∧ SoundStart f s start) →
    (∃ e, (observe f s start o sink).result = .error e) ∧
      (observe f s start o sink).evaluations.length ≤ 1 ∧
      (solve f s start o sink).journal.sink = sink
  settled : Admitted f start o → SoundStart f s start → Settled f s start o →
    (observe f s start o sink).evaluations = [firstEvaluation f s start] ∧
      (∃ r, (observe f s start o sink).result = .ok r ∧
        r.withoutHistory = summaryAtStart f s start o) ∧
      ∀ solver, solveBy solver f s start o sink = solve f s start o sink

section StartUp

variable {f : System σ ε} {s : σ} {start : List Float} {o : Settings} {sink : Sink}

theorem result_eq_error_iff {e : Failure ε} (hnot : ∀ k extra, ¬ Breakdown (σ := σ) k e extra) :
    (observe f s start o sink).result = .error e ↔
      ∃ evaluations, StartFault f s start o e evaluations := by
  constructor
  · intro h
    exact (fault_or_breakdown h).resolve_right
      fun ⟨k, _, extra, _, hbreakdown⟩ => hnot k extra hbreakdown
  · rintro ⟨evaluations, hfault⟩
    rw [hfault.observe sink]

theorem result_eq_stepTolerance_iff :
    (observe f s start o sink).result = .error (.settings .stepTolerance) ↔
      Unusable o.tolerances.step := by
  refine Iff.trans (result_eq_error_iff nofun) ?_
  constructor
  · rintro ⟨_, hfault⟩
    cases hfault with
    | stepTolerance h => exact h
  · exact fun h => ⟨_, .stepTolerance h⟩

theorem result_eq_residualTolerance_iff (hstep : ¬ Unusable o.tolerances.step) :
    (observe f s start o sink).result = .error (.settings .residualTolerance) ↔
      Unusable o.tolerances.residual := by
  refine Iff.trans (result_eq_error_iff nofun) ?_
  constructor
  · rintro ⟨_, hfault⟩
    cases hfault with
    | residualTolerance _ h => exact h
  · exact fun h => ⟨_, .residualTolerance hstep h⟩

theorem result_eq_dimensionMismatch_iff (hstep : ¬ Unusable o.tolerances.step)
    (hresidual : ¬ Unusable o.tolerances.residual) {expected found : Nat} :
    (observe f s start o sink).result = .error (.dimensionMismatch expected found) ↔
      expected = start.length ∧ f.dimension = some found ∧ found ≠ start.length := by
  refine Iff.trans (result_eq_error_iff nofun) ?_
  constructor
  · rintro ⟨_, hfault⟩
    cases hfault with
    | dimension _ _ h hne => exact ⟨rfl, h, hne⟩
  · rintro ⟨rfl, h, hne⟩
    exact ⟨_, .dimension hstep hresidual h hne⟩

theorem result_eq_nonFiniteResidual_iff (hadmitted : Admitted f start o)
    (hanswered : (firstReply f s start).failure = none)
    (hsquare : (firstReply f s start).buffer.2.IsSquare start.length) :
    (observe f s start o sink).result = .error .nonFiniteResidual ↔
      ∃ a ∈ (firstReply f s start).buffer.1, a.isNaN = true ∨ a.isInf = true := by
  simp only [← Binary64.isFinite_eq_false_iff]
  refine Iff.trans (result_eq_error_iff nofun) ?_
  constructor
  · rintro ⟨_, hfault⟩
    cases hfault with
    | nonFiniteResidual _ _ _ ha hfinite => exact ⟨_, ha, hfinite⟩
  · rintro ⟨a, ha, hfinite⟩
    exact ⟨_, .nonFiniteResidual hadmitted hanswered hsquare ha hfinite⟩

theorem unevaluated_of_not_admitted (h : ¬ Admitted f start o) :
    (∃ e, (observe f s start o sink).result = .error e) ∧
      (observe f s start o sink).evaluations = [] := by
  rcases startFault_or_sound f s start o with ⟨e, evaluations, hfault⟩ | ⟨hadmitted, -⟩
  · rw [hfault.observe sink]
    refine ⟨⟨e, rfl⟩, ?_⟩
    cases hfault with
    | stepTolerance _ => rfl
    | residualTolerance _ _ => rfl
    | dimension _ _ _ _ => rfl
    | evaluation hadmitted _ => exact absurd hadmitted h
    | jacobianShape hadmitted _ _ => exact absurd hadmitted h
    | nonFiniteResidual hadmitted _ _ _ _ => exact absurd hadmitted h
  · exact absurd hadmitted h

theorem evaluated_of_admitted (h : Admitted f start o) :
    ∃ later, (observe f s start o sink).evaluations = firstEvaluation f s start :: later := by
  rcases startFault_or_sound f s start o with ⟨e, evaluations, hfault⟩ | ⟨-, hsound⟩
  · rw [hfault.observe sink]
    cases hfault with
    | stepTolerance hstep => exact absurd hstep h.step
    | residualTolerance _ hresidual => exact absurd hresidual h.residual
    | dimension _ _ hfound hne => exact absurd (h.dimension _ hfound) hne
    | evaluation _ _ => exact ⟨[], rfl⟩
    | jacobianShape _ _ _ => exact ⟨[], rfl⟩
    | nonFiniteResidual _ _ _ _ _ => exact ⟨[], rfl⟩
  · exact evaluations_of_sound sink h hsound

theorem first_result_eq_error_iff {e : Failure ε}
    (hnot : ∀ k, ¬ Breakdown (σ := σ) k e []) :
    (observe f s start o sink).result = .error e ∧
        (observe f s start o sink).evaluations = [firstEvaluation f s start] ↔
      StartFault f s start o e [firstEvaluation f s start] := by
  constructor
  · rintro ⟨h, hfirst⟩
    rcases fault_or_breakdown h with ⟨evaluations, hfault⟩ | ⟨k, later, extra, hall, hbreakdown⟩
    · rw [hfault.observe sink] at hfirst
      exact hfirst ▸ hfault
    · rw [hfirst] at hall
      have hnone : later ++ extra = [] := (List.cons.inj hall).2.symm
      obtain rfl := (List.append_eq_nil_iff.1 hnone).2
      exact absurd hbreakdown (hnot k)
  · intro hfault
    rw [hfault.observe sink]
    exact ⟨rfl, rfl⟩

theorem result_eq_evaluation_iff (hadmitted : Admitted f start o) {e : ε} :
    (observe f s start o sink).result = .error (.evaluation e) ∧
        (observe f s start o sink).evaluations = [firstEvaluation f s start] ↔
      (firstReply f s start).failure = some e := by
  refine Iff.trans (first_result_eq_error_iff nofun) ?_
  constructor
  · intro hfault
    cases hfault with
    | evaluation _ h => exact h
  · exact .evaluation hadmitted

theorem result_eq_jacobianShape_iff (hadmitted : Admitted f start o)
    (hanswered : (firstReply f s start).failure = none) {expected rows cols : Nat} :
    (observe f s start o sink).result = .error (.jacobianShape expected rows cols) ∧
        (observe f s start o sink).evaluations = [firstEvaluation f s start] ↔
      expected = start.length ∧ rows = (firstReply f s start).buffer.2.rows ∧
        cols = (firstReply f s start).buffer.2.cols ∧ ¬ (rows = expected ∧ cols = expected) := by
  refine Iff.trans (first_result_eq_error_iff nofun) ?_
  constructor
  · intro hfault
    cases hfault with
    | jacobianShape _ _ hshape => exact ⟨rfl, rfl, rfl, hshape⟩
  · rintro ⟨rfl, rfl, rfl, hshape⟩
    exact .jacobianShape hadmitted hanswered hshape

theorem silent_of_unsound (h : ¬ (Admitted f start o ∧ SoundStart f s start)) :
    (∃ e, (observe f s start o sink).result = .error e) ∧
      (observe f s start o sink).evaluations.length ≤ 1 ∧
      (solve f s start o sink).journal.sink = sink := by
  obtain ⟨e, evaluations, hfault⟩ := (startFault_or_sound f s start o).resolve_right h
  rw [hfault.observe sink]
  exact ⟨⟨e, rfl⟩, hfault.length_evaluations, hfault.sink_solve sink⟩

theorem start_up_in_order (f : System σ ε) (s : σ) (start : List Float) (o : Settings)
    (sink : Sink) : StartUp f s start o sink where
  stepTolerance := result_eq_stepTolerance_iff
  residualTolerance := result_eq_residualTolerance_iff
  dimension hstep hresidual _ _ := result_eq_dimensionMismatch_iff hstep hresidual
  unevaluated := unevaluated_of_not_admitted
  evaluated := evaluated_of_admitted
  evaluation hadmitted _ := result_eq_evaluation_iff hadmitted
  jacobianShape hadmitted hanswered _ _ _ := result_eq_jacobianShape_iff hadmitted hanswered
  nonFiniteResidual := result_eq_nonFiniteResidual_iff
  silent := silent_of_unsound
  settled hadmitted hsound h := by
    obtain ⟨hevaluations, hresult⟩ := h.observe sink hadmitted hsound
    exact ⟨hevaluations, hresult, fun solver => h.solveBy_eq solver sink⟩

end StartUp

end RootFinding.Newton
