import RootFinding.Proofs.Newton.Bisimulation
import RootFinding.Proofs.Newton.Recurrence
import RootFinding.Proofs.Output.Journal

/-!
# Tracing leaves a solve alone

What a solve stores and prints depends on the settings of the trace and on the sink. All the rest
does not: the trail is made before anything is told, and the events other than lost writes are
read off the trail.
-/

namespace RootFinding

def Summary.withoutHistory (r : Summary) : Summary := { r with history := .empty }

namespace Newton

variable {σ ε : Type}

theorem Failure.isLoss_of_warning {e : Failure ε} {w : Event} (h : e.warning? = some w) :
    w.isLoss = false := by
  cases e with
  | singularJacobian iteration => rw [← Option.some.inj h]; rfl
  | nonFiniteStep iteration => rw [← Option.some.inj h]; rfl
  | _ => cases h

theorem kept_record (o : Settings) (p : Point) (h : History) (j : Journal) :
    (o.record p h j).2.kept = j.kept := by
  rw [Settings.record_snd]
  split
  · exact j.kept_print _ fun _ => rfl
  · rfl

theorem kept_begin (o : Settings) (p : Point) (j : Journal) :
    (Progress.begin o p j).journal.kept = j.kept := by
  unfold Progress.begin
  refine (kept_record o p .empty _).trans ?_
  split
  · exact j.kept_print _ fun _ => rfl
  · rfl

theorem kept_foldl_reach (o : Settings) (points : List Point) (r : Progress) :
    (points.foldl (Progress.reach o) r).journal.kept = r.journal.kept := by
  induction points generalizing r with
  | nil => rfl
  | cons q points ih =>
    rw [List.foldl_cons, ih]
    exact kept_record o q r.history r.journal

def closing (t : Tolerances) (p : Point) : Option (Failure ε) → List Event
  | some e => e.warning?.toList
  | none =>
    (if p.residualNorm.isNaN then [.residualNaN p.index] else []) ++
      [.finished p.index (p.verdict t).converged p.residualNorm]

theorem isLoss_closing (t : Tolerances) (p : Point) (failure : Option (Failure ε)) :
    ∀ e ∈ closing t p failure, e.isLoss = false := by
  intro e he
  cases failure with
  | some failure => exact Failure.isLoss_of_warning (Option.mem_toList.1 he)
  | none =>
    rcases List.mem_append.1 he with hnan | hfinished
    · split at hnan
      · rw [List.mem_singleton.1 hnan]
        rfl
      · cases hnan
    · rw [List.mem_singleton.1 hfinished]
      rfl

theorem journal_outcome {o : Settings} (start : List Float) {r : Progress}
    (hverdict : r.verdict = r.point.verdict o.tolerances) (failure : Option (Failure ε)) (s : σ) :
    ((⟨failure, r.close failure, s⟩ : Ending σ ε).outcome o start).journal =
      (closing o.tolerances r.point failure).foldl Journal.emit r.journal := by
  cases failure with
  | some e =>
    cases hw : e.warning? with
    | none => simp [Ending.outcome, Progress.close, Progress.warn, closing, hw]
    | some w => simp [Ending.outcome, Progress.close, Progress.warn, Progress.emit, closing, hw]
  | none =>
    cases hnan : r.point.residualNorm.isNaN with
    | true =>
      rw [Progress.close_of_isNaN hnan, closing, if_pos hnan, ← hverdict]
      rfl
    | false =>
      have hstays : ¬ r.point.residualNorm.isNaN = true := by rw [hnan]; exact Bool.false_ne_true
      rw [Progress.close_of_not_isNaN hnan, closing, if_neg hstays, ← hverdict]
      rfl

theorem kept_outcome {o : Settings} (start : List Float) {r : Progress}
    (hverdict : r.verdict = r.point.verdict o.tolerances) (failure : Option (Failure ε)) (s : σ) :
    ((⟨failure, r.close failure, s⟩ : Ending σ ε).outcome o start).journal.kept =
      r.journal.kept ++ closing o.tolerances r.point failure := by
  rw [journal_outcome start hverdict, Journal.kept_foldl_emit (isLoss_closing _ _ _)]

theorem kept_opening (o : Settings) (start : List Float) (sink : Sink) :
    (opening o start sink).kept = [.started start.length o.tolerances o.iterations] := by
  rw [opening, Journal.kept_emit _ rfl, Journal.kept_start, List.nil_append]

theorem kept_report {f : System σ ε} {s s' : σ} {start : List Float} {p : Point}
    (hp : Point.Starts f s start p s') (o : Settings) (sink : Sink) {t : Trail σ ε}
    (h : List.IsChain (Point.Linked f) (p :: t.points)) :
    ((t.report o (.begin o p (opening o start sink))).outcome o start).journal.kept =
      .started start.length o.tolerances o.iterations ::
        closing o.tolerances (t.last p) t.failure := by
  have hpoint := foldl_reach_point o t.points (.begin o p (opening o start sink))
  have hverdict := foldl_reach_verdict o (r := .begin o p (opening o start sink)) h
    (hp.verdict_eq o.tolerances).symm
  rw [← hpoint] at hverdict
  rw [Trail.report, kept_outcome start hverdict, kept_foldl_reach, kept_begin, kept_opening, hpoint]
  rfl

theorem precheck_congr (f : System σ ε) {o o' : Settings} (h : o.tolerances = o'.tolerances)
    (start : List Float) : precheck f o start = precheck f o' start := by
  have hfault : o.fault? = o'.fault? := by rw [Settings.fault?, Settings.fault?, h]
  rw [precheck, precheck, hfault]

theorem EndsAt.withoutHistory_eq {o o' : Settings} (h : o.tolerances = o'.tolerances)
    {start : List Float} {p : Point} {r r' : Summary} (hr : EndsAt o start p r)
    (hr' : EndsAt o' start p r') : r.withoutHistory = r'.withoutHistory := by
  obtain ⟨hmethod, hstart, hzero, hnorm, hiterations, hverdict, htolerances, hcalls, hcalls'⟩ := hr
  simp only [Summary.withoutHistory, hmethod, hstart, hzero, hnorm, hiterations, hverdict,
    htolerances, hcalls, hcalls', h, hr'.method, hr'.start, hr'.zero, hr'.residualNorm,
    hr'.iterations, hr'.verdict, hr'.tolerances, hr'.residualCalls, hr'.jacobianCalls]

structure Outcome.AgreesUntraced (a b : Outcome σ ε) : Prop where
  result : a.result.map Summary.withoutHistory = b.result.map Summary.withoutHistory
  state : a.state = b.state
  events : a.journal.kept = b.journal.kept

theorem report_agreesUntraced {f : System σ ε} {s s' : σ} {start : List Float} {p : Point}
    (hp : Point.Starts f s start p s') {o o' : Settings}
    (htolerances : o.tolerances = o'.tolerances) (hiterations : o.iterations = o'.iterations)
    (sink sink' : Sink) {t : Trail σ ε} (h : List.IsChain (Point.Linked f) (p :: t.points)) :
    Outcome.AgreesUntraced ((t.report o (.begin o p (opening o start sink))).outcome o start)
      ((t.report o' (.begin o' p (opening o' start sink'))).outcome o' start) where
  result := by
    have hends := endsAt_foldl_reach hp o (opening o start sink) h
    have hends' := endsAt_foldl_reach hp o' (opening o' start sink') h
    rw [Trail.result_report, Trail.result_report]
    cases t.failure with
    | some e => rfl
    | none => exact congrArg Except.ok (hends.withoutHistory_eq htolerances hends')
  state := by rw [Trail.state_report, Trail.state_report]
  events := by rw [kept_report hp o sink h, kept_report hp o' sink' h, htolerances, hiterations]

theorem solve_agreesUntraced (f : System σ ε) (s : σ) (start : List Float) {o o' : Settings}
    (htolerances : o.tolerances = o'.tolerances) (hiterations : o.iterations = o'.iterations)
    (sink sink' : Sink) :
    Outcome.AgreesUntraced (solve f s start o sink) (solve f s start o' sink') := by
  have hcheck' := precheck_congr f htolerances start
  cases hcheck : precheck f o start with
  | some e =>
    rw [solve_of_precheck sink hcheck, solve_of_precheck sink' (hcheck' ▸ hcheck)]
    exact ⟨rfl, rfl, rfl⟩
  | none =>
    rw [hcheck] at hcheck'
    rcases hstart : Point.start f s start with ⟨e | p, s'⟩
    · rw [solve_of_start_error sink hcheck hstart, solve_of_start_error sink' hcheck'.symm hstart]
      refine ⟨rfl, rfl, ?_⟩
      dsimp only
      rw [kept_opening, kept_opening, htolerances, hiterations]
    · rw [solve_of_start sink hcheck hstart, solve_of_start sink' hcheck'.symm hstart,
        ← htolerances, ← hiterations]
      exact report_agreesUntraced (Point.starts_of_start hstart) htolerances hiterations sink sink'
        (isChain_trail f o.tolerances o.iterations s' p)

/-- Two solves from the same state that differ only in what they store and print, and in the sinks
they print to, end alike, make the same evaluations on the same buffers and tell of the same
events, lost writes apart. -/
theorem solve_indifferent_to_tracing (f : System σ ε) (s : σ) (start : List Float)
    {o o' : Settings} (htolerances : o.tolerances = o'.tolerances)
    (hiterations : o.iterations = o'.iterations) (sink sink' : Sink) :
    (solve f s start o sink).result.map Summary.withoutHistory =
        (solve f s start o' sink').result.map Summary.withoutHistory ∧
      (solve f s start o sink).state = (solve f s start o' sink').state ∧
      (solve f s start o sink).journal.kept = (solve f s start o' sink').journal.kept ∧
      ∃ evaluations,
        (solve f.observed (s, []) start o sink).state =
          ((solve f s start o sink).state, evaluations) ∧
        (solve f.observed (s, []) start o' sink').state =
          ((solve f s start o' sink').state, evaluations) := by
  have hsame := solve_agreesUntraced f s start htolerances hiterations sink sink'
  have hobserved := solve_agreesUntraced f.observed (s, []) start htolerances hiterations sink sink'
  obtain ⟨-, -, hstate⟩ := solve_observed f s [] start o sink
  obtain ⟨-, -, hstate'⟩ := solve_observed f s [] start o' sink'
  have hseen : (solve f.observed (s, []) start o' sink').state.2 =
      (solve f.observed (s, []) start o sink).state.2 := by rw [hobserved.state]
  exact ⟨hsame.result, hsame.state, hsame.events, _, Prod.ext hstate rfl, Prod.ext hstate' hseen⟩

def sevenTracedSteps : Settings := { sevenSteps with storeTrace := true, extendedTrace := true }

theorem solve_diagonalOnCircle_indifferent_to_tracing :
    sevenSteps.tolerances = sevenTracedSteps.tolerances ∧
    sevenSteps.iterations = sevenTracedSteps.iterations ∧
    (solve diagonalOnCircle ((), .none) [1, 0.5] sevenSteps .unlimited).result.map
        Summary.withoutHistory =
      (solve diagonalOnCircle ((), .none) [1, 0.5] sevenTracedSteps (.limited 100 .full)).result.map
        Summary.withoutHistory ∧
    (solve diagonalOnCircle ((), .none) [1, 0.5] sevenSteps .unlimited).state =
      (solve diagonalOnCircle ((), .none) [1, 0.5] sevenTracedSteps (.limited 100 .full)).state ∧
    (solve diagonalOnCircle ((), .none) [1, 0.5] sevenSteps .unlimited).journal.kept =
      (solve diagonalOnCircle ((), .none) [1, 0.5] sevenTracedSteps
        (.limited 100 .full)).journal.kept := by
  have htolerances : sevenSteps.tolerances = sevenTracedSteps.tolerances := rfl
  have hiterations : sevenSteps.iterations = sevenTracedSteps.iterations := rfl
  obtain ⟨hresult, hstate, hevents, -⟩ := solve_indifferent_to_tracing diagonalOnCircle
    ((), .none) [1, 0.5] htolerances hiterations .unlimited (.limited 100 .full)
  exact ⟨htolerances, hiterations, hresult, hstate, hevents⟩

end Newton

end RootFinding
