import RootFinding.Proofs.Binary64.Order
import RootFinding.Proofs.Newton.Transcript

/-!
# Less demanding settings only cut a run short

Two runs of one system from the same state, of which the second has tolerances that are no smaller
and no more iterations, make the same evaluations, show the same text and store the same snapshots
for as long as the second lasts. Wherever the first has to stop the second stops too; where only
the second stops it is no failure, and it is converged if its iterations were not used up.
-/

namespace RootFinding.Newton

variable {σ ε : Type}

theorem converged_mono {t t' : Tolerances} (hstep : t.step ≤ t'.step)
    (hresidual : t.residual ≤ t'.residual) {p : Point} (h : (p.verdict t).converged = true) :
    (p.verdict t').converged = true := by
  have hsmall : t.acceptsResidual p.residual = true → t'.acceptsResidual p.residual = true := by
    simp only [Tolerances.acceptsResidual, decide_eq_true_eq]
    exact fun hlt => Binary64.lt_trans_le hlt hresidual
  have hshort : t.acceptsStep p.x p.previous = true → t'.acceptsStep p.x p.previous = true := by
    simp only [Tolerances.acceptsStep, decide_eq_true_eq]
    exact fun hlt => Binary64.lt_trans_le hlt hstep
  unfold Point.verdict Verdict.converged at h ⊢
  split at h
  · next hzero =>
    rw [if_pos hzero]
    simp only [Tolerances.judgeStart, Bool.false_or] at h ⊢
    exact hsmall h
  · next hpos =>
    rw [if_neg hpos]
    simp only [Tolerances.judge, Bool.or_eq_true] at h ⊢
    exact h.imp hshort hsmall

theorem looser_of_le {t t' : Tolerances} (hstep : t.step ≤ t'.step)
    (hresidual : t.residual ≤ t'.residual) : Looser t t' := by
  intro p h
  rw [Point.rests, Bool.or_eq_true] at h ⊢
  exact h.imp_left (converged_mono hstep hresidual)

theorem rests_of_short {f : System σ ε} {t : Tolerances} {n : Nat} {s : σ} {p : Point}
    (hfailure : (trail f t n s p).failure = none)
    (hshort : (trail f t n s p).points.length < n) :
    ((trail f t n s p).last p).rests t = true := by
  fun_induction trail f t n s p with
  | case1 s p => exact absurd hshort (Nat.lt_irrefl 0)
  | case2 n s p hrest => exact hrest
  | case3 n s p hmoves e s' hnext => cases hfailure
  | case4 n s p hmoves q s' hnext ih =>
    rw [Trail.last_after]
    exact ih hfailure (Nat.lt_of_succ_lt_succ hshort)

structure Run (σ ε : Type) where
  result : Except (Failure ε) Summary
  evaluations : List (Evaluation σ ε)
  output : ByteArray

def observe (f : System σ ε) (s : σ) (start : List Float) (o : Settings) (sink : Sink) :
    Run σ ε where
  result := (solve f s start o sink).result
  evaluations := (solve f.observed (s, []) start o sink).state.2
  output := (solve f s start o sink).journal.sink.received

theorem observe_eq (f : System σ ε) (s : σ) (start : List Float) (o : Settings) (sink : Sink) :
    observe f s start o sink =
      ⟨(solve f.observed (s, []) start o sink).result,
        (solve f.observed (s, []) start o sink).state.2,
        (solve f.observed (s, []) start o sink).journal.sink.received⟩ := by
  obtain ⟨hresult, hjournal, -⟩ := solve_observed f s [] start o sink
  rw [observe, hresult, hjournal]

def Visit.unobserved (v : Visit (σ × List (Evaluation σ ε))) : Visit σ :=
  ⟨v.x, v.residual, v.jacobian, v.state.1⟩

theorem visit_observed (f : System σ ε) (n : Nat) (s : σ × List (Evaluation σ ε))
    (x residual : List Float) (jacobian : DenseMatrix Float) :
    (visit f.observed n s x residual jacobian).map Visit.unobserved =
      visit f n s.1 x residual jacobian := by
  have hrun : f.observed.both.run s x (residual, jacobian) =
      ⟨(f.both.run s.1 x (residual, jacobian)).failure,
        (f.both.run s.1 x (residual, jacobian)).buffer,
        ((f.both.run s.1 x (residual, jacobian)).state, s.2 ++ [.both s.1 x (residual, jacobian)
          (f.both.run s.1 x (residual, jacobian))])⟩ := rfl
  unfold visit
  rw [hrun]
  generalize f.both.run s.1 x (residual, jacobian) = reply
  obtain ⟨failure, buffer, state⟩ := reply
  cases failure with
  | some e => rfl
  | none =>
    dsimp only
    split <;> rfl

theorem orbit_observed (f : System σ ε) (s : σ) (seen : List (Evaluation σ ε))
    (start : List Float) (k : Nat) :
    (orbit f.observed (s, seen) start k).map Visit.unobserved = orbit f s start k := by
  induction k with
  | zero =>
    have hvisit := visit_observed f start.length (s, seen) start (List.replicate start.length 0)
      (.filled start.length start.length 0)
    rw [orbit, orbit, ← hvisit]
    cases visit f.observed start.length (s, seen) start (List.replicate start.length 0)
      (.filled start.length start.length 0) with
    | error e => rfl
    | ok v =>
      by_cases hfinite : v.residual.all Float.isFinite = true
      · simp [bind, Except.bind, Except.map, Visit.unobserved, hfinite]
      · simp [bind, Except.bind, Except.map, Visit.unobserved, hfinite]
  | succ k ih =>
    rw [orbit, orbit, ← ih]
    cases orbit f.observed (s, seen) start k with
    | error e => rfl
    | ok v =>
      have hok : (Except.ok v : Except (Failure ε) _).map Visit.unobserved = .ok v.unobserved := rfl
      rw [hok]
      simp only [bind, Except.bind, Visit.unobserved]
      cases direction? v.jacobian.toRows v.residual with
      | none => rfl
      | some d =>
        by_cases hfinite : d.all Float.isFinite = true
        · simp only [hfinite, if_true]
          exact visit_observed f _ _ _ _ _
        · simp only [hfinite]
          rfl

theorem orbit_observed_ok {f : System σ ε} {s : σ} {start : List Float} {k : Nat} :
    (∃ v, orbit f.observed (s, []) start k = .ok v) ↔ ∃ v, orbit f s start k = .ok v := by
  rw [← orbit_observed f s []]
  cases orbit f.observed (s, []) start k with
  | error e => simp [Except.map]
  | ok v => simp [Except.map]

theorem orbit_observed_error {f : System σ ε} {s : σ} {start : List Float} {k : Nat}
    {e : Failure ε} :
    orbit f.observed (s, []) start k = .error e ↔ orbit f s start k = .error e := by
  rw [← orbit_observed f s []]
  cases orbit f.observed (s, []) start k with
  | error e' => simp [Except.map]
  | ok v => simp [Except.map]

theorem failsAfter_observed {f : System σ ε} {s : σ} {start : List Float} {k : Nat}
    {e : Failure ε} :
    FailsAfter f.observed (s, []) start k e ↔ FailsAfter f s start k e := by
  rw [FailsAfter, FailsAfter, orbit_observed_ok, orbit_observed_error]

structure Told (o : Settings) (sink : Sink) (p : Point)
    (t : Trail (σ × List (Evaluation σ ε)) ε) (run : Run σ ε) : Prop where
  evaluations : run.evaluations = t.state.2
  output : run.output = (sink.writeAll ((o.pieces (p :: t.points)).map Piece.text)).received
  failed : ∀ e, t.failure = some e → run.result = .error e
  ended : t.failure = none → ∃ r, run.result = .ok r ∧ r.iterations = t.points.length ∧
    r.history.snapshots.toList = (if o.storeTrace then
      (p :: t.points).map (Point.snapshot · o.extendedTrace) else []) ∧
    r.converged = ((t.last p).verdict o.tolerances).converged

theorem snapshots_of_not_stored {o : Settings} (hstore : ¬ o.storeTrace = true) (p : Point)
    (points : List Point) (j : Journal) :
    (points.foldl (Progress.reach o) (.begin o p j)).history.snapshots.toList = [] := by
  have hbegin : (Progress.begin o p j).history.snapshots.toList = [] := by
    unfold Progress.begin
    dsimp only
    rw [Settings.record_fst, if_neg hstore]
    rfl
  generalize Progress.begin o p j = r at hbegin
  induction points generalizing r with
  | nil => exact hbegin
  | cons q points ih =>
    refine ih (r.reach o q) ?_
    have hreach : (r.reach o q).history = (o.record q r.history r.journal).1 := rfl
    rw [hreach, Settings.record_fst, if_neg hstore]
    exact hbegin

section Started

variable {f : System σ ε} {s : σ} {s' : σ × List (Evaluation σ ε)} {start : List Float}
  {o : Settings} {p : Point}

theorem told_of_start (sink : Sink) (hcheck : precheck f o start = none)
    (hstart : Point.start f.observed (s, []) start = (.ok p, s')) :
    Told o sink p (trail f.observed o.tolerances o.iterations s' p)
      (observe f s start o sink) := by
  have hcheck : precheck f.observed o start = none := hcheck
  rw [observe_eq]
  refine ⟨?_, ?_, ?_, ?_⟩
  · rw [solve_of_start sink hcheck hstart, Trail.state_report]
  · have hsink := (foldl_emit_losses
      (isLoss_closing o.tolerances ((trail f.observed o.tolerances o.iterations s' p).last p)
        (trail f.observed o.tolerances o.iterations s' p).failure)
      ((opening o start sink).printAll
        (o.pieces (p :: (trail f.observed o.tolerances o.iterations s' p).points)))).1
    rw [← journal_solve sink hcheck hstart, Journal.sink_printAll] at hsink
    rw [hsink]
    rfl
  · intro e he
    exact solve_error_of_trail sink hcheck hstart he
  · intro hfailure
    obtain ⟨r, hr, hends, hhistory⟩ := endsAt_of_trail sink hcheck hstart hfailure
    have hchain := isChain_trail f.observed o.tolerances o.iterations s' p
    have hzero := (Point.starts_of_start hstart).index
    refine ⟨r, hr, hends.iterations.trans (length_of_isChain hchain hzero), ?_, ?_⟩
    · rw [hhistory]
      split
      · next hstore =>
        rw [foldl_reach_snapshots hstore, snapshots_begin hstore]
        rfl
      · next hstore => exact snapshots_of_not_stored hstore _ _ _
    · rw [Summary.converged, hends.verdict]

theorem Told.failure_of_error {sink : Sink} {t : Trail (σ × List (Evaluation σ ε)) ε}
    {run : Run σ ε} (h : Told o sink p t run) {e : Failure ε} (he : run.result = .error e) :
    t.failure = some e := by
  cases hfailure : t.failure with
  | none =>
    obtain ⟨r, hr, -⟩ := h.ended hfailure
    rw [he] at hr
    cases hr
  | some e' =>
    have he' := h.failed e' hfailure
    rw [he] at he'
    rw [Except.error.inj he']

theorem Told.failure_of_ok {sink : Sink} {t : Trail (σ × List (Evaluation σ ε)) ε}
    {run : Run σ ε} (h : Told o sink p t run) {r : Summary} (hr : run.result = .ok r) :
    t.failure = none := by
  cases hfailure : t.failure with
  | none => rfl
  | some e =>
    have he := h.failed e hfailure
    rw [hr] at he
    cases he

end Started

structure Settings.Relaxed (o o' : Settings) : Prop where
  step : o.tolerances.step ≤ o'.tolerances.step
  residual : o.tolerances.residual ≤ o'.tolerances.residual
  iterations : o'.iterations ≤ o.iterations
  storeTrace : o'.storeTrace = o.storeTrace
  printTrace : o'.printTrace = o.printTrace
  extendedTrace : o'.extendedTrace = o.extendedTrace

def FailsAtStart (f : System σ ε) (s : σ) (start : List Float) (o : Settings) (e : Failure ε) :
    Prop :=
  precheck f o start = some e ∨ (precheck f o start = none ∧ orbit f s start 0 = .error e)

/-- The start-up is passed, and iteration `k + 1` is the first to fail. -/
def FailsDuring (f : System σ ε) (s : σ) (start : List Float) (o : Settings) (k : Nat)
    (e : Failure ε) : Prop :=
  precheck f o start = none ∧ FailsAfter f s start k e

structure Truncates (f : System σ ε) (s : σ) (start : List Float) (o o' : Settings) (sink : Sink)
    (run run' : Run σ ε) : Prop where
  evaluations : run'.evaluations <+: run.evaluations
  output : ∃ rest, run.output = run'.output ++ rest
  error : ∀ e, run'.result = .error e → run = run'
  failure : ∀ e, run.result = .error e →
    FailsAtStart f s start o e ∨ ∃ k < o.iterations, FailsDuring f s start o k e
  atStart : ∀ e, FailsAtStart f s start o e → run.result = .error e ∧ run' = run
  during : ∀ k e, run.result = .error e → FailsDuring f s start o k e →
    run' = run ∨ ∃ r', run'.result = .ok r' ∧ r'.iterations ≤ k
  ok : ∀ r r', run.result = .ok r → run'.result = .ok r' →
    r'.iterations ≤ r.iterations ∧
      r'.history.snapshots.toList <+: r.history.snapshots.toList ∧
      (o'.iterations = o.iterations → r.converged = true → r'.converged = true)
  limited : ∀ k e, run.result = .error e → FailsDuring f s start o k e → ∃ r,
    (observe f s start { o with iterations := k } sink).result = .ok r ∧ r.iterations = k ∧
      run.output = (observe f s start { o with iterations := k } sink).output ∧
      ∃ extra, Breakdown (k + 1) e extra ∧
        run.evaluations = (observe f s start { o with iterations := k } sink).evaluations ++ extra

section Truncates

variable {f : System σ ε} {s : σ} {start : List Float} {o o' : Settings} {sink : Sink}

theorem FailsAtStart.unique {e e' : Failure ε} (h : FailsAtStart f s start o e)
    (h' : FailsAtStart f s start o e') : e = e' := by
  rcases h with h | ⟨hcheck, h⟩
  · rcases h' with h' | ⟨hcheck', -⟩
    · exact Option.some.inj (h.symm.trans h')
    · rw [h] at hcheck'
      cases hcheck'
  · rcases h' with h' | ⟨-, h'⟩
    · rw [hcheck] at h'
      cases h'
    · exact Except.error.inj (h.symm.trans h')

theorem FailsDuring.not_atStart {k : Nat} {e e' : Failure ε} (h : FailsDuring f s start o k e)
    (h' : FailsAtStart f s start o e') : False := by
  obtain ⟨hcheck, ⟨v, hv⟩, -⟩ := h
  rcases h' with h' | ⟨-, h'⟩
  · rw [hcheck] at h'
    cases h'
  · rw [orbit_error_of_le h' (Nat.zero_le k)] at hv
    cases hv

theorem truncates_of_failsAtStart {e : Failure ε} (hfails : FailsAtStart f s start o e)
    (hrun : (observe f s start o sink).result = .error e)
    (hsame : observe f s start o' sink = observe f s start o sink) :
    Truncates f s start o o' sink (observe f s start o sink) (observe f s start o' sink) where
  evaluations := by rw [hsame]
  output := ⟨.empty, by rw [hsame, ByteArray.append_empty]⟩
  error _ _ := hsame.symm
  failure := by
    intro e' he'
    rw [Except.error.inj (he'.symm.trans hrun)]
    exact Or.inl hfails
  atStart := by
    intro e' he'
    rw [he'.unique hfails]
    exact ⟨hrun, hsame⟩
  during _ _ _ _ := Or.inl hsame
  ok := by
    intro r r' hr
    rw [hrun] at hr
    cases hr
  limited _ _ _ hduring := (hduring.not_atStart hfails).elim

variable {p : Point} {s' : σ × List (Evaluation σ ε)}

theorem not_failsAtStart (hcheck : precheck f o start = none)
    (hstart : Point.start f.observed (s, []) start = (.ok p, s')) (e : Failure ε) :
    ¬ FailsAtStart f s start o e := by
  rintro (h | ⟨-, h⟩)
  · rw [hcheck] at h
    cases h
  · rw [← orbit_observed_error, orbit_zero, hstart] at h
    cases h

theorem failsDuring_of_trail (hcheck : precheck f o start = none)
    (hstart : Point.start f.observed (s, []) start = (.ok p, s')) {e : Failure ε}
    (h : (trail f.observed o.tolerances o.iterations s' p).failure = some e) :
    FailsDuring f s start o (trail f.observed o.tolerances o.iterations s' p).points.length e := by
  have hfails := failsAfter_of_trail (Located.of_start hstart) h
  rw [(Point.starts_of_start hstart).index, Nat.zero_add] at hfails
  exact ⟨hcheck, failsAfter_observed.1 hfails⟩

theorem limited_of_start (hcheck : precheck f o start = none)
    (hstart : Point.start f.observed (s, []) start = (.ok p, s')) {k : Nat} {e : Failure ε}
    (hrun : (observe f s start o sink).result = .error e) (hduring : FailsDuring f s start o k e) :
    ∃ r, (observe f s start { o with iterations := k } sink).result = .ok r ∧ r.iterations = k ∧
      (observe f s start o sink).output =
        (observe f s start { o with iterations := k } sink).output ∧
      ∃ extra, Breakdown (k + 1) e extra ∧ (observe f s start o sink).evaluations =
        (observe f s start { o with iterations := k } sink).evaluations ++ extra := by
  have htold := told_of_start sink hcheck hstart
  have hfailure := htold.failure_of_error hrun
  obtain rfl := hduring.2.unique (failsDuring_of_trail hcheck hstart hfailure).2
  obtain ⟨hends, hpoints⟩ := trail_length f.observed o.tolerances o.iterations s' p
  have hcut := told_of_start (o := { o with
    iterations := (trail f.observed o.tolerances o.iterations s' p).points.length }) sink hcheck
    hstart
  obtain ⟨r, hr, hiterations, -⟩ := hcut.ended hends
  obtain ⟨extra, hextra, hbreakdown⟩ := Breakdown.of_next (next_of_cut_trail hfailure)
  have hindex : ((trail f.observed o.tolerances o.iterations s' p).last p).index =
      (trail f.observed o.tolerances o.iterations s' p).points.length :=
    length_of_isChain (isChain_trail f.observed o.tolerances o.iterations s' p)
      (Point.starts_of_start hstart).index
  rw [hindex] at hbreakdown
  refine ⟨r, hr, hiterations.trans (congrArg List.length hpoints), ?_, extra, hbreakdown, ?_⟩
  · rw [htold.output, hcut.output]
    exact congrArg (fun points => (sink.writeAll
      ((o.pieces (p :: points)).map Piece.text)).received) hpoints.symm
  · rw [htold.evaluations, hcut.evaluations]
    exact hextra

theorem Settings.Relaxed.looser (h : o.Relaxed o') : Looser o.tolerances o'.tolerances :=
  looser_of_le h.step h.residual

theorem Settings.Relaxed.pieces_eq (h : o.Relaxed o') (points : List Point) :
    o'.pieces points = o.pieces points := by
  have hprints : o'.printsTrace = o.printsTrace := by
    rw [Settings.printsTrace, Settings.printsTrace, h.printTrace, h.extendedTrace]
  have hpiece : o'.piece = o.piece := by
    funext p
    rw [Settings.piece, Settings.piece, h.extendedTrace]
  rw [Settings.pieces, Settings.pieces, hprints, hpiece]

theorem points_prefix {f : System σ ε} {s : σ} {p : Point} {t t' : Tolerances} {m n : Nat}
    (hloose : Looser t t') (hle : m ≤ n) :
    (trail f t' m s p).points <+: (trail f t n s p).points := by
  cases hfailure : (trail f t' m s p).failure with
  | some e => rw [trail_eq_of_failure hloose hle hfailure]
  | none =>
    rw [trail_eq_behind hloose hle hfailure]
    exact List.prefix_append _ _

theorem seen_prefix {s : σ × List (Evaluation σ ε)} {t t' : Tolerances} {m n : Nat}
    (hloose : Looser t t') (hle : m ≤ n) :
    (trail f.observed t' m s p).state.2 <+: (trail f.observed t n s p).state.2 := by
  cases hfailure : (trail f.observed t' m s p).failure with
  | some e => rw [trail_eq_of_failure hloose hle hfailure]
  | none =>
    rw [trail_eq_behind hloose hle hfailure]
    exact seen_trail f t _ _ _

theorem converged_of_looser {f : System σ ε} {s : σ} {p : Point} {n : Nat}
    (h : o.Relaxed o') (hfailure : (trail f o'.tolerances n s p).failure = none)
    (hconverged : (((trail f o.tolerances n s p).last p).verdict o.tolerances).converged = true) :
    (((trail f o'.tolerances n s p).last p).verdict o'.tolerances).converged = true := by
  have hbehind := trail_eq_behind h.looser (Nat.le_refl n) hfailure
  -- the longer trail goes on from `q`, or it ends there as well
  generalize hq : (trail f o'.tolerances n s p).last p = q at hbehind
  by_cases hrest : q.rests o.tolerances = true
  · rw [trail_of_rests f hrest] at hbehind
    have hlast : (trail f o.tolerances n s p).last p = q := by
      rw [hbehind, ← hq, Trail.last, Trail.behind, Trail.last, List.append_nil]
    rw [hlast] at hconverged
    exact converged_mono h.step h.residual hconverged
  · have hmoves := eq_false_of_ne_true hrest
    rw [Point.rests, Bool.or_eq_false_iff] at hmoves
    by_cases hshort : (trail f o'.tolerances n s p).points.length < n
    · have hrests := rests_of_short hfailure hshort
      rw [hq, Point.rests, hmoves.2, Bool.or_false] at hrests
      exact hrests
    · have hfull : n - (trail f o'.tolerances n s p).points.length = 0 := by omega
      rw [hfull] at hbehind
      have hlast : (trail f o.tolerances n s p).last p = q := by
        rw [hbehind, ← hq, Trail.last, Trail.behind, Trail.last, trail, List.append_nil]
      rw [hlast, hmoves.1] at hconverged
      cases hconverged

theorem output_prefix (h : o.Relaxed o') (p : Point) {points points' : List Point}
    (hcut : points' <+: points) :
    ∃ rest, (sink.writeAll ((o.pieces (p :: points)).map Piece.text)).received =
      (sink.writeAll ((o'.pieces (p :: points')).map Piece.text)).received ++ rest := by
  obtain ⟨later, rfl⟩ := hcut
  rw [← List.cons_append, o.pieces_append, List.map_append, Sink.writeAll_append, h.pieces_eq]
  exact Sink.received_writeAll _ _

theorem Told.run_eq {t : Trail (σ × List (Evaluation σ ε)) ε} {run run' : Run σ ε}
    (htold : Told o sink p t run) (htold' : Told o' sink p t run') (h : o.Relaxed o')
    {e : Failure ε} (he : t.failure = some e) : run = run' := by
  obtain ⟨result, evaluations, output⟩ := run
  obtain ⟨result', evaluations', output'⟩ := run'
  have houtput := htold'.output
  rw [h.pieces_eq] at houtput
  obtain rfl : result = result' := (htold.failed e he).trans (htold'.failed e he).symm
  obtain rfl : evaluations = evaluations' := htold.evaluations.trans htold'.evaluations.symm
  obtain rfl : output = output' := htold.output.trans houtput.symm
  rfl

theorem truncates_of_start (h : o.Relaxed o') (hcheck : precheck f o start = none)
    (hcheck' : precheck f o' start = none)
    (hstart : Point.start f.observed (s, []) start = (.ok p, s')) :
    Truncates f s start o o' sink (observe f s start o sink) (observe f s start o' sink) := by
  have htold := told_of_start sink hcheck hstart
  have htold' := told_of_start sink hcheck' hstart
  have hpoints : (trail f.observed o'.tolerances o'.iterations s' p).points <+:
      (trail f.observed o.tolerances o.iterations s' p).points :=
    points_prefix h.looser h.iterations
  -- where the second run fails the first one cannot go on either, so the two are one
  have hsame {e : Failure ε}
      (he : (trail f.observed o'.tolerances o'.iterations s' p).failure = some e) :
      observe f s start o sink = observe f s start o' sink := by
    have htrail := trail_eq_of_failure h.looser h.iterations he
    rw [htrail] at htold
    exact htold.run_eq htold' h he
  refine
    { evaluations := ?evaluations, output := ?output, error := ?error, failure := ?failure,
      atStart := ?atStart, during := ?during, ok := ?ok, limited := ?limited }
  case evaluations =>
    rw [htold.evaluations, htold'.evaluations]
    exact seen_prefix h.looser h.iterations
  case output =>
    rw [htold.output, htold'.output]
    exact output_prefix h p hpoints
  case error => exact fun e he => hsame (htold'.failure_of_error he)
  case failure =>
    intro e he
    have hfailure := htold.failure_of_error he
    exact Or.inr ⟨_, lt_of_trail_failure hfailure, failsDuring_of_trail hcheck hstart hfailure⟩
  case atStart => exact fun e he => (not_failsAtStart hcheck hstart e he).elim
  case during =>
    intro k e he hduring
    have hfails := failsDuring_of_trail hcheck hstart (htold.failure_of_error he)
    obtain rfl := hduring.2.unique hfails.2
    cases hfailure' : (trail f.observed o'.tolerances o'.iterations s' p).failure with
    | some e' => exact Or.inl (hsame hfailure').symm
    | none =>
      obtain ⟨r', hr', hiterations, -⟩ := htold'.ended hfailure'
      exact Or.inr ⟨r', hr', hiterations.trans_le hpoints.length_le⟩
  case ok =>
    intro r r' hr hr'
    have hfailure := htold.failure_of_ok hr
    have hfailure' := htold'.failure_of_ok hr'
    obtain ⟨r₁, hr₁, hiterations, hhistory, hconverged⟩ := htold.ended hfailure
    obtain ⟨r₂, hr₂, hiterations', hhistory', hconverged'⟩ := htold'.ended hfailure'
    obtain rfl := Except.ok.inj (hr.symm.trans hr₁)
    obtain rfl := Except.ok.inj (hr'.symm.trans hr₂)
    refine ⟨?_, ?_, ?_⟩
    · rw [hiterations, hiterations']
      exact hpoints.length_le
    · rw [hhistory, hhistory', h.storeTrace, h.extendedTrace]
      split
      · exact (List.cons_prefix_cons.2 ⟨rfl, hpoints⟩).map _
      · exact List.prefix_refl []
    · intro heq hr
      rw [hconverged']
      rw [hconverged, ← heq] at hr
      exact converged_of_looser h hfailure' hr
  case limited => exact fun k e he hduring => limited_of_start hcheck hstart he hduring

theorem solve_truncated (f : System σ ε) (s : σ) (start : List Float) (sink : Sink)
    {o o' : Settings} (hvalid : o.fault? = none) (hvalid' : o'.fault? = none)
    (h : o.Relaxed o') :
    Truncates f s start o o' sink (observe f s start o sink) (observe f s start o' sink) := by
  have hsame : precheck f o' start = precheck f o start := by
    rw [precheck, precheck, hvalid, hvalid']
  cases hcheck : precheck f o start with
  | some e =>
    have hcheck' := hsame.trans hcheck
    have hrun (o : Settings) (hcheck : precheck f o start = some e) :
        observe f s start o sink = ⟨.error e, [], sink.received⟩ := by
      have hobserved : precheck f.observed o start = some e := hcheck
      rw [observe_eq, solve_of_precheck sink hobserved]
      rfl
    refine truncates_of_failsAtStart (Or.inl hcheck) ?_ ?_
    · rw [hrun o hcheck]
    · rw [hrun o hcheck, hrun o' hcheck']
  | none =>
    have hcheck' := hsame.trans hcheck
    rcases hstart : Point.start f.observed (s, []) start with ⟨e | p, s'⟩
    · have hfails : orbit f s start 0 = .error e := by
        rw [← orbit_observed_error, orbit_zero, hstart]
        rfl
      have hrun (o : Settings) (hcheck : precheck f o start = none) :
          observe f s start o sink = ⟨.error e, s'.2, sink.received⟩ := by
        have hobserved : precheck f.observed o start = none := hcheck
        rw [observe_eq, solve_of_start_error sink hobserved hstart]
        rfl
      refine truncates_of_failsAtStart (Or.inr ⟨hcheck, hfails⟩) ?_ ?_
      · rw [hrun o hcheck]
      · rw [hrun o hcheck, hrun o' hcheck']
    · exact truncates_of_start h hcheck hcheck' hstart

end Truncates

def fewTracedSteps : Settings :=
  { sevenTracedSteps with tolerances := ⟨1e-3, 1e-4⟩, iterations := 5 }

theorem solve_diagonalOnCircle_truncated :
    sevenTracedSteps.fault? = none ∧ fewTracedSteps.fault? = none ∧
      sevenTracedSteps.Relaxed fewTracedSteps ∧
      Truncates diagonalOnCircle ((), .none) [1, 0.5] sevenTracedSteps fewTracedSteps .unlimited
        (observe diagonalOnCircle ((), .none) [1, 0.5] sevenTracedSteps .unlimited)
        (observe diagonalOnCircle ((), .none) [1, 0.5] fewTracedSteps .unlimited) := by
  have hvalid : sevenTracedSteps.fault? = none := by decide +kernel
  have hvalid' : fewTracedSteps.fault? = none := by decide +kernel
  have hrelaxed : sevenTracedSteps.Relaxed fewTracedSteps :=
    ⟨by decide +kernel, by decide +kernel, by decide, rfl, rfl, rfl⟩
  exact ⟨hvalid, hvalid', hrelaxed, solve_truncated _ _ _ _ hvalid hvalid' hrelaxed⟩

end RootFinding.Newton
