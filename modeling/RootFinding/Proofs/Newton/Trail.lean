import Mathlib.Data.List.Chain
import RootFinding.Newton.Solve
import RootFinding.Proofs.Newton.Step
import RootFinding.Proofs.Norm

/-!
# The trail of a run

From an evaluated starting point on, a run leaves a trail: the points it reached, in order, the
failure that ended it, if one did, and the state it left the system in. The trail is made from
the system, the tolerances and the number of iterations alone. The loop of a solve is its trail
reported point by point, so what a solve computes and what it tells can be looked at apart.
-/

namespace RootFinding.Newton

variable {σ ε : Type}

namespace Point

def verdict (p : Point) (t : Tolerances) : Verdict :=
  if p.index = 0 then t.judgeStart p.residual else t.judge p.x p.previous p.residual

theorem smallResidual_verdict (p : Point) (t : Tolerances) :
    (p.verdict t).smallResidual = t.acceptsResidual p.residual := by
  unfold verdict
  split
  · rfl
  · rfl

/-- No step leaves a point that passed a test or whose residual is NaN. -/
def rests (p : Point) (t : Tolerances) : Bool :=
  (p.verdict t).converged || p.residualNorm.isNaN

theorem rests_eq_false {p : Point} {t : Tolerances} {v : Verdict} (hv : v = p.verdict t)
    (hconverged : ¬ v.converged = true) (hnan : p.residualNorm.isNaN = false) :
    p.rests t = false := by
  rw [rests, ← hv, eq_false_of_ne_true hconverged, hnan]
  rfl

theorem Starts.not_isNaN {f : System σ ε} {s s' : σ} {x : List Float} {p : Point}
    (h : Starts f s x p s') : p.residualNorm.isNaN = false :=
  isNaN_infNorm_of_finite h.finite

theorem Starts.verdict_eq {f : System σ ε} {s s' : σ} {x : List Float} {p : Point}
    (h : Starts f s x p s') (t : Tolerances) : p.verdict t = t.judgeStart p.residual :=
  if_pos h.index

theorem Follows.verdict_eq {f : System σ ε} {p q : Point} {s s' : σ} (h : Follows f p s q s')
    (t : Tolerances) : q.verdict t = t.judge q.x q.previous q.residual :=
  if_neg (by rw [h.index]; exact Nat.succ_ne_zero _)

end Point

structure Trail (σ ε : Type) where
  /-- the points after the first -/
  points : List Point
  failure : Option (Failure ε)
  state : σ

namespace Trail

def after (q : Point) (t : Trail σ ε) : Trail σ ε := { t with points := q :: t.points }

def last (t : Trail σ ε) (p : Point) : Point := t.points.getLastD p

theorem last_after (t : Trail σ ε) (p q : Point) : (t.after q).last p = t.last q :=
  List.getLastD_cons

end Trail

def trail (f : System σ ε) (t : Tolerances) : Nat → σ → Point → Trail σ ε
  | 0, s, _ => ⟨[], none, s⟩
  | remaining + 1, s, p =>
    if p.rests t then ⟨[], none, s⟩
    else
      match p.next f s with
      | (.error e, s) => ⟨[], some e, s⟩
      | (.ok q, s) => (trail f t remaining s q).after q

theorem trail_of_rests (f : System σ ε) {t : Tolerances} {p : Point} (h : p.rests t = true)
    (remaining : Nat) (s : σ) : trail f t remaining s p = ⟨[], none, s⟩ := by
  cases remaining with
  | zero => rfl
  | succ remaining => rw [trail, if_pos h]

theorem trail_of_error {f : System σ ε} {t : Tolerances} {p : Point} {s s' : σ} {e : Failure ε}
    (h : p.rests t = false) (hnext : p.next f s = (.error e, s')) (remaining : Nat) :
    trail f t (remaining + 1) s p = ⟨[], some e, s'⟩ := by
  rw [trail, if_neg (by simp [h]), hnext]

theorem trail_of_ok {f : System σ ε} {t : Tolerances} {p q : Point} {s s' : σ}
    (h : p.rests t = false) (hnext : p.next f s = (.ok q, s')) (remaining : Nat) :
    trail f t (remaining + 1) s p = (trail f t remaining s' q).after q := by
  rw [trail, if_neg (by simp [h]), hnext]

def Point.Linked (f : System σ ε) (p q : Point) : Prop := ∃ s s', Point.Follows f p s q s'

theorem isChain_trail (f : System σ ε) (t : Tolerances) (remaining : Nat) (s : σ) (p : Point) :
    List.IsChain (Point.Linked f) (p :: (trail f t remaining s p).points) := by
  fun_induction trail f t remaining s p with
  | case1 s p => exact List.IsChain.singleton p
  | case2 remaining s p hrest => exact List.IsChain.singleton p
  | case3 remaining s p hmoves e s' hnext => exact List.IsChain.singleton p
  | case4 remaining s p hmoves q s' hnext ih =>
    have hlinked : Point.Linked f p q := ⟨s, s', Point.follows_of_next hnext⟩
    exact List.isChain_cons_cons.2 ⟨hlinked, ih⟩

section Chain

variable {f : System σ ε} {p q : Point} {points : List Point}

theorem index_of_isChain {k : Nat} (h : List.IsChain (Point.Linked f) (p :: points))
    (hq : (p :: points)[k]? = some q) : q.index = p.index + k := by
  induction points generalizing p k with
  | nil =>
    cases k with
    | zero =>
      obtain rfl : p = q := by simpa using hq
      rfl
    | succ k => simp at hq
  | cons next rest ih =>
    obtain ⟨⟨s, s', hnext⟩, hrest⟩ := List.isChain_cons_cons.1 h
    cases k with
    | zero =>
      obtain rfl : p = q := by simpa using hq
      rfl
    | succ k =>
      have hk := ih hrest hq
      rw [hk, hnext.index]
      omega

theorem square_of_isChain {n : Nat} (h : List.IsChain (Point.Linked f) (p :: points))
    (hp : p.Square n) : ∀ q ∈ p :: points, q.Square n :=
  h.induction (Point.Square n) _ (fun _ _ ⟨_, _, hnext⟩ hsquare => hnext.square hsquare)
    fun _ => hp

end Chain

def Progress.close (r : Progress) : Option (Failure ε) → Progress
  | some e => r.warn e
  | none =>
    if r.point.residualNorm.isNaN then r.emit (.residualNaN r.point.index) else r

theorem Progress.close_of_isNaN {r : Progress} (h : r.point.residualNorm.isNaN = true) :
    r.close (none : Option (Failure ε)) = r.emit (.residualNaN r.point.index) := if_pos h

theorem Progress.close_of_not_isNaN {r : Progress} (h : r.point.residualNorm.isNaN = false) :
    r.close (none : Option (Failure ε)) = r := if_neg (by rw [h]; exact Bool.false_ne_true)

def Trail.report (o : Settings) (r : Progress) (t : Trail σ ε) : Ending σ ε :=
  ⟨t.failure, (t.points.foldl (Progress.reach o) r).close t.failure, t.state⟩

theorem Trail.report_of_not_isNaN (o : Settings) (s : σ) {r : Progress}
    (h : r.point.residualNorm.isNaN = false) :
    (⟨[], none, s⟩ : Trail σ ε).report o r = ⟨none, r, s⟩ := by
  rw [Trail.report]
  exact congrArg (Ending.mk none · s) (Progress.close_of_not_isNaN h)

theorem iterate_eq_report (f : System σ ε) (o : Settings) (remaining : Nat) (s : σ) (r : Progress)
    (hverdict : r.verdict = r.point.verdict o.tolerances)
    (hnan : r.point.residualNorm.isNaN = false) :
    iterate f o remaining s r = (trail f o.tolerances remaining s r.point).report o r := by
  fun_induction iterate f o remaining s r with
  | case1 s r => exact (Trail.report_of_not_isNaN o s hnan).symm
  | case2 remaining s r hconverged =>
    have hrest : r.point.rests o.tolerances = true := by
      rw [Point.rests, ← hverdict, hconverged, Bool.true_or]
    rw [trail_of_rests f hrest, Trail.report_of_not_isNaN o s hnan]
  | case3 remaining s r hconverged e s' hnext =>
    have hmoves := Point.rests_eq_false hverdict hconverged hnan
    rw [trail_of_error hmoves hnext]
    rfl
  | case4 remaining s r hconverged q s' hnext hstop =>
    -- a residual that is NaN stops the loop here, and the trail one call later
    have hmoves := Point.rests_eq_false hverdict hconverged hnan
    have hrest : q.rests o.tolerances = true := by rw [Point.rests, hstop, Bool.or_true]
    rw [trail_of_ok hmoves hnext, trail_of_rests f hrest]
    have hclose : (r.reach o q).close (none : Option (Failure ε)) =
        (r.reach o q).emit (.residualNaN q.index) := Progress.close_of_isNaN hstop
    rw [Trail.report, Trail.after]
    exact congrArg (Ending.mk none · s') hclose.symm
  | case5 remaining s r hconverged q s' hnext hstop ih =>
    have hmoves := Point.rests_eq_false hverdict hconverged hnan
    have hq := (Point.follows_of_next hnext).verdict_eq o.tolerances
    rw [trail_of_ok hmoves hnext]
    exact ih hq.symm (eq_false_of_ne_true hstop)

theorem Settings.record_fst (o : Settings) (p : Point) (h : History) (j : Journal) :
    (o.record p h j).1 = if o.storeTrace then h.push (p.snapshot o.extendedTrace) else h := by
  unfold Settings.record
  split
  · rfl
  · next htraces => simp_all [Settings.traces]

theorem Settings.record_snd (o : Settings) (p : Point) (h : History) (j : Journal) :
    (o.record p h j).2 =
      if o.printsTrace then
        j.print (p.snapshot o.extendedTrace).render fun cause => .snapshotLost cause p.index
      else j := by
  unfold Settings.record
  split
  · rfl
  · next htraces => simp_all [Settings.traces]

theorem foldl_reach_point (o : Settings) (points : List Point) (r : Progress) :
    (points.foldl (Progress.reach o) r).point = points.getLastD r.point := by
  induction points generalizing r with
  | nil => rfl
  | cons q points ih => rw [List.foldl_cons, ih, List.getLastD_cons]; rfl

theorem foldl_reach_verdict {f : System σ ε} (o : Settings) {points : List Point} {r : Progress}
    (h : List.IsChain (Point.Linked f) (r.point :: points))
    (hverdict : r.verdict = r.point.verdict o.tolerances) :
    (points.foldl (Progress.reach o) r).verdict =
      (points.getLastD r.point).verdict o.tolerances := by
  induction points generalizing r with
  | nil => exact hverdict
  | cons q points ih =>
    obtain ⟨⟨s, s', hnext⟩, hrest⟩ := List.isChain_cons_cons.1 h
    rw [List.foldl_cons, List.getLastD_cons]
    exact ih hrest (hnext.verdict_eq o.tolerances).symm

theorem foldl_reach_snapshots {o : Settings} (hstore : o.storeTrace = true)
    (points : List Point) (r : Progress) :
    (points.foldl (Progress.reach o) r).history.snapshots.toList =
      r.history.snapshots.toList ++ points.map (Point.snapshot · o.extendedTrace) := by
  induction points generalizing r with
  | nil => simp
  | cons q points ih =>
    have hq : (r.reach o q).history = r.history.push (q.snapshot o.extendedTrace) := by
      rw [Progress.reach]
      exact (o.record_fst q r.history r.journal).trans (if_pos hstore)
    rw [List.foldl_cons, ih, hq, History.snapshots_push, List.append_assoc]
    rfl

theorem Progress.close_eq (r : Progress) (failure : Option (Failure ε)) :
    ∃ j, r.close failure = { r with journal := j } := by
  cases failure with
  | none =>
    by_cases hnan : r.point.residualNorm.isNaN = true
    · exact ⟨_, if_pos hnan⟩
    · exact ⟨r.journal, if_neg hnan⟩
  | some e =>
    cases hw : e.warning? with
    | none => exact ⟨r.journal, by simp [Progress.close, Progress.warn, hw]⟩
    | some w => exact ⟨r.journal.emit w, by simp [Progress.close, Progress.warn, hw, Progress.emit]⟩

theorem Trail.result_report (o : Settings) (start : List Float) (r : Progress)
    (t : Trail σ ε) :
    ((t.report o r).outcome o start).result =
      match t.failure with
      | some e => .error e
      | none => .ok ((t.points.foldl (Progress.reach o) r).summary o start) := by
  obtain ⟨j, hj⟩ := Progress.close_eq (t.points.foldl (Progress.reach o) r) t.failure
  rw [Trail.report, hj, Ending.outcome]
  cases t.failure <;> rfl

theorem Trail.state_report (o : Settings) (start : List Float) (r : Progress) (t : Trail σ ε) :
    ((t.report o r).outcome o start).state = t.state := by
  rw [Trail.report, Ending.outcome]
  cases t.failure <;> rfl

def opening (o : Settings) (start : List Float) (sink : Sink) : Journal :=
  (Journal.start sink).emit (.started start.length o.tolerances o.iterations)

theorem solve_of_precheck {f : System σ ε} {s : σ} {start : List Float} {o : Settings}
    (sink : Sink) {e : Failure ε} (h : precheck f o start = some e) :
    solve f s start o sink = ⟨.error e, s, .start sink⟩ := by
  rw [solve, h]

theorem solve_of_start_error {f : System σ ε} {s s' : σ} {start : List Float} {o : Settings}
    (sink : Sink) {e : Failure ε} (hcheck : precheck f o start = none)
    (h : Point.start f s start = (.error e, s')) :
    solve f s start o sink = ⟨.error e, s', opening o start sink⟩ := by
  rw [solve, hcheck]
  dsimp only
  rw [h]
  rfl

theorem solve_of_start {f : System σ ε} {s s' : σ} {start : List Float} {o : Settings}
    (sink : Sink) {p : Point} (hcheck : precheck f o start = none)
    (h : Point.start f s start = (.ok p, s')) :
    solve f s start o sink = ((trail f o.tolerances o.iterations s' p).report o
      (.begin o p (opening o start sink))).outcome o start := by
  have hp := Point.starts_of_start h
  have hreport := iterate_eq_report f o o.iterations s' (.begin o p (opening o start sink))
    (hp.verdict_eq o.tolerances).symm hp.not_isNaN
  rw [solve, hcheck]
  dsimp only
  rw [h]
  exact congrArg (Ending.outcome o start) hreport

theorem Outcome.ok_of_any (a : Outcome σ ε) (test : Summary → Bool)
    (h : a.result.toOption.any test = true) : ∃ r, a.result = .ok r ∧ test r = true := by
  cases hresult : a.result with
  | error e =>
    rw [hresult] at h
    cases h
  | ok r =>
    rw [hresult] at h
    exact ⟨r, rfl, h⟩

structure EndsAt (o : Settings) (start : List Float) (p : Point) (r : Summary) : Prop where
  method : r.method = Newton.method
  start : r.start = start
  zero : r.zero = p.x
  residualNorm : r.residualNorm = p.residualNorm
  iterations : r.iterations = p.index
  verdict : r.verdict = p.verdict o.tolerances
  tolerances : r.tolerances = o.tolerances
  residualCalls : r.residualCalls = p.evaluations
  jacobianCalls : r.jacobianCalls = p.evaluations

theorem endsAt_foldl_reach {f : System σ ε} {s s' : σ} {start : List Float} {p : Point}
    (hp : Point.Starts f s start p s') (o : Settings) (j : Journal) {points : List Point}
    (h : List.IsChain (Point.Linked f) (p :: points)) :
    EndsAt o start (points.getLastD p)
      ((points.foldl (Progress.reach o) (.begin o p j)).summary o start) := by
  have hpoint : (points.foldl (Progress.reach o) (.begin o p j)).point = points.getLastD p :=
    foldl_reach_point o points (.begin o p j)
  have hverdict : (points.foldl (Progress.reach o) (.begin o p j)).verdict =
      (points.getLastD p).verdict o.tolerances :=
    foldl_reach_verdict o (r := .begin o p j) h (hp.verdict_eq o.tolerances).symm
  rw [← hpoint] at hverdict ⊢
  exact ⟨rfl, rfl, rfl, rfl, rfl, hverdict, rfl, rfl, rfl⟩

theorem trail_of_solve_ok {f : System σ ε} {s : σ} {start : List Float} {o : Settings}
    {sink : Sink} {r : Summary} (h : (solve f s start o sink).result = .ok r) :
    ∃ p s', Point.start f s start = (.ok p, s') ∧
      (trail f o.tolerances o.iterations s' p).failure = none ∧
      (solve f s start o sink).state = (trail f o.tolerances o.iterations s' p).state ∧
      EndsAt o start ((trail f o.tolerances o.iterations s' p).last p) r ∧
      r.history = ((trail f o.tolerances o.iterations s' p).points.foldl (Progress.reach o)
        (.begin o p (opening o start sink))).history := by
  cases hcheck : precheck f o start with
  | some e => simp [solve_of_precheck sink hcheck] at h
  | none =>
    rcases hstart : Point.start f s start with ⟨e | p, s'⟩
    · simp [solve_of_start_error sink hcheck hstart] at h
    · refine ⟨p, s', rfl, ?_⟩
      rw [solve_of_start sink hcheck hstart, Trail.result_report] at h
      rw [solve_of_start sink hcheck hstart, Trail.state_report]
      cases hfailure : (trail f o.tolerances o.iterations s' p).failure with
      | some e => simp [hfailure] at h
      | none =>
        rw [hfailure] at h
        obtain rfl := Except.ok.inj h
        have hchain := isChain_trail f o.tolerances o.iterations s' p
        exact ⟨rfl, rfl, endsAt_foldl_reach (Point.starts_of_start hstart) o _ hchain, rfl⟩

theorem trail_of_solve_error {f : System σ ε} {s : σ} {start : List Float} {o : Settings}
    {sink : Sink} {e : Failure ε} (hcheck : precheck f o start = none)
    (h : (solve f s start o sink).result = .error e) :
    (Point.start f s start).1 = .error e ∨ ∃ p s', Point.start f s start = (.ok p, s') ∧
      (trail f o.tolerances o.iterations s' p).failure = some e := by
  rcases hstart : Point.start f s start with ⟨e' | p, s'⟩
  · rw [solve_of_start_error sink hcheck hstart] at h
    obtain rfl := Except.error.inj h
    exact Or.inl rfl
  · refine Or.inr ⟨p, s', rfl, ?_⟩
    rw [solve_of_start sink hcheck hstart, Trail.result_report] at h
    cases hfailure : (trail f o.tolerances o.iterations s' p).failure with
    | none => simp [hfailure] at h
    | some e' =>
      rw [hfailure] at h
      rw [Except.error.inj h]

end RootFinding.Newton
