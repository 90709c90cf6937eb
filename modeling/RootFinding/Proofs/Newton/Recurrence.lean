import Mathlib.Order.Bounds.Basic
import RootFinding.Evaluator.Calls
import RootFinding.Evaluator.Script
import RootFinding.Proofs.Newton.Trail

/-!
# Newton's method as a recurrence

The iterates obey a recurrence in which nothing is tested and nothing told: the next iterate adds
the solution of `J d = -f`, and the buffers of one evaluation are handed to the next as they are.
The recurrence goes on for ever unless it fails. A solve stops it at the least index at which the
iterations are used up, a test is passed, or a residual is NaN, and reports what stands there.
-/

namespace RootFinding.Newton

variable {σ ε : Type}

structure Visit (σ : Type) where
  x : List Float
  residual : List Float
  jacobian : DenseMatrix Float
  state : σ

def visit (f : System σ ε) (n : Nat) (s : σ) (x residual : List Float)
    (jacobian : DenseMatrix Float) : Except (Failure ε) (Visit σ) :=
  let reply := f.both.run s x (residual, jacobian)
  match reply.failure with
  | some e => .error (.evaluation e)
  | none =>
    if reply.buffer.2.rows = n ∧ reply.buffer.2.cols = n then
      .ok ⟨x, reply.buffer.1, reply.buffer.2, reply.state⟩
    else .error (.jacobianShape n reply.buffer.2.rows reply.buffer.2.cols)

def orbit (f : System σ ε) (s : σ) (start : List Float) : Nat → Except (Failure ε) (Visit σ)
  | 0 => do
    let n := start.length
    let v ← visit f n s start (List.replicate n 0) (.filled n n 0)
    if v.residual.all Float.isFinite then .ok v else .error .nonFiniteResidual
  | k + 1 => do
    let v ← orbit f s start k
    match direction? v.jacobian.toRows v.residual with
    | none => .error (.singularJacobian (k + 1))
    | some d =>
      if d.all Float.isFinite then
        visit f start.length v.state (List.zipWith (· + ·) v.x d) v.residual v.jacobian
      else .error (.nonFiniteStep (k + 1))

def Stops (o : Settings) (run : Nat → Except (Failure ε) (Visit σ)) : Nat → Prop
  | 0 => o.iterations = 0 ∨ ∃ v, run 0 = .ok v ∧ infNorm v.residual < o.tolerances.residual
  | k + 1 => o.iterations = k + 1 ∨ ∃ v w, run k = .ok v ∧ run (k + 1) = .ok w ∧
      ((infNorm w.residual).isNaN = true ∨ infDistance w.x v.x < o.tolerances.step ∨
        infNorm w.residual < o.tolerances.residual)

theorem orbit_error_of_le {f : System σ ε} {s : σ} {start : List Float} {e : Failure ε}
    {m k : Nat} (h : orbit f s start m = .error e) (hk : m ≤ k) : orbit f s start k = .error e := by
  induction k, hk using Nat.le_induction with
  | base => exact h
  | succ k _ ih => rw [orbit, ih]; rfl

theorem isLeast_of_stops {o : Settings} {run : Nat → Except (Failure ε) (Visit σ)} {k : Nat}
    (h : Stops o run k) (hbefore : ∀ j < k, ¬ Stops o run j) : IsLeast {k | Stops o run k} k := by
  refine ⟨h, fun j hj => ?_⟩
  by_contra hlt
  exact hbefore j (by omega) hj

theorem isLeast_limit_of_error {f : System σ ε} {s : σ} {start : List Float} {o : Settings}
    {e : Failure ε} {m : Nat} (h : orbit f s start m = .error e)
    (hbefore : ∀ j < m, ¬ Stops o (orbit f s start) j) :
    IsLeast {k | Stops o (orbit f s start) k} o.iterations := by
  constructor
  · change Stops o (orbit f s start) o.iterations
    cases ho : o.iterations with
    | zero => exact Or.inl ho
    | succ k => exact Or.inl ho
  · intro k hk
    by_contra hlt
    have hmk : m ≤ k := by
      by_contra hkm
      exact hbefore k (by omega) hk
    have herror := orbit_error_of_le h hmk
    cases k with
    | zero =>
      rcases hk with hlimit | ⟨v, hv, -⟩
      · omega
      · simp [herror] at hv
    | succ k =>
      rcases hk with hlimit | ⟨v, w, -, hw, -⟩
      · omega
      · simp [herror] at hw

def Point.at (p : Point) (s : σ) : Visit σ := ⟨p.x, p.residual, p.jacobian, s⟩

theorem visit_eq_evaluate (f : System σ ε) (p : Point) (s : σ) :
    visit f p.x.length s p.x p.residual p.jacobian =
      (p.evaluate f s).1.map (·.at (p.evaluate f s).2) := by
  unfold visit Point.evaluate
  generalize f.both.run s p.x (p.residual, p.jacobian) = reply
  obtain ⟨failure, buffer, state⟩ := reply
  cases failure with
  | some e => rfl
  | none =>
    dsimp only
    split <;> rfl

theorem orbit_zero (f : System σ ε) (s : σ) (start : List Float) :
    orbit f s start 0 = (Point.start f s start).1.map (·.at (Point.start f s start).2) := by
  have hvisit := visit_eq_evaluate f (Point.blank start) s
  rw [orbit, Point.start]
  dsimp only [Point.blank] at hvisit ⊢
  rw [hvisit]
  rcases Point.evaluate _ f s with ⟨e | p, s'⟩
  · rfl
  · by_cases hfinite : p.residual.all Float.isFinite = true
    · simp [Except.map, bind, Except.bind, Point.at, hfinite]
    · simp [Except.map, bind, Except.bind, Point.at, hfinite]

theorem orbit_succ {f : System σ ε} {s s' : σ} {start : List Float} {p : Point}
    (hp : p.Square start.length) (h : orbit f s start p.index = .ok (p.at s')) :
    orbit f s start (p.index + 1) = (p.next f s').1.map (·.at (p.next f s').2) := by
  rw [orbit, h]
  simp only [bind, Except.bind, Point.at, Point.next, Point.advance, finiteStep]
  cases hd : direction? p.jacobian.toRows p.residual with
  | none => rfl
  | some d =>
    by_cases hfinite : d.all Float.isFinite = true
    · have hlength : (List.zipWith (· + ·) p.x d).length = start.length := by
        rw [List.length_zipWith, length_direction? hd, DenseMatrix.length_toRows, hp.length_x,
          hp.length_residual, hp.rows, Nat.min_self, Nat.min_self]
      simp only [hfinite, if_true]
      rw [← hlength]
      exact visit_eq_evaluate f { p with
        index := p.index + 1, x := List.zipWith (· + ·) p.x d, previous := p.x,
        step := ⟨d, stepLength d⟩ } s'
    · simp only [hfinite]
      rfl

structure Located (f : System σ ε) (s : σ) (start : List Float) (p : Point) (s' : σ) : Prop where
  visit : orbit f s start p.index = .ok (p.at s')
  square : p.Square start.length
  evaluations : p.evaluations = p.index + 1
  previous : ∀ k, p.index = k + 1 → ∃ v, orbit f s start k = .ok v ∧ v.x = p.previous
  start_not_isNaN : p.index = 0 → p.residualNorm.isNaN = false

namespace Located

variable {f : System σ ε} {s s' : σ} {start : List Float} {p q : Point}

theorem of_start (h : Point.start f s start = (.ok p, s')) : Located f s start p s' := by
  have hp := Point.starts_of_start h
  have hvisit : orbit f s start p.index = .ok (p.at s') := by
    rw [hp.index, orbit_zero, h]
    rfl
  refine ⟨hvisit, hp.square, by rw [hp.evaluations, hp.index], ?_, fun _ => hp.not_isNaN⟩
  intro k hk
  rw [hp.index] at hk
  cases hk

theorem of_next {s'' : σ} (hp : Located f s start p s') (h : p.next f s' = (.ok q, s'')) :
    Located f s start q s'' := by
  have hq := Point.follows_of_next h
  have hvisit : orbit f s start q.index = .ok (q.at s'') := by
    rw [hq.index, orbit_succ hp.square hp.visit, h]
    rfl
  refine ⟨hvisit, hq.square hp.square, by rw [hq.evaluations, hp.evaluations, hq.index], ?_, ?_⟩
  · intro k hk
    obtain rfl : k = p.index := by rw [hq.index] at hk; omega
    exact ⟨_, hp.visit, hq.previous.symm⟩
  · intro hzero
    rw [hq.index] at hzero
    cases hzero

theorem stops_iff (h : Located f s start p s') (o : Settings) :
    Stops o (orbit f s start) p.index ↔
      o.iterations = p.index ∨ p.rests o.tolerances = true := by
  have hvisit := h.visit
  cases hk : p.index with
  | zero =>
    rw [hk] at hvisit
    rw [Point.rests, Point.verdict, if_pos hk, h.start_not_isNaN hk, Bool.or_false]
    simp [Stops, hvisit, Tolerances.judgeStart, Tolerances.acceptsResidual, Verdict.converged,
      Point.at]
  | succ k =>
    rw [hk] at hvisit
    obtain ⟨v, hv, hprevious⟩ := h.previous k hk
    simp [Stops, hvisit, hv, hprevious, Point.rests, Point.verdict, hk, Tolerances.judge,
      Tolerances.acceptsStep, Tolerances.acceptsResidual, Verdict.converged, Point.at,
      Point.residualNorm]
    tauto

theorem not_stops (h : Located f s start p s') {o : Settings} (hlimit : p.index ≠ o.iterations)
    (hmoves : ¬ p.rests o.tolerances = true)
    (hbefore : ∀ j < p.index, ¬ Stops o (orbit f s start) j) :
    ∀ j < p.index + 1, ¬ Stops o (orbit f s start) j := by
  intro j hj hstops
  rcases Nat.lt_succ_iff_lt_or_eq.1 hj with hlt | rfl
  · exact hbefore j hlt hstops
  · rcases (h.stops_iff o).1 hstops with hat | hrest
    · exact hlimit hat.symm
    · exact hmoves hrest

end Located

theorem trail_ends {f : System σ ε} {s : σ} {start : List Float} (o : Settings)
    {remaining : Nat} {p : Point} {s' : σ} (hp : Located f s start p s')
    (hlimit : p.index + remaining = o.iterations)
    (hbefore : ∀ j < p.index, ¬ Stops o (orbit f s start) j) :
    ((trail f o.tolerances remaining s' p).failure = none →
      Located f s start ((trail f o.tolerances remaining s' p).last p)
        (trail f o.tolerances remaining s' p).state ∧
      IsLeast {k | Stops o (orbit f s start) k}
        ((trail f o.tolerances remaining s' p).last p).index) ∧
    ∀ e, (trail f o.tolerances remaining s' p).failure = some e →
      ∃ m, orbit f s start m = .error e ∧ ∀ j < m, ¬ Stops o (orbit f s start) j := by
  fun_induction trail f o.tolerances remaining s' p with
  | case1 s' p =>
    have hstops := (hp.stops_iff o).2 (Or.inl hlimit.symm)
    refine ⟨fun _ => ⟨hp, isLeast_of_stops hstops hbefore⟩, ?_⟩
    intro e he
    cases he
  | case2 remaining s' p hrest =>
    have hstops := (hp.stops_iff o).2 (Or.inr hrest)
    refine ⟨fun _ => ⟨hp, isLeast_of_stops hstops hbefore⟩, ?_⟩
    intro e he
    cases he
  | case3 remaining s' p hmoves e s'' hnext =>
    have hbefore' := hp.not_stops (by omega) hmoves hbefore
    have herror : orbit f s start (p.index + 1) = .error e := by
      rw [orbit_succ hp.square hp.visit, hnext]
      rfl
    constructor
    · intro he
      cases he
    · intro e' he
      obtain rfl : e = e' := Option.some.inj he
      exact ⟨p.index + 1, herror, hbefore'⟩
  | case4 remaining s' p hmoves q s'' hnext ih =>
    have hbefore' := hp.not_stops (by omega) hmoves hbefore
    have hindex := (Point.follows_of_next hnext).index
    rw [Trail.last_after]
    exact ih (hp.of_next hnext) (by omega) (by rw [hindex]; exact hbefore')

theorem located_of_solve_ok {f : System σ ε} {s : σ} {start : List Float} {o : Settings}
    {sink : Sink} {r : Summary} (h : (solve f s start o sink).result = .ok r) :
    ∃ p, Located f s start p (solve f s start o sink).state ∧
      IsLeast {k | Stops o (orbit f s start) k} p.index ∧ EndsAt o start p r := by
  obtain ⟨p, s', hstart, hfailure, hstate, hends, -⟩ := trail_of_solve_ok h
  have hp := Located.of_start hstart
  have hindex := (Point.starts_of_start hstart).index
  obtain ⟨hlast, hleast⟩ := (trail_ends o hp (by rw [hindex, Nat.zero_add])
    (by rw [hindex]; exact fun j hj => absurd hj (Nat.not_lt_zero j))).1 hfailure
  rw [hstate]
  exact ⟨_, hlast, hleast, hends⟩

theorem orbit_of_solve_error {f : System σ ε} {s : σ} {start : List Float} {o : Settings}
    {sink : Sink} {e : Failure ε} (hcheck : precheck f o start = none)
    (h : (solve f s start o sink).result = .error e) :
    ∃ m, orbit f s start m = .error e ∧ ∀ j < m, ¬ Stops o (orbit f s start) j := by
  rcases trail_of_solve_error hcheck h with hstart | ⟨p, s', hstart, hfailure⟩
  · refine ⟨0, ?_, fun j hj => absurd hj (Nat.not_lt_zero j)⟩
    rw [orbit_zero, hstart]
    rfl
  · have hindex := (Point.starts_of_start hstart).index
    exact (trail_ends o (Located.of_start hstart) (by rw [hindex, Nat.zero_add])
      (by rw [hindex]; exact fun j hj => absurd hj (Nat.not_lt_zero j))).2 e hfailure

theorem precheck_eq_none {f : System σ ε} {o : Settings} {start : List Float}
    (hvalid : o.fault? = none) (hdim : ∀ n, f.dimension = some n → n = start.length) :
    precheck f o start = none := by
  rw [precheck, hvalid]
  cases hd : f.dimension with
  | none => rfl
  | some n => exact if_pos (hdim n hd)

theorem precheck_eq_some {f : System σ ε} {o : Settings} {start : List Float} {e : Failure ε}
    (h : precheck f o start = some e) :
    (∃ fault, e = .settings fault) ∨ ∃ found, e = .dimensionMismatch start.length found := by
  unfold precheck at h
  split at h
  · next fault _ =>
    cases h
    exact Or.inl ⟨fault, rfl⟩
  · split at h
    · cases h
    · next found _ =>
      split at h
      · cases h
      · cases h
        exact Or.inr ⟨found, rfl⟩

structure Tells (o : Settings) (start : List Float)
    (run : Nat → Except (Failure ε) (Visit σ)) (N : Nat) (v : Visit σ) (r : Summary) : Prop where
  method : r.method = Newton.method
  start : r.start = start
  tolerances : r.tolerances = o.tolerances
  zero : r.zero = v.x
  iterations : r.iterations = N
  residualNorm : r.residualNorm = infNorm v.residual
  smallResidual : r.verdict.smallResidual = true ↔ infNorm v.residual < o.tolerances.residual
  smallStep : r.verdict.smallStep = true ↔
    ∃ k w, N = k + 1 ∧ run k = .ok w ∧ infDistance v.x w.x < o.tolerances.step
  residualCalls : r.residualCalls = N + 1
  jacobianCalls : r.jacobianCalls = N + 1

theorem Located.tells {f : System σ ε} {s s' : σ} {start : List Float} {p : Point}
    (h : Located f s start p s') {o : Settings} {r : Summary} (hr : EndsAt o start p r) :
    Tells o start (orbit f s start) p.index (p.at s') r where
  method := hr.method
  start := hr.start
  tolerances := hr.tolerances
  zero := hr.zero
  iterations := hr.iterations
  residualNorm := hr.residualNorm
  residualCalls := hr.residualCalls.trans h.evaluations
  jacobianCalls := hr.jacobianCalls.trans h.evaluations
  smallResidual := by
    rw [hr.verdict, Point.verdict]
    split <;> exact decide_eq_true_iff
  smallStep := by
    rw [hr.verdict, Point.verdict]
    split
    · next hzero => simp [hzero, Tolerances.judgeStart]
    · next hpos =>
      obtain ⟨k, hk⟩ := Nat.exists_eq_succ_of_ne_zero hpos
      obtain ⟨v, hv, hprevious⟩ := h.previous k hk
      simp [Tolerances.judge, Tolerances.acceptsStep, hk, hv, hprevious, Point.at]

/-- An outcome that is a success exactly if the recurrence reaches `N`, and tells of the visit
there, and that otherwise is the failure of the recurrence. -/
def Reports (o : Settings) (start : List Float) (run : Nat → Except (Failure ε) (Visit σ))
    (N : Nat) (outcome : Outcome σ ε) : Prop :=
  match run N with
  | .error e => outcome.result = .error e
  | .ok v => outcome.state = v.state ∧ ∃ r, outcome.result = .ok r ∧ Tells o start run N v r

theorem solve_reports_least_stop (f : System σ ε) (s : σ) (start : List Float) (o : Settings)
    (sink : Sink) (hvalid : o.fault? = none)
    (hdim : ∀ n, f.dimension = some n → n = start.length) :
    ∃ N, IsLeast {k | Stops o (orbit f s start) k} N ∧
      Reports o start (orbit f s start) N (solve f s start o sink) := by
  cases hresult : (solve f s start o sink).result with
  | ok r =>
    obtain ⟨p, hp, hleast, hends⟩ := located_of_solve_ok hresult
    refine ⟨p.index, hleast, ?_⟩
    rw [Reports, hp.visit]
    exact ⟨rfl, r, hresult, hp.tells hends⟩
  | error e =>
    obtain ⟨m, hm, hbefore⟩ := orbit_of_solve_error (precheck_eq_none hvalid hdim) hresult
    have hleast := isLeast_limit_of_error hm hbefore
    refine ⟨o.iterations, hleast, ?_⟩
    have hle : m ≤ o.iterations := by
      by_contra hlt
      exact hbefore o.iterations (by omega) hleast.1
    rw [Reports, orbit_error_of_le hm hle]
    exact hresult

open Script in
/-- The unit circle met with the diagonal. The Jacobian is written at the first call only and
stands as it is from then on. -/
def diagonalOnCircle : System (Unit × Calls) String :=
  .sequential
    (.recorded (Script.residual
      [.setResidual 0 (.binary .sub (.binary .add (.power (.point 0) 2) (.power (.point 1) 2))
        (.constant 1)),
        .setResidual 1 (.binary .sub (.point 0) (.point 1))]))
    (.recorded (Script.jacobian
      (.stop ⟨.less, .constant 0, .calls⟩ :: setRows
        [[.binary .mul (.constant 2) (.point 0), .binary .mul (.constant 2) (.point 1)],
          [.constant 1, .constant (-1)]])))
    (some 2)

def sevenSteps : Settings := { iterations := 7 }

theorem solve_diagonalOnCircle_reports :
    sevenSteps.fault? = none ∧
    (∀ n, diagonalOnCircle.dimension = some n → n = ([1, 0.5] : List Float).length) ∧
    ∃ N, IsLeast {k | Stops sevenSteps (orbit diagonalOnCircle ((), .none) [1, 0.5]) k} N ∧
      Reports sevenSteps [1, 0.5] (orbit diagonalOnCircle ((), .none) [1, 0.5]) N
        (solve diagonalOnCircle ((), .none) [1, 0.5] sevenSteps .unlimited) :=
  have hvalid : sevenSteps.fault? = none := by decide +kernel
  have hdim : ∀ n, diagonalOnCircle.dimension = some n → n = ([1, 0.5] : List Float).length :=
    fun _ hn => (Option.some.inj hn).symm
  ⟨hvalid, hdim, solve_reports_least_stop _ _ _ _ _ hvalid hdim⟩

end RootFinding.Newton
