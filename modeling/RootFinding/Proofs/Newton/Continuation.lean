import RootFinding.Proofs.Newton.Bisimulation
import RootFinding.Proofs.Newton.Recurrence

/-!
# Trails cut short and gone on with

A trail that is cut short, by fewer iterations or by looser tests, is the beginning of the trail it
was cut from: either it is the whole of it, or it ended without a failure at a point from which the
other trail goes on. On the way the evaluations are only added to, and the iteration a trail fails
in is the one the recurrence fails at.
-/

namespace RootFinding.Newton

variable {σ ε : Type}

namespace Trail

def behind (points : List Point) (t : Trail σ ε) : Trail σ ε :=
  { t with points := points ++ t.points }

theorem after_behind (q : Point) (points : List Point) (t : Trail σ ε) :
    (t.behind points).after q = t.behind (q :: points) := rfl

theorem last_behind (t : Trail σ ε) (points : List Point) (p : Point) :
    (t.behind points).last p = t.last (points.getLastD p) := by
  rw [behind, last, last, List.getLastD_eq_getLast?, List.getLast?_append,
    List.getLastD_eq_getLast?, List.getLastD_eq_getLast?, Option.getD_or]

end Trail

theorem length_points_trail (f : System σ ε) (t : Tolerances) (remaining : Nat) (s : σ)
    (p : Point) : (trail f t remaining s p).points.length ≤ remaining := by
  fun_induction trail f t remaining s p with
  | case1 s p => exact Nat.le_refl _
  | case2 remaining s p hrest => exact Nat.zero_le _
  | case3 remaining s p hmoves e s' hnext => exact Nat.zero_le _
  | case4 remaining s p hmoves q s' hnext ih => exact Nat.succ_le_succ ih

def Looser (t t' : Tolerances) : Prop := ∀ p : Point, p.rests t = true → p.rests t' = true

section Looser

variable {f : System σ ε} {t t' : Tolerances} {s : σ} {p : Point} {m n : Nat}

theorem Looser.moves (h : Looser t t') (hmoves : ¬ p.rests t' = true) : p.rests t = false :=
  eq_false_of_ne_true fun hrest => hmoves (h p hrest)

theorem trail_eq_of_failure (hloose : Looser t t') (hle : m ≤ n) {e : Failure ε}
    (h : (trail f t' m s p).failure = some e) : trail f t n s p = trail f t' m s p := by
  fun_induction trail f t' m s p generalizing n with
  | case1 s p => cases h
  | case2 m s p hrest => cases h
  | case3 m s p hmoves e' s' hnext =>
    obtain ⟨n, rfl⟩ := Nat.exists_eq_add_of_lt hle
    exact trail_of_error (hloose.moves hmoves) hnext _
  | case4 m s p hmoves q s' hnext ih =>
    obtain ⟨n, rfl⟩ := Nat.exists_eq_add_of_lt hle
    rw [trail_of_ok (hloose.moves hmoves) hnext, ih (by omega) h]

theorem trail_eq_behind (hloose : Looser t t') (hle : m ≤ n)
    (h : (trail f t' m s p).failure = none) :
    trail f t n s p =
      (trail f t (n - (trail f t' m s p).points.length) (trail f t' m s p).state
        ((trail f t' m s p).last p)).behind (trail f t' m s p).points := by
  fun_induction trail f t' m s p generalizing n with
  | case1 s p => rfl
  | case2 m s p hrest => rfl
  | case3 m s p hmoves e s' hnext => cases h
  | case4 m s p hmoves q s' hnext ih =>
    obtain ⟨n, rfl⟩ := Nat.exists_eq_add_of_lt hle
    have hrest := ih (n := m + n) (by omega) h
    have hlength : m + n + 1 - ((trail f t' m s' q).after q).points.length =
        m + n - (trail f t' m s' q).points.length := by
      simp only [Trail.after, List.length_cons]
      omega
    rw [trail_of_ok (hloose.moves hmoves) hnext, hrest, hlength, Trail.last_after,
      Trail.after_behind]
    rfl

theorem Looser.refl (t : Tolerances) : Looser t t := fun _ h => h

theorem trail_take (h : m ≤ (trail f t n s p).points.length) :
    (trail f t m s p).failure = none ∧
      (trail f t m s p).points = (trail f t n s p).points.take m := by
  fun_induction trail f t n s p generalizing m with
  | case1 s p =>
    obtain rfl := Nat.le_zero.1 h
    exact ⟨rfl, rfl⟩
  | case2 n s p hrest =>
    obtain rfl := Nat.le_zero.1 h
    exact ⟨rfl, rfl⟩
  | case3 n s p hmoves e s' hnext =>
    obtain rfl := Nat.le_zero.1 h
    exact ⟨rfl, rfl⟩
  | case4 n s p hmoves q s' hnext ih =>
    cases m with
    | zero => exact ⟨rfl, rfl⟩
    | succ m =>
      obtain ⟨hfailure, hpoints⟩ := ih (Nat.le_of_succ_le_succ h)
      rw [trail_of_ok (eq_false_of_ne_true hmoves) hnext]
      exact ⟨hfailure, congrArg (q :: ·) hpoints⟩

theorem trail_length (f : System σ ε) (t : Tolerances) (n : Nat) (s : σ) (p : Point) :
    (trail f t (trail f t n s p).points.length s p).failure = none ∧
      (trail f t (trail f t n s p).points.length s p).points = (trail f t n s p).points := by
  obtain ⟨hfailure, hpoints⟩ := trail_take (Nat.le_refl (trail f t n s p).points.length)
  exact ⟨hfailure, by rw [hpoints, List.take_length]⟩

theorem lt_of_trail_failure {e : Failure ε} (h : (trail f t n s p).failure = some e) :
    (trail f t n s p).points.length < n := by
  fun_induction trail f t n s p with
  | case1 s p => cases h
  | case2 n s p hrest => cases h
  | case3 n s p hmoves e' s' hnext => exact Nat.succ_pos n
  | case4 n s p hmoves q s' hnext ih => exact Nat.succ_lt_succ (ih h)

theorem trail_length_succ {e : Failure ε} (h : (trail f t n s p).failure = some e) :
    trail f t ((trail f t n s p).points.length + 1) s p = trail f t n s p := by
  fun_induction trail f t n s p with
  | case1 s p => cases h
  | case2 n s p hrest => cases h
  | case3 n s p hmoves e' s' hnext => exact trail_of_error (eq_false_of_ne_true hmoves) hnext 0
  | case4 n s p hmoves q s' hnext ih =>
    have hq := ih h
    rw [trail_of_ok (eq_false_of_ne_true hmoves) hnext]
    exact congrArg (Trail.after q) hq

theorem next_of_trail_failure {e : Failure ε} (h : (trail f t n s p).failure = some e)
    (hpoints : (trail f t n s p).points = []) :
    p.next f s = (.error e, (trail f t n s p).state) := by
  fun_induction trail f t n s p with
  | case1 s p => cases h
  | case2 n s p hrest => cases h
  | case3 n s p hmoves e' s' hnext =>
    obtain rfl := Option.some.inj h
    exact hnext
  | case4 n s p hmoves q s' hnext ih => cases hpoints

theorem next_of_cut_trail {e : Failure ε} (h : (trail f t n s p).failure = some e) :
    ((trail f t n s p).last p).next f (trail f t (trail f t n s p).points.length s p).state =
      (.error e, (trail f t n s p).state) := by
  obtain ⟨hfailure, hpoints⟩ := trail_length f t n s p
  have hbehind := trail_eq_behind (Looser.refl t) (length_points_trail f t n s p) hfailure
  have hlast : (trail f t (trail f t n s p).points.length s p).last p =
      (trail f t n s p).last p := by rw [Trail.last, hpoints, Trail.last]
  rw [hlast, hpoints] at hbehind
  have hrest : (trail f t (n - (trail f t n s p).points.length)
      (trail f t (trail f t n s p).points.length s p).state
      ((trail f t n s p).last p)).points = [] := by
    have hsame := congrArg Trail.points hbehind
    rw [Trail.behind] at hsame
    exact List.self_eq_append_right.1 hsame
  have hfails := next_of_trail_failure ((congrArg Trail.failure hbehind).symm.trans h) hrest
  exact hfails.trans (congrArg (Prod.mk (Except.error e)) (congrArg Trail.state hbehind).symm)

end Looser

section Result

variable {f : System σ ε} {s s' : σ} {start : List Float} {o : Settings} {p : Point}

theorem solve_error_of_trail (sink : Sink) (hcheck : precheck f o start = none)
    (hstart : Point.start f s start = (.ok p, s')) {e : Failure ε}
    (h : (trail f o.tolerances o.iterations s' p).failure = some e) :
    (solve f s start o sink).result = .error e := by
  rw [solve_of_start sink hcheck hstart, Trail.result_report, h]

theorem solve_ok_of_trail (sink : Sink) (hcheck : precheck f o start = none)
    (hstart : Point.start f s start = (.ok p, s'))
    (h : (trail f o.tolerances o.iterations s' p).failure = none) :
    ∃ r, (solve f s start o sink).result = .ok r := by
  rw [solve_of_start sink hcheck hstart, Trail.result_report, h]
  exact ⟨_, rfl⟩

theorem endsAt_of_trail (sink : Sink) (hcheck : precheck f o start = none)
    (hstart : Point.start f s start = (.ok p, s'))
    (h : (trail f o.tolerances o.iterations s' p).failure = none) :
    ∃ r, (solve f s start o sink).result = .ok r ∧
      EndsAt o start ((trail f o.tolerances o.iterations s' p).last p) r ∧
      r.history = ((trail f o.tolerances o.iterations s' p).points.foldl (Progress.reach o)
        (.begin o p (opening o start sink))).history := by
  obtain ⟨r, hr⟩ := solve_ok_of_trail sink hcheck hstart h
  obtain ⟨q, s'', hstart', -, -, hends, hhistory⟩ := trail_of_solve_ok hr
  rw [hstart] at hstart'
  cases hstart'
  exact ⟨r, hr, hends, hhistory⟩

theorem precheck_of_solve_ok {sink : Sink} {r : Summary}
    (h : (solve f s start o sink).result = .ok r) : precheck f o start = none := by
  cases hcheck : precheck f o start with
  | none => rfl
  | some e =>
    rw [solve_of_precheck sink hcheck] at h
    cases h

theorem trail_failure_of_solve_error {sink : Sink} {e : Failure ε}
    (hcheck : precheck f o start = none) (hstart : Point.start f s start = (.ok p, s'))
    (h : (solve f s start o sink).result = .error e) :
    (trail f o.tolerances o.iterations s' p).failure = some e := by
  rcases trail_of_solve_error hcheck h with herror | ⟨p', s'', hstart', hfailure⟩
  · rw [hstart] at herror
    cases herror
  · rw [hstart] at hstart'
    cases hstart'
    exact hfailure

end Result

section States

variable {f : System σ ε} {t : Tolerances} {s : σ} {p : Point} {n : Nat} {I : σ → Prop}

theorem Point.state_evaluate (p : Point) (f : System σ ε) (s : σ) :
    (p.evaluate f s).2 = (f.both.run s p.x (p.residual, p.jacobian)).state := by
  unfold Point.evaluate
  dsimp only
  split
  · rfl
  · split <;> rfl

theorem Point.state_next (hstep : ∀ s x buffers, I s → I (f.both.run s x buffers).state)
    (hs : I s) : I (p.next f s).2 := by
  unfold Point.next
  split
  · exact hs
  · rw [Point.state_evaluate]
    exact hstep _ _ _ hs

theorem state_trail (hstep : ∀ s x buffers, I s → I (f.both.run s x buffers).state)
    (hs : I s) : I (trail f t n s p).state := by
  fun_induction trail f t n s p with
  | case1 s p => exact hs
  | case2 n s p hrest => exact hs
  | case3 n s p hmoves e s' hnext =>
    have hs' := Point.state_next (p := p) hstep hs
    rwa [hnext] at hs'
  | case4 n s p hmoves q s' hnext ih =>
    have hs' := Point.state_next (p := p) hstep hs
    rw [hnext] at hs'
    exact ih hs'

end States

theorem seen_trail (f : System σ ε) (t : Tolerances) (n : Nat) (s : σ × List (Evaluation σ ε))
    (p : Point) : s.2 <+: (trail f.observed t n s p).state.2 := by
  have hstep (s' : σ × List (Evaluation σ ε)) (x : List Float)
      (buffers : List Float × DenseMatrix Float) (hs' : s.2 <+: s'.2) :
      s.2 <+: (f.observed.both.run s' x buffers).state.2 :=
    hs'.trans (List.prefix_append _ _)
  exact state_trail hstep (List.prefix_refl s.2)

/-- How the iteration of a number can fail, and the evaluations it made by then. -/
inductive Breakdown (k : Nat) : Failure ε → List (Evaluation σ ε) → Prop
  | singular : Breakdown k (.singularJacobian k) []
  | nonFinite : Breakdown k (.nonFiniteStep k) []
  | evaluation {s : σ} {x : List Float} {buffers : List Float × DenseMatrix Float}
      {reply : Reply σ ε (List Float × DenseMatrix Float)} {e : ε} (h : reply.failure = some e) :
      Breakdown k (.evaluation e) [.both s x buffers reply]
  | shape {s : σ} {x : List Float} {buffers : List Float × DenseMatrix Float}
      {reply : Reply σ ε (List Float × DenseMatrix Float)} (h : reply.failure = none)
      (hshape : ¬ (reply.buffer.2.rows = x.length ∧ reply.buffer.2.cols = x.length)) :
      Breakdown k (.jacobianShape x.length reply.buffer.2.rows reply.buffer.2.cols)
        [.both s x buffers reply]

theorem Breakdown.of_evaluate {f : System σ ε} {p : Point} {s s' : σ × List (Evaluation σ ε)}
    {e : Failure ε} (h : p.evaluate f.observed s = (.error e, s')) (k : Nat) :
    ∃ extra, s'.2 = s.2 ++ extra ∧ Breakdown k e extra := by
  obtain ⟨s, seen⟩ := s
  have hrun : f.observed.both.run (s, seen) p.x (p.residual, p.jacobian) =
      ⟨(f.both.run s p.x (p.residual, p.jacobian)).failure,
        (f.both.run s p.x (p.residual, p.jacobian)).buffer,
        ((f.both.run s p.x (p.residual, p.jacobian)).state,
          seen ++ [.both s p.x (p.residual, p.jacobian)
            (f.both.run s p.x (p.residual, p.jacobian))])⟩ := rfl
  unfold Point.evaluate at h
  rw [hrun] at h
  dsimp only at h
  split at h
  · next error hfailure =>
    cases h
    exact ⟨_, rfl, .evaluation hfailure⟩
  · next hfailure =>
    split at h
    · cases h
    · next hshape =>
      cases h
      exact ⟨_, rfl, .shape hfailure hshape⟩

theorem Breakdown.of_next {f : System σ ε} {p : Point} {s s' : σ × List (Evaluation σ ε)}
    {e : Failure ε} (h : p.next f.observed s = (.error e, s')) :
    ∃ extra, s'.2 = s.2 ++ extra ∧ Breakdown (p.index + 1) e extra := by
  unfold Point.next at h
  split at h
  · next fault hfault =>
    cases h
    refine ⟨[], (List.append_nil _).symm, ?_⟩
    unfold Point.advance at hfault
    split at hfault
    · next fault hstep =>
      cases hfault
      cases fault with
      | singular => exact .singular
      | nonFinite => exact .nonFinite
    · cases hfault
  · exact Breakdown.of_evaluate h _

def FailsAfter (f : System σ ε) (s : σ) (start : List Float) (k : Nat) (e : Failure ε) : Prop :=
  (∃ v, orbit f s start k = .ok v) ∧ orbit f s start (k + 1) = .error e

theorem FailsAfter.unique {f : System σ ε} {s : σ} {start : List Float} {k k' : Nat}
    {e e' : Failure ε} (h : FailsAfter f s start k e) (h' : FailsAfter f s start k' e') :
    k = k' := by
  obtain ⟨⟨v, hv⟩, he⟩ := h
  obtain ⟨⟨v', hv'⟩, he'⟩ := h'
  rcases Nat.lt_trichotomy k k' with hlt | heq | hgt
  · rw [orbit_error_of_le he hlt] at hv'
    cases hv'
  · exact heq
  · rw [orbit_error_of_le he' hgt] at hv
    cases hv

theorem failsAfter_of_trail {f : System σ ε} {s s' : σ} {start : List Float} {t : Tolerances}
    {n : Nat} {p : Point} (hp : Located f s start p s') {e : Failure ε}
    (h : (trail f t n s' p).failure = some e) :
    FailsAfter f s start (p.index + (trail f t n s' p).points.length) e := by
  fun_induction trail f t n s' p with
  | case1 s' p => cases h
  | case2 n s' p hrest => cases h
  | case3 n s' p hmoves e' s'' hnext =>
    obtain rfl := Option.some.inj h
    refine ⟨⟨_, hp.visit⟩, ?_⟩
    rw [List.length_nil, Nat.add_zero, orbit_succ hp.square hp.visit, hnext]
    rfl
  | case4 n s' p hmoves q s'' hnext ih =>
    have hindex := (Point.follows_of_next hnext).index
    have hlength : p.index + ((trail f t n s'' q).after q).points.length =
        q.index + (trail f t n s'' q).points.length := by
      simp only [Trail.after, List.length_cons, hindex]
      omega
    rw [hlength]
    exact ih (hp.of_next hnext) h

end RootFinding.Newton
