import RootFinding.Proofs.Newton.Recurrence

/-!
# The extended history certifies the run

An extended snapshot shows its point: iterate, residual and Jacobian, and from the first step on
the step that led there. A stored extended history shows the points of the trail one by one, so
the run can be checked from it: each step is the solution of the system shown before it, each
iterate is the one before it moved along the step shown with it, and evaluating the system anew
at the iterates in order, from zeros, leaves the residuals and Jacobians that are shown.
-/

namespace RootFinding

variable {σ ε : Type}

def System.replay (f : System σ ε) : σ → List Float × DenseMatrix Float → List (List Float) →
    List (Option ε × (List Float × DenseMatrix Float))
  | _, _, [] => []
  | s, buffers, x :: xs =>
    let reply := f.both.run s x buffers
    (reply.failure, reply.buffer) :: f.replay reply.state reply.buffer xs

theorem History.get_eq_ok {h : History} {k : Nat} {shot : Snapshot}
    (hk : h.snapshots.toList[k]? = some shot) : h.get k = .ok shot := by
  rw [Array.getElem?_toList] at hk
  rw [History.get, hk]

namespace Newton

structure Shown where
  x : List Float
  residual : List Float
  jacobian : DenseMatrix Float
  step : Option (List Float)

namespace Shown

def entries (e : Shown) : List (String × Diagnostic) :=
  match e.step with
  | none => [("J(x)", .matrix e.jacobian), ("f(x)", .vector e.residual), ("x", .vector e.x)]
  | some d =>
    [("J(x)", .matrix e.jacobian), ("f(x)", .vector e.residual), ("step", .vector d),
      ("x", .vector e.x)]

structure TakenAs (e : Shown) (k : Nat) (shot : Snapshot) : Prop where
  iteration : shot.iteration = k
  residualNorm : shot.residualNorm = infNorm e.residual
  stepNorm : shot.stepNorm = e.step.elim notANumber stepLength
  diagnostics : shot.diagnostics.entries = e.entries

def Leads (e e' : Shown) : Prop :=
  ∃ d, e'.step = some d ∧ direction? e.jacobian.toRows e.residual = some d ∧
    e'.x = List.zipWith (· + ·) e.x d

def Square (n : Nat) (e : Shown) : Prop :=
  e.x.length = n ∧ e.residual.length = n ∧ e.jacobian.rows = n ∧ e.jacobian.cols = n

end Shown

structure Certifies (f : System σ ε) (s : σ) (start : List Float) (r : Summary)
    (shown : List Shown) : Prop where
  length_history : r.history.length = r.iterations + 1
  length_shown : shown.length = r.iterations + 1
  taken : ∀ k e, shown[k]? = some e → ∃ shot, r.history.get k = .ok shot ∧ e.TakenAs k shot
  first : ∃ fx jx, shown.head? = some ⟨start, fx, jx, none⟩
  last : ∃ e, shown.getLast? = some e ∧ e.x = r.zero
  leads : List.IsChain Shown.Leads shown
  square : ∀ e ∈ shown, e.Square start.length
  replay : f.replay s (List.replicate start.length 0, .filled start.length start.length 0)
    (shown.map Shown.x) = shown.map fun e => (none, (e.residual, e.jacobian))

namespace Point

def shown (p : Point) : Shown :=
  ⟨p.x, p.residual, p.jacobian, if p.index = 0 then none else some p.step.direction⟩

theorem entries_diagnostics (p : Point) : p.diagnostics.entries = p.shown.entries := by
  have hfx : ("f(x)" : String).toList < ("x" : String).toList := by decide
  have hJf : ("J(x)" : String).toList < ("f(x)" : String).toList := by decide
  have hJs : ("J(x)" : String).toList < ("step" : String).toList := by decide
  have hfs : ("f(x)" : String).toList < ("step" : String).toList := by decide
  have hsx : ("step" : String).toList < ("x" : String).toList := by decide
  have hhere : Diagnostics.place "J(x)" (.matrix p.jacobian)
      (Diagnostics.place "f(x)" (.vector p.residual) [("x", .vector p.x)]) =
      [("J(x)", .matrix p.jacobian), ("f(x)", .vector p.residual), ("x", .vector p.x)] := by
    rw [Diagnostics.place_of_lt hfx, Diagnostics.place_of_lt hJf]
  by_cases hzero : p.index = 0
  · rw [Point.diagnostics, if_pos hzero, Shown.entries, shown, if_pos hzero]
    exact hhere
  · rw [Point.diagnostics, if_neg hzero, Shown.entries, shown, if_neg hzero]
    refine (congrArg (Diagnostics.place "step" (.vector p.step.direction)) hhere).trans ?_
    rw [Diagnostics.place_of_gt hJs, Diagnostics.place_of_gt hfs, Diagnostics.place_of_lt hsx]

def Measured (p : Point) : Prop :=
  p.step.length = p.shown.step.elim notANumber stepLength

theorem Starts.measured {f : System σ ε} {s s' : σ} {x : List Float} {p : Point}
    (h : Starts f s x p s') : p.Measured := by
  rw [Measured, shown, if_pos h.index]
  exact h.length

theorem Follows.measured {f : System σ ε} {p q : Point} {s s' : σ} (h : Follows f p s q s') :
    q.Measured := by
  rw [Measured, shown, if_neg (by rw [h.index]; exact Nat.succ_ne_zero _)]
  exact h.length

theorem Measured.takenAs {p : Point} (h : p.Measured) : p.shown.TakenAs p.index (p.snapshot true) :=
  ⟨rfl, rfl, h, entries_diagnostics p⟩

theorem Follows.leads {f : System σ ε} {p q : Point} {s s' : σ} (h : Follows f p s q s') :
    Shown.Leads p.shown q.shown :=
  ⟨_, if_neg (by rw [h.index]; exact Nat.succ_ne_zero _), h.direction, h.place⟩

end Point

section Chain

variable {f : System σ ε} {s s' : σ} {start : List Float} {p : Point} {points : List Point}

theorem measured_of_isChain (h : List.IsChain (Point.Linked f) (p :: points)) (hp : p.Measured) :
    ∀ q ∈ p :: points, q.Measured :=
  h.induction Point.Measured _ (fun _ _ ⟨_, _, hnext⟩ _ => hnext.measured) fun _ => hp

theorem leads_of_isChain (h : List.IsChain (Point.Linked f) points) :
    List.IsChain Shown.Leads (points.map Point.shown) := by
  refine List.isChain_map_of_isChain Point.shown ?_ h
  intro p q ⟨s, s', hnext⟩
  exact hnext.leads

theorem getLast?_points (p : Point) (points : List Point) :
    (p :: points).getLast? = some (points.getLastD p) := by
  rw [List.getLast?_cons, List.getLastD_eq_getLast?]

theorem length_of_isChain (h : List.IsChain (Point.Linked f) (p :: points)) (hp : p.index = 0) :
    (points.getLastD p).index = points.length := by
  have hlast := getLast?_points p points
  rw [List.getLast?_eq_getElem?, List.length_cons, Nat.add_sub_cancel] at hlast
  rw [index_of_isChain h hlast, hp, Nat.zero_add]

theorem taken_of_snapshots {h : History}
    (hchain : List.IsChain (Point.Linked f) (p :: points)) (hindex : p.index = 0)
    (hmeasured : p.Measured)
    (hsnapshots : h.snapshots.toList = (p :: points).map (Point.snapshot · true)) {k : Nat}
    {e : Shown} (he : ((p :: points).map Point.shown)[k]? = some e) :
    ∃ shot, h.get k = .ok shot ∧ e.TakenAs k shot := by
  rw [List.getElem?_map] at he
  obtain ⟨q, hq, rfl⟩ := Option.map_eq_some_iff.1 he
  have hshot : h.snapshots.toList[k]? = some (q.snapshot true) := by
    rw [hsnapshots, List.getElem?_map, hq]
    rfl
  have hk : q.index = k := by rw [index_of_isChain hchain hq, hindex, Nat.zero_add]
  have hq := measured_of_isChain hchain hmeasured q (List.mem_of_getElem? hq)
  exact ⟨_, History.get_eq_ok hshot, hk ▸ hq.takenAs⟩

theorem certifies_of_isChain {r : Summary} (hp : Point.Starts f s start p s')
    (hchain : List.IsChain (Point.Linked f) (p :: points))
    (hreplay : f.replay s (List.replicate start.length 0, .filled start.length start.length 0)
      ((p :: points).map Point.x) = (p :: points).map fun q => (none, (q.residual, q.jacobian)))
    (hzero : r.zero = (points.getLastD p).x) (hiterations : r.iterations = points.length)
    (hsnapshots : r.history.snapshots.toList = (p :: points).map (Point.snapshot · true)) :
    Certifies f s start r ((p :: points).map Point.shown) where
  length_history := by
    rw [History.length, ← Array.length_toList, hsnapshots, List.length_map, List.length_cons,
      hiterations]
  length_shown := by rw [List.length_map, List.length_cons, hiterations]
  taken _ _ := taken_of_snapshots hchain hp.index hp.measured hsnapshots
  first := ⟨p.residual, p.jacobian, by rw [List.map_cons, List.head?_cons, Point.shown, hp.place,
    if_pos hp.index]⟩
  last := ⟨(points.getLastD p).shown, by rw [List.getLast?_map, getLast?_points]; rfl, hzero.symm⟩
  leads := leads_of_isChain hchain
  square := by
    intro e he
    obtain ⟨q, hq, rfl⟩ := List.mem_map.1 he
    have hsquare := square_of_isChain hchain hp.square q hq
    exact ⟨hsquare.length_x, hsquare.length_residual, hsquare.rows, hsquare.cols⟩
  replay := by
    rw [List.map_map, List.map_map]
    exact hreplay

end Chain

theorem replay_trail (f : System σ ε) (t : Tolerances) (remaining : Nat) (s : σ) (p : Point) :
    f.replay s (p.residual, p.jacobian) ((trail f t remaining s p).points.map Point.x) =
      (trail f t remaining s p).points.map fun q => (none, (q.residual, q.jacobian)) := by
  fun_induction trail f t remaining s p with
  | case1 s p => rfl
  | case2 remaining s p hrest => rfl
  | case3 remaining s p hmoves e s' hnext => rfl
  | case4 remaining s p hmoves q s' hnext ih =>
    have hreply := (Point.follows_of_next hnext).reply
    simp only [Trail.after, List.map_cons, System.replay, hreply, ih]

theorem replay_start {f : System σ ε} {s s' : σ} {start : List Float} {p : Point}
    (h : Point.Starts f s start p s') (t : Tolerances) (remaining : Nat) :
    f.replay s (List.replicate start.length 0, .filled start.length start.length 0)
        ((p :: (trail f t remaining s' p).points).map Point.x) =
      (p :: (trail f t remaining s' p).points).map fun q => (none, (q.residual, q.jacobian)) := by
  have hrest := replay_trail f t remaining s' p
  simp only [List.map_cons, System.replay, h.place, h.reply, hrest]

theorem snapshots_begin {o : Settings} (hstore : o.storeTrace = true) (p : Point) (j : Journal) :
    (Progress.begin o p j).history.snapshots.toList = [p.snapshot o.extendedTrace] := by
  rw [Progress.begin]
  dsimp only
  rw [Settings.record_fst, if_pos hstore]
  rfl

theorem snapshots_of_trail {o : Settings} (hstore : o.storeTrace = true) (p : Point) (j : Journal)
    (points : List Point) :
    (points.foldl (Progress.reach o) (.begin o p j)).history.snapshots.toList =
      (p :: points).map (Point.snapshot · o.extendedTrace) := by
  rw [foldl_reach_snapshots hstore, snapshots_begin hstore]
  rfl

theorem history_certifies {f : System σ ε} {s : σ} {start : List Float} {o : Settings}
    {sink : Sink} {r : Summary} (h : (solve f s start o sink).result = .ok r)
    (hstore : o.storeTrace = true) (hextended : o.extendedTrace = true) :
    ∃ shown, Certifies f s start r shown := by
  obtain ⟨p, s', hstart, -, -, hends, hhistory⟩ := trail_of_solve_ok h
  have hp := Point.starts_of_start hstart
  have hchain := isChain_trail f o.tolerances o.iterations s' p
  have hreplay := replay_start hp o.tolerances o.iterations
  have hiterations := hends.iterations.trans (length_of_isChain hchain hp.index)
  have hsnapshots : r.history.snapshots.toList =
      (p :: (trail f o.tolerances o.iterations s' p).points).map (Point.snapshot · true) := by
    rw [hhistory, foldl_reach_snapshots hstore, snapshots_begin hstore, hextended]
    rfl
  exact ⟨_, certifies_of_isChain hp hchain hreplay hends.zero hiterations hsnapshots⟩

theorem history_diagonalOnCircle_certifies :
    ∃ r shown, (solve diagonalOnCircle ((), .none) [1, 0.5]
        { sevenSteps with storeTrace := true, extendedTrace := true } .unlimited).result = .ok r ∧
      1 < r.iterations ∧ Certifies diagonalOnCircle ((), .none) [1, 0.5] r shown := by
  obtain ⟨r, hr, hsteps⟩ := Outcome.ok_of_any (solve diagonalOnCircle ((), .none) [1, 0.5]
    { sevenSteps with storeTrace := true, extendedTrace := true } .unlimited)
    (fun r => decide (1 < r.iterations)) (by decide +kernel)
  obtain ⟨shown, hshown⟩ := history_certifies hr rfl rfl
  exact ⟨r, shown, hr, of_decide_eq_true hsteps, hshown⟩

end Newton

end RootFinding
