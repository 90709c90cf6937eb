import RootFinding.Evaluator.CentralDifference
import RootFinding.Proofs.DenseMatrix
import RootFinding.Proofs.Evaluator.Answer

/-!
# What central differences compute

If every call of a residual evaluator either fails or writes the whole of its buffer, and this
depends on the point and the length of the buffer alone, then the scratch buffers keep nothing
that is looked at: each column is the quotient of two values, and a call makes its residual calls
at points known from its own point. Over a square matrix even the old entries are not looked at.
How many residual calls there are is known of any evaluator: two to a column, unless one fails.
-/

namespace RootFinding

variable {σ ε : Type}

namespace ResidualEvaluator

def Computes (R : ResidualEvaluator σ ε) (n m : Nat) (value : List Float → Except ε (List Float)) :
    Prop :=
  R.run.Answers n (·.length = m) value

inductive Visits (R : ResidualEvaluator σ ε) : σ → List (List Float) → σ → Prop
  | nil (s : σ) : Visits R s [] s
  | call {s s' : σ} {x fx : List Float} {points : List (List Float)}
      (h : Visits R (R.run s x fx).state points s') : Visits R s (x :: points) s'

variable {R : ResidualEvaluator σ ε} {value : List Float → Except ε (List Float)} {n m : Nat}

theorem Visits.append {s s' s'' : σ} {points points' : List (List Float)}
    (h : R.Visits s points s') (h' : R.Visits s' points' s'') :
    R.Visits s (points ++ points') s'' := by
  induction h with
  | nil s => exact h'
  | call _ ih => exact .call (ih h')

theorem Visits.one (s : σ) (x fx : List Float) : R.Visits s [x] (R.run s x fx).state :=
  .call (.nil _)

/-- So many calls, one after another, of which none fails but the last, if this is a failure. -/
inductive Makes (R : ResidualEvaluator σ ε) : σ → Nat → Option ε → σ → Prop
  | nil (s : σ) : Makes R s 0 none s
  | fails {s : σ} {x fx : List Float} {e : ε} (h : (R.run s x fx).failure = some e) :
      Makes R s 1 (some e) (R.run s x fx).state
  | call {s s' : σ} {x fx : List Float} {calls : Nat} {failure : Option ε}
      (h : (R.run s x fx).failure = none)
      (hrest : Makes R (R.run s x fx).state calls failure s') : Makes R s (calls + 1) failure s'

theorem Makes.trans {s s' s'' : σ} {calls calls' : Nat} {failure : Option ε}
    (h : R.Makes s calls none s') (h' : R.Makes s' calls' failure s'') :
    R.Makes s (calls + calls') failure s'' := by
  generalize hsuccess : (none : Option ε) = success at h
  induction h with
  | nil s => rwa [Nat.zero_add]
  | fails h => cases hsuccess
  | @call s s' x fx calls failure h _ ih =>
    rw [Nat.add_right_comm]
    exact .call h (ih h' hsuccess)

theorem Computes.length_value (h : R.Computes n m value) (s : σ) {x v : List Float}
    (hx : x.length = n) (hv : value x = .ok v) : v.length = m := by
  have hgives := h s x (List.replicate m 0) hx List.length_replicate
  rw [hv] at hgives
  rw [← hgives.2, R.length_run, List.length_replicate]

end ResidualEvaluator

namespace CentralDifference

variable {R : ResidualEvaluator σ ε} {value : List Float → Except ε (List Float)} {m : Nat}
  {x : List Float}

def ahead (x : List Float) (j : Nat) : List Float :=
  x.set j (x.getD j 0 + differenceStep (x.getD j 0))

def behind (x : List Float) (j : Nat) : List Float :=
  x.set j (x.getD j 0 - differenceStep (x.getD j 0))

def width (x : List Float) (j : Nat) : Float :=
  (x.getD j 0 + differenceStep (x.getD j 0)) - (x.getD j 0 - differenceStep (x.getD j 0))

def columnOf (value : List Float → Except ε (List Float)) (x : List Float) (j : Nat) :
    Except ε (List Float) := do
  let plus ← value (ahead x j)
  let minus ← value (behind x j)
  return quotients plus minus (width x j)

def probes (value : List Float → Except ε (List Float)) (x : List Float) (j : Nat) :
    List (List Float) :=
  match value (ahead x j) with
  | .error _ => [ahead x j]
  | .ok _ => [ahead x j, behind x j]

def write (value : List Float → Except ε (List Float)) (x : List Float) :
    List Nat → DenseMatrix Float → Option ε × DenseMatrix Float
  | [], jx => (none, jx)
  | j :: rest, jx =>
    match columnOf value x j with
    | .error e => (some e, jx)
    | .ok values => write value x rest (jx.setColumn j values)

def calls (value : List Float → Except ε (List Float)) (x : List Float) :
    List Nat → List (List Float)
  | [] => []
  | j :: rest =>
    match columnOf value x j with
    | .error _ => probes value x j
    | .ok _ => probes value x j ++ calls value x rest

structure Ready (x : List Float) (m : Nat) (scratch : Scratch) : Prop where
  point : scratch.point = x
  plus : scratch.plus.length = m
  minus : scratch.minus.length = m

theorem ready_fit (x : List Float) (m : Nat) (scratch : Scratch) : Ready x m (scratch.fit x m) :=
  ⟨rfl, Scratch.length_resize m _, Scratch.length_resize m _⟩

theorem set_behind {j : Nat} (hj : j < x.length) : (behind x j).set j (x.getD j 0) = x := by
  rw [behind, List.set_set, List.getD, List.getElem?_eq_getElem hj, Option.getD_some,
    List.set_getElem_self]

theorem column_of_ready (R : ResidualEvaluator σ ε) (x plus minus : List Float) (j : Nat) (s : σ)
    (jx : DenseMatrix Float) :
    column R x j (s, ⟨x, plus, minus⟩) jx =
      let first := R.run s (ahead x j) plus
      match first.failure with
      | some e => ⟨some e, jx, (first.state, ⟨ahead x j, first.buffer, minus⟩)⟩
      | none =>
        let second := R.run first.state (behind x j) minus
        match second.failure with
        | some e => ⟨some e, jx, (second.state, ⟨behind x j, first.buffer, second.buffer⟩)⟩
        | none =>
          ⟨none, jx.setColumn j (quotients first.buffer second.buffer (width x j)),
            (second.state, ⟨(behind x j).set j (x.getD j 0), first.buffer, second.buffer⟩)⟩ := by
  have hback : (ahead x j).set j (x.getD j 0 - differenceStep (x.getD j 0)) = behind x j :=
    List.set_set _
  rw [← hback]
  rfl

/-- What one column does: it fails as the value at one of its probes does, or it writes the
quotients and leaves the scratch buffers ready again. -/
theorem column_reply (h : R.Computes x.length m value) (s : σ) {scratch : Scratch}
    (hready : Ready x m scratch) {j : Nat} (hj : j < x.length) (jx : DenseMatrix Float) :
    ∃ s' scratch', R.Visits s (probes value x j) s' ∧
      match columnOf value x j with
      | .error e => column R x j (s, scratch) jx = ⟨some e, jx, (s', scratch')⟩
      | .ok values => Ready x m scratch' ∧
          column R x j (s, scratch) jx = ⟨none, jx.setColumn j values, (s', scratch')⟩ := by
  obtain ⟨point, plus, minus⟩ := scratch
  obtain ⟨rfl, hplus, hminus⟩ := hready
  have hfirst := h s (ahead point j) plus List.length_set hplus
  have hlength := (R.length_run s (ahead point j) plus).trans hplus
  have hvisit := ResidualEvaluator.Visits.one (R := R) s (ahead point j) plus
  rw [column_of_ready, columnOf, probes]
  generalize R.run s (ahead point j) plus = first at hfirst hlength hvisit ⊢
  obtain ⟨failure, buffer, s₁⟩ := first
  cases hahead : value (ahead point j) with
  | error e =>
    rw [hahead] at hfirst
    obtain rfl : failure = some e := hfirst
    exact ⟨_, _, hvisit, rfl⟩
  | ok v =>
    rw [hahead] at hfirst
    obtain ⟨rfl, rfl⟩ : failure = none ∧ buffer = v := hfirst
    have hsecond := h s₁ (behind point j) minus List.length_set hminus
    have hlength' := (R.length_run s₁ (behind point j) minus).trans hminus
    have hvisits := hvisit.append (.one s₁ (behind point j) minus)
    dsimp only
    generalize R.run s₁ (behind point j) minus = second at hsecond hlength' hvisits ⊢
    obtain ⟨failure, buffer', s₂⟩ := second
    cases hbehind : value (behind point j) with
    | error e =>
      rw [hbehind] at hsecond
      obtain rfl : failure = some e := hsecond
      exact ⟨_, _, hvisits, rfl⟩
    | ok w =>
      rw [hbehind] at hsecond
      obtain ⟨rfl, rfl⟩ : failure = none ∧ buffer' = w := hsecond
      exact ⟨_, _, hvisits, ⟨set_behind hj, hlength, hlength'⟩, rfl⟩

theorem columns_reply (h : R.Computes x.length m value) (s : σ) {scratch : Scratch}
    (hready : Ready x m scratch) {js : List Nat} (hjs : ∀ j ∈ js, j < x.length)
    (jx : DenseMatrix Float) :
    ∃ s' scratch', R.Visits s (calls value x js) s' ∧
      columns R x js (s, scratch) jx =
        ⟨(write value x js jx).1, (write value x js jx).2, (s', scratch')⟩ := by
  -- a column that does not fail puts the moved point back, so the next one finds it ready
  induction js generalizing s scratch jx with
  | nil => exact ⟨s, scratch, .nil s, rfl⟩
  | cons j rest ih =>
    obtain ⟨s₁, scratch₁, hvisits, hcolumn⟩ :=
      column_reply h s hready (hjs j List.mem_cons_self) jx
    rw [columns, write, calls]
    cases hvalue : columnOf value x j with
    | error e =>
      rw [hvalue] at hcolumn
      rw [hcolumn]
      exact ⟨s₁, scratch₁, hvisits, rfl⟩
    | ok values =>
      rw [hvalue] at hcolumn
      obtain ⟨hready₁, hcolumn⟩ := hcolumn
      rw [hcolumn]
      obtain ⟨s₂, scratch₂, hrest, hcolumns⟩ := ih s₁ hready₁
        (fun j' hj' => hjs j' (List.mem_cons_of_mem _ hj')) (jx.setColumn j values)
      exact ⟨s₂, scratch₂, hvisits.append hrest, hcolumns⟩

def common (x : List Float) (jx : DenseMatrix Float) : List Nat :=
  List.range (min x.length jx.cols)

theorem jacobian_reply {jx : DenseMatrix Float} (h : R.Computes x.length jx.rows value) (s : σ)
    (scratch : Scratch) :
    ∃ s' scratch', R.Visits s (calls value x (common x jx)) s' ∧
      jacobian R (s, scratch) x jx = ⟨(write value x (common x jx) jx).1,
        (write value x (common x jx) jx).2, (s', scratch')⟩ := by
  refine columns_reply h s (ready_fit x jx.rows scratch) ?_ jx
  intro j hj
  exact Nat.lt_of_lt_of_le (List.mem_range.1 hj) (Nat.min_le_left _ _)

theorem length_columnOf {n : Nat} (h : R.Computes n m value) (s : σ) (hx : x.length = n) {j : Nat}
    {values : List Float} (hvalues : columnOf value x j = .ok values) : values.length = m := by
  unfold columnOf at hvalues
  cases hahead : value (ahead x j) with
  | error e => simp [hahead, bind, Except.bind] at hvalues
  | ok v =>
    cases hbehind : value (behind x j) with
    | error e => simp [hahead, hbehind, bind, Except.bind] at hvalues
    | ok w =>
      have hv := h.length_value s (List.length_set.trans hx) hahead
      have hw := h.length_value s (List.length_set.trans hx) hbehind
      simp only [hahead, hbehind, bind, Except.bind, pure, Except.pure, Except.ok.injEq] at hvalues
      rw [← hvalues, quotients, List.length_zipWith, hv, hw, Nat.min_self]

theorem write_agreeOn (hlength : ∀ j values, columnOf value x j = .ok values → values.length = m)
    {done : List Nat} {a b : DenseMatrix Float} (hagree : a.AgreeOn done b) (hrows : a.rows = m)
    (js : List Nat) :
    (write value x js a).1 = (write value x js b).1 ∧
      ((write value x js a).1 = none →
        (write value x js a).2.AgreeOn (js ++ done) (write value x js b).2) := by
  induction js generalizing done a b with
  | nil => exact ⟨rfl, fun _ => hagree⟩
  | cons j rest ih =>
    rw [write, write]
    cases hvalue : columnOf value x j with
    | error e => exact ⟨rfl, fun h => by cases h⟩
    | ok values =>
      have hvalues := (hlength j values hvalue).trans hrows.symm
      obtain ⟨hfailure, hwritten⟩ := ih (hagree.setColumn j hvalues) (by simpa using hrows)
      refine ⟨hfailure, fun hnone => (hwritten hnone).subset ?_⟩
      intro j' hj'
      simp only [List.cons_append, List.mem_cons, List.mem_append] at hj' ⊢
      tauto

theorem cols_write (js : List Nat) (jx : DenseMatrix Float) :
    (write value x js jx).2.cols = jx.cols := by
  induction js generalizing jx with
  | nil => rfl
  | cons j rest ih =>
    rw [write]
    split
    · rfl
    · rw [ih, DenseMatrix.cols_setColumn]

def jacobianOf (value : List Float → Except ε (List Float)) (x : List Float) :
    Except ε (DenseMatrix Float) :=
  let blank := DenseMatrix.filled x.length x.length 0
  match (write value x (common x blank) blank).1 with
  | some e => .error e
  | none => .ok (write value x (common x blank) blank).2

theorem jacobian_answers {n : Nat} (h : R.Computes n n value) :
    Evaluator.Answers (jacobian R) n (DenseMatrix.IsSquare n) (jacobianOf value) := by
  rintro ⟨s, scratch⟩ x jx rfl ⟨hrows, hcols⟩
  have hwhole : R.Computes x.length jx.rows value := by rwa [hrows]
  obtain ⟨s', scratch', -, hreply⟩ := jacobian_reply hwhole s scratch
  have hagree : jx.AgreeOn [] (.filled x.length x.length 0) := ⟨hrows, hcols, by simp⟩
  obtain ⟨hfailure, hwritten⟩ := write_agreeOn (fun _ _ => length_columnOf h s rfl) hagree hrows
    (common x jx)
  have hcommon : common x jx = common x (.filled x.length x.length 0) := by
    rw [common, common, hcols]
    rfl
  rw [hreply, jacobianOf, ← hcommon, ← hfailure]
  cases hnone : (write value x (common x jx) jx).1 with
  | some e => exact rfl
  | none =>
    refine ⟨rfl, (hwritten hnone).eq ?_⟩
    intro j hj
    rw [cols_write, hcols] at hj
    rw [common, hcols, Nat.min_self, List.append_nil]
    exact List.mem_range.2 hj

/-- A reply after residual calls from the state `s` on, up to the first that failed: `limit` of
them unless it is a failure. -/
def Within (R : ResidualEvaluator σ ε) (s : σ) (limit : Nat)
    (r : Reply (σ × Scratch) ε (DenseMatrix Float)) : Prop :=
  ∃ calls, R.Makes s calls r.failure r.state.1 ∧ calls ≤ limit ∧
    (r.failure = none → calls = limit)

theorem column_within (R : ResidualEvaluator σ ε) (x : List Float) (j : Nat) (s : σ × Scratch)
    (jx : DenseMatrix Float) : Within R s.1 2 (column R x j s jx) := by
  obtain ⟨s, scratch⟩ := s
  unfold column
  dsimp only
  split
  · next hahead => exact ⟨1, .fails hahead, by omega, by simp⟩
  · next hahead =>
    split
    · next hbehind => exact ⟨2, .call hahead (.fails hbehind), by omega, by simp⟩
    · next hbehind => exact ⟨2, .call hahead (.call hbehind (.nil _)), by omega, by simp⟩

theorem columns_within (R : ResidualEvaluator σ ε) (x : List Float) (js : List Nat)
    (s : σ × Scratch) (jx : DenseMatrix Float) :
    Within R s.1 (2 * js.length) (columns R x js s jx) := by
  induction js generalizing s jx with
  | nil => exact ⟨0, .nil s.1, Nat.le_refl _, fun _ => rfl⟩
  | cons j rest ih =>
    obtain ⟨calls, hmakes, hle, hall⟩ := column_within R x j s jx
    rw [columns, List.length_cons]
    cases hfailure : (column R x j s jx).failure with
    | some e =>
      rw [hfailure] at hmakes
      exact ⟨calls, hmakes, by omega, by simp⟩
    | none =>
      rw [hfailure] at hmakes
      obtain ⟨calls', hmakes', hle', hall'⟩ :=
        ih (column R x j s jx).state (column R x j s jx).buffer
      refine ⟨calls + calls', hmakes.trans hmakes', by omega, fun h => ?_⟩
      have hcolumn := hall hfailure
      have hrest := hall' h
      omega

theorem system_makes (R : ResidualEvaluator σ ε) (dimension : Option Nat) (s : σ × Scratch)
    (x fx : List Float) (jx : DenseMatrix Float) :
    let reply := (system R dimension).both.run s x (fx, jx)
    ∃ calls, R.Makes s.1 (calls + 1) reply.failure reply.state.1 ∧
      calls ≤ 2 * (common x jx).length ∧
      (reply.failure = none → calls = 2 * (common x jx).length) := by
  have hsystem : (system R dimension).both = (besideScratch R).andThen (jacobian R) := rfl
  have hstate : ((besideScratch R).run s x fx).state = ((R.run s.1 x fx).state, s.2) := rfl
  rw [hsystem]
  cases hfailure : (R.run s.1 x fx).failure with
  | some e =>
    rw [ResidualEvaluator.andThen_of_error (besideScratch R) (jacobian R) (s := s) hfailure, hstate]
    exact ⟨0, .fails hfailure, Nat.zero_le _, by simp⟩
  | none =>
    rw [ResidualEvaluator.andThen_of_ok (besideScratch R) (jacobian R) (s := s) hfailure, hstate]
    obtain ⟨calls, hmakes, hle, hall⟩ := columns_within R x (common x jx)
      ((R.run s.1 x fx).state, s.2.fit x jx.rows) jx
    exact ⟨calls, .call hfailure hmakes, hle, hall⟩

end CentralDifference

end RootFinding
