import RootFinding.Proofs.Evaluator.CentralDifference
import RootFinding.Proofs.Newton.Bisimulation

/-!
# A central-difference system has no memory

A system made from a residual evaluator keeps three scratch buffers from call to call, and a call
that fails leaves them as they stand. If the residual evaluator writes its whole buffer or fails,
by the point and the length of the buffer alone, then nothing of this can be told: each operation
on the system answers as on a new one and calls the residual evaluator at the same points, whatever
operations came before. A solve ends as with the Jacobian of the quotients of the values.
-/

namespace RootFinding

variable {σ τ ε : Type}

namespace ResidualEvaluator

/-- Every call writes its whole buffer, or fails, by the point and the length of the buffer. -/
def Determined (R : ResidualEvaluator σ ε) (value : Nat → List Float → Except ε (List Float)) :
    Prop :=
  ∀ s x fx, (R.run s x fx).Gives (value fx.length x)

def noted (R : ResidualEvaluator σ ε) : ResidualEvaluator (σ × List (List Float)) ε where
  run := fun (s, seen) x fx =>
    let reply := R.run s x fx
    ⟨reply.failure, reply.buffer, (reply.state, seen ++ [x])⟩
  length_run := fun (s, _) x fx => R.length_run s x fx

variable {R : ResidualEvaluator σ ε} {value : Nat → List Float → Except ε (List Float)}

theorem Determined.computes (h : R.Determined value) (n m : Nat) : R.Computes n m (value m) := by
  rintro s x fx - rfl
  exact h s x fx

theorem Determined.noted (h : R.Determined value) : R.noted.Determined value :=
  fun s x fx => h s.1 x fx

theorem Visits.seen_noted {s s' : σ × List (List Float)} {points : List (List Float)}
    (h : R.noted.Visits s points s') : s'.2 = s.2 ++ points := by
  induction h with
  | nil s => exact (List.append_nil _).symm
  | call _ ih => rw [ih, noted, List.append_assoc, List.singleton_append]

end ResidualEvaluator

namespace CentralDifference

variable {R : ResidualEvaluator σ ε} {value : Nat → List Float → Except ε (List Float)}

def differences (value : Nat → List Float → Except ε (List Float)) : JacobianEvaluator σ ε :=
  fun s x jx =>
    let written := write (value jx.rows) x (common x jx) jx
    ⟨written.1, written.2, s⟩

def callsOfBoth (value : Nat → List Float → Except ε (List Float)) (x : List Float) (m : Nat)
    (jx : DenseMatrix Float) : List (List Float) :=
  match value m x with
  | .error _ => [x]
  | .ok _ => x :: calls (value jx.rows) x (common x jx)

theorem system_reply (h : R.Determined value) (dimension : Option Nat) (s : σ) (scratch : Scratch)
    (x fx : List Float) (jx : DenseMatrix Float) :
    ∃ s' scratch', R.Visits s (callsOfBoth value x fx.length jx) s' ∧
      match value fx.length x with
      | .error e => (system R dimension).both.run (s, scratch) x (fx, jx) =
          ⟨some e, ((R.run s x fx).buffer, jx), (s', scratch')⟩
      | .ok v => (system R dimension).both.run (s, scratch) x (fx, jx) =
          ⟨(write (value jx.rows) x (common x jx) jx).1,
            (v, (write (value jx.rows) x (common x jx) jx).2), (s', scratch')⟩ := by
  have hfirst := h s x fx
  have hone := ResidualEvaluator.Visits.one (R := R) s x fx
  rw [callsOfBoth]
  cases hv : value fx.length x with
  | error e =>
    rw [hv] at hfirst
    exact ⟨_, _, hone, ResidualEvaluator.andThen_of_error (besideScratch R) (jacobian R)
      (s := (s, scratch)) hfirst jx⟩
  | ok v =>
    rw [hv] at hfirst
    obtain ⟨s', scratch', hvisits, hjacobian⟩ :=
      jacobian_reply (h.computes x.length jx.rows) (R.run s x fx).state scratch
    refine ⟨s', scratch', .call hvisits, ?_⟩
    have hboth := ResidualEvaluator.andThen_of_ok (besideScratch R) (jacobian R)
      (s := (s, scratch)) hfirst.1 jx
    have hstate : ((besideScratch R).run (s, scratch) x fx).state =
        ((R.run s x fx).state, scratch) := rfl
    have hbuffer : ((besideScratch R).run (s, scratch) x fx).buffer = v := hfirst.2
    rw [hstate, hbuffer, hjacobian] at hboth
    exact hboth

theorem system_noted_answersAs (h : R.Determined value) (dimension : Option Nat) :
    (system R.noted dimension).AnswersAs (fun s t => s.1.2 = t.1.2)
      (system R.noted dimension) where
  dimension := rfl
  reply := by
    rintro ⟨s, scratch⟩ ⟨t, scratch'⟩ hseen x ⟨fx, jx⟩
    obtain ⟨s₁, scratch₁, hvisits, hs⟩ := system_reply h.noted dimension s scratch x fx jx
    obtain ⟨t₁, scratch₁', hvisits', ht⟩ := system_reply h.noted dimension t scratch' x fx jx
    have hseen' : s₁.2 = t₁.2 := by
      rw [hvisits.seen_noted, hvisits'.seen_noted]
      exact congrArg (· ++ _) hseen
    cases hv : value fx.length x with
    | error e =>
      rw [hv] at hs ht
      rw [hs, ht]
      exact ⟨rfl, (nomatch ·), hseen'⟩
    | ok v =>
      rw [hv] at hs ht
      rw [hs, ht]
      exact ⟨rfl, fun _ => rfl, hseen'⟩

theorem system_answersAs_differences {R' : ResidualEvaluator τ ε} (h : R.Determined value)
    (h' : R'.Determined value) (dimension : Option Nat) :
    (system R dimension).AnswersAs (fun _ _ => True)
      (.sequential R' (differences value) dimension) where
  dimension := rfl
  reply := by
    rintro ⟨s, scratch⟩ t - x ⟨fx, jx⟩
    obtain ⟨s₁, scratch₁, -, hs⟩ := system_reply h dimension s scratch x fx jx
    have hfirst := h' t x fx
    cases hv : value fx.length x with
    | error e =>
      rw [hv] at hs hfirst
      have ht := ResidualEvaluator.andThen_of_error R' (differences value) hfirst jx
      rw [hs]
      exact ⟨(congrArg Reply.failure ht).symm, (nomatch ·), trivial⟩
    | ok v =>
      rw [hv] at hs hfirst
      have ht := ResidualEvaluator.andThen_of_ok R' (differences value) hfirst.1 jx
      rw [hfirst.2] at ht
      rw [hs]
      exact ⟨(congrArg Reply.failure ht).symm, fun _ => (congrArg Reply.buffer ht).symm, trivial⟩

inductive Operation where
  | residual (x fx : List Float)
  | jacobian (x : List Float) (jx : DenseMatrix Float)
  | both (x fx : List Float) (jx : DenseMatrix Float)
  | solve (start : List Float) (o : Newton.Settings) (sink : Sink)

inductive Result (ε : Type) where
  | residual (failure : Option ε) (fx : List Float)
  | jacobian (failure : Option ε) (jx : DenseMatrix Float)
  | both (failure : Option ε) (fx : List Float) (jx : DenseMatrix Float)
  | solve (result : Except (Newton.Failure ε) Summary) (journal : Journal)

def Operation.perform (f : System τ ε) (s : τ) : Operation → Result ε × τ
  | residual x fx =>
    let reply := f.residual.run s x fx
    (.residual reply.failure reply.buffer, reply.state)
  | jacobian x jx =>
    let reply := f.jacobian s x jx
    (.jacobian reply.failure reply.buffer, reply.state)
  | both x fx jx =>
    let reply := f.both.run s x (fx, jx)
    (.both reply.failure reply.buffer.1 reply.buffer.2, reply.state)
  | solve start o sink =>
    let outcome := Newton.solve f s start o sink
    (.solve outcome.result outcome.journal, outcome.state)

structure Answer (ε : Type) where
  result : Result ε
  calls : List (List Float)

def answer (R : ResidualEvaluator σ ε) (dimension : Option Nat) (s : σ × Scratch)
    (operation : Operation) : Answer ε × (σ × Scratch) :=
  let done := operation.perform (system R.noted dimension) ((s.1, []), s.2)
  (⟨done.1, done.2.1.2⟩, (done.2.1.1, done.2.2))

structure Entry (σ ε : Type) where
  state : σ
  operation : Operation
  answer : Answer ε

def record (R : ResidualEvaluator σ ε) (dimension : Option Nat) :
    List Operation → σ × Scratch → List (Entry σ ε)
  | [], _ => []
  | operation :: rest, s =>
    let done := answer R dimension s operation
    ⟨s.1, operation, done.1⟩ :: record R dimension rest done.2

/-- The answer is that of a new system: a Jacobian holds the quotients of the values, computed by
calls at their points, and a solve ends as with this Jacobian. -/
structure Forgets (R : ResidualEvaluator σ ε) (value : Nat → List Float → Except ε (List Float))
    (dimension : Option Nat) (entry : Entry σ ε) : Prop where
  fresh : entry.answer = (answer R dimension (entry.state, .empty) entry.operation).1
  computed : ∀ x jx, entry.operation = .jacobian x jx → entry.answer =
    ⟨.jacobian (write (value jx.rows) x (common x jx) jx).1
        (write (value jx.rows) x (common x jx) jx).2,
      calls (value jx.rows) x (common x jx)⟩
  solved : ∀ start o sink, entry.operation = .solve start o sink → ∀ s : σ,
    entry.answer.result = .solve
      (Newton.solve (.sequential R (differences value) dimension) s start o sink).result
      (Newton.solve (.sequential R (differences value) dimension) s start o sink).journal

theorem answer_jacobian (h : R.Determined value) (dimension : Option Nat) (s : σ × Scratch)
    (x : List Float) (jx : DenseMatrix Float) :
    (answer R dimension s (.jacobian x jx)).1 =
      ⟨.jacobian (write (value jx.rows) x (common x jx) jx).1
          (write (value jx.rows) x (common x jx) jx).2,
        calls (value jx.rows) x (common x jx)⟩ := by
  obtain ⟨s', scratch', hvisits, hs⟩ :=
    jacobian_reply (h.noted.computes x.length jx.rows) (s.1, []) s.2
  unfold answer Operation.perform
  simp only [system, System.sequential]
  rw [hs, hvisits.seen_noted, List.nil_append]

theorem answer_fresh (h : R.Determined value) (dimension : Option Nat) (s : σ) (scratch : Scratch)
    (operation : Operation) :
    (answer R dimension (s, scratch) operation).1 =
      (answer R dimension (s, .empty) operation).1 := by
  cases operation with
  | residual x fx => rfl
  | jacobian x jx => rw [answer_jacobian h, answer_jacobian h]
  | both x fx jx =>
    obtain ⟨s₁, scratch₁, hvisits, hs⟩ := system_reply h.noted dimension (s, []) scratch x fx jx
    obtain ⟨s₂, scratch₂, hvisits', hs'⟩ := system_reply h.noted dimension (s, []) .empty x fx jx
    unfold answer Operation.perform
    dsimp only
    cases hv : value fx.length x with
    | error e =>
      rw [hv] at hs hs'
      rw [hs, hs', hvisits.seen_noted, hvisits'.seen_noted]
    | ok v =>
      rw [hv] at hs hs'
      rw [hs, hs', hvisits.seen_noted, hvisits'.seen_noted]
  | solve start o sink =>
    obtain ⟨hresult, hjournal, hseen⟩ := Newton.solve_alike (system_noted_answersAs h dimension)
      start o sink (s := ((s, []), scratch)) (t := ((s, []), .empty)) rfl
    unfold answer Operation.perform
    dsimp only
    rw [hresult, hjournal, hseen]

theorem answer_solve (h : R.Determined value) (dimension : Option Nat) (s : σ × Scratch) (t : σ)
    (start : List Float) (o : Newton.Settings) (sink : Sink) :
    (answer R dimension s (.solve start o sink)).1.result = .solve
      (Newton.solve (.sequential R (differences value) dimension) t start o sink).result
      (Newton.solve (.sequential R (differences value) dimension) t start o sink).journal := by
  obtain ⟨hresult, hjournal, -⟩ := Newton.solve_alike
    (system_answersAs_differences h.noted h dimension) start o sink (s := ((s.1, []), s.2))
    (t := t) trivial
  unfold answer Operation.perform
  dsimp only
  rw [hresult, hjournal]

theorem record_forgets (h : R.Determined value) (dimension : Option Nat)
    (operations : List Operation) (s : σ × Scratch) :
    (record R dimension operations s).map Entry.operation = operations ∧
      ∀ entry ∈ record R dimension operations s, Forgets R value dimension entry := by
  induction operations generalizing s with
  | nil => exact ⟨rfl, fun _ hentry => nomatch hentry⟩
  | cons operation rest ih =>
    obtain ⟨hrest, hforgets⟩ := ih (answer R dimension s operation).2
    refine ⟨congrArg (operation :: ·) hrest, fun entry hentry => ?_⟩
    rcases List.mem_cons.1 hentry with rfl | hentry
    · refine ⟨answer_fresh h dimension s.1 s.2 operation, ?_, ?_⟩
      · rintro x jx rfl
        exact answer_jacobian h dimension s x jx
      · rintro start o sink rfl t
        exact answer_solve h dimension s t start o sink
    · exact hforgets entry hentry

def shiftedSquares : ResidualEvaluator Nat String where
  run calls x fx :=
    if x.getD 0 0 < 0 then ⟨some "negative", fx, calls + 1⟩
    else ⟨none, (List.range fx.length).map fun i => x.getD i 0 * x.getD i 0 - 2, calls + 1⟩
  length_run _ _ _ := by
    split
    · rfl
    · simp

def shiftedSquaresOf (m : Nat) (x : List Float) : Except String (List Float) :=
  if x.getD 0 0 < 0 then .error "negative"
  else .ok ((List.range m).map fun i => x.getD i 0 * x.getD i 0 - 2)

theorem determined_shiftedSquares : shiftedSquares.Determined shiftedSquaresOf := by
  intro calls x fx
  unfold shiftedSquaresOf shiftedSquares
  dsimp only
  split
  · rfl
  · exact ⟨rfl, rfl⟩

/-- The first of the operations fails halfway, where its point is moved below zero. -/
def shiftedOperations : List Operation :=
  [.jacobian [0] (.filled 1 1 0), .both [2, 3] [0, 0] (.filled 3 2 0), .solve [1] {} .unlimited]

theorem record_shiftedSquares_forgets :
    shiftedSquares.Determined shiftedSquaresOf ∧
      ((answer shiftedSquares none (0, .empty) (.jacobian [0] (.filled 1 1 0))).2.2.point.all
        (· < 0)) = true ∧
      (record shiftedSquares none shiftedOperations (0, .empty)).map Entry.operation =
        shiftedOperations ∧
      ∀ entry ∈ record shiftedSquares none shiftedOperations (0, .empty),
        Forgets shiftedSquares shiftedSquaresOf none entry := by
  have hmoved : ((answer shiftedSquares none (0, .empty)
      (.jacobian [0] (.filled 1 1 0))).2.2.point.all (· < 0)) = true := by decide +kernel
  obtain ⟨hoperations, hforgets⟩ := record_forgets determined_shiftedSquares none
    shiftedOperations (0, .empty)
  exact ⟨determined_shiftedSquares, hmoved, hoperations, hforgets⟩

end CentralDifference

end RootFinding
