import RootFinding.Evaluator.Calls
import RootFinding.Evaluator.Script
import RootFinding.Proofs.Evaluator.Answer
import RootFinding.Proofs.Newton.Bisimulation

/-!
# One system given in several ways

A residual evaluator and a Jacobian evaluator make a system in several ways: as they are, with the
combined evaluator synthesized or inherited, as a combined evaluator that runs the one and then the
other, whatever the separate ones do, or through a reference to any of these. If what the two do
depends on the point and the buffer alone, no solve tells these apart, and at the same points each
calls what it is made of: the first two the residual and, unless that failed, the Jacobian, the
third its combined evaluator.
-/

namespace RootFinding

variable {σ ε β : Type}

def Evaluator.Memoryless (run : Evaluator σ ε β) : Prop :=
  ∀ s t x b, (run s x b).failure = (run t x b).failure ∧ (run s x b).buffer = (run t x b).buffer

namespace Calls

def enterAll (c : Calls) (made : List (Slot × List Float)) : Calls :=
  made.foldl (fun c call => c.enter call.1 call.2) c

theorem enterAll_cons (c : Calls) (call : Slot × List Float) (made : List (Slot × List Float)) :
    c.enterAll (call :: made) = (c.enter call.1 call.2).enterAll made := rfl

theorem enterAll_append (c : Calls) (made made' : List (Slot × List Float)) :
    c.enterAll (made ++ made') = (c.enterAll made).enterAll made' := List.foldl_append

end Calls

/-- The calls of separate evaluators. The Jacobian is not called after a residual that failed. -/
def Evaluation.separateCalls (R : ResidualEvaluator σ ε) :
    Evaluation σ ε → List (Slot × List Float)
  | .residual _ x _ _ => [(.residual, x)]
  | .jacobian _ x _ _ => [(.jacobian, x)]
  | .both s x buffers _ =>
    (.residual, x) :: if (R.run s x buffers.1).failure.isNone then [(.jacobian, x)] else []

def Evaluation.jointCalls : Evaluation σ ε → List (Slot × List Float)
  | .residual _ x _ _ => [(.residual, x)]
  | .jacobian _ x _ _ => [(.jacobian, x)]
  | .both _ x _ _ => [(.both, x)]

inductive Kind (σ ε : Type) where
  | separate (dimension : Option Nat)
  | plain
  | fused (residual : ResidualEvaluator (σ × Calls) ε) (jacobian : JacobianEvaluator (σ × Calls) ε)
      (dimension : Option Nat)
  | reference (kind : Kind σ ε)

namespace Kind

def system (R : ResidualEvaluator σ ε) (J : JacobianEvaluator σ ε) :
    Kind σ ε → System (σ × Calls) ε
  | separate dimension => .sequential (.recorded fun _ => R) (.recorded fun _ => J) dimension
  | plain => .plain (.recorded fun _ => R) (.recorded fun _ => J)
  | fused residual jacobian dimension =>
    .fused residual jacobian (.recorded fun _ => R.andThen J) dimension
  | reference kind => (kind.system R J).byReference

def calls (R : ResidualEvaluator σ ε) : Kind σ ε → Evaluation σ ε → List (Slot × List Float)
  | separate _ => Evaluation.separateCalls R
  | plain => Evaluation.separateCalls R
  | fused _ _ _ => Evaluation.jointCalls
  | reference kind => kind.calls R

end Kind

def Counts (earlier : Calls) (calls : Evaluation σ ε → List (Slot × List Float))
    (s : σ × Calls) (t : σ × List (Evaluation σ ε)) : Prop :=
  s.2 = earlier.enterAll (t.2.flatMap calls)

theorem Counts.see {earlier : Calls} {calls : Evaluation σ ε → List (Slot × List Float)}
    {s : σ × Calls} {t : σ × List (Evaluation σ ε)} (h : Counts earlier calls s t)
    (e : Evaluation σ ε) (s' t' : σ) :
    Counts earlier calls (s', s.2.enterAll (calls e)) (t', t.2 ++ [e]) := by
  unfold Counts at h ⊢
  rw [h, List.flatMap_append, Calls.enterAll_append, List.flatMap_singleton]

section Replies

variable {R : ResidualEvaluator σ ε} {J : JacobianEvaluator σ ε}

theorem memoryless_andThen (hR : R.run.Memoryless) (hJ : Evaluator.Memoryless J) :
    (R.andThen J).run.Memoryless := by
  rintro s t x ⟨fx, jx⟩
  obtain ⟨hfailure, hbuffer⟩ := hR s t x fx
  cases hfirst : (R.run t x fx).failure with
  | some e =>
    rw [R.andThen_of_error J (hfailure.trans hfirst), R.andThen_of_error J hfirst, hbuffer]
    exact ⟨rfl, rfl⟩
  | none =>
    obtain ⟨hfailure', hbuffer'⟩ := hJ (R.run s x fx).state (R.run t x fx).state x jx
    rw [R.andThen_of_ok J (hfailure.trans hfirst), R.andThen_of_ok J hfirst, hbuffer, hfailure',
      hbuffer']
    exact ⟨rfl, rfl⟩

theorem andThen_recorded (R : Nat → ResidualEvaluator σ ε) (J : Nat → JacobianEvaluator σ ε)
    (s : σ) (c : Calls) (x fx : List Float) (jx : DenseMatrix Float) :
    let first := R (c.count .residual)
    let reply := (first.andThen (J (c.count .jacobian))).run s x (fx, jx)
    (ResidualEvaluator.andThen (.recorded R) (.recorded J)).run (s, c) x (fx, jx) =
      ⟨reply.failure, reply.buffer, (reply.state,
        c.enterAll (Evaluation.separateCalls first (.both s x (fx, jx) reply)))⟩ := by
  intro first reply
  have hrun : (ResidualEvaluator.recorded R).run (s, c) x fx = ⟨(first.run s x fx).failure,
    (first.run s x fx).buffer, ((first.run s x fx).state, c.enter .residual x)⟩ := rfl
  cases hfirst : (first.run s x fx).failure with
  | some e =>
    have hsecond := first.andThen_of_error (J (c.count .jacobian)) hfirst jx
    rw [ResidualEvaluator.andThen_of_error _ _ (by rw [hrun]; exact hfirst), hrun]
    simp [reply, hsecond, Evaluation.separateCalls, hfirst, Calls.enterAll]
  | none =>
    have hsecond := first.andThen_of_ok (J (c.count .jacobian)) hfirst jx
    have hrun' : JacobianEvaluator.recorded J ((first.run s x fx).state, c.enter .residual x) x jx =
      ⟨(J (c.count .jacobian) (first.run s x fx).state x jx).failure,
        (J (c.count .jacobian) (first.run s x fx).state x jx).buffer,
        ((J (c.count .jacobian) (first.run s x fx).state x jx).state,
          (c.enter .residual x).enter .jacobian x)⟩ := rfl
    rw [ResidualEvaluator.andThen_of_ok _ _ (by rw [hrun]; exact hfirst), hrun, hrun']
    simp [reply, hsecond, Evaluation.separateCalls, hfirst, Calls.enterAll]

theorem repliesAs_separate (hR : R.run.Memoryless) (hJ : Evaluator.Memoryless J)
    (earlier : Calls) {f : System (σ × Calls) ε}
    (hf : f.both = ResidualEvaluator.andThen (.recorded fun _ => R) (.recorded fun _ => J)) :
    f.RepliesAs (Counts earlier (Evaluation.separateCalls R))
      (System.sequential R J none).observed := by
  rintro ⟨s, c⟩ ⟨t, seen⟩ hcounts x ⟨fx, jx⟩
  rw [hf, andThen_recorded]
  obtain ⟨hfailure, hbuffer⟩ := memoryless_andThen hR hJ s t x (fx, jx)
  refine ⟨hfailure, fun _ => hbuffer, ?_⟩
  have hcalls : Evaluation.separateCalls R (.both s x (fx, jx)
      ((R.andThen J).run s x (fx, jx))) = Evaluation.separateCalls R (.both t x (fx, jx)
      ((R.andThen J).run t x (fx, jx))) := by
    rw [Evaluation.separateCalls, Evaluation.separateCalls, (hR s t x fx).1]
  dsimp only
  rw [hcalls]
  exact hcounts.see _ _ _

theorem repliesAs_joint (hR : R.run.Memoryless) (hJ : Evaluator.Memoryless J)
    (earlier : Calls) {f : System (σ × Calls) ε}
    (hf : f.both = .recorded fun _ => R.andThen J) :
    f.RepliesAs (Counts earlier Evaluation.jointCalls) (System.sequential R J none).observed := by
  rintro ⟨s, c⟩ ⟨t, seen⟩ hcounts x buffers
  rw [hf]
  obtain ⟨hfailure, hbuffer⟩ := memoryless_andThen hR hJ s t x buffers
  exact ⟨hfailure, fun _ => hbuffer,
    hcounts.see (.both t x buffers ((R.andThen J).run t x buffers)) _ _⟩

theorem Kind.repliesAs (hR : R.run.Memoryless) (hJ : Evaluator.Memoryless J) (earlier : Calls)
    (kind : Kind σ ε) :
    (kind.system R J).RepliesAs (Counts earlier (kind.calls R))
      (System.sequential R J none).observed := by
  induction kind with
  | separate dimension => exact repliesAs_separate hR hJ earlier rfl
  | plain => exact repliesAs_separate hR hJ earlier rfl
  | fused residual jacobian dimension => exact repliesAs_joint hR hJ earlier rfl
  | reference kind ih => exact ih

end Replies

namespace Newton

theorem precheck_of_dimension {f : System σ ε} {start : List Float}
    (h : f.dimension = none ∨ f.dimension = some start.length) (o : Settings) :
    precheck f o start = o.fault?.map .settings := by
  unfold precheck
  cases o.fault? with
  | some fault => rfl
  | none =>
    rcases h with h | h
    · rw [h]
      rfl
    · rw [h]
      exact if_pos rfl

theorem solve_of_kind {R : ResidualEvaluator σ ε} {J : JacobianEvaluator σ ε}
    (hR : R.run.Memoryless) (hJ : Evaluator.Memoryless J) (kind : Kind σ ε) {start : List Float}
    (hdimension : (kind.system R J).dimension = none ∨
      (kind.system R J).dimension = some start.length)
    (o : Settings) (sink : Sink) (s t : σ) (c : Calls) :
    let given := solve (kind.system R J) (s, c) start o sink
    let observed := solve (System.sequential R J none).observed (t, []) start o sink
    given.result = observed.result ∧ given.journal = observed.journal ∧
      given.state.2 = c.enterAll (observed.state.2.flatMap (kind.calls R)) := by
  have hreference : precheck (System.sequential R J none).observed o start =
      o.fault?.map .settings := precheck_of_dimension (.inl rfl) o
  have hcheck := (precheck_of_dimension hdimension o).trans hreference.symm
  exact solve_repliesAs (kind.repliesAs hR hJ c) hcheck sink (s := (s, c)) (t := (t, [])) rfl

open Script in
/-- The Jacobian is written on its diagonal only, the second residual where it is not negative. -/
theorem solve_of_reference_to_fused :
    let R := Script.residual [.setResidual 0 (.binary .sub (.power (.point 0) 2) (.constant 2)),
      .stop ⟨.less, .point 1, .constant 0⟩, .setResidual 1 (.point 1)] 0
    let J := Script.jacobian [.setJacobian 0 0 (.binary .mul (.constant 2) (.point 0)),
      .setJacobian 1 1 (.constant 1)] 0
    let kind : Kind Unit String := .reference
      (.fused (.recorded (Script.residual [])) (.recorded (Script.jacobian [])) (some 2))
    let given := solve (kind.system R J) ((), .none) [1, 3] {} .unlimited
    let observed := solve (System.sequential R J none).observed ((), []) [1, 3] {} .unlimited
    R.run.Memoryless ∧ Evaluator.Memoryless J ∧ 1 < observed.state.2.length ∧
      given.result = observed.result ∧ given.journal = observed.journal ∧
      given.state.2 = Calls.none.enterAll (observed.state.2.flatMap Evaluation.jointCalls) := by
  intro R J kind given observed
  have hR : R.run.Memoryless := fun _ _ _ _ => ⟨rfl, rfl⟩
  have hJ : Evaluator.Memoryless J := fun _ _ _ _ => ⟨rfl, rfl⟩
  have hdimension : (kind.system R J).dimension = none ∨
      (kind.system R J).dimension = some ([1, 3] : List Float).length := .inr rfl
  have hlong : 1 < observed.state.2.length := by decide +kernel
  exact ⟨hR, hJ, hlong, solve_of_kind hR hJ kind hdimension {} .unlimited () () .none⟩

end Newton

end RootFinding
