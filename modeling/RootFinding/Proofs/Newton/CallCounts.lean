import RootFinding.Proofs.Evaluator.CentralDifference
import RootFinding.Proofs.Newton.Evaluations
import RootFinding.Proofs.Newton.Kinds

/-!
# The number of calls

The evaluations of a solve that do not fail each cost the same calls, by the way the system is
given: one of the residual and one of the Jacobian, one of a combined evaluator, or one residual
call and two more to a column of central differences. If an evaluator fails, the solve ends right
after that call.
-/

namespace RootFinding

def Calls.Spent (before after : Calls) (cost : Slot → Nat) : Prop :=
  ∀ slot, after.count slot = before.count slot + cost slot

namespace Newton

variable {σ τ ε : Type}

/-- What an evaluation costs, recorded in the state: all of it if it succeeds, or a part that
`cut` allows if an evaluator fails. -/
structure Metered (f : System τ ε) (calls : τ → Calls) (n : Nat) (full : Slot → Nat)
    (cut : Query τ → (Slot → Nat) → Prop) : Prop where
  full : ∀ q : Query τ, q.point.length = n → SquareBuffers n q.buffers →
    (q.reply f).failure = none → (calls q.state).Spent (calls (q.reply f).state) full
  cut : ∀ (q : Query τ) (e : ε), q.point.length = n → SquareBuffers n q.buffers →
    (q.reply f).failure = some e →
      ∃ cost, cut q cost ∧ (calls q.state).Spent (calls (q.reply f).state) cost

section Run

variable {f : System τ ε} {calls : τ → Calls} {n : Nat} {full : Slot → Nat}
  {cut : Query τ → (Slot → Nat) → Prop} {s s' : τ} {queries : List (Query τ)} {q : Query τ}

theorem Query.fault_eq_evaluation {e : ε} :
    q.fault f = some (.evaluation e) ↔ (q.reply f).failure = some e := by
  unfold fault
  dsimp only
  cases (q.reply f).failure with
  | some e' => simp
  | none =>
    dsimp only
    split
    · simp
    · simp

theorem Query.failure_of_fault (h : q.fault f = none) : (q.reply f).failure = none := by
  refine Option.eq_none_iff_forall_ne_some.2 fun e he => ?_
  rw [fault_eq_evaluation.2 he] at h
  cases h

theorem Evaluated.of_append (h : Evaluated f n s (queries ++ [q]) s') :
    Evaluated f n s queries q.state ∧ q.point.length = n ∧ SquareBuffers n q.buffers ∧
      s' = (q.reply f).state := by
  generalize hall : queries ++ [q] = all at h
  cases h with
  | start => simp at hall
  | more h hpoint hbuffers =>
    obtain ⟨rfl, hlast⟩ := List.append_inj' hall rfl
    obtain rfl := List.singleton_inj.1 hlast
    exact ⟨h, hpoint, hbuffers, rfl⟩

theorem Evaluated.spent (h : Evaluated f n s queries s') (hmetered : Metered f calls n full cut)
    (hsound : ∀ q ∈ queries, (q.reply f).failure = none) :
    (calls s).Spent (calls s') fun slot => queries.length * full slot := by
  induction h with
  | start => simp [Calls.Spent]
  | more h hpoint hbuffers ih =>
    obtain ⟨hsound, hlast⟩ := List.forall_mem_append.1 hsound
    have hcost := hmetered.full _ hpoint hbuffers (hlast _ (List.mem_singleton_self _))
    intro slot
    simp only [hcost slot, ih hsound slot, List.length_append, List.length_singleton, Nat.add_mul,
      Nat.one_mul, Nat.add_assoc]

end Run

structure Accounted (f : System τ ε) (calls : τ → Calls) (n : Nat) (full : Slot → Nat)
    (cut : Query τ → (Slot → Nat) → Prop) (s : τ) (outcome : Outcome τ ε)
    (queries : List (Query τ)) : Prop where
  evaluated : Evaluated f n s queries outcome.state
  ends : Ends f (outcome.result.map Summary.iterations) queries
  reported : ∀ r, outcome.result = .ok r →
    r.residualCalls = queries.length ∧ r.jacobianCalls = queries.length
  whole : (∀ e, outcome.result ≠ .error (.evaluation e)) →
    (calls s).Spent (calls outcome.state) fun slot => queries.length * full slot
  stopped : ∀ e, outcome.result = .error (.evaluation e) →
    ∃ sound last cost, queries = sound ++ [last] ∧ (last.reply f).failure = some e ∧
      cut last cost ∧
      (calls s).Spent (calls outcome.state) fun slot => sound.length * full slot + cost slot

theorem error_of_map_iterations {result : Except (Failure ε) Summary} {e : Failure ε}
    (h : result.map Summary.iterations = .error e) : result = .error e := by
  cases result with
  | error e' => exact congrArg Except.error (Except.error.inj h)
  | ok r => cases h

theorem Ends.failure_eq_none {f : System τ ε} {result : Except (Failure ε) Nat}
    {queries : List (Query τ)} (h : Ends f result queries)
    (hresult : ∀ e, result ≠ .error (.evaluation e)) :
    ∀ q ∈ queries, (q.reply f).failure = none := by
  cases h with
  | told hsound => exact fun q hq => Query.failure_of_fault (hsound q hq)
  | failed hsound hfault =>
    refine List.forall_mem_append.2 ⟨fun q hq => Query.failure_of_fault (hsound q hq), ?_⟩
    refine List.forall_mem_singleton.2 (Option.eq_none_iff_forall_ne_some.2 fun e he => ?_)
    rw [Query.fault_eq_evaluation.2 he] at hfault
    exact hresult e (congrArg Except.error (Option.some.inj hfault).symm)

theorem Ends.of_evaluation {f : System τ ε} {queries : List (Query τ)} {e : ε}
    (h : Ends f (.error (.evaluation e)) queries) :
    ∃ sound last, queries = sound ++ [last] ∧ (last.reply f).failure = some e ∧
      ∀ q ∈ sound, (q.reply f).failure = none := by
  cases h with
  | told hsound hnumber => cases hnumber
  | failed hsound hfault =>
    exact ⟨_, _, rfl, Query.fault_eq_evaluation.1 hfault,
      fun q hq => Query.failure_of_fault (hsound q hq)⟩

theorem reported_of_ends {f : System τ ε} {s : τ} {start : List Float} {o : Settings} {sink : Sink}
    {queries : List (Query τ)} {r : Summary} (h : (solve f s start o sink).result = .ok r)
    (hends : Ends f (.ok r.iterations) queries) :
    r.residualCalls = queries.length ∧ r.jacobianCalls = queries.length := by
  obtain ⟨p, hlocated, -, hend⟩ := located_of_solve_ok h
  have hnumber : r.iterations + 1 = queries.length := by
    cases hends with
    | told hsound hnumber => exact Option.some.inj hnumber
  rw [hend.residualCalls, hend.jacobianCalls, ← hnumber, hlocated.evaluations, hend.iterations]
  exact ⟨rfl, rfl⟩

theorem Metered.accounted {f : System τ ε} {calls : τ → Calls} {full : Slot → Nat}
    {cut : Query τ → (Slot → Nat) → Prop} {start : List Float}
    (h : Metered f calls start.length full cut) (s : τ) (o : Settings) (sink : Sink) :
    ∃ queries, Accounted f calls start.length full cut s (solve f s start o sink) queries := by
  obtain ⟨queries, hevaluated, hends⟩ := solve_evaluated f s start o sink
  refine ⟨queries,
    { evaluated := hevaluated
      ends := hends
      reported := ?reported
      whole := ?whole
      stopped := ?stopped }⟩
  case reported =>
    intro r hr
    rw [hr] at hends
    exact reported_of_ends hr hends
  case whole =>
    intro hresult
    refine hevaluated.spent h (hends.failure_eq_none fun e he => ?_)
    exact hresult e (error_of_map_iterations he)
  case stopped =>
    intro e he
    rw [he] at hends
    obtain ⟨sound, last, rfl, hfailure, hsound⟩ := hends.of_evaluation
    obtain ⟨hbefore, hpoint, hbuffers, hstate⟩ := hevaluated.of_append
    obtain ⟨cost, hcost, hspent⟩ := h.cut last e hpoint hbuffers hfailure
    refine ⟨sound, last, cost, rfl, hfailure, hcost, fun slot => ?_⟩
    rw [hstate, hspent slot, hbefore.spent h hsound slot, Nat.add_assoc]

def separately : Slot → Nat
  | .residual => 1
  | .jacobian => 1
  | .both => 0

def jointly : Slot → Nat
  | .residual => 0
  | .jacobian => 0
  | .both => 1

def ofResidual (calls : Nat) : Slot → Nat
  | .residual => calls
  | .jacobian => 0
  | .both => 0

def byDifferences (n : Nat) : Slot → Nat := ofResidual (2 * n + 1)

def untilFailure (R : ResidualEvaluator τ ε) (q : Query τ) : Slot → Nat
  | .residual => 1
  | .jacobian => if (R.run q.state q.point q.buffers.1).failure.isNone then 1 else 0
  | .both => 0

def differencesUntilFailure (R : ResidualEvaluator σ ε) (n : Nat) (q : Query (σ × Scratch))
    (cost : Slot → Nat) : Prop :=
  ∃ calls e s', R.Makes q.state.1 calls (some e) s' ∧ 1 ≤ calls ∧ calls ≤ 2 * n + 1 ∧
    cost = ofResidual calls

theorem count_enterAll (c : Calls) (made : List (Slot × List Float)) (slot : Slot) :
    (c.enterAll made).count slot = c.count slot + made.countP fun call => slot = call.1 := by
  induction made generalizing c with
  | nil => rfl
  | cons call made ih =>
    rw [Calls.enterAll_cons, ih, Calls.count_enter, List.countP_cons, Nat.add_assoc,
      Nat.add_comm (if slot = call.1 then 1 else 0)]
    simp only [decide_eq_true_eq]

section Kinds

variable (R : Nat → ResidualEvaluator σ ε) (J : Nat → JacobianEvaluator σ ε)

theorem spent_separate {f : System (σ × Calls) ε}
    (hf : f.both = ResidualEvaluator.andThen (.recorded R) (.recorded J)) (q : Query (σ × Calls)) :
    q.state.2.Spent (q.reply f).state.2 (untilFailure (.recorded R) q) := by
  obtain ⟨⟨s, c⟩, x, fx, jx⟩ := q
  intro slot
  unfold Query.reply
  rw [hf, andThen_recorded, count_enterAll]
  refine congrArg (c.count slot + ·) ?_
  have hfirst : ((ResidualEvaluator.recorded R).run (s, c) x fx).failure =
      ((R (c.count .residual)).run s x fx).failure := rfl
  unfold Evaluation.separateCalls untilFailure
  dsimp only
  rw [hfirst]
  cases ((R (c.count .residual)).run s x fx).failure <;> cases slot <;> rfl

theorem untilFailure_of_success {f : System τ ε} {R : ResidualEvaluator τ ε}
    {J : JacobianEvaluator τ ε} (hf : f.both = R.andThen J) {q : Query τ}
    (h : (q.reply f).failure = none) : untilFailure R q = separately := by
  obtain ⟨s, x, fx, jx⟩ := q
  unfold Query.reply at h
  rw [hf] at h
  cases hfirst : (R.run s x fx).failure with
  | some e =>
    rw [R.andThen_of_error J hfirst] at h
    cases h
  | none =>
    funext slot
    cases slot with
    | jacobian => simp [untilFailure, hfirst, separately]
    | _ => rfl

theorem metered_separate {f : System (σ × Calls) ε}
    (hf : f.both = ResidualEvaluator.andThen (.recorded R) (.recorded J)) (n : Nat) :
    Metered f Prod.snd n separately fun q cost => cost = untilFailure (.recorded R) q where
  full := by
    intro q _ _ hsuccess
    rw [← untilFailure_of_success hf hsuccess]
    exact spent_separate R J hf q
  cut q e _ _ _ := ⟨_, rfl, spent_separate R J hf q⟩

theorem metered_joint (F : Nat → JointEvaluator σ ε) {f : System (σ × Calls) ε}
    (hf : f.both = .recorded F) (n : Nat) :
    Metered f Prod.snd n jointly fun _ cost => cost = jointly := by
  have hspent (q : Query (σ × Calls)) : q.state.2.Spent (q.reply f).state.2 jointly := by
    intro slot
    unfold Query.reply
    rw [hf]
    exact (q.state.2.count_enter .both slot q.point).trans (by cases slot <;> rfl)
  exact ⟨fun q _ _ _ => hspent q, fun q _ _ _ _ => ⟨_, rfl, hspent q⟩⟩

theorem spent_makes {s s' : σ × Calls} {calls : Nat} {failure : Option ε}
    (h : (ResidualEvaluator.recorded R).Makes s calls failure s') :
    s.2.Spent s'.2 (ofResidual calls) := by
  have hcall (s : σ × Calls) (x fx : List Float) :
      s.2.Spent ((ResidualEvaluator.recorded R).run s x fx).state.2 (ofResidual 1) := by
    intro slot
    exact (s.2.count_enter .residual slot x).trans (by cases slot <;> rfl)
  induction h with
  | nil s => exact fun slot => by cases slot <;> rfl
  | @fails s x fx e h => exact hcall s x fx
  | @call s s' x fx calls failure h _ ih =>
    intro slot
    rw [ih slot, hcall s x fx slot]
    cases slot with
    | residual => simp only [ofResidual]; omega
    | _ => rfl

theorem metered_differences (dimension : Option Nat) (n : Nat) :
    Metered (CentralDifference.system (.recorded R) dimension) (fun s => s.1.2) n (byDifferences n)
      (differencesUntilFailure (.recorded R) n) := by
  have hmakes (q : Query ((σ × Calls) × Scratch)) (hpoint : q.point.length = n)
      (hbuffers : SquareBuffers n q.buffers) :
      let reply := q.reply (CentralDifference.system (.recorded R) dimension)
      ∃ calls, (ResidualEvaluator.recorded R).Makes q.state.1 (calls + 1) reply.failure
          reply.state.1 ∧ calls ≤ 2 * n ∧ (reply.failure = none → calls = 2 * n) := by
    have hcommon : (CentralDifference.common q.point q.buffers.2).length = n := by
      rw [CentralDifference.common, List.length_range, hpoint, hbuffers.2.2, Nat.min_self]
    have h := CentralDifference.system_makes (.recorded R) dimension q.state q.point q.buffers.1
      q.buffers.2
    rwa [hcommon] at h
  constructor
  · intro q hpoint hbuffers hsuccess
    obtain ⟨calls, hcalls, -, hall⟩ := hmakes q hpoint hbuffers
    rw [byDifferences, ← hall hsuccess]
    exact spent_makes R hcalls
  · intro q e hpoint hbuffers hfailure
    obtain ⟨calls, hcalls, hle, -⟩ := hmakes q hpoint hbuffers
    have hspent := spent_makes R hcalls
    rw [hfailure] at hcalls
    exact ⟨_, ⟨calls + 1, e, _, hcalls, by omega, by omega, rfl⟩, hspent⟩

end Kinds

def Accountable (f : System τ ε) (calls : τ → Calls) (full : Nat → Slot → Nat)
    (cut : Nat → Query τ → (Slot → Nat) → Prop) : Prop :=
  ∀ s start o sink, ∃ queries, Accounted f calls start.length (full start.length)
    (cut start.length) s (solve f s start o sink) queries

theorem calls_accountable (R : Nat → ResidualEvaluator σ ε) (J : Nat → JacobianEvaluator σ ε)
    (F : Nat → JointEvaluator σ ε) (dimension : Option Nat) :
    Accountable (.sequential (.recorded R) (.recorded J) dimension) Prod.snd (fun _ => separately)
        (fun _ q cost => cost = untilFailure (.recorded R) q) ∧
      Accountable (.plain (.recorded R) (.recorded J)) Prod.snd (fun _ => separately)
        (fun _ q cost => cost = untilFailure (.recorded R) q) ∧
      Accountable (.fused (.recorded R) (.recorded J) (.recorded F) dimension) Prod.snd
        (fun _ => jointly) (fun _ _ cost => cost = jointly) ∧
      Accountable (CentralDifference.system (.recorded R) dimension) (fun s => s.1.2)
        byDifferences (differencesUntilFailure (.recorded R)) :=
  ⟨fun s _ o sink => (metered_separate R J rfl _).accounted s o sink,
    fun s _ o sink => (metered_separate R J rfl _).accounted s o sink,
    fun s _ o sink => (metered_joint F rfl _).accounted s o sink,
    fun s _ o sink => (metered_differences R dimension _).accounted s o sink⟩

end Newton

end RootFinding
