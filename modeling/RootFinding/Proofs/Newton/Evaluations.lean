import RootFinding.Proofs.Evaluator.Answer
import RootFinding.Proofs.Newton.Continuation

/-!
# The evaluations of a run

A run evaluates residual and Jacobian together, at points and on buffers of the right size, and
from the state that the evaluation before left. No evaluation but the last one fails or leaves a
Jacobian of another shape. How many there were is told by the end of the run, unless this is the
failure of the last one.
-/

namespace RootFinding.Newton

variable {σ ε : Type}

structure Query (σ : Type) where
  state : σ
  point : List Float
  buffers : List Float × DenseMatrix Float

namespace Query

def reply (f : System σ ε) (q : Query σ) : Reply σ ε (List Float × DenseMatrix Float) :=
  f.both.run q.state q.point q.buffers

def fault (f : System σ ε) (q : Query σ) : Option (Failure ε) :=
  let reply := q.reply f
  let n := q.point.length
  match reply.failure with
  | some error => some (.evaluation error)
  | none =>
    if reply.buffer.2.IsSquare n then none
    else some (.jacobianShape n reply.buffer.2.rows reply.buffer.2.cols)

end Query

def Point.query (p : Point) (s : σ) : Query σ := ⟨s, p.x, (p.residual, p.jacobian)⟩

inductive Evaluated (f : System σ ε) (n : Nat) (s : σ) : List (Query σ) → σ → Prop
  | start : Evaluated f n s [] s
  | more {queries : List (Query σ)} {q : Query σ} (h : Evaluated f n s queries q.state)
      (hpoint : q.point.length = n) (hbuffers : SquareBuffers n q.buffers) :
      Evaluated f n s (queries ++ [q]) (q.reply f).state

/-- The number of evaluations before a failure, if the failure tells it. -/
def Failure.started? : Failure ε → Option Nat
  | settings _ => some 0
  | dimensionMismatch _ _ => some 0
  | jacobianShape _ _ _ => none
  | nonFiniteResidual => some 1
  | singularJacobian iteration => some iteration
  | nonFiniteStep iteration => some iteration
  | evaluation _ => none

def started? : Except (Failure ε) Nat → Option Nat
  | .error e => e.started?
  | .ok iterations => some (iterations + 1)

/-- A run ends after evaluations in which nothing went wrong, or with one in which something did. -/
inductive Ends (f : System σ ε) : Except (Failure ε) Nat → List (Query σ) → Prop
  | told {result : Except (Failure ε) Nat} {queries : List (Query σ)}
      (hsound : ∀ q ∈ queries, q.fault f = none) (h : started? result = some queries.length) :
      Ends f result queries
  | failed {e : Failure ε} {queries : List (Query σ)} {q : Query σ}
      (hsound : ∀ q ∈ queries, q.fault f = none) (h : q.fault f = some e) :
      Ends f (.error e) (queries ++ [q])

theorem Point.fault_query (p : Point) (f : System σ ε) (s : σ) :
    (p.query s).fault f =
      match (p.evaluate f s).1 with
      | .error e => some e
      | .ok _ => none := by
  unfold Query.fault Query.reply Point.query Point.evaluate
  dsimp only
  cases (f.both.run s p.x (p.residual, p.jacobian)).failure with
  | some e => rfl
  | none =>
    dsimp only [DenseMatrix.IsSquare]
    split
    · next hshape => exact if_pos hshape
    · next hshape => exact if_neg hshape

structure Arrived (f : System σ ε) (n : Nat) (first : σ) (queries : List (Query σ)) (p : Point)
    (s : σ) : Prop where
  evaluated : Evaluated f n first queries s
  sound : ∀ q ∈ queries, q.fault f = none
  length : queries.length = p.index + 1
  square : p.Square n

section Steps

variable {f : System σ ε} {n : Nat} {first s s' : σ} {queries : List (Query σ)} {p q : Point}

theorem Evaluated.query (h : Evaluated f n first queries s) (hp : p.Square n) :
    Evaluated f n first (queries ++ [p.query s]) (p.evaluate f s).2 := by
  rw [Point.state_evaluate]
  exact .more (q := p.query s) h hp.length_x ⟨hp.length_residual, hp.rows, hp.cols⟩

theorem Evaluated.ends_of_error (h : Evaluated f n first queries s)
    (hsound : ∀ q ∈ queries, q.fault f = none) (hp : p.Square n) {e : Failure ε}
    (he : p.evaluate f s = (.error e, s')) :
    ∃ queries', Evaluated f n first queries' s' ∧ Ends f (.error e) queries' := by
  have hquery := h.query hp
  have hfault := p.fault_query f s
  rw [he] at hquery hfault
  exact ⟨_, hquery, .failed hsound hfault⟩

theorem Arrived.next_ok (h : Arrived f n first queries p s) (hnext : p.next f s = (.ok q, s')) :
    ∃ queries', Arrived f n first queries' q s' := by
  have hfollows := Point.follows_of_next hnext
  unfold Point.next at hnext
  split at hnext
  · cases hnext
  · next moved hmoved =>
    have hquery := h.evaluated.query (Point.square_advance h.square hmoved)
    have hfault := moved.fault_query f s
    rw [hnext] at hquery hfault
    refine ⟨_, hquery, List.forall_mem_append.2 ⟨h.sound, ?_⟩, ?_, hfollows.square h.square⟩
    · exact List.forall_mem_singleton.2 hfault
    · rw [List.length_append, h.length, hfollows.index]
      rfl

theorem started?_of_advance {e : Failure ε}
    (h : (p.advance : Except (Failure ε) Point) = .error e) : e.started? = some (p.index + 1) := by
  unfold Point.advance at h
  split at h
  · next fault hfault =>
    cases h
    cases fault <;> rfl
  · cases h

theorem Arrived.next_error (h : Arrived f n first queries p s) {e : Failure ε}
    (hnext : p.next f s = (.error e, s')) :
    ∃ queries', Evaluated f n first queries' s' ∧ Ends f (.error e) queries' := by
  unfold Point.next at hnext
  split at hnext
  · next e hadvance =>
    cases hnext
    exact ⟨queries, h.evaluated, .told h.sound ((started?_of_advance hadvance).trans
      (congrArg some h.length.symm))⟩
  · next moved hmoved =>
    exact h.evaluated.ends_of_error h.sound (Point.square_advance h.square hmoved) hnext

end Steps

def Trail.ending (t : Trail σ ε) (p : Point) : Except (Failure ε) Nat :=
  match t.failure with
  | some e => .error e
  | none => .ok (t.last p).index

theorem Trail.ending_after (t : Trail σ ε) (p q : Point) : (t.after q).ending p = t.ending q := by
  rw [ending, ending, last_after]
  rfl

theorem Arrived.run {f : System σ ε} {n : Nat} {first s : σ} {queries : List (Query σ)}
    {p : Point} (h : Arrived f n first queries p s) (t : Tolerances) (remaining : Nat) :
    ∃ queries', Evaluated f n first queries' (trail f t remaining s p).state ∧
      Ends f ((trail f t remaining s p).ending p) queries' := by
  fun_induction trail f t remaining s p generalizing queries with
  | case1 s p => exact ⟨queries, h.evaluated, .told h.sound (congrArg some h.length.symm)⟩
  | case2 remaining s p hrest =>
    exact ⟨queries, h.evaluated, .told h.sound (congrArg some h.length.symm)⟩
  | case3 remaining s p hmoves e s' hnext => exact h.next_error hnext
  | case4 remaining s p hmoves q s' hnext ih =>
    obtain ⟨queries', harrived⟩ := h.next_ok hnext
    rw [Trail.ending_after]
    exact ih harrived

theorem started?_of_precheck {f : System σ ε} {o : Settings} {start : List Float} {e : Failure ε}
    (h : precheck f o start = some e) : e.started? = some 0 := by
  obtain ⟨fault, rfl⟩ | ⟨found, rfl⟩ := precheck_eq_some h
  · rfl
  · rfl

theorem Point.square_blank (x : List Float) : (Point.blank x).Square x.length :=
  ⟨rfl, List.length_replicate, rfl, rfl⟩

theorem arrived_of_start {f : System σ ε} {s s' : σ} {start : List Float} {p : Point}
    (h : Point.start f s start = (.ok p, s')) :
    ∃ queries, Arrived f start.length s queries p s' := by
  have hp := Point.starts_of_start h
  have hquery := Evaluated.start.query (f := f) (s := s) (Point.square_blank start)
  have hfault := (Point.blank start).fault_query f s
  rw [(Point.start_eq_ok h).1] at hquery hfault
  exact ⟨_, hquery, List.forall_mem_singleton.2 hfault, by rw [hp.index]; rfl, hp.square⟩

theorem ends_of_start {f : System σ ε} {s s' : σ} {start : List Float} {e : Failure ε}
    (h : Point.start f s start = (.error e, s')) :
    ∃ queries, Evaluated f start.length s queries s' ∧ Ends f (.error e) queries := by
  obtain hevaluate | ⟨rfl, p, hevaluate⟩ := Point.start_eq_error h
  · exact Evaluated.start.ends_of_error (List.forall_mem_nil _) (Point.square_blank start) hevaluate
  · have hquery := Evaluated.start.query (f := f) (s := s) (Point.square_blank start)
    have hfault := (Point.blank start).fault_query f s
    rw [hevaluate] at hquery hfault
    exact ⟨_, hquery, .told (List.forall_mem_singleton.2 hfault) rfl⟩

theorem Trail.map_iterations (o : Settings) (start : List Float) (p : Point) (j : Journal)
    (t : Trail σ ε) :
    ((t.report o (.begin o p j)).outcome o start).result.map Summary.iterations = t.ending p := by
  have hpoint := foldl_reach_point o t.points (.begin o p j)
  rw [Trail.result_report, Trail.ending]
  cases t.failure with
  | some e => rfl
  | none => exact congrArg (fun q => Except.ok q.index) hpoint

theorem solve_evaluated (f : System σ ε) (s : σ) (start : List Float) (o : Settings)
    (sink : Sink) :
    ∃ queries, Evaluated f start.length s queries (solve f s start o sink).state ∧
      Ends f ((solve f s start o sink).result.map Summary.iterations) queries := by
  cases hcheck : precheck f o start with
  | some e =>
    rw [solve_of_precheck sink hcheck]
    exact ⟨[], .start, .told (by simp) (started?_of_precheck hcheck)⟩
  | none =>
    rcases hstart : Point.start f s start with ⟨e | p, s'⟩
    · rw [solve_of_start_error sink hcheck hstart]
      exact ends_of_start hstart
    · obtain ⟨queries, harrived⟩ := arrived_of_start hstart
      obtain ⟨queries', hevaluated, hends⟩ := harrived.run o.tolerances o.iterations
      rw [solve_of_start sink hcheck hstart, Trail.state_report, Trail.map_iterations]
      exact ⟨queries', hevaluated, hends⟩

end RootFinding.Newton
