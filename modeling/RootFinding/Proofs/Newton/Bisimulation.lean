import RootFinding.Newton.Solve
import RootFinding.Proofs.Evaluator.Observed

/-!
# Systems that answer alike

Two systems answer alike if, from related states, their combined evaluations fail alike, leave the
same buffers unless they fail, and end in related states. A solve then has the same result and the
same journal with either. Observing a system is a case of this.
-/

namespace RootFinding

variable {σ τ ε : Type}

inductive Alike {α : Type} (R : σ → τ → Prop) : α × σ → α × τ → Prop
  | intro (a : α) {s : σ} {t : τ} (h : R s t) : Alike R (a, s) (a, t)

structure Reply.Alike {β : Type} (R : σ → τ → Prop) (a : Reply σ ε β) (b : Reply τ ε β) :
    Prop where
  failure : a.failure = b.failure
  buffer : a.failure = none → a.buffer = b.buffer
  state : R a.state b.state

def System.RepliesAs (R : σ → τ → Prop) (f : System σ ε) (g : System τ ε) : Prop :=
  ∀ {s t}, R s t → ∀ x buffers,
    Reply.Alike R (f.both.run s x buffers) (g.both.run t x buffers)

structure System.AnswersAs (R : σ → τ → Prop) (f : System σ ε) (g : System τ ε) : Prop where
  dimension : f.dimension = g.dimension
  reply : f.RepliesAs R g

namespace Newton

variable {R : σ → τ → Prop} {f : System σ ε} {g : System τ ε}

theorem Point.evaluate_alike (h : f.RepliesAs R g) (p : Point) {s : σ} {t : τ} (hst : R s t) :
    Alike R (p.evaluate f s) (p.evaluate g t) := by
  obtain ⟨hfailure, hbuffer, hstate⟩ := h hst p.x (p.residual, p.jacobian)
  rw [Point.evaluate, Point.evaluate, ← hfailure]
  cases hnone : (f.both.run s p.x (p.residual, p.jacobian)).failure with
  | some e => exact .intro _ hstate
  | none =>
    rw [hbuffer hnone]
    dsimp only
    split
    · exact .intro _ hstate
    · exact .intro _ hstate

theorem Point.start_alike (h : f.RepliesAs R g) (x : List Float) {s : σ} {t : τ} (hst : R s t) :
    Alike R (Point.start f s x) (Point.start g t x) := by
  have halike := Point.evaluate_alike h (Point.blank x) hst
  rw [Point.start, Point.start]
  generalize (Point.blank x).evaluate f s = a at halike ⊢
  generalize (Point.blank x).evaluate g t = b at halike ⊢
  obtain ⟨outcome, hstate⟩ := halike
  cases outcome with
  | error e => exact .intro _ hstate
  | ok p =>
    dsimp only
    split
    · exact .intro _ hstate
    · exact .intro _ hstate

theorem Point.next_alike (h : f.RepliesAs R g) (p : Point) {s : σ} {t : τ} (hst : R s t) :
    Alike R (p.next f s) (p.next g t) := by
  rw [Point.next, Point.next]
  cases (p.advance : Except (Failure ε) Point) with
  | error e => exact .intro _ hst
  | ok moved => exact Point.evaluate_alike h moved hst

theorem iterate_alike (h : f.RepliesAs R g) (o : Settings) (remaining : Nat) (r : Progress)
    {s : σ} {t : τ} (hst : R s t) :
    ∃ failure progress s' t', iterate f o remaining s r = ⟨failure, progress, s'⟩ ∧
      iterate g o remaining t r = ⟨failure, progress, t'⟩ ∧ R s' t' := by
  induction remaining generalizing s t r with
  | zero => exact ⟨none, r, s, t, rfl, rfl, hst⟩
  | succ remaining ih =>
    have halike := Point.next_alike h r.point hst
    rw [iterate, iterate]
    split
    · exact ⟨none, r, s, t, rfl, rfl, hst⟩
    · generalize r.point.next f s = a at halike ⊢
      generalize r.point.next g t = b at halike ⊢
      obtain ⟨outcome, hstate⟩ := halike
      cases outcome with
      | error e => exact ⟨_, _, _, _, rfl, rfl, hstate⟩
      | ok q =>
        dsimp only
        split
        · exact ⟨_, _, _, _, rfl, rfl, hstate⟩
        · exact ih (r.reach o q) hstate

theorem solve_repliesAs (h : f.RepliesAs R g) {start : List Float} {o : Settings}
    (hcheck : precheck f o start = precheck g o start) (sink : Sink) {s : σ} {t : τ}
    (hst : R s t) :
    (solve f s start o sink).result = (solve g t start o sink).result ∧
      (solve f s start o sink).journal = (solve g t start o sink).journal ∧
      R (solve f s start o sink).state (solve g t start o sink).state := by
  have halike := Point.start_alike h start hst
  rw [solve, solve, hcheck]
  cases precheck g o start with
  | some e => exact ⟨rfl, rfl, hst⟩
  | none =>
    dsimp only
    generalize Point.start f s start = a at halike ⊢
    generalize Point.start g t start = b at halike ⊢
    obtain ⟨outcome, hstate⟩ := halike
    cases outcome with
    | error e => exact ⟨rfl, rfl, hstate⟩
    | ok p =>
      obtain ⟨failure, progress, s', t', hf, hg, hends⟩ := iterate_alike h o o.iterations
        (.begin o p ((Journal.start sink).emit (.started start.length o.tolerances o.iterations)))
        hstate
      dsimp only
      rw [hf, hg]
      cases failure with
      | none => exact ⟨rfl, rfl, hends⟩
      | some e => exact ⟨rfl, rfl, hends⟩

theorem solve_alike (h : f.AnswersAs R g) (start : List Float) (o : Settings) (sink : Sink)
    {s : σ} {t : τ} (hst : R s t) :
    (solve f s start o sink).result = (solve g t start o sink).result ∧
      (solve f s start o sink).journal = (solve g t start o sink).journal ∧
      R (solve f s start o sink).state (solve g t start o sink).state := by
  have hcheck : precheck f o start = precheck g o start := by rw [precheck, precheck, h.dimension]
  exact solve_repliesAs h.reply hcheck sink hst

theorem observed_answersAs (f : System σ ε) : f.observed.AnswersAs (fun s t => s.1 = t) f where
  dimension := rfl
  reply := by
    rintro ⟨s, seen⟩ _ rfl x buffers
    exact ⟨rfl, fun _ => rfl, rfl⟩

theorem solve_observed (f : System σ ε) (s : σ) (seen : List (Evaluation σ ε))
    (start : List Float) (o : Settings) (sink : Sink) :
    (solve f.observed (s, seen) start o sink).result = (solve f s start o sink).result ∧
      (solve f.observed (s, seen) start o sink).journal = (solve f s start o sink).journal ∧
      (solve f.observed (s, seen) start o sink).state.1 = (solve f s start o sink).state :=
  solve_alike (observed_answersAs f) start o sink rfl

end Newton

end RootFinding
