import RootFinding.Proofs.Newton.Evaluations
import RootFinding.Proofs.Newton.Transcript

/-!
# The log of a solve

A log is read line by line: the level, the text and the named fields of each event. A solve whose
settings or dimension are at fault logs nothing. Any other first logs its start. Then come the
writes that were lost, if any: that of the header, and those of snapshots in the order of their
iterations. The log ends with what the result says: the end of a success, told with the numbers of
its summary, or the warning of a step that could not be taken.
-/

namespace RootFinding

structure LogLine where
  level : Level
  message : String
  fields : List (String × Event.Field)

def Event.line (e : Event) : LogLine := ⟨e.level, e.message, e.fields⟩

def Journal.log (j : Journal) : List LogLine := j.events.toList.map Event.line

def LogLine.warning (message : String) (fields : List (String × Event.Field)) : LogLine :=
  ⟨.warn, message, fields⟩

namespace Newton

variable {σ ε : Type}

def startLine (o : Settings) (unknowns : Nat) : LogLine where
  level := .debug
  message := "starting newton solve"
  fields := [("n", .whole unknowns), ("xtol", .number o.tolerances.step),
    ("ftol", .number o.tolerances.residual), ("iterations", .whole o.iterations)]

def lossLines (cause : String) (shots : List Snapshot) : List LogLine :=
  .warning "failed to show trace header" [("error", .text cause)] ::
    shots.map fun shot => .warning "failed to show solver state"
      [("error", .text cause), ("iteration", .whole shot.iteration)]

def successLines (r : Summary) : List LogLine :=
  (if r.residualNorm.isNaN then
    [.warning "residual is NaN; stopping" [("iteration", .whole r.iterations)]] else []) ++
  [{ level := .debug
     message := "newton solve finished"
     fields := [("iterations", .whole r.iterations), ("converged", .flag r.converged),
       ("residual_norm", .number r.residualNorm)] }]

def failureLines : Failure ε → List LogLine
  | .singularJacobian k => [.warning "singular jacobian" [("iteration", .whole k)]]
  | .nonFiniteStep k => [.warning "non-finite newton step" [("iteration", .whole k)]]
  | _ => []

def lastLines : Except (Failure ε) Summary → List LogLine
  | .ok r => successLines r
  | .error e => failureLines e

def Failure.isEarly : Failure ε → Bool
  | settings _ => true
  | dimensionMismatch _ _ => true
  | _ => false

def foundEarly : Except (Failure ε) Summary → Bool
  | .ok _ => false
  | .error e => e.isEarly

theorem isEarly_of_precheck {f : System σ ε} {o : Settings} {start : List Float} {e : Failure ε}
    (h : precheck f o start = some e) : e.isEarly = true := by
  obtain ⟨fault, rfl⟩ | ⟨found, rfl⟩ := precheck_eq_some h
  · rfl
  · rfl

namespace Point

variable {f : System σ ε} {s s' : σ} {p : Point} {e : Failure ε}

theorem quiet_of_evaluate (h : p.evaluate f s = (.error e, s')) :
    e.isEarly = false ∧ e.warning? = none := by
  have hfault := p.fault_query f s
  rw [h] at hfault
  unfold Query.fault at hfault
  dsimp only at hfault
  split at hfault
  · rw [← Option.some.inj hfault]
    exact ⟨rfl, rfl⟩
  · split at hfault
    · cases hfault
    · rw [← Option.some.inj hfault]
      exact ⟨rfl, rfl⟩

theorem quiet_of_start {x : List Float} (h : start f s x = (.error e, s')) :
    e.isEarly = false ∧ e.warning? = none := by
  obtain hevaluate | ⟨rfl, -⟩ := start_eq_error h
  · exact quiet_of_evaluate hevaluate
  · exact ⟨rfl, rfl⟩

theorem not_isEarly_of_next (h : p.next f s = (.error e, s')) : e.isEarly = false := by
  unfold next at h
  split at h
  · next hadvance =>
    cases h
    unfold advance at hadvance
    split at hadvance
    · next fault hfault =>
      cases hadvance
      cases fault <;> rfl
    · cases hadvance
  · exact (quiet_of_evaluate h).1

end Point

theorem not_isEarly_of_trail {f : System σ ε} {t : Tolerances} {remaining : Nat} {s : σ}
    {p : Point} {e : Failure ε} (h : (trail f t remaining s p).failure = some e) :
    e.isEarly = false := by
  fun_induction trail f t remaining s p with
  | case1 s p => cases h
  | case2 remaining s p hrest => cases h
  | case3 remaining s p hmoves e' s' hnext =>
    rw [← Option.some.inj h]
    exact Point.not_isEarly_of_next hnext
  | case4 remaining s p hmoves q s' hnext ih => exact ih h

theorem map_line_warning (e : Failure ε) :
    e.warning?.toList.map Event.line = failureLines e := by
  cases e <;> rfl

theorem map_line_closing_of_ok {o : Settings} {start : List Float} {p : Point} {r : Summary}
    (h : EndsAt o start p r) :
    (closing o.tolerances p (none : Option (Failure ε))).map Event.line = successLines r := by
  have hconverged : r.converged = (p.verdict o.tolerances).converged := by
    rw [Summary.converged, h.verdict]
  rw [closing, successLines, h.residualNorm, h.iterations, hconverged, List.map_append]
  split <;> rfl

theorem map_line_lost {o : Settings} (hprints : o.printsTrace = true) (cause : WriteFault)
    (points : List Point) :
    ((o.pieces points).map (·.lost cause)).map Event.line =
      lossLines cause.message (points.map (Point.snapshot · o.extendedTrace)) := by
  rw [Settings.pieces, if_pos hprints, lossLines]
  simp [headerPiece, Settings.piece, Event.line, Event.level, Event.message, Event.fields,
    LogLine.warning, Point.snapshot]

def losable (f : System σ ε) (s : σ) (start : List Float) (o : Settings) (cause : WriteFault) :
    List LogLine :=
  (shown f s start o).elim [] (lossLines cause.message)

theorem map_line_pieces (f : System σ ε) (s : σ) (start : List Float) (o : Settings)
    (cause : WriteFault) :
    (((course f s start o).elim [] o.pieces).map (·.lost cause)).map Event.line =
      losable f s start o cause := by
  unfold losable
  cases hshown : shown f s start o with
  | none =>
    rw [pieces_of_shown_none f s start o hshown]
    rfl
  | some shots =>
    obtain ⟨hprints, points, hpoints, rfl⟩ := course_of_shown f s start o hshown
    rw [hpoints]
    exact map_line_lost hprints cause points

structure Logged (f : System σ ε) (s : σ) (start : List Float) (o : Settings) (cause : WriteFault)
    (outcome : Outcome σ ε) : Prop where
  early : foundEarly outcome.result = true → outcome.journal.log = []
  lines : foundEarly outcome.result = false → ∃ losses,
    losses.Sublist (losable f s start o cause) ∧
      outcome.journal.log = startLine o start.length :: (losses ++ lastLines outcome.result)
  numbered : ∀ shots, shown f s start o = some shots →
    shots.map Snapshot.iteration = List.range shots.length
  reaches : ∀ shots, shown f s start o = some shots → Reaches f s start o shots

section Solve

variable {f : System σ ε} {s s' : σ} {start : List Float} {o : Settings} {p : Point}

theorem reaches_of_shown {shots : List Snapshot} (h : shown f s start o = some shots) :
    Reaches f s start o shots := by
  unfold shown at h
  split at h
  · exact reaches_of_reached f s start o h
  · cases h

theorem map_line_closing (sink : Sink) (hcheck : precheck f o start = none)
    (hstart : Point.start f s start = (.ok p, s')) :
    foundEarly (solve f s start o sink).result = false ∧
      (closing o.tolerances ((trail f o.tolerances o.iterations s' p).last p)
        (trail f o.tolerances o.iterations s' p).failure).map Event.line =
        lastLines (solve f s start o sink).result := by
  cases hfailure : (trail f o.tolerances o.iterations s' p).failure with
  | some e =>
    rw [solve_error_of_trail sink hcheck hstart hfailure]
    exact ⟨not_isEarly_of_trail hfailure, map_line_warning e⟩
  | none =>
    obtain ⟨r, hr, hends, -⟩ := endsAt_of_trail sink hcheck hstart hfailure
    rw [hr]
    exact ⟨rfl, map_line_closing_of_ok hends⟩

theorem log_solve (sink : Sink) (hcheck : precheck f o start = none)
    (hstart : Point.start f s start = (.ok p, s')) :
    ∃ losses, losses.Sublist (losable f s start o sink.fault) ∧
      (solve f s start o sink).journal.log =
        startLine o start.length :: (losses ++ lastLines (solve f s start o sink).result) := by
  obtain ⟨told, htold, hevents⟩ := Journal.events_printAll
    (o.pieces (p :: (trail f o.tolerances o.iterations s' p).points)) (opening o start sink)
  have hsublist := htold.map Event.line
  have hpieces := map_line_pieces f s start o sink.fault
  rw [course_of_start hcheck hstart] at hpieces
  refine ⟨told.map Event.line, hpieces ▸ hsublist, ?_⟩
  rw [Journal.log, journal_solve sink hcheck hstart, Journal.events_foldl_emit, hevents,
    List.map_append, List.map_append, (map_line_closing sink hcheck hstart).2, List.append_assoc]
  rfl

end Solve

theorem solve_logged (f : System σ ε) (s : σ) (start : List Float) (o : Settings) (sink : Sink) :
    Logged f s start o sink.fault (solve f s start o sink) where
  early := by
    intro hearly
    cases hcheck : precheck f o start with
    | some e =>
      rw [solve_of_precheck sink hcheck]
      rfl
    | none =>
      rcases hstart : Point.start f s start with ⟨e | p, s'⟩
      · rw [solve_of_start_error sink hcheck hstart] at hearly
        cases (Point.quiet_of_start hstart).1.symm.trans hearly
      · cases (map_line_closing sink hcheck hstart).1.symm.trans hearly
  lines := by
    intro hlate
    cases hcheck : precheck f o start with
    | some e =>
      rw [solve_of_precheck sink hcheck] at hlate
      cases (isEarly_of_precheck hcheck).symm.trans hlate
    | none =>
      rcases hstart : Point.start f s start with ⟨e | p, s'⟩
      · have hquiet := map_line_warning e
        rw [(Point.quiet_of_start hstart).2] at hquiet
        rw [solve_of_start_error sink hcheck hstart]
        refine ⟨[], List.nil_sublist _, ?_⟩
        rw [lastLines, ← hquiet]
        rfl
      · exact log_solve sink hcheck hstart
  numbered := by
    intro shots hshots
    have hreaches := reaches_of_shown hshots
    apply List.ext_getElem
    · simp
    · intro k hk _
      simp only [List.length_map] at hk
      simp only [List.getElem_map, List.getElem_range]
      exact hreaches.numbered k shots[k] (List.getElem?_eq_getElem hk)
  reaches _ := reaches_of_shown

end Newton

end RootFinding
