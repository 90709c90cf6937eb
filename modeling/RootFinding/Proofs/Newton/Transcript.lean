import RootFinding.Proofs.Newton.Certificate
import RootFinding.Proofs.Newton.Continuation
import RootFinding.Proofs.Newton.Tracing
import RootFinding.Proofs.Output.Capture

/-!
# The transcript of a solve

What a solve shows is the header and the snapshots of the points of its trail, in order. Told apart
from the numbers, showing is printing a list of texts: the sink takes the part that fits in its
limit, and the texts that end beyond the limit are reported as lost, the header by itself and each
snapshot by its iteration. The transcript is the text of the history that is stored.
-/

namespace RootFinding

def transcript (shots : List Snapshot) : String :=
  String.join (History.header :: shots.map Snapshot.render)

theorem transcript_eq_render {h : History} {shots : List Snapshot}
    (hshots : h.snapshots.toList = shots) : h.render = transcript shots := by
  rw [← String.toList_inj, transcript, History.render, String.toList_ofList, History.chars, hshots,
    String.toList_join, List.flatMap_cons, List.flatMap_map]
  simp only [Snapshot.render, String.toList_ofList]

namespace Newton

variable {σ ε : Type}

def headerPiece : Piece := ⟨History.header, .headerLost⟩

def Settings.piece (o : Settings) (p : Point) : Piece :=
  ⟨(p.snapshot o.extendedTrace).render, fun cause => .snapshotLost cause p.index⟩

def Settings.pieces (o : Settings) (points : List Point) : List Piece :=
  if o.printsTrace then headerPiece :: points.map o.piece else []

theorem Settings.pieces_append (o : Settings) (p : Point) (points points' : List Point) :
    o.pieces (p :: points ++ points') =
      o.pieces (p :: points) ++ if o.printsTrace then points'.map o.piece else [] := by
  unfold Settings.pieces
  split
  · rw [List.map_append]
    rfl
  · rfl

theorem journal_foldl_reach (o : Settings) (points : List Point) (r : Progress) :
    (points.foldl (Progress.reach o) r).journal =
      r.journal.printAll (if o.printsTrace then points.map o.piece else []) := by
  induction points generalizing r with
  | nil => simp [Journal.printAll]
  | cons q points ih =>
    have hreach : (r.reach o q).journal = (o.record q r.history r.journal).2 := rfl
    rw [List.foldl_cons, ih, hreach, Settings.record_snd]
    by_cases hprints : o.printsTrace = true
    · simp only [if_pos hprints]
      rfl
    · simp only [if_neg hprints]

theorem journal_begin (o : Settings) (p : Point) (j : Journal) :
    (Progress.begin o p j).journal = j.printAll (o.pieces [p]) := by
  unfold Progress.begin
  dsimp only
  rw [Settings.record_snd, Settings.pieces]
  by_cases hprints : o.printsTrace = true
  · simp only [if_pos hprints]
    rfl
  · simp only [if_neg hprints]
    rfl

theorem journal_points (o : Settings) (p : Point) (points : List Point) (j : Journal) :
    (points.foldl (Progress.reach o) (.begin o p j)).journal =
      j.printAll (o.pieces (p :: points)) := by
  rw [journal_foldl_reach, journal_begin, ← Journal.printAll_append, ← Settings.pieces_append,
    List.singleton_append]

theorem foldl_emit_losses {told : List Event} (h : ∀ e ∈ told, e.isLoss = false) (j : Journal) :
    (told.foldl Journal.emit j).sink = j.sink ∧ (told.foldl Journal.emit j).losses = j.losses := by
  induction told generalizing j with
  | nil => exact ⟨rfl, rfl⟩
  | cons e told ih =>
    obtain ⟨hsink, hlosses⟩ := ih (fun e' he' => h e' (List.mem_cons_of_mem _ he')) (j.emit e)
    exact ⟨hsink, hlosses.trans (j.losses_emit (h e List.mem_cons_self))⟩

theorem journal_solve {f : System σ ε} {s s' : σ} {start : List Float} {o : Settings} {p : Point}
    (sink : Sink) (hcheck : precheck f o start = none)
    (hstart : Point.start f s start = (.ok p, s')) :
    (solve f s start o sink).journal =
      (closing o.tolerances ((trail f o.tolerances o.iterations s' p).last p)
        (trail f o.tolerances o.iterations s' p).failure).foldl Journal.emit
        ((opening o start sink).printAll
          (o.pieces (p :: (trail f o.tolerances o.iterations s' p).points))) := by
  have hpoint := foldl_reach_point o (trail f o.tolerances o.iterations s' p).points
    (.begin o p (opening o start sink))
  have hverdict := foldl_reach_verdict o (r := .begin o p (opening o start sink))
    (isChain_trail f o.tolerances o.iterations s' p)
    ((Point.starts_of_start hstart).verdict_eq o.tolerances).symm
  rw [← hpoint] at hverdict
  rw [solve_of_start sink hcheck hstart, Trail.report, journal_outcome start hverdict,
    journal_points, hpoint]
  rfl

theorem text_ne_empty {o : Settings} {points : List Point} {piece : Piece}
    (h : piece ∈ o.pieces points) : piece.text ≠ "" := by
  unfold Settings.pieces at h
  split at h
  · rcases List.mem_cons.1 h with rfl | h
    · decide
    · obtain ⟨p, -, rfl⟩ := List.mem_map.1 h
      intro hempty
      have hchars := congrArg String.toList hempty
      simp [Settings.piece, Snapshot.render, Snapshot.chars] at hchars
  · cases h

theorem isLoss_lost {o : Settings} {points : List Point} {piece : Piece}
    (h : piece ∈ o.pieces points) (fault : WriteFault) : (piece.lost fault).isLoss = true := by
  unfold Settings.pieces at h
  split at h
  · rcases List.mem_cons.1 h with rfl | h
    · rfl
    · obtain ⟨p, -, rfl⟩ := List.mem_map.1 h
      rfl
  · cases h

theorem joined_pieces {o : Settings} (hprints : o.printsTrace = true) (points : List Point) :
    Piece.joined (o.pieces points) =
      transcript (points.map (Point.snapshot · o.extendedTrace)) := by
  rw [Settings.pieces, if_pos hprints, Piece.joined, transcript, List.map_cons, List.map_map,
    List.map_map]
  rfl

theorem mem_losses_pieces {o : Settings} (hprints : o.printsTrace = true) {points : List Point}
    (hindex : ∀ k (q : Point), points[k]? = some q → q.index = k) {limit : Option Nat}
    {fault : WriteFault} {e : Event} :
    e ∈ Piece.losses limit fault 0 (o.pieces points) ↔
      (e = .headerLost fault ∧ Sink.overruns limit History.header.utf8ByteSize = true) ∨
        ∃ k, k < points.length ∧ e = .snapshotLost fault k ∧
          Sink.overruns limit (transcript ((points.map (Point.snapshot · o.extendedTrace)).take
            (k + 1))).utf8ByteSize = true := by
  have hheader : Piece.joined ((o.pieces points).take 1) = History.header := by
    rw [Settings.pieces, if_pos hprints]
    simp [Piece.joined, headerPiece]
  have htake (k : Nat) : Piece.joined ((o.pieces points).take (k + 2)) =
      transcript ((points.map (Point.snapshot · o.extendedTrace)).take (k + 1)) := by
    rw [← List.map_take, ← joined_pieces hprints, Settings.pieces, Settings.pieces,
      if_pos hprints, if_pos hprints, List.take_succ_cons, List.map_take]
  rw [Piece.mem_losses]
  simp only [Nat.zero_add]
  constructor
  · rintro ⟨k, piece, hpiece, rfl, hover⟩
    rw [Settings.pieces, if_pos hprints] at hpiece
    cases k with
    | zero =>
      obtain rfl : headerPiece = piece := by simpa using hpiece
      exact Or.inl ⟨rfl, hheader ▸ hover⟩
    | succ k =>
      rw [List.getElem?_cons_succ, List.getElem?_map] at hpiece
      obtain ⟨q, hq, rfl⟩ := Option.map_eq_some_iff.1 hpiece
      refine Or.inr ⟨k, (List.getElem?_eq_some_iff.1 hq).1, ?_, htake k ▸ hover⟩
      rw [Settings.piece, hindex k q hq]
  · rintro (⟨rfl, hover⟩ | ⟨k, hk, rfl, hover⟩)
    · refine ⟨0, headerPiece, ?_, rfl, hheader.symm ▸ hover⟩
      rw [Settings.pieces, if_pos hprints]
      rfl
    · refine ⟨k + 1, o.piece points[k], ?_, ?_, (htake k).symm ▸ hover⟩
      · rw [Settings.pieces, if_pos hprints, List.getElem?_cons_succ, List.getElem?_map,
          List.getElem?_eq_getElem hk]
        rfl
      · rw [Settings.piece, hindex k points[k] (List.getElem?_eq_getElem hk)]

theorem lost_pieces {o : Settings} (hprints : o.printsTrace = true) {points : List Point}
    (hindex : ∀ k (q : Point), points[k]? = some q → q.index = k) (fault : WriteFault) :
    (o.pieces points).map (·.lost fault) =
      .headerLost fault :: (List.range points.length).map (.snapshotLost fault) := by
  have hsame : points.map (fun q => Event.snapshotLost fault q.index) =
      (List.range points.length).map (.snapshotLost fault) := by
    refine List.ext_getElem (by simp) ?_
    intro k hk _
    rw [List.length_map] at hk
    simp [hindex k points[k] (List.getElem?_eq_getElem hk)]
  rw [Settings.pieces, if_pos hprints, List.map_cons, List.map_map, ← hsame]
  rfl

theorem transcript_take_le {shots : List Snapshot} {k k' : Nat} (h : k ≤ k') :
    (transcript (shots.take k)).utf8ByteSize ≤ (transcript (shots.take k')).utf8ByteSize := by
  obtain ⟨rest, hrest⟩ := List.take_prefix_take_left (l := shots) h
  rw [← hrest, transcript, transcript, List.map_append, ← List.cons_append, String.join_append,
    String.utf8ByteSize_append]
  exact Nat.le_add_right _ _

/-- The points of a run, if it comes to its header: none of them is one where it fails. -/
def course (f : System σ ε) (s : σ) (start : List Float) (o : Settings) : Option (List Point) :=
  match precheck f o start, Point.start f s start with
  | none, (.ok p, s) => some (p :: (trail f o.tolerances o.iterations s p).points)
  | _, _ => none

def reached (f : System σ ε) (s : σ) (start : List Float) (o : Settings) : Option (List Snapshot) :=
  (course f s start o).map (·.map (Point.snapshot · o.extendedTrace))

def shown (f : System σ ε) (s : σ) (start : List Float) (o : Settings) : Option (List Snapshot) :=
  if o.printsTrace then reached f s start o else none

section Course

variable {f : System σ ε} {s s' : σ} {start : List Float} {o : Settings} {p : Point}

theorem course_of_precheck {e : Failure ε} (h : precheck f o start = some e) :
    course f s start o = none := by
  rw [course, h]

theorem course_of_start_error {e : Failure ε} (h : Point.start f s start = (.error e, s')) :
    course f s start o = none := by
  unfold course
  rw [h]
  split
  · next h' => cases (Prod.mk.inj h').1
  · rfl

theorem course_of_start (hcheck : precheck f o start = none)
    (h : Point.start f s start = (.ok p, s')) :
    course f s start o = some (p :: (trail f o.tolerances o.iterations s' p).points) := by
  rw [course, hcheck, h]

theorem reached_of_start (hcheck : precheck f o start = none)
    (h : Point.start f s start = (.ok p, s')) :
    reached f s start o =
      some ((p :: (trail f o.tolerances o.iterations s' p).points).map
        (Point.snapshot · o.extendedTrace)) := by
  rw [reached, course_of_start hcheck h]
  rfl

theorem start_of_course {points : List Point} (h : course f s start o = some points) :
    precheck f o start = none ∧ ∃ p s', Point.start f s start = (.ok p, s') ∧
      points = p :: (trail f o.tolerances o.iterations s' p).points := by
  unfold course at h
  split at h
  · next p s' hcheck hstart => exact ⟨hcheck, p, s', hstart, (Option.some.inj h).symm⟩
  · cases h

theorem index_of_course {points : List Point} (h : course f s start o = some points) {k : Nat}
    {q : Point} (hq : points[k]? = some q) : q.index = k := by
  obtain ⟨-, p, s', hstart, rfl⟩ := start_of_course h
  have hindex := index_of_isChain (isChain_trail f o.tolerances o.iterations s' p) hq
  rw [hindex, (Point.starts_of_start hstart).index, Nat.zero_add]

theorem captures_solve (f : System σ ε) (s : σ) (start : List Float) (o : Settings) (sink : Sink)
    (hempty : sink.received = .empty) :
    Journal.Captures (.start sink) ((course f s start o).elim [] o.pieces) .empty
      (solve f s start o sink).journal := by
  have hholds : (Journal.start sink).sink.Holds .empty := Sink.holds_of_empty hempty
  have hnone : Piece.joined [] = "" := rfl
  cases hcheck : precheck f o start with
  | some e =>
    rw [course_of_precheck hcheck, solve_of_precheck sink hcheck]
    exact ⟨rfl, rfl, hholds, rfl⟩
  | none =>
    rcases hstart : Point.start f s start with ⟨e | p, s'⟩
    · rw [course_of_start_error hstart, solve_of_start_error sink hcheck hstart]
      exact ⟨rfl, rfl, hholds, rfl⟩
    · have hprinted : Journal.Captures (opening o start sink)
          (o.pieces (p :: (trail f o.tolerances o.iterations s' p).points)) .empty _ :=
        Journal.captures_printAll hholds (fun _ => text_ne_empty) (fun _ => isLoss_lost)
      obtain ⟨hsink, hlosses⟩ := foldl_emit_losses
        (isLoss_closing o.tolerances ((trail f o.tolerances o.iterations s' p).last p)
          (trail f o.tolerances o.iterations s' p).failure)
        ((opening o start sink).printAll
          (o.pieces (p :: (trail f o.tolerances o.iterations s' p).points)))
      rw [course_of_start hcheck hstart, journal_solve sink hcheck hstart]
      refine ⟨?_, ?_, ?_, ?_⟩
      · rw [hsink]; exact hprinted.limit
      · rw [hsink]; exact hprinted.fault
      · rw [hsink]; exact hprinted.holds
      · rw [hlosses]; exact hprinted.losses

theorem reached_of_solve_ok {sink : Sink} {r : Summary}
    (h : (solve f s start o sink).result = .ok r) :
    ∃ shots, reached f s start o = some shots ∧
      (o.storeTrace = true → r.history.snapshots.toList = shots) := by
  have hcheck := precheck_of_solve_ok h
  obtain ⟨p, s', hstart, -, -, -, hhistory⟩ := trail_of_solve_ok h
  refine ⟨_, reached_of_start hcheck hstart, ?_⟩
  intro hstore
  rw [hhistory, foldl_reach_snapshots hstore, snapshots_begin hstore]
  rfl

end Course

/-- The snapshots are those that a run stores; the run with just as many iterations as they tell of
stores them and is no failure, and if the run itself fails it does so in the iteration after. -/
structure Reaches (f : System σ ε) (s : σ) (start : List Float) (o : Settings)
    (shots : List Snapshot) : Prop where
  numbered : ∀ k (shot : Snapshot), shots[k]? = some shot → shot.iteration = k
  stored : ∀ sink r, (solve f s start { o with storeTrace := true } sink).result = .ok r →
    r.history.snapshots.toList = shots
  cut : ∀ sink, ∃ r, (solve f s start
      { o with storeTrace := true, iterations := shots.length - 1 } sink).result = .ok r ∧
    r.history.snapshots.toList = shots
  fails : ∀ sink e, (solve f s start o sink).result = .error e →
    (solve f s start { o with iterations := shots.length } sink).result = .error e

structure Captured (f : System σ ε) (s : σ) (start : List Float) (o : Settings)
    (limit : Option Nat) (fault : WriteFault) (outcome : Outcome σ ε) : Prop where
  reaches : ∀ shots, reached f s start o = some shots → Reaches f s start o shots
  unreached : reached f s start o = none → ∃ e, outcome.result = .error e
  received : outcome.journal.sink.received =
    Sink.fitting limit ((shown f s start o).elim "" transcript).toUTF8
  headerLost : outcome.journal.TellsLostHeader ↔
    shown f s start o ≠ none ∧ Sink.overruns limit History.header.utf8ByteSize = true
  snapshotLost : ∀ k, outcome.journal.TellsLostSnapshot k ↔
    ∃ shots, shown f s start o = some shots ∧ k < shots.length ∧
      Sink.overruns limit (transcript (shots.take (k + 1))).utf8ByteSize = true
  suffix : ∀ shots, shown f s start o = some shots → ∀ k k', k ≤ k' → k' < shots.length →
    outcome.journal.TellsLostSnapshot k → outcome.journal.TellsLostSnapshot k'
  inOrder : ∀ shots, shown f s start o = some shots → outcome.journal.losses.Sublist
    (.headerLost fault :: (List.range shots.length).map (.snapshotLost fault))
  cause : ∀ e ∈ outcome.journal.events.toList, e.isLoss = true →
    ("error", .text fault.message) ∈ e.fields
  displayed : ∀ r, outcome.result = .ok r → o.storeTrace = true → ∃ shots,
    reached f s start o = some shots ∧ r.history.render = transcript shots
  silent : o.printsTrace = false → outcome.journal.sink.received = .empty ∧
    ¬ outcome.journal.TellsLostHeader ∧ ∀ k, ¬ outcome.journal.TellsLostSnapshot k

section Solve

variable (f : System σ ε) (s : σ) (start : List Float) (o : Settings)

theorem pieces_of_shown_none (h : shown f s start o = none) :
    (course f s start o).elim [] o.pieces = [] := by
  unfold shown at h
  split at h
  · next hprints =>
    rw [reached, Option.map_eq_none_iff] at h
    rw [h]
    rfl
  · next hprints =>
    cases course f s start o with
    | none => rfl
    | some points => exact if_neg hprints

theorem course_of_shown {shots : List Snapshot} (h : shown f s start o = some shots) :
    o.printsTrace = true ∧ ∃ points, course f s start o = some points ∧
      shots = points.map (Point.snapshot · o.extendedTrace) := by
  unfold shown at h
  split at h
  · next hprints =>
    obtain ⟨points, hpoints, rfl⟩ := Option.map_eq_some_iff.1 h
    exact ⟨hprints, points, hpoints, rfl⟩
  · cases h

theorem joined_course :
    Piece.joined ((course f s start o).elim [] o.pieces) =
      (shown f s start o).elim "" transcript := by
  cases hshown : shown f s start o with
  | none => rw [pieces_of_shown_none f s start o hshown]; rfl
  | some shots =>
    obtain ⟨hprints, points, hpoints, rfl⟩ := course_of_shown f s start o hshown
    rw [hpoints]
    exact joined_pieces hprints points

theorem mem_losses_solve {limit : Option Nat} {fault : WriteFault} {e : Event} :
    e ∈ (solve f s start o ⟨limit, fault, .empty⟩).journal.losses ↔
      ∃ shots, shown f s start o = some shots ∧
        ((e = .headerLost fault ∧ Sink.overruns limit History.header.utf8ByteSize = true) ∨
          ∃ k, k < shots.length ∧ e = .snapshotLost fault k ∧
            Sink.overruns limit (transcript (shots.take (k + 1))).utf8ByteSize = true) := by
  have hlosses := (captures_solve f s start o ⟨limit, fault, .empty⟩ rfl).losses
  have hstart : (Journal.start ⟨limit, fault, .empty⟩).losses = [] := rfl
  rw [hlosses, hstart, List.nil_append]
  change e ∈ Piece.losses limit fault 0 _ ↔ _
  cases hshown : shown f s start o with
  | none =>
    rw [pieces_of_shown_none f s start o hshown]
    simp [Piece.losses]
  | some shots =>
    obtain ⟨hprints, points, hpoints, rfl⟩ := course_of_shown f s start o hshown
    rw [hpoints, Option.elim_some,
      mem_losses_pieces hprints fun k q hq => index_of_course hpoints hq]
    simp only [List.length_map, Option.some.injEq, exists_eq_left']

theorem losses_solve_sublist {limit : Option Nat} {fault : WriteFault} {shots : List Snapshot}
    (h : shown f s start o = some shots) :
    (solve f s start o ⟨limit, fault, .empty⟩).journal.losses.Sublist
      (.headerLost fault :: (List.range shots.length).map (.snapshotLost fault)) := by
  have hlosses := (captures_solve f s start o ⟨limit, fault, .empty⟩ rfl).losses
  have hstart : (Journal.start ⟨limit, fault, .empty⟩).losses = [] := rfl
  obtain ⟨hprints, points, hpoints, rfl⟩ := course_of_shown f s start o h
  have hlost := lost_pieces hprints (fun k q hq => index_of_course hpoints hq) fault
  rw [hlosses, hstart, List.nil_append, hpoints, List.length_map, ← hlost]
  exact Piece.losses_sublist _ _ _ _

theorem tellsLostHeader_solve (limit : Option Nat) (fault : WriteFault) :
    (solve f s start o ⟨limit, fault, .empty⟩).journal.TellsLostHeader ↔
      shown f s start o ≠ none ∧ Sink.overruns limit History.header.utf8ByteSize = true := by
  rw [Journal.tellsLostHeader_iff]
  simp only [mem_losses_solve]
  constructor
  · rintro ⟨cause, shots, hshots, ⟨-, hover⟩ | ⟨k, -, he, -⟩⟩
    · exact ⟨by simp [hshots], hover⟩
    · cases he
  · rintro ⟨hshown, hover⟩
    obtain ⟨shots, hshots⟩ := Option.ne_none_iff_exists'.1 hshown
    exact ⟨fault, shots, hshots, Or.inl ⟨rfl, hover⟩⟩

theorem tellsLostSnapshot_solve (limit : Option Nat) (fault : WriteFault) (k : Nat) :
    (solve f s start o ⟨limit, fault, .empty⟩).journal.TellsLostSnapshot k ↔
      ∃ shots, shown f s start o = some shots ∧ k < shots.length ∧
        Sink.overruns limit (transcript (shots.take (k + 1))).utf8ByteSize = true := by
  rw [Journal.tellsLostSnapshot_iff]
  simp only [mem_losses_solve]
  constructor
  · rintro ⟨cause, shots, hshots, ⟨he, -⟩ | ⟨k', hk, he, hover⟩⟩
    · cases he
    · cases he
      exact ⟨shots, hshots, hk, hover⟩
  · rintro ⟨shots, hshots, hk, hover⟩
    exact ⟨fault, shots, hshots, Or.inr ⟨k, hk, rfl, hover⟩⟩

theorem reaches_of_reached {shots : List Snapshot} (h : reached f s start o = some shots) :
    Reaches f s start o shots := by
  have hall := h
  obtain ⟨points, hcourse, rfl⟩ := Option.map_eq_some_iff.1 h
  obtain ⟨hcheck, p, s', hstart, rfl⟩ := start_of_course hcourse
  obtain ⟨hfailure, hpoints⟩ := trail_length f o.tolerances o.iterations s' p
  have hlength : (List.map (Point.snapshot · o.extendedTrace)
      (p :: (trail f o.tolerances o.iterations s' p).points)).length =
      (trail f o.tolerances o.iterations s' p).points.length + 1 := by
    rw [List.length_map, List.length_cons]
  refine ⟨?_, ?_, ?_, ?_⟩
  · intro k shot hshot
    rw [List.getElem?_map] at hshot
    obtain ⟨q, hq, rfl⟩ := Option.map_eq_some_iff.1 hshot
    exact index_of_course hcourse hq
  · intro sink r hr
    obtain ⟨shots, hshots, hstored⟩ := reached_of_solve_ok hr
    rw [hstored rfl]
    exact Option.some.inj (hshots.symm.trans hall)
  · intro sink
    rw [hlength, Nat.add_sub_cancel]
    let cut : Settings := { o with
      storeTrace := true, iterations := (trail f o.tolerances o.iterations s' p).points.length }
    obtain ⟨r, hr⟩ := solve_ok_of_trail (o := cut) sink hcheck hstart hfailure
    obtain ⟨shots, hshots, hstored⟩ := reached_of_solve_ok hr
    have hsame := (reached_of_start (o := cut) hcheck hstart).symm.trans hshots
    refine ⟨r, hr, ?_⟩
    rw [hstored rfl, ← Option.some.inj hsame, ← hpoints]
  · intro sink e he
    have hfails := trail_failure_of_solve_error hcheck hstart he
    rw [hlength]
    refine solve_error_of_trail (o := { o with
      iterations := (trail f o.tolerances o.iterations s' p).points.length + 1 })
      sink hcheck hstart ?_
    rw [trail_length_succ hfails]
    exact hfails

theorem error_of_reached_none (h : reached f s start o = none) (sink : Sink) :
    ∃ e, (solve f s start o sink).result = .error e := by
  cases hresult : (solve f s start o sink).result with
  | error e => exact ⟨e, rfl⟩
  | ok r =>
    obtain ⟨shots, hshots, -⟩ := reached_of_solve_ok hresult
    rw [h] at hshots
    cases hshots

theorem solve_captured (limit : Option Nat) (fault : WriteFault) :
    Captured f s start o limit fault (solve f s start o ⟨limit, fault, .empty⟩) where
  reaches _ := reaches_of_reached f s start o
  unreached h := error_of_reached_none f s start o h _
  received := by
    have hcaptures := captures_solve f s start o ⟨limit, fault, .empty⟩ rfl
    have hheld := hcaptures.holds
    rw [Sink.Holds, hcaptures.limit, ByteArray.empty_append, joined_course] at hheld
    exact hheld
  headerLost := tellsLostHeader_solve f s start o limit fault
  snapshotLost := tellsLostSnapshot_solve f s start o limit fault
  suffix := by
    intro shots hshots k k' hle hlt hlost
    obtain ⟨shots', hshots', -, hover⟩ :=
      (tellsLostSnapshot_solve f s start o limit fault k).1 hlost
    obtain rfl := Option.some.inj (hshots'.symm.trans hshots)
    have hlonger := Sink.overruns_mono (transcript_take_le (Nat.succ_le_succ hle)) hover
    exact (tellsLostSnapshot_solve f s start o limit fault k').2 ⟨shots', hshots, hlt, hlonger⟩
  inOrder _ := losses_solve_sublist f s start o
  cause := by
    intro e he hloss
    obtain ⟨-, -, ⟨rfl, -⟩ | ⟨k, -, rfl, -⟩⟩ :=
      (mem_losses_solve f s start o).1 (Journal.mem_losses.2 ⟨he, hloss⟩)
    · exact List.mem_singleton.2 rfl
    · exact List.mem_cons_self
  displayed := by
    intro r hr hstore
    obtain ⟨shots, hshots, hstored⟩ := reached_of_solve_ok hr
    exact ⟨shots, hshots, transcript_eq_render (hstored hstore)⟩
  silent := by
    intro hprints
    have hshown : shown f s start o = none := if_neg (by rw [hprints]; exact Bool.false_ne_true)
    have hcaptures := captures_solve f s start o ⟨limit, fault, .empty⟩ rfl
    have hheld := hcaptures.holds
    rw [Sink.Holds, hcaptures.limit, ByteArray.empty_append, joined_course, hshown] at hheld
    refine ⟨hheld.trans (Sink.fitting_empty limit), ?_, ?_⟩
    · rw [tellsLostHeader_solve]
      exact fun h => h.1 hshown
    · intro k
      rw [tellsLostSnapshot_solve]
      rintro ⟨shots, hshots, -⟩
      rw [hshown] at hshots
      cases hshots

end Solve

end Newton

end RootFinding
