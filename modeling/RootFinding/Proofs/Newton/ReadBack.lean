import RootFinding.Proofs.Newton.Certificate
import RootFinding.Proofs.Report.Exchange

/-!
# Reports that are read back

Diagnostics, snapshots, histories and summaries come back from their trees as they were, to the
sign of a zero and the shape of an empty matrix, unless a number inside is not finite. Of a solve
that stored its history nothing comes back: its first snapshot was reached by no step.
-/

namespace RootFinding

/-- How reports of a kind are exchanged. Their counts are those of a machine of 64 bits. -/
structure Exchanged {β : Type} (write : β → Tree) (read? : Tree → Option β)
    (contents : β → Contents) : Prop where
  read_write : ∀ v, (∀ n ∈ (contents v).counts, n < UInt64.size) →
    (∀ x ∈ (contents v).numbers, x.isFinite = true) → read? (write v) = some v
  refused : ∀ v, ∀ x ∈ (contents v).numbers, x.isFinite = false → read? (write v) = none
  finite : ∀ t v, read? t = some v → ∀ x ∈ (contents v).numbers, x.isFinite = true
  filled : ∀ t v, read? t = some v → ∀ m ∈ (contents v).matrices,
    m.toColumns.flatten.length = m.rows * m.cols
  rewritten : ∀ t v, read? t = some v → read? (write v) = some v

theorem Faithful.exchanged {β : Type} {write : β → Tree} {read? : Tree → Option β}
    {contents : β → Contents} (h : Faithful write read? fun v => (contents v).Sendable) :
    Exchanged write read? contents where
  read_write _ hcounts hnumbers := h.read_write.2 ⟨rfl, hnumbers, hcounts⟩
  refused := by
    intro v x hx hinfinite
    refine Option.eq_none_iff_forall_ne_some.2 fun w hread => ?_
    have hfinite := (h.read_write.1 hread).2.1 x hx
    rw [hinfinite] at hfinite
    cases hfinite
  finite _ _ hread := (h.ok_of_read hread).1
  filled _ _ _ m _ := m.length_flatten_toColumns
  rewritten _ _ hread := h.read_write.2 ⟨rfl, h.ok_of_read hread⟩

namespace Newton

variable {σ ε : Type}

theorem notANumber_mem_contents {f : System σ ε} {s : σ} {start : List Float} {o : Settings}
    {sink : Sink} {r : Summary} (h : (solve f s start o sink).result = .ok r)
    (hstore : o.storeTrace = true) : notANumber ∈ r.contents.numbers := by
  obtain ⟨p, s', hstart, -, -, -, hhistory⟩ := trail_of_solve_ok h
  have hlength := (Point.starts_of_start hstart).length
  have hfirst : p.snapshot o.extendedTrace ∈ r.history.snapshots.toList := by
    rw [hhistory, snapshots_of_trail hstore]
    exact List.mem_cons_self
  have hshot : notANumber ∈ (p.snapshot o.extendedTrace).contents.numbers := by
    rw [← hlength]
    exact List.mem_cons_of_mem _ List.mem_cons_self
  have hinside : notANumber ∈ r.history.contents.numbers :=
    List.mem_flatMap.2 ⟨_, List.mem_map_of_mem hfirst, hshot⟩
  exact List.mem_append_right _ hinside

theorem reports_exchanged :
    Exchanged Diagnostic.toTree Diagnostic.ofTree? Diagnostic.contents ∧
      Exchanged Snapshot.toTree Snapshot.ofTree? Snapshot.contents ∧
      Exchanged History.toTree History.ofTree? History.contents ∧
      Exchanged Summary.toTree Summary.ofTree? Summary.contents ∧
      (∀ t m, DenseMatrix.ofTree? t = some m → m.Laid t) ∧
      ∀ (f : System σ ε) (s : σ) (start : List Float) (o : Settings) (sink : Sink) (r : Summary),
        (solve f s start o sink).result = .ok r → o.storeTrace = true →
          Summary.ofTree? r.toTree = none :=
  ⟨Diagnostic.faithful.exchanged, Snapshot.faithful.exchanged, History.faithful.exchanged,
    Summary.faithful.exchanged, fun _ _ => DenseMatrix.laid_of_read, fun _ _ _ _ _ r hr hstore =>
      Summary.faithful.exchanged.refused r notANumber (notANumber_mem_contents hr hstore) rfl⟩

/-- A kept solve, and a snapshot with the two zeros in it and a matrix without columns. -/
theorem diagonalOnCircle_exchanged :
    (∃ r, (solve diagonalOnCircle ((), .none) [1, 0.5] { sevenSteps with storeTrace := true }
        .unlimited).result = .ok r ∧ Summary.ofTree? r.toTree = none) ∧
      Snapshot.ofTree? (Snapshot.toTree ⟨3, 0, -0.0, .ofList [("J(x)", .matrix (.filled 2 0 0))]⟩) =
        some ⟨3, 0, -0.0, .ofList [("J(x)", .matrix (.filled 2 0 0))]⟩ := by
  obtain ⟨r, hr, -⟩ := Outcome.ok_of_any (solve diagonalOnCircle ((), .none) [1, 0.5]
    { sevenSteps with storeTrace := true } .unlimited) (fun _ => true) (by decide +kernel)
  constructor
  · exact ⟨r, hr, reports_exchanged.2.2.2.2.2 _ _ _ _ _ r hr rfl⟩
  · exact (@reports_exchanged Unit Unit).2.1.read_write _ (by decide) (by decide)

end Newton

end RootFinding
