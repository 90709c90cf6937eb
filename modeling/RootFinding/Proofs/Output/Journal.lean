import RootFinding.Output.Journal

/-!
# What a journal keeps apart from lost writes

The events that tell of a lost write depend on the sink. All others are kept the same whatever
becomes of the texts that are printed between them.
-/

namespace RootFinding

def Event.isLoss : Event → Bool
  | .headerLost _ | .snapshotLost .. => true
  | _ => false

namespace Journal

def kept (j : Journal) : List Event := j.events.toList.filter fun e => !e.isLoss

theorem kept_start (sink : Sink) : (start sink).kept = [] := rfl

theorem kept_emit (j : Journal) {e : Event} (h : e.isLoss = false) :
    (j.emit e).kept = j.kept ++ [e] := by
  simp [kept, emit, List.filter_append, h]

theorem events_foldl_emit (told : List Event) (j : Journal) :
    (told.foldl emit j).events.toList = j.events.toList ++ told := by
  induction told generalizing j with
  | nil => simp
  | cons e told ih => simp [ih, emit]

theorem kept_foldl_emit {told : List Event} (h : ∀ e ∈ told, e.isLoss = false) (j : Journal) :
    (told.foldl emit j).kept = j.kept ++ told := by
  have htold : told.filter (fun e => !e.isLoss) = told :=
    List.filter_eq_self.2 fun e he => by simp [h e he]
  rw [kept, events_foldl_emit, List.filter_append, htold]
  rfl

theorem kept_print (j : Journal) (text : String) {lost : WriteFault → Event}
    (h : ∀ fault, (lost fault).isLoss = true) : (j.print text lost).kept = j.kept := by
  obtain ⟨sink, events⟩ := j
  rcases hwrite : sink.write text with ⟨_ | fault, sink'⟩
  · simp [print, hwrite, kept]
  · simp [print, hwrite, kept, List.filter_append, h]

end Journal

end RootFinding
