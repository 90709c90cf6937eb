import RootFinding.Proofs.Output.Journal

/-!
# What a sink takes of the texts printed to it

A sink that was empty at first holds, at every time, the beginning of all the text written to it
that fits in its limit. So a text is lost exactly when all that was written up to its end goes
beyond the limit, and once a text is lost all later ones are. An empty text would be no loss, but
none is ever printed.
-/

namespace RootFinding

namespace Sink

/-- The beginning of a sequence of bytes that a limit has room for. -/
def fitting (limit : Option Nat) (bytes : ByteArray) : ByteArray :=
  bytes.extract 0 (limit.elim bytes.size (min · bytes.size))

def overruns (limit : Option Nat) (size : Nat) : Bool := limit.any (· < size)

theorem fitting_none (bytes : ByteArray) : fitting none bytes = bytes :=
  ByteArray.extract_zero_size

theorem fitting_some (limit : Nat) (bytes : ByteArray) :
    fitting (some limit) bytes = bytes.extract 0 (min limit bytes.size) := rfl

theorem fitting_empty (limit : Option Nat) : fitting limit .empty = .empty := by
  cases limit with
  | none => rfl
  | some limit => rw [fitting_some, ByteArray.size_empty, Nat.min_zero]; rfl

theorem overruns_mono {limit : Option Nat} {size size' : Nat} (h : size ≤ size')
    (hover : overruns limit size = true) : overruns limit size' = true := by
  cases limit with
  | none => cases hover
  | some limit =>
    simp only [overruns, Option.any_some, decide_eq_true_eq] at hover ⊢
    omega

def Holds (s : Sink) (written : ByteArray) : Prop := s.received = fitting s.limit written

theorem Holds.size {s : Sink} {written : ByteArray} (h : s.Holds written) :
    s.received.size = s.limit.elim written.size (min · written.size) := by
  rw [h, fitting, ByteArray.size_extract]
  cases s.limit with
  | none => simp
  | some limit => simp only [Option.elim_some]; omega

theorem Holds.write {s : Sink} {written : ByteArray} (h : s.Holds written) (text : String) :
    (s.write text).2.Holds (written ++ text.toUTF8) := by
  have hsize := h.size
  rw [Holds, limit_write, received_write, h, accepts]
  cases hlimit : s.limit with
  | none => rw [fitting_none, fitting_none, ByteArray.extract_zero_size]
  | some limit =>
    rw [hlimit, Option.elim_some] at hsize
    simp only [fitting_some, ByteArray.size_append, hsize, ByteArray.extract_append]
    by_cases hfull : limit ≤ written.size
    · have hrest : limit - min limit written.size = 0 := by omega
      have hwhole : min limit (written.size + text.toUTF8.size) - written.size = 0 := by omega
      have hold : min limit (written.size + text.toUTF8.size) = min limit written.size := by omega
      rw [hrest, hold, Nat.min_zero, Nat.zero_sub, ← hold, hwhole]
    · have hold : min limit written.size = written.size := by omega
      have hpart : min text.toUTF8.size (limit - written.size) =
          min limit (written.size + text.toUTF8.size) - written.size := by omega
      have hwhole : written.extract 0 (min limit (written.size + text.toUTF8.size)) = written := by
        have hlong : min limit (written.size + text.toUTF8.size) =
            max (min limit (written.size + text.toUTF8.size)) written.size := by omega
        rw [hlong, ByteArray.extract_zero_max_size]
      rw [hold, hpart, hwhole, ByteArray.extract_zero_size, Nat.zero_sub]

theorem fault_of_write (s : Sink) (text : String) (fault : WriteFault)
    (h : (s.write text).1 = some fault) : fault = s.fault := by
  unfold Sink.write at h
  dsimp only at h
  split at h
  · cases h
  · exact (Option.some.inj h).symm

theorem holds_of_empty {s : Sink} (h : s.received = .empty) : s.Holds .empty := by
  rw [Holds, h, fitting_empty]

theorem Holds.write_fst {s : Sink} {written : ByteArray} (h : s.Holds written) {text : String}
    (hne : text ≠ "") :
    (s.write text).1 =
      if overruns s.limit (written.size + text.utf8ByteSize) then some s.fault else none := by
  have hsize := h.size
  have hpos : text.utf8ByteSize ≠ 0 := fun hz => hne (String.utf8ByteSize_eq_zero_iff.1 hz)
  have htext : text.toUTF8.size = text.utf8ByteSize := rfl
  have htaken : (s.write text).1 =
      if s.accepts text.toUTF8.size = text.toUTF8.size then none else some s.fault := by
    unfold Sink.write
    dsimp only
    split <;> rfl
  rw [htaken, accepts]
  cases hlimit : s.limit with
  | none => simp [overruns]
  | some limit =>
    rw [hlimit, Option.elim_some] at hsize
    simp only [overruns, Option.any_some, decide_eq_true_eq, hsize, htext]
    by_cases hover : limit < written.size + text.utf8ByteSize
    · rw [if_neg (by omega), if_pos hover]
    · rw [if_pos (by omega), if_neg hover]

end Sink

namespace Sink

def writeAll (texts : List String) (s : Sink) : Sink :=
  texts.foldl (fun s text => (s.write text).2) s

theorem writeAll_append (texts texts' : List String) (s : Sink) :
    s.writeAll (texts ++ texts') = (s.writeAll texts).writeAll texts' := List.foldl_append

theorem received_writeAll (texts : List String) (s : Sink) :
    ∃ rest, (s.writeAll texts).received = s.received ++ rest := by
  induction texts generalizing s with
  | nil => exact ⟨.empty, ByteArray.append_empty.symm⟩
  | cons text texts ih =>
    obtain ⟨rest, hrest⟩ := ih (s.write text).2
    rw [received_write, ByteArray.append_assoc] at hrest
    exact ⟨_, hrest⟩

theorem limit_writeAll (texts : List String) (s : Sink) : (s.writeAll texts).limit = s.limit := by
  induction texts generalizing s with
  | nil => rfl
  | cons text texts ih => exact (ih (s.write text).2).trans (s.limit_write text)

theorem Holds.writeAll {s : Sink} {written : ByteArray} (h : s.Holds written)
    (texts : List String) : (s.writeAll texts).Holds (written ++ (String.join texts).toUTF8) := by
  induction texts generalizing s written with
  | nil =>
    rw [String.join_nil]
    exact (ByteArray.append_empty (b := written)).symm ▸ h
  | cons text texts ih =>
    have hrest := ih (h.write text)
    rw [ByteArray.append_assoc] at hrest
    rw [String.join_cons, String.toUTF8, String.toByteArray_append]
    exact hrest

end Sink

structure Piece where
  text : String
  lost : WriteFault → Event

namespace Piece

def joined (pieces : List Piece) : String := String.join (pieces.map Piece.text)

/-- The events of the texts that end beyond the limit, where `size` bytes were written before. -/
def losses (limit : Option Nat) (fault : WriteFault) : Nat → List Piece → List Event
  | _, [] => []
  | size, piece :: rest =>
    (if Sink.overruns limit (size + piece.text.utf8ByteSize) then [piece.lost fault] else []) ++
      losses limit fault (size + piece.text.utf8ByteSize) rest

theorem mem_losses {limit : Option Nat} {fault : WriteFault} {pieces : List Piece} {size : Nat}
    {e : Event} :
    e ∈ losses limit fault size pieces ↔
      ∃ k piece, pieces[k]? = some piece ∧ e = piece.lost fault ∧
        Sink.overruns limit (size + (joined (pieces.take (k + 1))).utf8ByteSize) = true := by
  induction pieces generalizing size with
  | nil => simp [losses]
  | cons first rest ih =>
    have hsize (k : Nat) : size + (joined ((first :: rest).take (k + 1))).utf8ByteSize =
        size + first.text.utf8ByteSize + (joined (rest.take k)).utf8ByteSize := by
      rw [List.take_succ_cons, joined, List.map_cons, String.join_cons, String.utf8ByteSize_append,
        Nat.add_assoc]
      rfl
    rw [losses, List.mem_append, ih]
    constructor
    · rintro (hfirst | ⟨k, piece, hpiece, he, hover⟩)
      · split at hfirst
        · next hover =>
          refine ⟨0, first, rfl, List.mem_singleton.1 hfirst, ?_⟩
          rw [hsize]
          exact hover
        · cases hfirst
      · exact ⟨k + 1, piece, hpiece, he, by rw [hsize]; exact hover⟩
    · rintro ⟨k, piece, hpiece, he, hover⟩
      rw [hsize] at hover
      cases k with
      | zero =>
        obtain rfl : first = piece := by simpa using hpiece
        refine Or.inl ?_
        rw [if_pos (by simpa [joined] using hover), he]
        exact List.mem_singleton.2 rfl
      | succ k => exact Or.inr ⟨k, piece, by simpa using hpiece, he, hover⟩

theorem losses_sublist (limit : Option Nat) (fault : WriteFault) (size : Nat)
    (pieces : List Piece) :
    (losses limit fault size pieces).Sublist (pieces.map (·.lost fault)) := by
  induction pieces generalizing size with
  | nil => exact List.Sublist.slnil
  | cons piece rest ih =>
    rw [losses, List.map_cons]
    split
    · exact (ih _).cons_cons _
    · exact (ih _).cons _

end Piece

namespace Journal

def losses (j : Journal) : List Event := j.events.toList.filter Event.isLoss

theorem mem_losses {j : Journal} {e : Event} :
    e ∈ j.losses ↔ e ∈ j.events.toList ∧ e.isLoss = true := List.mem_filter

theorem losses_emit (j : Journal) {e : Event} (h : e.isLoss = false) :
    (j.emit e).losses = j.losses := by
  simp [losses, emit, List.filter_append, h]

def TellsLostHeader (j : Journal) : Prop :=
  ∃ e ∈ j.events.toList, e.level = .warn ∧ e.message = "failed to show trace header"

def TellsLostSnapshot (j : Journal) (k : Nat) : Prop :=
  ∃ e ∈ j.events.toList, e.level = .warn ∧ e.message = "failed to show solver state" ∧
    ("iteration", .whole k) ∈ e.fields

theorem tellsLostHeader_iff {j : Journal} :
    j.TellsLostHeader ↔ ∃ cause, .headerLost cause ∈ j.losses := by
  constructor
  · rintro ⟨e, he, -, hmessage⟩
    cases e with
    | headerLost cause => exact ⟨cause, mem_losses.2 ⟨he, rfl⟩⟩
    | _ => simp [Event.message] at hmessage
  · rintro ⟨cause, hcause⟩
    exact ⟨_, (mem_losses.1 hcause).1, rfl, rfl⟩

theorem tellsLostSnapshot_iff {j : Journal} {k : Nat} :
    j.TellsLostSnapshot k ↔ ∃ cause, .snapshotLost cause k ∈ j.losses := by
  constructor
  · rintro ⟨e, he, -, hmessage, hk⟩
    cases e with
    | snapshotLost cause iteration =>
      obtain rfl : k = iteration := by simpa [Event.fields] using hk
      exact ⟨cause, mem_losses.2 ⟨he, rfl⟩⟩
    | _ => simp [Event.message] at hmessage
  · rintro ⟨cause, hcause⟩
    exact ⟨_, (mem_losses.1 hcause).1, rfl, rfl, by simp [Event.fields]⟩

def printAll (pieces : List Piece) (j : Journal) : Journal :=
  pieces.foldl (fun j piece => j.print piece.text piece.lost) j

theorem printAll_append (pieces pieces' : List Piece) (j : Journal) :
    j.printAll (pieces ++ pieces') = (j.printAll pieces).printAll pieces' := List.foldl_append

theorem events_print (j : Journal) (text : String) (lost : WriteFault → Event) :
    (j.print text lost).events.toList = j.events.toList ∨
      (j.print text lost).events.toList = j.events.toList ++ [lost j.sink.fault] := by
  obtain ⟨sink, events⟩ := j
  have hfault := sink.fault_of_write text
  rcases hwrite : sink.write text with ⟨_ | fault, sink'⟩
  · simp [print, hwrite]
  · rw [hwrite] at hfault
    simp [print, hwrite, hfault fault rfl]

theorem events_printAll (pieces : List Piece) (j : Journal) :
    ∃ told, told.Sublist (pieces.map (·.lost j.sink.fault)) ∧
      (j.printAll pieces).events.toList = j.events.toList ++ told := by
  induction pieces generalizing j with
  | nil => exact ⟨[], List.Sublist.slnil, (List.append_nil _).symm⟩
  | cons piece pieces ih =>
    obtain ⟨rest, hrest, hevents⟩ := ih (j.print piece.text piece.lost)
    rw [sink_print, Sink.fault_write] at hrest
    have hprinted : (j.printAll (piece :: pieces)).events.toList =
        (j.print piece.text piece.lost).events.toList ++ rest := hevents
    rcases events_print j piece.text piece.lost with hkept | hlost
    · exact ⟨rest, hrest.cons _, by rw [hprinted, hkept]⟩
    · refine ⟨piece.lost j.sink.fault :: rest, hrest.cons_cons _, ?_⟩
      rw [hprinted, hlost, List.append_assoc]
      rfl

theorem losses_print {j : Journal} {written : ByteArray} (h : j.sink.Holds written) {text : String}
    (hne : text ≠ "") {lost : WriteFault → Event} (hlost : ∀ fault, (lost fault).isLoss = true) :
    (j.print text lost).losses = j.losses ++
      if Sink.overruns j.sink.limit (written.size + text.utf8ByteSize) then [lost j.sink.fault]
      else [] := by
  obtain ⟨sink, events⟩ := j
  have hfirst := h.write_fst hne
  rcases hwrite : sink.write text with ⟨_ | fault, sink'⟩
  · rw [hwrite] at hfirst
    split at hfirst
    · cases hfirst
    · next hover => simp [print, hwrite, losses, hover]
  · rw [hwrite] at hfirst
    split at hfirst
    · next hover =>
      obtain rfl : fault = sink.fault := Option.some.inj hfirst
      simp [print, hwrite, losses, hover, List.filter_append, hlost]
    · cases hfirst

theorem sink_printAll (pieces : List Piece) (j : Journal) :
    (j.printAll pieces).sink = j.sink.writeAll (pieces.map Piece.text) := by
  induction pieces generalizing j with
  | nil => rfl
  | cons piece pieces ih =>
    have hrest := ih (j.print piece.text piece.lost)
    rw [sink_print] at hrest
    exact hrest

structure Captures (j : Journal) (pieces : List Piece) (written : ByteArray) (j' : Journal) :
    Prop where
  limit : j'.sink.limit = j.sink.limit
  fault : j'.sink.fault = j.sink.fault
  holds : j'.sink.Holds (written ++ (Piece.joined pieces).toUTF8)
  losses : j'.losses =
    j.losses ++ Piece.losses j.sink.limit j.sink.fault written.size pieces

theorem captures_printAll {pieces : List Piece} {j : Journal} {written : ByteArray}
    (h : j.sink.Holds written) (hne : ∀ piece ∈ pieces, piece.text ≠ "")
    (hlost : ∀ piece ∈ pieces, ∀ fault, (piece.lost fault).isLoss = true) :
    Captures j pieces written (j.printAll pieces) := by
  induction pieces generalizing j written with
  | nil =>
    refine ⟨rfl, rfl, ?_, (List.append_nil _).symm⟩
    rw [Piece.joined, List.map_nil, String.join_nil]
    exact (ByteArray.append_empty (b := written)).symm ▸ h
  | cons piece pieces ih =>
    have hsink := j.sink_print piece.text piece.lost
    have hholds : (j.print piece.text piece.lost).sink.Holds (written ++ piece.text.toUTF8) := by
      rw [hsink]
      exact h.write piece.text
    obtain ⟨hlimit, hfault, hheld, hlosses⟩ := ih hholds
      (fun p hp => hne p (List.mem_cons_of_mem _ hp))
      (fun p hp => hlost p (List.mem_cons_of_mem _ hp))
    rw [hsink, Sink.limit_write] at hlimit
    rw [hsink, Sink.fault_write] at hfault
    refine ⟨hlimit, hfault, ?_, ?_⟩
    · have hjoined : Piece.joined (piece :: pieces) = piece.text ++ Piece.joined pieces :=
        String.join_cons
      rw [ByteArray.append_assoc] at hheld
      rw [hjoined, String.toUTF8, String.toByteArray_append]
      exact hheld
    · have hprint := losses_print h (hne piece List.mem_cons_self) (hlost piece List.mem_cons_self)
      rw [hprint, hsink, Sink.limit_write, Sink.fault_write, ByteArray.size_append,
        List.append_assoc] at hlosses
      exact hlosses

end Journal

end RootFinding
