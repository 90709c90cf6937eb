import RootFinding.Proofs.Decimal.Scientific
import RootFinding.Proofs.Report.Lines
import RootFinding.Report.History

/-!
# The columns of a history

The second line of the header rules three fields, of six, fourteen and fourteen dashes. The first
line of every snapshot has its three numbers under them, each moved to the right end of its field.
A norm always fits, since its text has fourteen characters at most. An iteration number of more than
six digits is the only text that does not, and it moves the rest of its line to the right by the
digits that are too many.
-/

namespace RootFinding

open Decimal

/-- What a line has from one column to another, both included; the first column has number one. -/
def columns (first last : Nat) (line : List Char) : List Char :=
  (line.drop (first - 1)).take (last + 1 - first)

/-- A line of three fields with three blanks between them, the first field wider by `shift`. -/
structure Ruled (shift : Nat) (line a b c : List Char) : Prop where
  length : line.length = 40 + shift
  left : columns 1 (6 + shift) line = a
  gap : columns (7 + shift) (9 + shift) line = [' ', ' ', ' ']
  middle : columns (10 + shift) (23 + shift) line = b
  gap' : columns (24 + shift) (26 + shift) line = [' ', ' ', ' ']
  right : columns (27 + shift) (40 + shift) line = c

theorem columns_of_append {first last : Nat} {line : List Char} (before field after : List Char)
    (hline : line = before ++ field ++ after) (hbefore : before.length + 1 = first)
    (hfield : before.length + field.length = last) : columns first last line = field := by
  have hstart : first - 1 = before.length := by omega
  have hwidth : last + 1 - first = field.length := by omega
  rw [columns, hline, hstart, hwidth, List.append_assoc, List.drop_left, List.take_left]

theorem ruled_append {shift : Nat} {left middle right : List Char}
    (hleft : left.length = 6 + shift) (hmiddle : middle.length = 14) (hright : right.length = 14) :
    Ruled shift (left ++ Snapshot.gap ++ middle ++ Snapshot.gap ++ right) left middle right := by
  have hgap : Snapshot.gap.length = 3 := rfl
  have htwo : (left ++ Snapshot.gap).length = 9 + shift := by
    rw [List.length_append]
    omega
  have hthree : (left ++ Snapshot.gap ++ middle).length = 23 + shift := by
    rw [List.length_append]
    omega
  have hfour : (left ++ Snapshot.gap ++ middle ++ Snapshot.gap).length = 26 + shift := by
    rw [List.length_append]
    omega
  constructor
  · rw [List.length_append]
    omega
  · refine columns_of_append [] left (Snapshot.gap ++ middle ++ Snapshot.gap ++ right) ?_ rfl ?_
    · simp only [List.append_assoc, List.nil_append]
    · rw [List.length_nil]
      omega
  · refine columns_of_append left Snapshot.gap (middle ++ Snapshot.gap ++ right) ?_ ?_ ?_
    · simp only [List.append_assoc]
    all_goals omega
  · refine columns_of_append (left ++ Snapshot.gap) middle (Snapshot.gap ++ right) ?_ ?_ ?_
    · simp only [List.append_assoc]
    all_goals omega
  · refine columns_of_append (left ++ Snapshot.gap ++ middle) Snapshot.gap right rfl ?_ ?_
    all_goals omega
  · refine columns_of_append _ right [] (List.append_nil _).symm ?_ ?_
    all_goals omega

def History.ruler : List Char := upTo '\n' (past '\n' header.toList)

theorem History.ruled_ruler : Ruled 0 ruler (List.replicate 6 '-') (List.replicate 14 '-')
    (List.replicate 14 '-') := by
  constructor <;> decide

structure RightAligned (text field : List Char) : Prop where
  nonempty : text ≠ []
  unbroken : ' ' ∉ text
  filled : ∃ blanks, field = List.replicate blanks ' ' ++ text

structure Holds (x : Float) (field : List Char) : Prop where
  length : field.length = 14
  text : ∃ text, Shows 6 (parts x) text ∧ RightAligned text field

theorem rightAligned_column {text : List Char} (hne : text ≠ []) (hblank : ' ' ∉ text)
    (width : Nat) : RightAligned text (column width text) :=
  ⟨hne, hblank, width - text.length, rfl⟩

theorem holds_column (x : Float) : Holds x (column 14 (scientific 6 x)) where
  length := by
    rw [length_column]
    exact Nat.max_eq_left (length_scientific_le 6 x)
  text := by
    have hshows := shows_scientific 6 x
    have hblank : ' ' ∉ scientific 6 x := (isNumberText_scientific 6 x).notMem rfl (by decide)
    exact ⟨_, hshows, rightAligned_column hshows.ne_nil hblank 14⟩

namespace Snapshot

def surplus (s : Snapshot) : Nat := (natural s.iteration).length - 6

def firstLine (s : Snapshot) : List Char := upTo '\n' s.render.toList

theorem surplus_eq_zero_iff (s : Snapshot) : s.surplus = 0 ↔ s.iteration < 10 ^ 6 := by
  rw [surplus, Nat.sub_eq_zero_iff_le]
  exact Nat.length_toDigits_le_iff (by decide) (by decide)

theorem firstLine_eq (s : Snapshot) : s.firstLine = s.line := by
  rw [firstLine, render, String.toList_ofList, chars]
  exact upTo_append_cons s.newline_notMem_line _

structure LinesUp (s : Snapshot) : Prop where
  ends : ∃ rest, s.render.toList = s.firstLine ++ '\n' :: rest
  fits : s.surplus = 0 ↔ s.iteration < 10 ^ 6
  ruled : ∃ iteration residual step, Ruled s.surplus s.firstLine iteration residual step ∧
    RightAligned (natural s.iteration) iteration ∧ Holds s.residualNorm residual ∧
    Holds s.stepNorm step

theorem linesUp (s : Snapshot) : s.LinesUp where
  ends := by
    refine ⟨s.diagnostics.chars, ?_⟩
    rw [firstLine_eq, render, String.toList_ofList]
    rfl
  fits := s.surplus_eq_zero_iff
  ruled := by
    have hwidth : (column 6 (natural s.iteration)).length = 6 + s.surplus := by
      rw [length_column, surplus]
      omega
    have hresidual := holds_column s.residualNorm
    have hstep := holds_column s.stepNorm
    have hblank : ' ' ∉ natural s.iteration := (isDigits_natural _).notMem rfl
    refine ⟨_, _, _, ?_, rightAligned_column Nat.toDigits_ne_nil hblank 6, hresidual, hstep⟩
    rw [firstLine_eq]
    exact ruled_append hwidth hresidual.length hstep.length

end Snapshot

theorem columns_line_up :
    Ruled 0 History.ruler (List.replicate 6 '-') (List.replicate 14 '-') (List.replicate 14 '-') ∧
      ∀ s : Snapshot, s.LinesUp :=
  ⟨History.ruled_ruler, Snapshot.linesUp⟩

end RootFinding
