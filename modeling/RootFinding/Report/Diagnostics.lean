import RootFinding.Report.Diagnostic

/-!
# Named diagnostics

A table of diagnostics holds at most one value to a name, in strictly ascending order of the
names, which is the order of their code points and so of their UTF-8 bytes. Inserting a value
under a name that is taken replaces the value there. However a table was built, it is read,
written and compared in this order.
-/

namespace RootFinding

namespace Diagnostics

abbrev Entry := String × Diagnostic

def Ascending (entries : List Entry) : Prop :=
  entries.Pairwise fun a b => a.1.toList < b.1.toList

def place (name : String) (value : Diagnostic) : List Entry → List Entry
  | [] => [(name, value)]
  | entry :: rest =>
    if name.toList < entry.1.toList then (name, value) :: entry :: rest
    else if name = entry.1 then (name, value) :: rest
    else entry :: place name value rest

theorem place_of_lt {name other : String} (h : name.toList < other.toList)
    (value there : Diagnostic) (rest : List Entry) :
    place name value ((other, there) :: rest) = (name, value) :: (other, there) :: rest := if_pos h

theorem place_of_gt {name other : String} (h : other.toList < name.toList)
    (value there : Diagnostic) (rest : List Entry) :
    place name value ((other, there) :: rest) = (other, there) :: place name value rest := by
  have hne : name ≠ other := fun heq => Std.lt_irrefl (heq ▸ h)
  rw [place, if_neg (Std.not_lt.2 (Std.le_of_lt h)), if_neg hne]

theorem mem_place {name : String} {value : Diagnostic} {e : Entry} {entries : List Entry}
    (h : e ∈ place name value entries) : e = (name, value) ∨ e ∈ entries := by
  induction entries with
  | nil => simpa [place] using h
  | cons entry rest ih =>
    unfold place at h
    split at h
    · simpa using h
    · split at h
      · rcases List.mem_cons.1 h with h | h
        · exact .inl h
        · exact .inr (List.mem_cons_of_mem _ h)
      · rcases List.mem_cons.1 h with h | h
        · exact .inr (h ▸ List.mem_cons_self)
        · exact (ih h).imp_right (List.mem_cons_of_mem _)

theorem ascending_place (name : String) (value : Diagnostic) {entries : List Entry}
    (h : Ascending entries) : Ascending (place name value entries) := by
  induction entries with
  | nil => exact List.pairwise_singleton _ _
  | cons entry rest ih =>
    have hrest := List.pairwise_cons.1 h
    unfold place
    split
    · next hlt =>
      refine List.pairwise_cons.2 ⟨fun e he => ?_, h⟩
      rcases List.mem_cons.1 he with rfl | he
      · exact hlt
      · exact Std.lt_trans hlt (hrest.1 e he)
    · next hlt =>
      split
      · next heq => exact List.pairwise_cons.2 ⟨fun e he => heq ▸ hrest.1 e he, hrest.2⟩
      · next hne =>
        refine List.pairwise_cons.2 ⟨fun e he => ?_, ih hrest.2⟩
        rcases mem_place he with rfl | he
        · have hne' : entry.1.toList ≠ name.toList := fun h => hne (String.toList_inj.1 h).symm
          exact Std.lt_of_le_of_ne (Std.not_lt.1 hlt) hne'
        · exact hrest.1 e he

end Diagnostics

structure Diagnostics where
  entries : List (String × Diagnostic)
  ascending : Diagnostics.Ascending entries

namespace Diagnostics

def empty : Diagnostics := ⟨[], List.Pairwise.nil⟩

def insert (t : Diagnostics) (name : String) (value : Diagnostic) : Diagnostics :=
  ⟨place name value t.entries, ascending_place name value t.ascending⟩

/-- The later of two values under one name stays. -/
def ofList (entries : List (String × Diagnostic)) : Diagnostics :=
  entries.foldl (fun t entry => t.insert entry.1 entry.2) empty

def get? (t : Diagnostics) (name : String) : Option Diagnostic := t.entries.lookup name

instance : BEq Diagnostics := ⟨fun a b => a.entries == b.entries⟩

def entryLine (entry : String × Diagnostic) : List Char :=
  [' ', '*', ' '] ++ entry.1.toList ++ [':', ' '] ++ entry.2.chars ++ ['\n']

def chars (t : Diagnostics) : List Char := t.entries.flatMap entryLine

end Diagnostics

end RootFinding
