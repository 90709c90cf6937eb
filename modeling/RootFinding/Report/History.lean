import RootFinding.Report.Snapshot
import RootFinding.Output.Journal

/-!
# The history of a run

Snapshots are appended and never lost, doubled or moved; a snapshot in place may be changed
through its index, and an index beyond the end is an error that changes nothing. Recording a
snapshot may print it, store it, do both or neither; a print that gets lost does not keep it
from being stored. As text a history is a header of two lines and the snapshots in order.
-/

namespace RootFinding

structure History where
  snapshots : Array Snapshot := #[]
  deriving BEq

structure OutOfRange where
  length : Nat
  index : Nat
  deriving DecidableEq, Repr

def OutOfRange.message (e : OutOfRange) : String :=
  s!"index out of bounds: the len is {e.length} but the index is {e.index}"

namespace History

def header : String :=
  "Iter     f(x) inf-norm    Step 2-norm \n------   --------------   --------------\n"

def empty : History := ⟨#[]⟩

def length (h : History) : Nat := h.snapshots.size

def isEmpty (h : History) : Bool := h.snapshots.isEmpty

def last? (h : History) : Option Snapshot := h.snapshots.back?

def iterations (h : History) : List Nat := h.snapshots.toList.map Snapshot.iteration

def push (h : History) (s : Snapshot) : History := ⟨h.snapshots.push s⟩

def get (h : History) (i : Nat) : Except OutOfRange Snapshot :=
  match h.snapshots[i]? with
  | some s => .ok s
  | none => .error ⟨h.length, i⟩

def modify (h : History) (i : Nat) (change : Snapshot → Snapshot) : Except OutOfRange History :=
  match h.snapshots[i]? with
  | some s => .ok ⟨h.snapshots.setIfInBounds i (change s)⟩
  | none => .error ⟨h.length, i⟩

/-- Whether the snapshots at two indices are equal; the first index is looked at first. -/
def sameAt (h : History) (i k : Nat) : Except OutOfRange Bool :=
  match h.get i with
  | .error e => .error e
  | .ok a => (h.get k).map fun b => a == b

def record (h : History) (s : Snapshot) (store print : Bool) (j : Journal) : History × Journal :=
  (if store then h.push s else h,
    if print then j.print s.render fun cause => .snapshotLost cause s.iteration else j)

def chars (h : History) : List Char := header.toList ++ h.snapshots.toList.flatMap Snapshot.chars

def render (h : History) : String := String.ofList h.chars

theorem snapshots_push (h : History) (s : Snapshot) :
    (h.push s).snapshots.toList = h.snapshots.toList ++ [s] := Array.toList_push

end History

end RootFinding
