import RootFinding.Proofs.Output.Capture
import RootFinding.Report.History

/-!
# A history is an append-only log

A history is driven by actions: a snapshot is pushed, or recorded, which may store it and may print
it; the header is printed; a snapshot in place is overwritten, or a part of it; and the history is
read. What it holds is what a plain list holds to which the stored snapshots are appended and whose
entries are overwritten at their positions. An entry stays where it was appended, and only the
overwrites of that position reach it. Nothing that is printed, read or refused has a part in this,
and the sink holds the beginning of the printed texts that it has room for.
-/

namespace RootFinding

namespace History

inductive Change where
  | snapshot (s : Snapshot)
  | stepNorm (x : Float)
  | diagnostic (name : String) (value : Diagnostic)

def Change.apply : Change → Snapshot → Snapshot
  | snapshot s, _ => s
  | stepNorm x, s => { s with stepNorm := x }
  | diagnostic name value, s => s.setDiagnostic name value

inductive Query where
  | get (i : Nat)
  | last
  | length
  | isEmpty
  | iterations
  | snapshots
  | render
  | sameAt (i k : Nat)
  | equalsCopy

inductive Action where
  | push (s : Snapshot)
  | record (s : Snapshot) (store print : Bool)
  | header
  | overwrite (i : Nat) (change : Change)
  | ask (q : Query)

inductive Answer where
  | done
  | lost (fault : WriteFault)
  | refused (e : OutOfRange)
  | snapshot (s : Snapshot)
  | snapshot? (s? : Option Snapshot)
  | snapshots (l : List Snapshot)
  | number (n : Nat)
  | numbers (l : List Nat)
  | flag (b : Bool)
  | text (t : String)

def Answer.of {α : Type} (answer : α → Answer) : Except OutOfRange α → Answer
  | .ok a => answer a
  | .error e => refused e

def Query.answer : Query → History → Answer
  | get i, h => .of .snapshot (h.get i)
  | last, h => .snapshot? h.last?
  | length, h => .number h.length
  | isEmpty, h => .flag h.isEmpty
  | iterations, h => .numbers h.iterations
  | snapshots, h => .snapshots h.snapshots.toList
  | render, h => .text h.render
  | sameAt i k, h => .of .flag (h.sameAt i k)
  | equalsCopy, h => .flag (h == h)

structure Logged where
  history : History
  journal : Journal

def Action.run : Action → Logged → Answer × Logged
  | push s, ⟨h, j⟩ => (.done, ⟨h.push s, j⟩)
  | record s store print, ⟨h, j⟩ =>
    (.done, ⟨(h.record s store print j).1, (h.record s store print j).2⟩)
  | header, ⟨h, j⟩ =>
    ((j.sink.write History.header).1.elim .done .lost,
      ⟨h, { j with sink := (j.sink.write History.header).2 }⟩)
  | overwrite i change, ⟨h, j⟩ =>
    match h.modify i change.apply with
    | .ok h' => (.done, ⟨h', j⟩)
    | .error e => (.refused e, ⟨h, j⟩)
  | ask q, ⟨h, j⟩ => (q.answer h, ⟨h, j⟩)

def drive (actions : List Action) (l : Logged) : Logged :=
  actions.foldl (fun l a => (a.run l).2) l

def Action.stored? : Action → Option Snapshot
  | push s => some s
  | record s store _ => if store then some s else none
  | _ => none

def Action.changeAt? (i : Nat) : Action → Option Change
  | overwrite k change => if k = i then some change else none
  | _ => none

def Action.printed? : Action → Option String
  | record s _ print => if print then some s.render else none
  | header => some History.header
  | _ => none

def Action.fault? (a : Action) (sink : Sink) : Option WriteFault :=
  a.printed?.bind fun text => (sink.write text).1

def Action.edit : Action → List Snapshot → List Snapshot
  | push s, l => l ++ [s]
  | record s store _, l => if store then l ++ [s] else l
  | overwrite i change, l => l.modify i change.apply
  | header, l => l
  | ask _, l => l

def edited (actions : List Action) (l : List Snapshot) : List Snapshot :=
  actions.foldl (fun l a => a.edit l) l

def Query.expected : Query → List Snapshot → Answer
  | get i, l => l[i]?.elim (.refused ⟨l.length, i⟩) .snapshot
  | last, l => .snapshot? l.getLast?
  | length, l => .number l.length
  | isEmpty, l => .flag l.isEmpty
  | iterations, l => .numbers (l.map Snapshot.iteration)
  | snapshots, l => .snapshots l
  | render, l => .text (String.join (History.header :: l.map Snapshot.render))
  | sameAt i k, l =>
    l[i]?.elim (.refused ⟨l.length, i⟩) fun a =>
      l[k]?.elim (.refused ⟨l.length, k⟩) fun b => .flag (a == b)
  | equalsCopy, l => .flag (l == l)

def Action.expected : Action → List Snapshot → Option WriteFault → Answer
  | push _, _, _ => .done
  | record _ _ _, _, _ => .done
  | header, _, fault => fault.elim .done .lost
  | overwrite i _, l, _ => if i < l.length then .done else .refused ⟨l.length, i⟩
  | ask q, l, _ => q.expected l

section Snapshots

variable (h : History)

theorem get_eq (i : Nat) :
    h.get i = h.snapshots.toList[i]?.elim (.error ⟨h.snapshots.toList.length, i⟩) .ok := by
  rw [get, Array.getElem?_toList]
  cases h.snapshots[i]? with
  | none => rfl
  | some s => rfl

theorem render_eq :
    h.render = String.join (header :: h.snapshots.toList.map Snapshot.render) := by
  have hchars : Snapshot.chars = String.toList ∘ Snapshot.render :=
    funext fun s => String.toList_ofList.symm
  rw [← String.toList_inj, String.toList_join, List.flatMap_cons, List.flatMap_map, render,
    String.toList_ofList, chars, hchars]
  rfl

theorem Query.answer_eq (q : Query) : q.answer h = q.expected h.snapshots.toList := by
  cases q with
  | get i =>
    rw [answer, expected, get_eq]
    cases h.snapshots.toList[i]? with
    | none => rfl
    | some s => rfl
  | last => rw [answer, expected, last?, Array.getLast?_toList]
  | length => rfl
  | isEmpty => rw [answer, expected, History.isEmpty, Array.isEmpty_toList]
  | iterations => rfl
  | snapshots => rfl
  | render => exact congrArg Answer.text h.render_eq
  | sameAt i k =>
    rw [answer, expected, History.sameAt, get_eq, get_eq]
    cases h.snapshots.toList[i]? with
    | none => rfl
    | some a =>
      cases h.snapshots.toList[k]? with
      | none => rfl
      | some b => rfl
  | equalsCopy => rw [answer, expected, Array.beq_toList]; rfl

theorem modify_of_lt {i : Nat} (hi : i < h.snapshots.toList.length)
    (change : Snapshot → Snapshot) :
    ∃ h', h.modify i change = .ok h' ∧
      h'.snapshots.toList = h.snapshots.toList.modify i change := by
  have hget : h.snapshots[i]? = some h.snapshots[i] := Array.getElem?_eq_getElem hi
  refine ⟨⟨h.snapshots.setIfInBounds i (change h.snapshots[i])⟩, ?_, ?_⟩
  · rw [modify, hget]
  · rw [Array.toList_setIfInBounds]
    refine List.ext_getElem? fun k => ?_
    rw [List.getElem?_set, List.getElem?_modify]
    by_cases hk : i = k
    · subst hk
      rw [if_pos rfl, if_pos hi, Array.getElem?_toList, hget]
      simp
    · rw [if_neg hk]
      simp [hk]

theorem modify_of_le {i : Nat} (hi : h.snapshots.toList.length ≤ i)
    (change : Snapshot → Snapshot) :
    h.modify i change = .error ⟨h.snapshots.toList.length, i⟩ := by
  have hget : h.snapshots[i]? = none := Array.getElem?_eq_none hi
  rw [modify, hget]
  rfl

end Snapshots

structure Action.Does (a : Action) (l : Logged) (after : Answer × Logged) : Prop where
  snapshots : after.2.history.snapshots.toList = a.edit l.history.snapshots.toList
  sink : after.2.journal.sink = l.journal.sink.writeAll a.printed?.toList
  answer : after.1 = a.expected l.history.snapshots.toList (a.fault? l.journal.sink)

theorem Action.does_run (a : Action) (l : Logged) : a.Does l (a.run l) := by
  obtain ⟨h, j⟩ := l
  cases a with
  | push s => exact ⟨h.snapshots_push s, rfl, rfl⟩
  | record s store print =>
    refine ⟨?_, ?_, rfl⟩
    · cases store with
      | true => exact h.snapshots_push s
      | false => rfl
    · cases print with
      | true => exact j.sink_print _ _
      | false => rfl
  | header => exact ⟨rfl, rfl, rfl⟩
  | overwrite i change =>
    by_cases hi : i < h.snapshots.toList.length
    · obtain ⟨h', hmodify, hsnapshots⟩ := h.modify_of_lt hi change.apply
      have hrun : run (.overwrite i change) ⟨h, j⟩ = (.done, ⟨h', j⟩) := by rw [run, hmodify]
      rw [hrun]
      exact ⟨hsnapshots, rfl, (if_pos hi).symm⟩
    · have hmodify := h.modify_of_le (Nat.le_of_not_lt hi) change.apply
      have hrun : run (.overwrite i change) ⟨h, j⟩ =
          (.refused ⟨h.snapshots.toList.length, i⟩, ⟨h, j⟩) := by rw [run, hmodify]
      have hedit : h.snapshots.toList.modify i change.apply = h.snapshots.toList :=
        List.modify_eq_self (Nat.le_of_not_lt hi)
      rw [hrun]
      exact ⟨hedit.symm, rfl, (if_neg hi).symm⟩
  | ask q => exact ⟨rfl, rfl, q.answer_eq h⟩

theorem Action.length_edit (a : Action) (l : List Snapshot) :
    (a.edit l).length = l.length + a.stored?.toList.length := by
  cases a with
  | push s => exact List.length_append
  | record s store print =>
    cases store with
    | true => exact List.length_append
    | false => rfl
  | header => rfl
  | overwrite i change => exact List.length_modify _ _ _
  | ask q => rfl

theorem Action.edit_of_stored {a : Action} {s : Snapshot} (h : a.stored? = some s)
    (l : List Snapshot) : a.edit l = l ++ [s] := by
  cases a with
  | push s' =>
    obtain rfl := Option.some.inj h
    rfl
  | record s' store print =>
    cases store with
    | true =>
      obtain rfl := Option.some.inj h
      rfl
    | false => cases h
  | header => cases h
  | overwrite i change => cases h
  | ask q => cases h

theorem Action.getElem?_edit (a : Action) {l : List Snapshot} {i : Nat} (hi : i < l.length) :
    (a.edit l)[i]? = l[i]?.map fun s => (a.changeAt? i).elim s (·.apply s) := by
  cases a with
  | push s =>
    rw [edit, List.getElem?_append_left hi]
    exact (congrFun Option.map_id _).symm
  | record s store print =>
    cases store with
    | true =>
      rw [edit, if_pos rfl, List.getElem?_append_left hi]
      exact (congrFun Option.map_id _).symm
    | false => exact (congrFun Option.map_id _).symm
  | header => exact (congrFun Option.map_id _).symm
  | overwrite k change =>
    rw [edit, changeAt?, List.getElem?_modify, Option.map_eq_map]
    split <;> rfl
  | ask q => exact (congrFun Option.map_id _).symm

def Action.quiet : Action → Action
  | record s store _ => record s store false
  | a => a

theorem Action.edit_quiet (a : Action) : a.quiet.edit = a.edit := by
  cases a <;> rfl

theorem snapshots_drive (actions : List Action) (l : Logged) :
    (drive actions l).history.snapshots.toList = edited actions l.history.snapshots.toList := by
  induction actions generalizing l with
  | nil => rfl
  | cons a actions ih =>
    have hrest := ih (a.run l).2
    rw [(a.does_run l).snapshots] at hrest
    exact hrest

theorem sink_drive (actions : List Action) (l : Logged) :
    (drive actions l).journal.sink =
      l.journal.sink.writeAll (actions.filterMap Action.printed?) := by
  induction actions generalizing l with
  | nil => rfl
  | cons a actions ih =>
    have hrest := ih (a.run l).2
    rw [(a.does_run l).sink, ← Sink.writeAll_append] at hrest
    have htexts : (a :: actions).filterMap Action.printed? =
        a.printed?.toList ++ actions.filterMap Action.printed? := by
      cases hprinted : a.printed? with
      | none => exact List.filterMap_cons_none hprinted
      | some text => exact List.filterMap_cons_some hprinted
    rw [htexts]
    exact hrest

theorem length_edited (actions : List Action) (l : List Snapshot) :
    (edited actions l).length = l.length + (actions.filterMap Action.stored?).length := by
  induction actions generalizing l with
  | nil => rfl
  | cons a actions ih =>
    have hrest := ih (a.edit l)
    rw [a.length_edit] at hrest
    refine hrest.trans ?_
    cases hstored : a.stored? with
    | none => rw [List.filterMap_cons_none hstored]; rfl
    | some s =>
      rw [List.filterMap_cons_some hstored, List.length_cons, Option.toList_some,
        List.length_singleton]
      omega

theorem getElem?_edited (actions : List Action) {l : List Snapshot} {i : Nat} (hi : i < l.length) :
    (edited actions l)[i]? = l[i]?.map fun s =>
      (actions.filterMap (Action.changeAt? i)).foldl (fun s change => change.apply s) s := by
  induction actions generalizing l with
  | nil => exact (congrFun Option.map_id _).symm
  | cons a actions ih =>
    have hlonger : i < (a.edit l).length :=
      Nat.lt_of_lt_of_le hi ((a.length_edit l).symm ▸ Nat.le_add_right _ _)
    have hrest := ih hlonger
    rw [a.getElem?_edit hi, Option.map_map] at hrest
    refine hrest.trans (congrArg (l[i]?.map ·) (funext fun s => ?_))
    cases hchange : a.changeAt? i with
    | none => rw [List.filterMap_cons_none hchange]; rfl
    | some change => rw [List.filterMap_cons_some hchange]; rfl

theorem getElem?_edited_stored {a : Action} {s : Snapshot} (h : a.stored? = some s)
    (before after : List Action) :
    (edited (before ++ a :: after) [])[(before.filterMap Action.stored?).length]? =
      some ((after.filterMap (Action.changeAt? (before.filterMap Action.stored?).length)).foldl
        (fun s change => change.apply s) s) := by
  have hlength := length_edited before []
  rw [List.length_nil, Nat.zero_add] at hlength
  have hedited : edited (before ++ a :: after) [] = edited after (edited before [] ++ [s]) := by
    rw [edited, List.foldl_append, List.foldl_cons, a.edit_of_stored h]
    rfl
  rw [← hlength, hedited, getElem?_edited after (by simp), List.getElem?_concat_length]
  rfl

theorem edited_quiet (actions : List Action) (l : List Snapshot) :
    edited (actions.map Action.quiet) l = edited actions l := by
  rw [edited, List.foldl_map]
  simp only [Action.edit_quiet]
  rfl

def drivenFrom (sink : Sink) (actions : List Action) : Logged := drive actions ⟨.empty, .start sink⟩

structure IsLog (sink : Sink) (actions : List Action) : Prop where
  snapshots : (drivenFrom sink actions).history.snapshots.toList = edited actions []
  length : (drivenFrom sink actions).history.length =
    (actions.filterMap Action.stored?).length
  placed : ∀ before a after s, actions = before ++ a :: after → a.stored? = some s →
    (drivenFrom sink actions).history.snapshots[(before.filterMap Action.stored?).length]? =
      some ((after.filterMap (Action.changeAt? (before.filterMap Action.stored?).length)).foldl
        (fun s change => change.apply s) s)
  answers : ∀ before a after, actions = before ++ a :: after →
    (a.run (drivenFrom sink before)).1 =
      a.expected (edited before []) (a.fault? (drivenFrom sink before).journal.sink)
  indifferent : ∀ actions' sink', actions'.map Action.quiet = actions.map Action.quiet →
    (drivenFrom sink' actions').history = (drivenFrom sink actions).history
  output : sink.received = .empty → (drivenFrom sink actions).journal.sink.received =
    Sink.fitting sink.limit (String.join (actions.filterMap Action.printed?)).toUTF8

theorem snapshots_drivenFrom (sink : Sink) (actions : List Action) :
    (drivenFrom sink actions).history.snapshots.toList = edited actions [] :=
  snapshots_drive actions _

theorem is_append_only_log (sink : Sink) (actions : List Action) : IsLog sink actions where
  snapshots := snapshots_drivenFrom sink actions
  length := by
    have hlength := congrArg List.length (snapshots_drivenFrom sink actions)
    rw [length_edited, List.length_nil, Nat.zero_add] at hlength
    exact hlength
  placed before a after s hactions hstored := by
    rw [← Array.getElem?_toList, snapshots_drivenFrom, hactions, getElem?_edited_stored hstored]
  answers before a after _ := by
    rw [(a.does_run _).answer, snapshots_drivenFrom]
  indifferent actions' sink' hquiet := by
    have hsnapshots := snapshots_drivenFrom sink' actions'
    rw [← edited_quiet, hquiet, edited_quiet, ← snapshots_drivenFrom sink] at hsnapshots
    exact congrArg History.mk (Array.toList_inj.1 hsnapshots)
  output hempty := by
    have hempty : sink.Holds .empty := Sink.holds_of_empty hempty
    have hholds := hempty.writeAll (actions.filterMap Action.printed?)
    rw [Sink.Holds, Sink.limit_writeAll, ByteArray.empty_append] at hholds
    rw [drivenFrom, sink_drive]
    exact hholds

end History

end RootFinding
