import RootFinding.Proofs.Binary64.Order
import RootFinding.Proofs.Report.Exchange
import RootFinding.Proofs.Report.NameOrder

/-!
# Diagnostics are a sorted map

Values are given to a table of diagnostics one after the other, under any names. What the table has
under a name is the value given last for it: one insertion changes what is found under its own name
and nothing else. The names are in ascending order, so the table is known from what is found in it,
and nothing is left in it of the order in which the values were given, nor of a value that was
replaced. The snapshot that holds it has the same text, is sent as the same tree, and is equal to
itself unless a number in it is NaN.
-/

namespace RootFinding

namespace Diagnostics

theorem lookup_cons (e : Entry) (entries : List Entry) (name : String) :
    (e :: entries).lookup name = if name = e.1 then some e.2 else entries.lookup name := by
  rw [List.lookup_cons]
  by_cases h : name = e.1
  · rw [if_pos h, beq_iff_eq.2 h]
  · rw [if_neg h, beq_eq_false_iff_ne.2 h]

-- This needs no order among the entries: an entry put before another of its name hides it.
theorem lookup_place (name other : String) (value : Diagnostic) (entries : List Entry) :
    (place name value entries).lookup other =
      if other = name then some value else entries.lookup other := by
  induction entries with
  | nil => rw [place, lookup_cons]
  | cons entry rest ih =>
    unfold place
    split
    · rw [lookup_cons]
    · split
      · next heq =>
        rw [lookup_cons, lookup_cons, heq]
        by_cases h : other = entry.1 <;> simp only [h, if_true, if_false]
      · next hne =>
        rw [lookup_cons, lookup_cons, ih]
        by_cases h : other = entry.1
        · have hother : other ≠ name := fun heq => hne (heq.symm.trans h)
          simp only [if_pos h, if_neg hother]
        · simp only [if_neg h]

def lastValue? (given : List Entry) (name : String) : Option Diagnostic :=
  given.reverse.lookup name

theorem lastValue?_cons (e : Entry) (given : List Entry) (name : String) :
    lastValue? (e :: given) name =
      (lastValue? given name).or (if name = e.1 then some e.2 else none) := by
  rw [lastValue?, List.reverse_cons, List.lookup_append, lookup_cons]
  rfl

theorem get?_insert (t : Diagnostics) (name other : String) (value : Diagnostic) :
    (t.insert name value).get? other = if other = name then some value else t.get? other :=
  lookup_place name other value t.entries

theorem get?_foldl_insert (t : Diagnostics) (given : List Entry) (name : String) :
    (given.foldl (fun t entry => t.insert entry.1 entry.2) t).get? name =
      (lastValue? given name).or (t.get? name) := by
  induction given generalizing t with
  | nil => rfl
  | cons e given ih =>
    rw [List.foldl_cons, ih, get?_insert, lastValue?_cons, Option.or_assoc]
    by_cases h : name = e.1 <;> simp [h]

theorem get?_ofList (given : List Entry) (name : String) :
    (ofList given).get? name = lastValue? given name :=
  (get?_foldl_insert empty given name).trans Option.or_none

theorem foldl_insert_eq_ofList (t : Diagnostics) (given : List Entry) :
    given.foldl (fun t entry => t.insert entry.1 entry.2) t = ofList (t.entries ++ given) := by
  rw [ofList, List.foldl_append, ← ofList, ofList_entries]

theorem mem_names_iff {entries : List Entry} {name : String} :
    name ∈ entries.map Prod.fst ↔ entries.lookup name ≠ none := by
  constructor
  · intro hname hnone
    obtain ⟨e, he, rfl⟩ := List.mem_map.1 hname
    exact bne_iff_ne.1 (List.lookup_eq_none_iff.1 hnone e he) rfl
  · intro hsome
    obtain ⟨value, hvalue⟩ := Option.ne_none_iff_exists'.1 hsome
    obtain ⟨before, after, rfl, -⟩ := List.lookup_eq_some_iff.1 hvalue
    exact List.mem_map_of_mem (List.mem_append_right before List.mem_cons_self)

theorem ne_of_name_lt {a b : Entry} (h : a.1.toList < b.1.toList) : a.1 ≠ b.1 :=
  fun heq => Std.lt_irrefl (heq ▸ h)

theorem nodup_names (t : Diagnostics) : (t.entries.map Prod.fst).Nodup :=
  List.pairwise_map.2 (t.ascending.imp ne_of_name_lt)

theorem mem_entries_iff (t : Diagnostics) (e : Entry) :
    e ∈ t.entries ↔ t.get? e.1 = some e.2 := by
  rw [get?, List.lookup_eq_some_iff]
  constructor
  · intro he
    obtain ⟨before, after, hentries⟩ := List.append_of_mem he
    have hascending := t.ascending
    rw [hentries, Ascending, List.pairwise_append] at hascending
    have hbefore : ∀ a ∈ before, a.1.toList < e.1.toList :=
      fun a ha => hascending.2.2 a ha e List.mem_cons_self
    exact ⟨before, after, hentries,
      fun a ha => bne_iff_ne.2 (ne_of_name_lt (hbefore a ha)).symm⟩
  · rintro ⟨before, after, hentries, -⟩
    rw [hentries]
    exact List.mem_append_right before List.mem_cons_self

theorem ext_get? {t t' : Diagnostics} (h : ∀ name, t.get? name = t'.get? name) : t = t' := by
  have hmem (e : Entry) : e ∈ t.entries ↔ e ∈ t'.entries := by
    rw [mem_entries_iff, mem_entries_iff, h]
  have hperm : t.entries.Perm t'.entries :=
    (List.perm_ext_iff_of_nodup t.nodup_names.of_map t'.nodup_names.of_map).2 hmem
  exact eq_of_entries <|
    hperm.eq_of_pairwise (fun _ _ _ _ hab hba => absurd (Std.lt_trans hab hba) Std.lt_irrefl)
      t.ascending t'.ascending

/-- The entries list the names that were given, each once, in the order of their UTF-8 bytes and
with the value given last for it. -/
structure Sorts (given entries : List Entry) : Prop where
  ascending : (entries.map fun e => bytes e.1).Pairwise (· < ·)
  names : ∀ name, (entries.map Prod.fst).count name = if name ∈ given.map Prod.fst then 1 else 0
  values : ∀ e ∈ entries, lastValue? given e.1 = some e.2

theorem sorts_ofList (given : List Entry) : Sorts given (ofList given).entries where
  ascending := List.pairwise_map.2 ((ofList given).ascending.imp bytes_lt)
  names name := by
    have hmem : name ∈ (ofList given).entries.map Prod.fst ↔ name ∈ given.map Prod.fst := by
      rw [mem_names_iff, ← get?, get?_ofList, lastValue?, ← mem_names_iff, List.map_reverse,
        List.mem_reverse]
    rw [(ofList given).nodup_names.count]
    simp only [hmem]
  values e he := by
    rw [← get?_ofList]
    exact ((ofList given).mem_entries_iff e).1 he

def entryText (e : Entry) : String := " * " ++ e.1 ++ ": " ++ e.2.render ++ "\n"

theorem toList_entryText (e : Entry) : (entryText e).toList = entryLine e := by
  simp [entryText, entryLine, Diagnostic.render]

end Diagnostics

theorem list_beq_self_iff {α : Type} [BEq α] {ok : α → Prop}
    (h : ∀ a, (a == a) = true ↔ ok a) (l : List α) : (l == l) = true ↔ ∀ a ∈ l, ok a := by
  induction l with
  | nil => simp
  | cons a l ih => rw [List.cons_beq_cons, Bool.and_eq_true, h, ih, List.forall_mem_cons]

def Contents.NaNFree (c : Contents) : Prop := ∀ x ∈ c.numbers, x.isNaN = false

theorem DenseMatrix.beq_self_iff (m : DenseMatrix Float) :
    (m == m) = true ↔ m.contents.NaNFree := by
  have hdata := list_beq_self_iff (fun _ => Binary64.beq_self_iff) m.data.toList
  rw [Array.beq_toList] at hdata
  change (m.rows == m.rows && m.cols == m.cols && m.data == m.data) = true ↔ _
  rw [beq_self_eq_true, beq_self_eq_true, Bool.true_and, Bool.true_and]
  exact hdata

theorem Diagnostic.beq_self_iff (d : Diagnostic) : (d == d) = true ↔ d.contents.NaNFree := by
  cases d with
  | number x =>
    rw [contents, Contents.NaNFree, List.forall_mem_singleton]
    exact Binary64.beq_self_iff
  | text s => exact iff_of_true (beq_self_eq_true s) (List.forall_mem_nil _)
  | vector v => exact list_beq_self_iff (fun _ => Binary64.beq_self_iff) v
  | matrix m => exact m.beq_self_iff

theorem Diagnostics.beq_self_iff (t : Diagnostics) : (t == t) = true ↔ t.contents.NaNFree := by
  have hentry (e : Entry) : (e == e) = true ↔ e.2.contents.NaNFree := by
    change (e.1 == e.1 && e.2 == e.2) = true ↔ _
    rw [beq_self_eq_true, Bool.true_and, Diagnostic.beq_self_iff]
  refine (list_beq_self_iff hentry t.entries).trans ?_
  simp only [contents, Contents.NaNFree, Contents.join, List.mem_flatMap, List.mem_map]
  constructor
  · rintro h x ⟨_, ⟨e, he, rfl⟩, hx⟩
    exact h e he x hx
  · exact fun h e he x hx => h x ⟨_, ⟨e, he, rfl⟩, hx⟩

namespace Snapshot

open Diagnostics

theorem beq_self_iff (s : Snapshot) : (s == s) = true ↔ s.contents.NaNFree := by
  change (s.iteration == s.iteration && (s.residualNorm == s.residualNorm &&
    (s.stepNorm == s.stepNorm && s.diagnostics == s.diagnostics))) = true ↔ _
  rw [beq_self_eq_true, Bool.true_and, Bool.and_eq_true, Bool.and_eq_true, Binary64.beq_self_iff,
    Binary64.beq_self_iff, Diagnostics.beq_self_iff]
  simp only [contents, Contents.NaNFree, Contents.append, List.forall_mem_append,
    List.forall_mem_cons, List.not_mem_nil, false_implies, implies_true, and_true, and_assoc]

def setAll (s : Snapshot) (given : List Entry) : Snapshot :=
  given.foldl (fun s e => s.setDiagnostic e.1 e.2) s

theorem setAll_eq (s : Snapshot) (given : List Entry) :
    s.setAll given = { s with diagnostics := ofList (s.diagnostics.entries ++ given) } := by
  rw [← foldl_insert_eq_ofList]
  induction given generalizing s with
  | nil => rfl
  | cons e given ih => exact ih (s.setDiagnostic e.1 e.2)

theorem render_eq (s : Snapshot) :
    s.render =
      String.ofList s.line ++ "\n" ++ String.join (s.diagnostics.entries.map entryText) := by
  rw [← String.toList_inj, render, String.toList_ofList, String.toList_append,
    String.toList_append, String.toList_join, List.flatMap_map, String.toList_ofList, chars]
  simp only [toList_entryText, List.append_assoc]
  rfl

structure Same (s s' : Snapshot) : Prop where
  render : s.render = s'.render
  toTree : s.toTree = s'.toTree
  equal : (s == s') = true ↔ s.contents.NaNFree

structure IsSortedMap (s : Snapshot) (given : List Entry) : Prop where
  render : ∃ entries, Sorts (s.diagnostics.entries ++ given) entries ∧
    (s.setAll given).render =
      String.ofList s.line ++ "\n" ++ String.join (entries.map entryText)
  same : ∀ given', (∀ name, lastValue? (s.diagnostics.entries ++ given) name =
    lastValue? (s.diagnostics.entries ++ given') name) → Same (s.setAll given) (s.setAll given')

theorem is_sorted_map (s : Snapshot) (given : List Entry) : IsSortedMap s given where
  render := by
    refine ⟨_, sorts_ofList _, ?_⟩
    rw [render_eq, setAll_eq]
    rfl
  same given' hlast := by
    have hdiagnostics : ofList (s.diagnostics.entries ++ given) =
        ofList (s.diagnostics.entries ++ given') :=
      ext_get? fun name => by rw [get?_ofList, get?_ofList, hlast]
    have hset : s.setAll given' = s.setAll given := by rw [setAll_eq, setAll_eq, hdiagnostics]
    rw [hset]
    exact ⟨rfl, rfl, (s.setAll given).beq_self_iff⟩

example :
    (setAll ⟨0, 1, 1, .empty⟩ [("z", .text "old"), ("é", .text "first"), ("z", .text "new"),
      ("a", .text "last")]).diagnostics.chars = " * a: last\n * z: new\n * é: first\n".toList := by
  decide +kernel

end Snapshot

end RootFinding
