import RootFinding.Proofs.DenseMatrix
import RootFinding.Report.Exchange

/-!
# Reports read back from their trees

What is read from a written report is that report or nothing, and it is nothing as soon as one
number inside is not finite or one count does not fit 64 bits; and whatever is read from a tree,
its numbers are finite and its counts fit. This is shown for the leaves, for lists of what it is
known of, and so from diagnostics up to summaries.
-/

namespace RootFinding

structure Contents where
  numbers : List Float := []
  counts : List Nat := []
  matrices : List (DenseMatrix Float) := []

namespace Contents

def append (a b : Contents) : Contents :=
  ⟨a.numbers ++ b.numbers, a.counts ++ b.counts, a.matrices ++ b.matrices⟩

def join (cs : List Contents) : Contents :=
  ⟨cs.flatMap numbers, cs.flatMap counts, cs.flatMap matrices⟩

/-- A tree has no place for a number that is not finite, nor for a count of more than 64 bits. -/
def Sendable (c : Contents) : Prop :=
  (∀ x ∈ c.numbers, x.isFinite = true) ∧ ∀ n ∈ c.counts, n < UInt64.size

theorem sendable_append {a b : Contents} :
    (a.append b).Sendable ↔ a.Sendable ∧ b.Sendable := by
  simp only [Sendable, append, List.forall_mem_append]
  tauto

theorem sendable_join {cs : List Contents} :
    (join cs).Sendable ↔ ∀ c ∈ cs, c.Sendable := by
  simp only [Sendable, join, List.mem_flatMap]
  constructor
  · rintro ⟨hnumbers, hcounts⟩ c hc
    exact ⟨fun x hx => hnumbers x ⟨c, hc, hx⟩, fun n hn => hcounts n ⟨c, hc, hn⟩⟩
  · intro h
    exact ⟨fun x ⟨c, hc, hx⟩ => (h c hc).1 x hx, fun n ⟨c, hc, hn⟩ => (h c hc).2 n hn⟩

end Contents

def DenseMatrix.contents (m : DenseMatrix Float) : Contents where
  numbers := m.data.toList
  counts := [m.rows, m.cols]
  matrices := [m]

def Diagnostic.contents : Diagnostic → Contents
  | number x => { numbers := [x] }
  | text _ => {}
  | vector v => { numbers := v }
  | matrix m => m.contents

def Diagnostics.contents (t : Diagnostics) : Contents :=
  .join (t.entries.map fun entry => entry.2.contents)

def Snapshot.contents (s : Snapshot) : Contents :=
  .append { numbers := [s.residualNorm, s.stepNorm], counts := [s.iteration] }
    s.diagnostics.contents

def History.contents (h : History) : Contents := .join (h.snapshots.toList.map Snapshot.contents)

def Summary.contents (s : Summary) : Contents :=
  .append
    { numbers := s.start ++ s.zero ++ [s.residualNorm, s.tolerances.step, s.tolerances.residual]
      counts := [s.iterations, s.residualCalls, s.jacobianCalls] }
    s.history.contents

/-- What is written is read back exactly when it is `ok`, and only what is `ok` is ever read. -/
structure Faithful {β γ : Type} (write : β → γ) (read? : γ → Option β) (ok : β → Prop) : Prop where
  read_write : ∀ {v w}, read? (write v) = some w ↔ w = v ∧ ok v
  ok_of_read : ∀ {t v}, read? t = some v → ok v

theorem Faithful.map_read_write {β γ δ : Type} {write : β → γ} {read? : γ → Option β}
    {ok : β → Prop} (h : Faithful write read? ok) (c : β → δ) {v : β} {w : δ} :
    (read? (write v)).map c = some w ↔ w = c v ∧ ok v := by
  simp only [Option.map_eq_some_iff, h.read_write]
  constructor
  · rintro ⟨_, ⟨rfl, hv⟩, rfl⟩
    exact ⟨rfl, hv⟩
  · rintro ⟨rfl, hv⟩
    exact ⟨v, ⟨rfl, hv⟩, rfl⟩

theorem Faithful.ok_of_map_read {β γ δ : Type} {write : β → γ} {read? : γ → Option β}
    {ok : β → Prop} (h : Faithful write read? ok) {c : β → δ} {t : γ} {w : δ}
    (hread : (read? t).map c = some w) : ∃ v, c v = w ∧ ok v := by
  obtain ⟨v, hv, rfl⟩ := Option.map_eq_some_iff.1 hread
  exact ⟨v, rfl, h.ok_of_read hv⟩

theorem Faithful.list {β γ : Type} {write : β → γ} {read? : γ → Option β} {ok : β → Prop}
    (h : Faithful write read? ok) :
    Faithful (List.map write) (List.mapM read?) fun vs => ∀ v ∈ vs, ok v where
  read_write := by
    intro vs ws
    induction vs generalizing ws with
    | nil => simp [eq_comm]
    | cons v vs ih =>
      simp only [List.map_cons, List.mapM_cons, Option.bind_eq_bind, Option.bind_eq_some_iff,
        h.read_write, ih, List.forall_mem_cons]
      constructor
      · rintro ⟨_, ⟨rfl, hv⟩, _, ⟨rfl, hvs⟩, hws⟩
        exact ⟨(Option.some.inj hws).symm, hv, hvs⟩
      · rintro ⟨rfl, hv, hvs⟩
        exact ⟨v, ⟨rfl, hv⟩, vs, ⟨rfl, hvs⟩, rfl⟩
  ok_of_read := by
    intro ts vs hread
    induction ts generalizing vs with
    | nil =>
      obtain rfl : [] = vs := Option.some.inj hread
      exact List.forall_mem_nil _
    | cons t ts ih =>
      simp only [List.mapM_cons, Option.bind_eq_bind, Option.bind_eq_some_iff] at hread
      obtain ⟨v, hv, vs', hvs, hcons⟩ := hread
      obtain rfl := Option.some.inj hcons
      exact List.forall_mem_cons.2 ⟨h.ok_of_read hv, ih hvs⟩

namespace Tree

theorem faithful_number : Faithful ofNumber number? fun x => x.isFinite = true where
  read_write := by
    intro x w
    unfold ofNumber
    split
    · next hx => simp [number?, hx, eq_comm]
    · next hx => simp [number?, hx]
  ok_of_read := by
    intro t x hread
    cases t <;> simp [number?] at hread
    · exact hread.2 ▸ hread.1
    · exact hread.2 ▸ hread.1

theorem faithful_count : Faithful whole count? (· < UInt64.size) where
  read_write := by simp [count?, and_comm, eq_comm]
  ok_of_read := by
    intro t n hread
    cases t <;> simp [count?] at hread
    exact hread.2 ▸ hread.1

theorem faithful_text : Faithful text text? fun _ => True where
  read_write := by simp [text?, eq_comm]
  ok_of_read _ := trivial

theorem faithful_flag : Faithful flag flag? fun _ => True where
  read_write := by simp [flag?, eq_comm]
  ok_of_read _ := trivial

theorem faithful_numbers :
    Faithful ofNumbers numbers? fun v => ∀ x ∈ v, x.isFinite = true where
  read_write := faithful_number.list.read_write
  ok_of_read := by
    intro t v hread
    obtain ⟨items, -, hread⟩ := Option.bind_eq_some_iff.1 hread
    exact faithful_number.list.ok_of_read hread

theorem mapM_lookup_zip {names : List String} {values : List Tree} (hnodup : names.Nodup)
    (hlength : values.length = names.length) (before : List (String × Tree))
    (hbefore : ∀ name ∈ names, before.lookup name = none) :
    names.mapM (fun name => (before ++ names.zip values).lookup name) = some values := by
  induction names generalizing values before with
  | nil =>
    obtain rfl := List.length_eq_zero_iff.1 hlength
    rfl
  | cons name names ih =>
    obtain ⟨value, rest, rfl⟩ := List.exists_cons_of_length_eq_add_one hlength
    obtain ⟨hname, hnodup⟩ := List.nodup_cons.1 hnodup
    obtain ⟨hfirst, hbefore⟩ := List.forall_mem_cons.1 hbefore
    have hrest := ih hnodup (Nat.succ.inj hlength) (before ++ [(name, value)]) <| by
      intro other hother
      have hne : other ≠ name := fun h => hname (h ▸ hother)
      simp [List.lookup_append, hbefore other hother, hne]
    rw [List.append_assoc] at hrest
    simp only [List.mapM_cons, List.zip_cons_cons, List.lookup_append, hfirst, Option.none_or,
      List.lookup_cons_self]
    rw [← List.singleton_append]
    simp only [← List.lookup_append, hrest]
    rfl

theorem record?_zip {names : List String} {values : List Tree} (hnodup : names.Nodup)
    (hlength : values.length = names.length) :
    (fields (names.zip values)).record? names = some values :=
  mapM_lookup_zip hnodup hlength [] fun _ _ => rfl

end Tree

namespace DenseMatrix

theorem ofColumns?_flatten (m : DenseMatrix Float) :
    ofColumns? m.toColumns.flatten m.rows m.cols = some m := by
  rw [ofColumns?, if_pos m.length_flatten_toColumns]
  refine congrArg some (ext_get? rfl rfl fun i j hi hj => ?_)
  have hi : i < m.rows := hi
  have hj : j < m.cols := hj
  obtain ⟨a, ha⟩ := exists_get? hi hj
  have hentry := (m.getElem?_flatten_toColumns hi hj).trans ha
  rw [get?_ofFn _ hi hj, ha]
  simp [hentry]

theorem shape_of_ofColumns? {entries : List Float} {rows cols : Nat} {m : DenseMatrix Float}
    (h : ofColumns? entries rows cols = some m) : m.rows = rows ∧ m.cols = cols := by
  unfold ofColumns? at h
  split at h
  · obtain rfl := Option.some.inj h
    exact ⟨rfl, rfl⟩
  · cases h

theorem flatten_of_ofColumns? {entries : List Float} {rows cols : Nat} {m : DenseMatrix Float}
    (h : ofColumns? entries rows cols = some m) : m.toColumns.flatten = entries := by
  unfold ofColumns? at h
  split at h
  · next hlength =>
    obtain rfl := Option.some.inj h
    apply List.ext_getElem
    · exact (length_flatten_toColumns _).trans hlength.symm
    · intro k hk hk'
      have hlt : k < rows * cols := hlength ▸ hk'
      have hrows : 0 < rows := Nat.pos_of_mul_pos_right (Nat.zero_lt_of_lt hlt)
      have hi : k % rows < rows := Nat.mod_lt k hrows
      have hj : k / rows < cols := (Nat.div_lt_iff_lt_mul hrows).2 (Nat.mul_comm rows cols ▸ hlt)
      have hplace : k / rows * rows + k % rows = k := Nat.div_add_mod' k rows
      have hentry := getElem?_flatten_ofFn (fun i j => entries.toArray.getD (j * rows + i) 0) hi hj
      rw [hplace] at hentry
      rw [← Option.some_inj, ← List.getElem?_eq_getElem hk, hentry]
      simp [hk']
  · cases h

inductive Laid (m : DenseMatrix Float) : Tree → Prop
  | list {entries rows cols : Tree} (hentries : entries.numbers? = some m.toColumns.flatten)
      (hrows : rows.count? = some m.rows) (hcols : cols.count? = some m.cols) :
      Laid m (.list [entries, rows, cols])

theorem laid_of_read {t : Tree} {m : DenseMatrix Float} (h : ofTree? t = some m) : m.Laid t := by
  unfold ofTree? at h
  split at h
  · simp only [Option.bind_eq_bind, Option.bind_eq_some_iff] at h
    obtain ⟨entries, hentries, rows, hrows, cols, hcols, hread⟩ := h
    obtain ⟨rfl, rfl⟩ := shape_of_ofColumns? hread
    obtain rfl := flatten_of_ofColumns? hread
    exact .list hentries hrows hcols
  · cases h

theorem sendable_contents_iff {m : DenseMatrix Float} :
    m.contents.Sendable ↔ (∀ x ∈ m.toColumns.flatten, x.isFinite = true) ∧
      m.rows < UInt64.size ∧ m.cols < UInt64.size := by
  simp only [contents, Contents.Sendable, mem_flatten_toColumns, Array.mem_toList_iff,
    List.forall_mem_cons, List.not_mem_nil, false_implies, implies_true, and_true]

theorem faithful : Faithful toTree ofTree? fun m => m.contents.Sendable where
  read_write := by
    intro m w
    simp only [ofTree?, toTree, Option.bind_eq_bind, Option.bind_eq_some_iff,
      Tree.faithful_numbers.read_write, Tree.faithful_count.read_write, sendable_contents_iff]
    constructor
    · rintro ⟨_, ⟨rfl, hnumbers⟩, _, ⟨rfl, hrows⟩, _, ⟨rfl, hcols⟩, hread⟩
      rw [ofColumns?_flatten] at hread
      exact ⟨(Option.some.inj hread).symm, hnumbers, hrows, hcols⟩
    · rintro ⟨rfl, hnumbers, hrows, hcols⟩
      exact ⟨_, ⟨rfl, hnumbers⟩, _, ⟨rfl, hrows⟩, _, ⟨rfl, hcols⟩, ofColumns?_flatten w⟩
  ok_of_read := by
    intro t m hread
    cases laid_of_read hread with
    | list hentries hrows hcols =>
      exact sendable_contents_iff.2 ⟨Tree.faithful_numbers.ok_of_read hentries,
        Tree.faithful_count.ok_of_read hrows, Tree.faithful_count.ok_of_read hcols⟩

end DenseMatrix

namespace Diagnostic

@[simp] theorem sendable_contents_number {x : Float} :
    (number x).contents.Sendable ↔ x.isFinite = true := by
  simp [contents, Contents.Sendable]

@[simp] theorem sendable_contents_text {s : String} : (text s).contents.Sendable := by
  simp [contents, Contents.Sendable]

@[simp] theorem sendable_contents_vector {v : List Float} :
    (vector v).contents.Sendable ↔ ∀ x ∈ v, x.isFinite = true := by
  simp [contents, Contents.Sendable]

theorem faithful : Faithful toTree ofTree? fun d => d.contents.Sendable where
  read_write := by
    intro d w
    cases d with
    | number x => simpa [toTree, ofTree?] using Tree.faithful_number.map_read_write number
    | text s => simpa [toTree, ofTree?] using Tree.faithful_text.map_read_write text
    | vector v => simpa [toTree, ofTree?] using Tree.faithful_numbers.map_read_write vector
    | matrix m => exact DenseMatrix.faithful.map_read_write matrix
  ok_of_read := by
    intro t d hread
    unfold ofTree? at hread
    split at hread
    · split at hread
      · obtain ⟨x, rfl, hx⟩ := Tree.faithful_number.ok_of_map_read hread
        exact sendable_contents_number.2 hx
      · split at hread
        · obtain ⟨s, rfl, -⟩ := Tree.faithful_text.ok_of_map_read hread
          exact sendable_contents_text
        · split at hread
          · obtain ⟨v, rfl, hv⟩ := Tree.faithful_numbers.ok_of_map_read hread
            exact sendable_contents_vector.2 hv
          · split at hread
            · obtain ⟨m, rfl, hm⟩ := DenseMatrix.faithful.ok_of_map_read hread
              exact hm
            · cases hread
    · cases hread

end Diagnostic

namespace Diagnostics

theorem place_append {name : String} {value : Diagnostic} {entries : List Entry}
    (h : ∀ e ∈ entries, e.1.toList < name.toList) :
    place name value entries = entries ++ [(name, value)] := by
  induction entries with
  | nil => rfl
  | cons e entries ih =>
    obtain ⟨he, hrest⟩ := List.forall_mem_cons.1 h
    rw [place_of_gt he, ih hrest, List.cons_append]

theorem entries_foldl_insert (t : Diagnostics) (entries : List Entry)
    (h : Ascending (t.entries ++ entries)) :
    (entries.foldl (fun t entry => t.insert entry.1 entry.2) t).entries = t.entries ++ entries := by
  induction entries generalizing t with
  | nil => exact (List.append_nil _).symm
  | cons e entries ih =>
    have hinsert : (t.insert e.1 e.2).entries = t.entries ++ [e] :=
      place_append fun a ha => (List.pairwise_append.1 h).2.2 a ha e List.mem_cons_self
    rw [List.foldl_cons, ih _ (by simpa [hinsert] using h), hinsert, List.append_assoc]
    rfl

theorem eq_of_entries {t t' : Diagnostics} (h : t.entries = t'.entries) : t = t' := by
  cases t
  cases t'
  cases h
  rfl

theorem ofList_entries (t : Diagnostics) : ofList t.entries = t :=
  eq_of_entries (entries_foldl_insert empty t.entries t.ascending)

theorem mem_foldl_insert {t : Diagnostics} {entries : List Entry} {e : Entry}
    (h : e ∈ (entries.foldl (fun t entry => t.insert entry.1 entry.2) t).entries) :
    e ∈ t.entries ∨ e ∈ entries := by
  induction entries generalizing t with
  | nil => exact .inl h
  | cons a entries ih =>
    rcases ih h with hinsert | hrest
    · rcases mem_place hinsert with rfl | hold
      · exact .inr List.mem_cons_self
      · exact .inl hold
    · exact .inr (List.mem_cons_of_mem a hrest)

theorem mem_of_mem_ofList {entries : List Entry} {e : Entry} (h : e ∈ (ofList entries).entries) :
    e ∈ entries :=
  (mem_foldl_insert h).resolve_left List.not_mem_nil

theorem faithful_entry :
    Faithful (fun e : Entry => (e.1, e.2.toTree))
      (fun e => (Diagnostic.ofTree? e.2).map fun value => (e.1, value))
      fun e => e.2.contents.Sendable where
  read_write := by
    intro e w
    exact Diagnostic.faithful.map_read_write (Prod.mk e.1)
  ok_of_read := by
    intro t w hread
    obtain ⟨d, rfl, hd⟩ := Diagnostic.faithful.ok_of_map_read hread
    exact hd

theorem sendable_contents_iff {t : Diagnostics} :
    t.contents.Sendable ↔ ∀ e ∈ t.entries, e.2.contents.Sendable := by
  rw [contents, Contents.sendable_join, List.forall_mem_map]

theorem faithful : Faithful toTree ofTree? fun t => t.contents.Sendable where
  read_write := by
    intro t w
    have h := faithful_entry.list.map_read_write ofList (v := t.entries) (w := w)
    rw [ofList_entries, ← sendable_contents_iff] at h
    exact h
  ok_of_read := by
    intro tree t hread
    unfold ofTree? at hread
    split at hread
    · obtain ⟨entries, rfl, hentries⟩ := faithful_entry.list.ok_of_map_read hread
      exact sendable_contents_iff.2 fun e he => hentries e (mem_of_mem_ofList he)
    · cases hread

end Diagnostics

namespace Snapshot

theorem sendable_contents_iff {s : Snapshot} :
    s.contents.Sendable ↔ s.iteration < UInt64.size ∧ s.residualNorm.isFinite = true ∧
      s.stepNorm.isFinite = true ∧ s.diagnostics.contents.Sendable := by
  rw [contents, Contents.sendable_append]
  simp only [Contents.Sendable, List.forall_mem_cons, List.not_mem_nil, false_implies,
    implies_true, and_true]
  tauto

theorem faithful : Faithful toTree ofTree? fun s => s.contents.Sendable where
  read_write := by
    intro s w
    rw [ofTree?, toTree, Tree.record?_zip (by decide) rfl]
    simp only [Option.bind_eq_bind, Option.bind_eq_some_iff, Option.pure_def, Option.some.injEq,
      Tree.faithful_count.read_write, Tree.faithful_number.read_write,
      Diagnostics.faithful.read_write, sendable_contents_iff]
    constructor
    · rintro ⟨_, ⟨rfl, hiteration⟩, _, ⟨rfl, hresidual⟩, _, ⟨rfl, hstep⟩, _, ⟨rfl, hrest⟩, rfl⟩
      exact ⟨rfl, hiteration, hresidual, hstep, hrest⟩
    · rintro ⟨rfl, hiteration, hresidual, hstep, hrest⟩
      exact ⟨_, ⟨rfl, hiteration⟩, _, ⟨rfl, hresidual⟩, _, ⟨rfl, hstep⟩, _, ⟨rfl, hrest⟩, rfl⟩
  ok_of_read := by
    intro t s hread
    unfold ofTree? at hread
    split at hread
    · simp only [Option.bind_eq_bind, Option.bind_eq_some_iff, Option.pure_def,
        Option.some.injEq] at hread
      obtain ⟨_, hiteration, _, hresidual, _, hstep, _, hrest, rfl⟩ := hread
      exact sendable_contents_iff.2 ⟨Tree.faithful_count.ok_of_read hiteration,
        Tree.faithful_number.ok_of_read hresidual, Tree.faithful_number.ok_of_read hstep,
        Diagnostics.faithful.ok_of_read hrest⟩
    · cases hread

end Snapshot

namespace History

theorem sendable_contents_iff {h : History} :
    h.contents.Sendable ↔ ∀ s ∈ h.snapshots.toList, s.contents.Sendable := by
  rw [contents, Contents.sendable_join, List.forall_mem_map]

theorem faithful : Faithful toTree ofTree? fun h => h.contents.Sendable where
  read_write := by
    intro h w
    rw [ofTree?, toTree, Tree.record?_zip (by decide) rfl]
    simp only [Option.bind_eq_bind, Option.bind_eq_some_iff, Option.pure_def, Option.some.injEq,
      Tree.items?, exists_eq_left', Snapshot.faithful.list.read_write, sendable_contents_iff]
    constructor
    · rintro ⟨_, ⟨rfl, hsnapshots⟩, rfl⟩
      exact ⟨rfl, hsnapshots⟩
    · rintro ⟨rfl, hsnapshots⟩
      exact ⟨_, ⟨rfl, hsnapshots⟩, rfl⟩
  ok_of_read := by
    intro t h hread
    unfold ofTree? at hread
    split at hread
    · simp only [Option.bind_eq_bind, Option.bind_eq_some_iff, Option.pure_def,
        Option.some.injEq] at hread
      obtain ⟨_, -, _, hsnapshots, rfl⟩ := hread
      exact sendable_contents_iff.2 (Snapshot.faithful.list.ok_of_read hsnapshots)
    · cases hread

end History

namespace Summary

theorem sendable_contents_iff {s : Summary} :
    s.contents.Sendable ↔ (∀ x ∈ s.start, x.isFinite = true) ∧ (∀ x ∈ s.zero, x.isFinite = true) ∧
      s.residualNorm.isFinite = true ∧ s.iterations < UInt64.size ∧
      s.tolerances.step.isFinite = true ∧ s.tolerances.residual.isFinite = true ∧
      s.history.contents.Sendable ∧ s.residualCalls < UInt64.size ∧
      s.jacobianCalls < UInt64.size := by
  rw [contents, Contents.sendable_append]
  simp only [Contents.Sendable, List.forall_mem_append, List.forall_mem_cons, List.not_mem_nil,
    false_implies, implies_true, and_true]
  tauto

theorem faithful : Faithful toTree ofTree? fun s => s.contents.Sendable where
  read_write := by
    intro s w
    rw [ofTree?, toTree, Tree.record?_zip (by decide) rfl]
    simp only [Option.bind_eq_bind, Option.bind_eq_some_iff, Option.pure_def, Option.some.injEq,
      Tree.faithful_count.read_write, Tree.faithful_number.read_write,
      Tree.faithful_numbers.read_write, Tree.faithful_text.read_write,
      Tree.faithful_flag.read_write, History.faithful.read_write, sendable_contents_iff]
    constructor
    · rintro ⟨_, ⟨rfl, -⟩, _, ⟨rfl, hstart⟩, _, ⟨rfl, hzero⟩, _, ⟨rfl, hresidual⟩,
        _, ⟨rfl, hiterations⟩, _, ⟨rfl, -⟩, _, ⟨rfl, -⟩, _, ⟨rfl, hxtol⟩, _, ⟨rfl, hftol⟩,
        _, ⟨rfl, hhistory⟩, _, ⟨rfl, hcalls⟩, _, ⟨rfl, hjcalls⟩, rfl⟩
      exact ⟨rfl, hstart, hzero, hresidual, hiterations, hxtol, hftol, hhistory, hcalls, hjcalls⟩
    · rintro ⟨rfl, hstart, hzero, hresidual, hiterations, hxtol, hftol, hhistory, hcalls, hjcalls⟩
      exact ⟨_, ⟨rfl, trivial⟩, _, ⟨rfl, hstart⟩, _, ⟨rfl, hzero⟩, _, ⟨rfl, hresidual⟩,
        _, ⟨rfl, hiterations⟩, _, ⟨rfl, trivial⟩, _, ⟨rfl, trivial⟩, _, ⟨rfl, hxtol⟩,
        _, ⟨rfl, hftol⟩, _, ⟨rfl, hhistory⟩, _, ⟨rfl, hcalls⟩, _, ⟨rfl, hjcalls⟩, rfl⟩
  ok_of_read := by
    intro t s hread
    unfold ofTree? at hread
    split at hread
    · simp only [Option.bind_eq_bind, Option.bind_eq_some_iff, Option.pure_def,
        Option.some.injEq] at hread
      obtain ⟨_, -, _, hstart, _, hzero, _, hresidual, _, hiterations, _, -, _, -, _, hxtol,
        _, hftol, _, hhistory, _, hcalls, _, hjcalls, rfl⟩ := hread
      exact sendable_contents_iff.2 ⟨Tree.faithful_numbers.ok_of_read hstart,
        Tree.faithful_numbers.ok_of_read hzero, Tree.faithful_number.ok_of_read hresidual,
        Tree.faithful_count.ok_of_read hiterations, Tree.faithful_number.ok_of_read hxtol,
        Tree.faithful_number.ok_of_read hftol, History.faithful.ok_of_read hhistory,
        Tree.faithful_count.ok_of_read hcalls, Tree.faithful_count.ok_of_read hjcalls⟩
    · cases hread

end Summary

end RootFinding
