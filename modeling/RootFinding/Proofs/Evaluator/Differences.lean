import RootFinding.Proofs.Evaluator.CentralDifference

/-!
# The calls behind a central-difference Jacobian

Nothing is asked of the residual evaluator here. It may keep a state, write a part of its buffer, or
fail. Its calls are listed as they are made, each with the state, the point and the buffer it was
handed. They come in pairs, one pair to a column, both on buffers of one place to a row: first with
the component moved forward, then with it moved back. A pair that does not fail writes its column,
and nothing else is ever written. The first call that fails ends the list.
-/

namespace RootFinding

variable {σ ε : Type}

structure Call (σ : Type) where
  state : σ
  point : List Float
  buffer : List Float

namespace Call

def reply (R : ResidualEvaluator σ ε) (c : Call σ) : Reply σ ε (List Float) :=
  R.run c.state c.point c.buffer

structure Asks (c : Call σ) (point : List Float) (places : Nat) : Prop where
  point : c.point = point
  places : c.buffer.length = places

theorem Asks.length_reply {c : Call σ} {point : List Float} {places : Nat} (h : c.Asks point places)
    (R : ResidualEvaluator σ ε) : (c.reply R).buffer.length = places :=
  (R.length_run c.state c.point c.buffer).trans h.places

end Call

def ResidualEvaluator.listed (R : ResidualEvaluator σ ε) :
    ResidualEvaluator (σ × List (Call σ)) ε where
  run := fun (s, calls) x fx =>
    let reply := R.run s x fx
    ⟨reply.failure, reply.buffer, (reply.state, calls ++ [⟨s, x, fx⟩])⟩
  length_run := fun (s, _) x fx => R.length_run s x fx

namespace CentralDifference

structure CallPair (σ : Type) where
  forward : Call σ
  backward : Call σ

variable {R : ResidualEvaluator σ ε} {x : List Float} {places : Nat}

namespace CallPair

def calls (p : CallPair σ) : List (Call σ) := [p.forward, p.backward]

structure Succeeds (R : ResidualEvaluator σ ε) (x : List Float) (places j : Nat)
    (p : CallPair σ) : Prop where
  forward : p.forward.Asks (ahead x j) places
  forward_ok : (p.forward.reply R).failure = none
  backward : p.backward.Asks (behind x j) places
  backward_ok : (p.backward.reply R).failure = none

def values (R : ResidualEvaluator σ ε) (x : List Float) (j : Nat) (p : CallPair σ) : List Float :=
  quotients (p.forward.reply R).buffer (p.backward.reply R).buffer (width x j)

theorem Succeeds.getElem?_values {j : Nat} {p : CallPair σ} (h : p.Succeeds R x places j) {i : Nat}
    (hi : i < places) :
    ∃ a b, (p.forward.reply R).buffer[i]? = some a ∧ (p.backward.reply R).buffer[i]? = some b ∧
      (p.values R x j)[i]? = some ((a - b) / width x j) := by
  have hplus : i < (p.forward.reply R).buffer.length := (h.forward.length_reply R).symm ▸ hi
  have hminus : i < (p.backward.reply R).buffer.length := (h.backward.length_reply R).symm ▸ hi
  refine ⟨_, _, List.getElem?_eq_getElem hplus, List.getElem?_eq_getElem hminus, ?_⟩
  simp [values, quotients, List.getElem?_zipWith, List.getElem?_eq_getElem hplus,
    List.getElem?_eq_getElem hminus]

theorem Succeeds.length_values {j : Nat} {p : CallPair σ} (h : p.Succeeds R x places j) :
    (p.values R x j).length = places := by
  rw [values, quotients, List.length_zipWith, h.forward.length_reply, h.backward.length_reply,
    Nat.min_self]

end CallPair

inductive Fails (R : ResidualEvaluator σ ε) (x : List Float) (places j : Nat) (e : ε) :
    List (Call σ) → Prop
  | forward {c : Call σ} (h : c.Asks (ahead x j) places) (hfails : (c.reply R).failure = some e) :
      Fails R x places j e [c]
  | backward {c d : Call σ} (h : c.Asks (ahead x j) places) (hok : (c.reply R).failure = none)
      (h' : d.Asks (behind x j) places) (hfails : (d.reply R).failure = some e) :
      Fails R x places j e [c, d]

/-- The calls after the pairs: none if all columns are done, else those for the next column. -/
inductive Ends (R : ResidualEvaluator σ ε) (x : List Float) (places done all : Nat) :
    List (Call σ) → Option ε → Prop
  | complete (h : done = all) : Ends R x places done all [] none
  | failed {calls : List (Call σ)} {e : ε} (h : done < all)
      (hfails : Fails R x places done e calls) : Ends R x places done all calls (some e)

structure Written (R : ResidualEvaluator σ ε) (x : List Float) (first : Nat)
    (pairs : List (CallPair σ)) (jx kx : DenseMatrix Float) : Prop where
  rows : kx.rows = jx.rows
  cols : kx.cols = jx.cols
  values : ∀ k p, pairs[k]? = some p → first + k < jx.cols → ∀ i < jx.rows,
    kx.get? i (first + k) = (p.values R x (first + k))[i]?
  kept : ∀ j, j < first ∨ first + pairs.length ≤ j → ∀ i, kx.get? i j = jx.get? i j

theorem Written.nil (first : Nat) (jx : DenseMatrix Float) : Written R x first [] jx jx :=
  ⟨rfl, rfl, by simp, fun _ _ _ => rfl⟩

theorem Written.cons {first : Nat} {p : CallPair σ} {pairs : List (CallPair σ)}
    {jx kx : DenseMatrix Float} (hp : p.Succeeds R x jx.rows first)
    (h : Written R x (first + 1) pairs (jx.setColumn first (p.values R x first)) kx) :
    Written R x first (p :: pairs) jx kx := by
  have hrows : kx.rows = jx.rows := by rw [h.rows, DenseMatrix.rows_setColumn]
  have hcols : kx.cols = jx.cols := by rw [h.cols, DenseMatrix.cols_setColumn]
  refine ⟨hrows, hcols, ?_, ?_⟩
  · intro k q hq hk i hi
    cases k with
    | zero =>
      obtain rfl : p = q := by simpa using hq
      rw [h.kept _ (Or.inl (by omega)), DenseMatrix.get?_setColumn _ _ hi hk,
        if_pos ⟨rfl, hp.length_values.symm ▸ hi⟩]
      rfl
    | succ k =>
      have hplace : first + (k + 1) = first + 1 + k := by omega
      rw [hplace] at hk ⊢
      exact h.values k q hq (by rwa [DenseMatrix.cols_setColumn]) i
        (by rwa [DenseMatrix.rows_setColumn])
  · intro j hj i
    rw [List.length_cons] at hj
    rw [h.kept j (by omega)]
    by_cases hin : i < jx.rows ∧ j < jx.cols
    · rw [DenseMatrix.get?_setColumn _ _ hin.1 hin.2, if_neg (by omega)]
    · rw [DenseMatrix.get?_eq_none hin, DenseMatrix.get?_eq_none (by simpa using hin)]

def AllSucceed (R : ResidualEvaluator σ ε) (x : List Float) (places first : Nat)
    (pairs : List (CallPair σ)) : Prop :=
  ∀ k (p : CallPair σ), pairs[k]? = some p → p.Succeeds R x places (first + k)

theorem AllSucceed.cons {first : Nat} {p : CallPair σ} {pairs : List (CallPair σ)}
    (hp : p.Succeeds R x places first) (h : AllSucceed R x places (first + 1) pairs) :
    AllSucceed R x places first (p :: pairs) := by
  intro k q hq
  cases k with
  | zero =>
    obtain rfl : p = q := by simpa using hq
    exact hp
  | succ k =>
    have hplace : first + (k + 1) = first + 1 + k := by omega
    rw [hplace]
    exact h k q hq

theorem column_listed (s : σ) (seen : List (Call σ)) {scratch : Scratch}
    (hready : Ready x places scratch) {j : Nat} (hj : j < x.length) (jx : DenseMatrix Float) :
    ∃ calls s' scratch',
      (∃ e, Fails R x places j e calls ∧ column R.listed x j ((s, seen), scratch) jx =
        ⟨some e, jx, ((s', seen ++ calls), scratch')⟩) ∨
      (∃ p : CallPair σ, calls = p.calls ∧ p.Succeeds R x places j ∧ Ready x places scratch' ∧
        column R.listed x j ((s, seen), scratch) jx =
          ⟨none, jx.setColumn j (p.values R x j), ((s', seen ++ calls), scratch')⟩) := by
  obtain ⟨point, plus, minus⟩ := scratch
  obtain ⟨rfl, hplus, hminus⟩ := hready
  let c : Call σ := ⟨s, ahead point j, plus⟩
  let d : Call σ := ⟨(c.reply R).state, behind point j, minus⟩
  have hc : c.Asks (ahead point j) places := ⟨rfl, hplus⟩
  have hd : d.Asks (behind point j) places := ⟨rfl, hminus⟩
  have hrun : R.listed.run (s, seen) (ahead point j) plus =
      ⟨(c.reply R).failure, (c.reply R).buffer, ((c.reply R).state, seen ++ [c])⟩ := rfl
  have hrun' (log : List (Call σ)) : R.listed.run ((c.reply R).state, log) (behind point j) minus =
      ⟨(d.reply R).failure, (d.reply R).buffer, ((d.reply R).state, log ++ [d])⟩ := rfl
  rw [column_of_ready, hrun]
  cases hforward : (c.reply R).failure with
  | some e => exact ⟨[c], _, _, Or.inl ⟨e, .forward hc hforward, rfl⟩⟩
  | none =>
    dsimp only
    rw [hrun', List.append_assoc]
    cases hbackward : (d.reply R).failure with
    | some e => exact ⟨[c, d], _, _, Or.inl ⟨e, .backward hc hforward hd hbackward, rfl⟩⟩
    | none =>
      have hready : Ready point places ⟨(behind point j).set j (point.getD j 0),
          (c.reply R).buffer, (d.reply R).buffer⟩ :=
        ⟨set_behind hj, hc.length_reply R, hd.length_reply R⟩
      exact ⟨[c, d], _, _, Or.inr ⟨⟨c, d⟩, rfl, ⟨hc, hforward, hd, hbackward⟩, hready, rfl⟩⟩

theorem columns_listed (s : σ) (seen : List (Call σ)) {scratch : Scratch} {jx : DenseMatrix Float}
    (hready : Ready x jx.rows scratch) {first count : Nat} (hcount : first + count ≤ x.length) :
    ∃ (pairs : List (CallPair σ)) (last : List (Call σ)) (s' : σ) (scratch' : Scratch)
        (failure : Option ε) (kx : DenseMatrix Float),
      columns R.listed x (List.range' first count) ((s, seen), scratch) jx =
          ⟨failure, kx, ((s', seen ++ pairs.flatMap CallPair.calls ++ last), scratch')⟩ ∧
        AllSucceed R x jx.rows first pairs ∧
        Ends R x jx.rows (first + pairs.length) (first + count) last failure ∧
        Written R x first pairs jx kx := by
  -- each pair that succeeds puts the moved point back, so the next one finds it ready
  induction count generalizing s seen scratch jx first with
  | zero =>
    exact ⟨[], [], s, scratch, none, jx, by simp [columns], by simp [AllSucceed], .complete rfl,
      .nil _ _⟩
  | succ count ih =>
    obtain ⟨calls, s₁, scratch₁, ⟨e, hfails, hcolumn⟩ | ⟨p, rfl, hp, hready₁, hcolumn⟩⟩ :=
      column_listed s seen hready (R := R) (j := first) (by omega) jx
    · refine ⟨[], calls, s₁, scratch₁, some e, jx, ?_, by simp [AllSucceed],
        .failed (by simp) hfails, .nil _ _⟩
      rw [List.range'_succ, columns, hcolumn]
      simp
    · have hrows : (jx.setColumn first (p.values R x first)).rows = jx.rows :=
        DenseMatrix.rows_setColumn jx first _
      rw [← hrows] at hready₁
      have hrest : first + 1 + count ≤ x.length := by omega
      obtain ⟨pairs, last, s₂, scratch₂, failure, kx, hcolumns, hpairs, hends, hwritten⟩ :=
        ih s₁ (seen ++ p.calls) hready₁ hrest
      rw [hrows] at hpairs hends
      refine ⟨p :: pairs, last, s₂, scratch₂, failure, kx, ?_, AllSucceed.cons hp hpairs, ?_,
        hwritten.cons hp⟩
      · rw [List.range'_succ, columns, hcolumn]
        dsimp only
        rw [hcolumns]
        simp [List.append_assoc]
      · have hplace : first + (p :: pairs).length = first + 1 + pairs.length := by
          rw [List.length_cons]
          omega
        have hplace' : first + (count + 1) = first + 1 + count := by omega
        rwa [hplace, hplace']

def unlisted {β : Type} (r : Reply ((σ × List (Call σ)) × Scratch) ε β) :
    Reply (σ × Scratch) ε β :=
  ⟨r.failure, r.buffer, (r.state.1.1, r.state.2)⟩

theorem column_unlisted (s : σ) (seen : List (Call σ)) (scratch : Scratch) (j : Nat)
    (jx : DenseMatrix Float) :
    unlisted (column R.listed x j ((s, seen), scratch) jx) = column R x j (s, scratch) jx := by
  unfold column
  dsimp only [ResidualEvaluator.listed]
  split
  · rfl
  · split <;> rfl

theorem columns_unlisted (js : List Nat) (s : σ) (seen : List (Call σ)) (scratch : Scratch)
    (jx : DenseMatrix Float) :
    unlisted (columns R.listed x js ((s, seen), scratch) jx) = columns R x js (s, scratch) jx := by
  induction js generalizing s seen scratch jx with
  | nil => rfl
  | cons j rest ih =>
    rw [columns, columns, ← column_unlisted s seen scratch j jx]
    generalize column R.listed x j ((s, seen), scratch) jx = reply
    obtain ⟨failure, kx, ⟨s', seen'⟩, scratch'⟩ := reply
    cases failure with
    | some e => rfl
    | none => exact ih s' seen' scratch' kx

theorem jacobian_unlisted (R : ResidualEvaluator σ ε) (s : σ) (scratch : Scratch) (x : List Float)
    (jx : DenseMatrix Float) :
    jacobian R (s, scratch) x jx = unlisted (jacobian R.listed ((s, []), scratch) x jx) :=
  (columns_unlisted _ s [] (scratch.fit x jx.rows) jx).symm

/-- The pairs of calls and the calls after them, which with the columns they have written are all
that a Jacobian does. -/
structure Account (R : ResidualEvaluator σ ε) (x : List Float) (jx : DenseMatrix Float)
    (pairs : List (CallPair σ)) (last : List (Call σ)) (failure : Option ε)
    (kx : DenseMatrix Float) : Prop where
  succeeded : ∀ j (p : CallPair σ), pairs[j]? = some p → p.Succeeds R x jx.rows j
  ends : Ends R x jx.rows pairs.length (min x.length jx.cols) last failure
  written : Written R x 0 pairs jx kx

theorem jacobian_listed (R : ResidualEvaluator σ ε) (s : σ) (scratch : Scratch) (x : List Float)
    (jx : DenseMatrix Float) :
    let reply := jacobian R.listed ((s, []), scratch) x jx
    ∃ (pairs : List (CallPair σ)) (last : List (Call σ)),
      reply.state.1.2 = pairs.flatMap CallPair.calls ++ last ∧
        Account R x jx pairs last reply.failure reply.buffer := by
  have hcount : 0 + min x.length jx.cols ≤ x.length := by omega
  obtain ⟨pairs, last, s', scratch', failure, kx, hrun, hpairs, hends, hwritten⟩ :=
    columns_listed (R := R) s [] (ready_fit x jx.rows scratch) hcount
  have hreply : jacobian R.listed ((s, []), scratch) x jx =
      ⟨failure, kx, ((s', pairs.flatMap CallPair.calls ++ last), scratch')⟩ := by
    rw [← List.range_eq_range'] at hrun
    exact hrun
  simp only [AllSucceed, Nat.zero_add] at hpairs hends
  rw [hreply]
  exact ⟨pairs, last, rfl, hpairs, hends, hwritten⟩

theorem exists_account (R : ResidualEvaluator σ ε) (s : σ) (scratch : Scratch) (x : List Float)
    (jx : DenseMatrix Float) :
    ∃ pairs last, Account R x jx pairs last (jacobian R (s, scratch) x jx).failure
      (jacobian R (s, scratch) x jx).buffer := by
  obtain ⟨pairs, last, -, haccount⟩ := jacobian_listed R s scratch x jx
  rw [jacobian_unlisted]
  exact ⟨pairs, last, haccount⟩

namespace Account

variable {jx kx : DenseMatrix Float} {pairs : List (CallPair σ)} {last : List (Call σ)}
  {failure : Option ε} {i j : Nat}

theorem get?_written (h : Account R x jx pairs last failure kx) (hi : i < jx.rows)
    (hj : j < jx.cols)
    {p : CallPair σ} (hp : pairs[j]? = some p) :
    ∃ plus minus, (p.forward.reply R).buffer[i]? = some plus ∧
      (p.backward.reply R).buffer[i]? = some minus ∧
      kx.get? i j = some ((plus - minus) / width x j) := by
  obtain ⟨plus, minus, hplus, hminus, hvalue⟩ := (h.succeeded j p hp).getElem?_values hi
  have hentry := h.written.values j p hp (by omega) i hi
  rw [Nat.zero_add] at hentry
  exact ⟨plus, minus, hplus, hminus, hentry.trans hvalue⟩

theorem get?_kept (h : Account R x jx pairs last failure kx) (hj : pairs[j]? = none) (i : Nat) :
    kx.get? i j = jx.get? i j := by
  refine h.written.kept j (Or.inr ?_) i
  rw [Nat.zero_add]
  exact List.getElem?_eq_none_iff.1 hj

theorem complete (h : Account R x jx pairs last failure kx) (hfailure : failure = none) :
    last = [] ∧ pairs.length = min x.length jx.cols := by
  cases h.ends with
  | complete hall => exact ⟨rfl, hall⟩
  | failed => cases hfailure

end Account

theorem jacobian_differences (R : ResidualEvaluator σ ε) (s : σ) (scratch : Scratch)
    (x : List Float) (jx : DenseMatrix Float) :
    let run := jacobian R.listed ((s, []), scratch) x jx
    let all := min x.length jx.cols
    jacobian R (s, scratch) x jx = ⟨run.failure, run.buffer, (run.state.1.1, run.state.2)⟩ ∧
    (run.failure = none → run.state.1.2.length = 2 * all) ∧
    ∃ (pairs : List (CallPair σ)) (last : List (Call σ)),
      run.state.1.2 = pairs.flatMap CallPair.calls ++ last ∧
      (∀ j (p : CallPair σ), pairs[j]? = some p → p.Succeeds R x jx.rows j) ∧
      Ends R x jx.rows pairs.length all last run.failure ∧
      run.buffer.rows = jx.rows ∧ run.buffer.cols = jx.cols ∧
      ∀ i < jx.rows, ∀ j < jx.cols,
        (∀ p, pairs[j]? = some p → ∃ plus minus, (p.forward.reply R).buffer[i]? = some plus ∧
          (p.backward.reply R).buffer[i]? = some minus ∧
          run.buffer.get? i j = some ((plus - minus) / width x j)) ∧
        (pairs[j]? = none → run.buffer.get? i j = jx.get? i j) := by
  intro run all
  obtain ⟨pairs, last, hcalls, haccount⟩ := jacobian_listed R s scratch x jx
  refine ⟨jacobian_unlisted R s scratch x jx, ?_, pairs, last, hcalls, haccount.succeeded,
    haccount.ends, haccount.written.rows, haccount.written.cols, ?_⟩
  · intro hnone
    obtain ⟨rfl, hlength⟩ := haccount.complete hnone
    have hboth : (pairs.flatMap CallPair.calls).length = 2 * pairs.length := by
      simp [List.length_flatMap, CallPair.calls, Nat.mul_comm]
    rw [hcalls, List.append_nil, hboth, hlength]
  · intro i hi j hj
    exact ⟨fun p hp => haccount.get?_written hi hj hp, fun hout => haccount.get?_kept hout i⟩

end CentralDifference

end RootFinding
