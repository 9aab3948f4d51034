import Columnar.Proofs.Cursor.Steps
import Columnar.Proofs.Store.Saved

/-!
# Dropping rows

A write cursor does not remember whether its current row has been dropped. It knows the rows of its
open batch, and the last of them is the current one.

**Runs** (`WriteRun`). Steps are done one after the other, whatever comes of each. Beside them it is
counted how many rows there are, and whether one has begun and has not been dropped.

**The open batch** (`WriteRun.Stands`). It has the rows behind the last full batch, so it is empty
exactly if no row has begun and the rows fill whole batches (`Stands.between_iff`). Only then a
rollback has no effect (`rollback_eq_self_iff`), and there is no row to write
(`get_eq_notOnRow_iff`).

**The rows** (`WriteRun.Has`). On a store that takes the batches a step changes the current row of
the open batch and no other. So the rows before the one in progress stay while steps have a row of
their own (`Has.run`).

Main result: `rollback_after_steps`.
-/

namespace Columnar

/-- A write cursor with its store and class tags, and what is known of its rows. -/
structure WriteRun where
  state : WriteState × ClassTags
  /-- A row has begun and has not been dropped. -/
  begun : Bool
  /-- The rows that have begun, less those that were dropped. -/
  rowCount : Nat

namespace WriteRun

open WriteCursor

abbrev cursor (r : WriteRun) : WriteCursor := r.state.1.cursor

abbrev store (r : WriteRun) : MemoryStore := r.state.1.store

/-- A new cursor. -/
def start (c : WriteCursor) (s : MemoryStore) (tags : ClassTags) : WriteRun :=
  ⟨(⟨c, s⟩, tags), false, 0⟩

/-- No row has begun, and the rows fill whole batches. -/
def Between (r : WriteRun) : Prop := r.begun = false ∧ r.cursor.chunkSize ∣ r.rowCount

instance (r : WriteRun) : Decidable r.Between := inferInstanceAs (Decidable (_ ∧ _))

/-- Do a step. A rollback without a row that has begun drops the row before, unless this is in a
batch that was handed over. -/
def step (r : WriteRun) : WriteStep → WriteRun
  | .forward =>
    let (o, state) := runStep .forward r.state
    ⟨state, o.isOk, if o.isOk then r.rowCount + 1 else r.rowCount⟩
  | .write column w => { r with state := (runStep (.write column w) r.state).2 }
  | .rollback =>
    ⟨(runStep .rollback r.state).2, false, if r.Between then r.rowCount else r.rowCount - 1⟩

/-- Do steps, whatever comes of them. -/
def run (r : WriteRun) (steps : List WriteStep) : WriteRun := steps.foldl step r

/-- Whenever a slot is written or a row is dropped, a row has begun. -/
def Fits (r : WriteRun) : List WriteStep → Prop
  | [] => True
  | step :: steps => (step ≠ .forward → r.begun = true) ∧ (r.step step).Fits steps

/-- The rows before the one in progress. -/
def settled {α : Type} (r : WriteRun) (rows : List α) : List α :=
  if r.begun then rows.dropLast else rows

end WriteRun

/-! ## Steps in any store -/

namespace WriteCursor

variable {t : WriteState} {rows : List (List Chunk)} {row : List Chunk}

/-- **Handing over the open batch** leaves none, whether the store takes the rows or not. -/
theorem flush_leaves (h : t.cursor.Buffers rows) :
    (flush t).2.cursor = t.cursor.emptied ∧
      t.store.batches.toList <+: (flush t).2.store.batches.toList := by
  rw [flush_buffers h]
  split
  · exact ⟨rfl, List.prefix_rfl⟩
  · refine ⟨rfl, ?_⟩
    simp only [MemoryStore.write]
    cases happend : t.store.append (Batch.ofRows t.cursor.schema.specs rows) with
    | error e => exact List.prefix_rfl
    | ok s' =>
      rw [(MemoryStore.append_eq_ok happend).2]
      simp only [AppendLog.toList_push]
      exact List.prefix_append _ _

/-- **Beginning a row** hands over the open batch if it is full, and then begins a row or fails. -/
theorem forward_cases (h : t.cursor.Buffers rows) (hopen : t.cursor.closed = false)
    (hk : 0 < t.cursor.chunkSize) :
    ∃ (t' : WriteState) (rows' : List (List Chunk)), t.cursor.Alike t'.cursor ∧
      t.store.batches.toList <+: t'.store.batches.toList ∧ t'.cursor.Buffers rows' ∧
      (rows.length = t.cursor.chunkSize ∧ rows' = [] ∨
        rows.length ≠ t.cursor.chunkSize ∧ rows' = rows) ∧
      (t'.cursor.Storable ∧
          forward t = (.ok (), t'.inRow rows' (t'.cursor.schema.specs.map (·.fresh 1))) ∨
        ∃ e, forward t = (.error e, t')) := by
  have hbegin : ∀ {t' : WriteState} {rows' : List (List Chunk)}, t'.cursor.Buffers rows' →
      rows'.length < t'.cursor.chunkSize → t'.cursor.Storable ∧
          beginRow t' = (.ok (), t'.inRow rows' (t'.cursor.schema.specs.map (·.fresh 1))) ∨
        ∃ e, beginRow t' = (.error e, t') :=
    fun h' hlt => (beginRow_buffers h' hlt).imp_right fun habort => ⟨_, habort.2⟩
  rw [forward_apply hopen, h.rowsInBatch_eq]
  by_cases hfull : rows.length = t.cursor.chunkSize
  · obtain ⟨hcursor, hstore⟩ := flush_leaves h
    have hempty : (flush t).2.cursor.Buffers [] := hcursor ▸ buffers_emptied t.cursor
    refine ⟨(flush t).2, [], hcursor ▸ alike_emptied t.cursor, hstore, hempty, .inl ⟨hfull, rfl⟩,
      ?_⟩
    rw [if_pos hfull]
    rcases hflush : flush t with ⟨e | u, t'⟩
    · exact .inr ⟨e, Action.bind_error hflush _⟩
    · rw [Action.bind_ok hflush]
      rw [hflush] at hempty hcursor
      exact hbegin hempty (by rw [hcursor]; exact hk)
  · refine ⟨t, rows, .refl _, List.prefix_rfl, h, .inr ⟨hfull, rfl⟩, ?_⟩
    rw [if_neg hfull]
    exact hbegin h (Nat.lt_of_le_of_ne h.length_le hfull)

theorem rollback_alike (c : WriteCursor) : c.Alike c.rollback := by
  obtain ⟨schema, k, _ | chunks, _ | index, closed⟩ := c
  case some.succ =>
    simp only [rollback, beforeRow]
    cases chunks.mapM (·.reset index) <;> exact ⟨rfl, rfl, rfl⟩
  all_goals exact .refl _

/-- **Writing to a slot of the row in progress**, also in vain, changes this row and the tags, and
keeps its shape. -/
theorem writeSlot_leaves (hroom : t.cursor.Room rows) (hrow : t.cursor.schema.Shapes 1 row)
    (j : Nat) (w : SlotWrite) (tags : ClassTags) :
    ∃ row' tags', (writeSlot j w (t.inRow rows row, tags)).2 = (t.inRow rows row', tags') ∧
      t.cursor.schema.Shapes 1 row' := by
  cases hj : t.cursor.schema[j]? with
  | none =>
    rw [writeSlot_outside hj]
    exact ⟨row, tags, rfl, hrow⟩
  | some column =>
    obtain ⟨d, hd, hshape⟩ := hrow.exists_chunk hj
    obtain ⟨hspec, huni⟩ := (w.slotwise_run column).keeps (t := ⟨d, tags⟩) hshape.1 hshape.2
    rw [writeSlot_inRow hroom hj hd hshape]
    exact ⟨_, _, rfl, hrow.set hj hspec huni⟩

end WriteCursor

namespace WriteRun

open WriteCursor

variable {base : MemoryStore} {rows : List (List Chunk)} {k : Nat} {r : WriteRun}

theorem step_forward_ok {t : WriteState} (h : forward r.state.1 = (.ok (), t)) :
    r.step .forward = ⟨(t, r.state.2), true, r.rowCount + 1⟩ := by
  simp only [step, runStep, besideTags, Action.on_apply, h]
  rfl

theorem step_forward_error {t : WriteState} {e : Failure}
    (h : forward r.state.1 = (.error e, t)) :
    r.step .forward = ⟨(t, r.state.2), false, r.rowCount⟩ := by
  simp only [step, runStep, besideTags, Action.on_apply, h]
  rfl

/-! ## The open batch -/

/-- The open batch has the rows behind the last full batch. -/
structure Stands (k : Nat) (r : WriteRun) : Prop where
  chunkSize_eq : r.cursor.chunkSize = k
  is_open : r.cursor.closed = false
  buffers : ∃ rows, r.cursor.Buffers rows
  rowCount_eq : ∃ n, r.rowCount = n * k + r.cursor.rowsInBatch
  on_row : r.begun = true → r.cursor.rowsInBatch ≠ 0
  off_row : r.begun = false → r.cursor.rowsInBatch < k

/-- The open batch is empty between batches, and only there. -/
theorem Stands.between_iff (h : Stands k r) : r.Between ↔ r.cursor.rowsInBatch = 0 := by
  obtain ⟨n, hcount⟩ := h.rowCount_eq
  constructor
  · rintro ⟨hbegun, hdvd⟩
    rw [h.chunkSize_eq, hcount, Nat.dvd_add_right (Nat.dvd_mul_left k n)] at hdvd
    exact Nat.eq_zero_of_dvd_of_lt hdvd (h.off_row hbegun)
  · intro hsize
    refine ⟨Bool.eq_false_iff.mpr fun hbegun => h.on_row hbegun hsize, ?_⟩
    rw [h.chunkSize_eq, hcount, hsize, Nat.add_zero]
    exact Nat.dvd_mul_left k n

theorem Stands.rollback_eq_self_iff (h : Stands k r) :
    r.cursor.rollback = r.cursor ↔ r.Between := by
  obtain ⟨rows, hbuffers⟩ := h.buffers
  rw [hbuffers.rollback_eq_self_iff, h.between_iff]

theorem Stands.dropRow_eq (h : Stands k r) :
    dropRow r.state.1 = (.ok (), { r.state.1 with cursor := r.cursor.rollback }) := by
  obtain ⟨rows, hbuffers⟩ := h.buffers
  simp only [dropRow, Action.bind_apply, Action.get_apply, Action.liftM_apply,
    hbuffers.beforeRow.1, Action.set_apply]

theorem Stands.step_rollback (h : Stands k r) : r.step .rollback =
    ⟨({ r.state.1 with cursor := r.cursor.rollback }, r.state.2), false,
      if r.Between then r.rowCount else r.rowCount - 1⟩ := by
  simp only [WriteRun.step, runStep, besideTags, Action.on_apply, h.dropRow_eq]

/-- **Beginning a row** makes room for it in the open batch if there is none. What is lost there
fills a batch. -/
theorem Stands.forward (hk : 0 < k) (h : Stands k r) :
    Stands k (r.step .forward) ∧
      r.store.batches.toList <+: (r.step .forward).store.batches.toList := by
  obtain ⟨n, hcount⟩ := h.rowCount_eq
  obtain ⟨rows, hbuffers⟩ := h.buffers
  have hrows := hbuffers.rowsInBatch_eq
  obtain ⟨t, rows', halike, hstore, hbuffers', hroom, hforward⟩ :=
    forward_cases hbuffers h.is_open (h.chunkSize_eq.symm ▸ hk)
  have hchunkSize : t.cursor.chunkSize = k := halike.chunkSize_eq.trans h.chunkSize_eq
  have hopen : t.cursor.closed = false := halike.closed_eq.trans h.is_open
  -- a full batch has been handed over, so there is room for the row
  obtain ⟨⟨n', hcount'⟩, hlt⟩ : (∃ n, r.rowCount = n * k + rows'.length) ∧ rows'.length < k := by
    rw [hrows] at hcount
    obtain ⟨hfull, rfl⟩ | ⟨hne, rfl⟩ := hroom
    · refine ⟨⟨n + 1, ?_⟩, hk⟩
      rw [hcount, hfull, h.chunkSize_eq, List.length_nil, Nat.succ_mul, Nat.add_zero]
    · refine ⟨⟨n, hcount⟩, Nat.lt_of_le_of_ne (h.chunkSize_eq ▸ hbuffers.length_le) ?_⟩
      exact h.chunkSize_eq ▸ hne
  obtain ⟨hstorable, hrun⟩ | ⟨e, hrun⟩ := hforward
  · rw [step_forward_ok hrun]
    -- the new row is the last one of the open batch
    have hbatch : (t.inRow rows' (t.cursor.schema.specs.map (·.fresh 1))).cursor.Buffers
        (rows' ++ [t.cursor.schema.specs.map (·.fresh 1)]) :=
      Room.buffers_concat ⟨hbuffers'.shapes, hchunkSize.symm ▸ hlt⟩ hstorable
        (Schema.shapes_fresh _ 1)
    refine ⟨⟨hchunkSize, hopen, ⟨_, hbatch⟩, ⟨n', ?_⟩, fun _ => rowsInBatch_inRow t rows' _,
      nofun⟩, hstore⟩
    rw [hbatch.rowsInBatch_eq, List.length_append, List.length_singleton, ← Nat.add_assoc,
      ← hcount']
  · rw [step_forward_error hrun]
    exact ⟨⟨hchunkSize, hopen, ⟨rows', hbuffers'⟩, ⟨n', hbuffers'.rowsInBatch_eq ▸ hcount'⟩, nofun,
      fun _ => hbuffers'.rowsInBatch_eq ▸ hlt⟩, hstore⟩

/-- **Writing** does not change how many rows there are. -/
theorem Stands.write (h : Stands k r) (j : Nat) (w : SlotWrite) :
    Stands k (r.step (.write j w)) ∧
      r.store.batches.toList <+: (r.step (.write j w)).store.batches.toList := by
  obtain ⟨⟨t, tags⟩, begun, rowCount⟩ := r
  obtain ⟨rows, hbuffers⟩ := h.buffers
  have hbuffers : t.cursor.Buffers rows := hbuffers
  rw [WriteRun.step, runStep]
  -- without a row there is no slot to write to
  by_cases hnil : rows = []
  · subst hnil
    rw [writeSlot_of_get (get_nil hbuffers j)]
    exact ⟨h, List.prefix_rfl⟩
  · obtain ⟨last, row, rfl, hc, hstorable, hroom, hrow⟩ := hbuffers.exists_last hnil
    have ht : t = t.inRow last row := congrArg (WriteState.mk · t.store) hc
    obtain ⟨row', tags', hrun, hrow'⟩ := writeSlot_leaves hroom hrow j w tags
    rw [← ht] at hrun
    have hbatch : (t.inRow last row').cursor.Buffers (last ++ [row']) :=
      hroom.buffers_concat hstorable hrow'
    have hsame : (t.inRow last row').cursor.rowsInBatch = t.cursor.rowsInBatch := by
      rw [hbatch.rowsInBatch_eq, hbuffers.rowsInBatch_eq, List.length_append, List.length_append]
      rfl
    rw [hrun]
    refine ⟨⟨h.chunkSize_eq, h.is_open, ⟨_, hbatch⟩, ?_, ?_, ?_⟩, List.prefix_rfl⟩
    · exact hsame.symm ▸ h.rowCount_eq
    · exact hsame.symm ▸ h.on_row
    · exact hsame.symm ▸ h.off_row

/-- **Dropping a row** takes one from the open batch, if there is one. -/
theorem Stands.rollback (hk : 0 < k) (h : Stands k r) : Stands k (r.step .rollback) := by
  obtain ⟨n, hcount⟩ := h.rowCount_eq
  obtain ⟨rows, hbuffers⟩ := h.buffers
  obtain ⟨-, hrolled⟩ := hbuffers.beforeRow
  have hle := h.chunkSize_eq ▸ hbuffers.length_le
  have hrows := hbuffers.rowsInBatch_eq
  have hrolledRows : r.cursor.rollback.rowsInBatch = r.cursor.rowsInBatch - 1 := by
    rw [hrolled.rowsInBatch_eq, List.length_dropLast, hrows]
  have halike := rollback_alike r.cursor
  rw [h.step_rollback]
  refine ⟨halike.chunkSize_eq.trans h.chunkSize_eq, halike.closed_eq.trans h.is_open,
    ⟨_, hrolled⟩, ⟨n, ?_⟩, nofun, fun _ => ?_⟩
  · show _ = n * k + r.cursor.rollback.rowsInBatch
    rw [hrolledRows]
    by_cases hbetween : r.Between
    · rw [if_pos hbetween, hcount, h.between_iff.mp hbetween]
    · have hsize : r.cursor.rowsInBatch ≠ 0 := mt h.between_iff.mpr hbetween
      rw [if_neg hbetween, hcount, Nat.add_sub_assoc (Nat.pos_of_ne_zero hsize)]
  · show r.cursor.rollback.rowsInBatch < k
    rw [hrolledRows]
    omega

/-- **A step** leaves the batches in the store, and the open batch has the rows behind the last full
batch again. -/
theorem Stands.step (hk : 0 < k) (h : Stands k r) (step : WriteStep) :
    Stands k (r.step step) ∧
      r.store.batches.toList <+: (r.step step).store.batches.toList := by
  cases step with
  | forward => exact h.forward hk
  | write j w => exact h.write j w
  | rollback =>
    refine ⟨h.rollback hk, ?_⟩
    rw [h.step_rollback]

/-- **Steps** leave the batches in the store. -/
theorem Stands.run (hk : 0 < k) (h : Stands k r) (steps : List WriteStep) :
    Stands k (r.run steps) ∧
      r.store.batches.toList <+: (r.run steps).store.batches.toList := by
  induction steps generalizing r with
  | nil => exact ⟨h, List.prefix_rfl⟩
  | cons step steps ih =>
    obtain ⟨hstep, hstore⟩ := h.step hk step
    obtain ⟨hrun, hstore'⟩ := ih hstep
    exact ⟨hrun, hstore.trans hstore'⟩

/-! ## The rows -/

/-- The rows that the cursor has written to the store `base`. -/
structure Has (base : MemoryStore) (rows : List (List Chunk)) (r : WriteRun) : Prop where
  lists : r.state.1.Lists base rows
  length_eq : rows.length = r.rowCount

theorem settled_prefix (r : WriteRun) (rows : List (List Chunk)) : r.settled rows <+: rows := by
  unfold settled
  split
  · exact List.dropLast_prefix rows
  · exact List.prefix_rfl

/-- A row begins behind the others, or not at all. -/
theorem Has.forward (hs : Stands k r) (h : Has base rows r) :
    ∃ rows', Has base rows' (r.step .forward) ∧ (r.step .forward).settled rows' = rows := by
  obtain ⟨t, last, halike, hstores, hbuffers, hroom, ⟨hstorable, hrun⟩ | ⟨-, hrun⟩⟩ :=
    forward_lists h.lists hs.is_open
  · rw [← halike.schema_eq] at hrun
    rw [step_forward_ok hrun]
    refine ⟨_, ⟨hstores.lists_inRow (halike.storable_iff.mpr hstorable) hroom
      (Schema.shapes_fresh _ 1), ?_⟩, List.dropLast_concat⟩
    rw [List.length_append, List.length_singleton, h.length_eq]
  · rw [step_forward_error hrun]
    exact ⟨rows, ⟨⟨last, hstores, hbuffers⟩, h.length_eq⟩, rfl⟩

/-- **Writing changes the last row**, if any. -/
theorem Has.write (h : Has base rows r) (j : Nat) (w : SlotWrite) :
    ∃ rows', Has base rows' (r.step (.write j w)) ∧ rows'.dropLast = rows.dropLast := by
  obtain ⟨⟨t, tags⟩, begun, rowCount⟩ := r
  have hlists : t.Lists base rows := h.lists
  rw [step, runStep]
  by_cases hzero : t.cursor.rowsInBatch = 0
  · obtain ⟨last, -, hbuffers⟩ := hlists
    have hnone := (hbuffers.get_eq_notOnRow_iff (j := j)).mpr hzero
    rw [writeSlot_of_get hnone]
    exact ⟨rows, h, rfl⟩
  · obtain ⟨last, row, rows₀, ht, rfl, hstores, hroom, hrow, hstorable⟩ :=
      hlists.exists_inRow hzero
    obtain ⟨row', tags', hrun, hrow'⟩ := writeSlot_leaves hroom hrow j w tags
    rw [← ht] at hrun
    rw [hrun]
    refine ⟨rows₀ ++ [row'], ⟨hstores.lists_inRow hstorable hroom hrow', ?_⟩, ?_⟩
    · have hlength := h.length_eq
      rw [List.length_append] at hlength ⊢
      exact hlength
    · rw [List.dropLast_concat, List.dropLast_concat]

/-- **Dropping a row**: the last one, but between batches none. -/
theorem Has.rollback (hs : Stands k r) (h : Has base rows r) (hrow : ¬ r.Between) :
    WriteState.Lists base { r.state.1 with cursor := r.cursor.rollback } rows.dropLast := by
  obtain ⟨last, row, rows₀, ht, rfl, hstores, hroom, hshapes, hstorable⟩ :=
    h.lists.exists_inRow (mt hs.between_iff.mpr hrow)
  have hdrop := dropRow_inRow hroom hshapes
  rw [← ht, hs.dropRow_eq] at hdrop
  obtain ⟨-, hstate⟩ := Prod.mk.inj hdrop
  rw [hstate, List.dropLast_concat]
  exact hstores.lists_withRows hstorable hroom

/-- **A step keeps the rows before the one in progress** if it has a row that has begun. -/
theorem Has.step (hs : Stands k r) (h : Has base rows r) (step : WriteStep) :
    ∃ rows', Has base rows' (r.step step) ∧ ((step ≠ .forward → r.begun = true) →
      r.settled rows <+: (r.step step).settled rows') := by
  cases step with
  | forward =>
    obtain ⟨rows', h', hsettled⟩ := h.forward hs
    exact ⟨rows', h', fun _ => hsettled ▸ settled_prefix r rows⟩
  | write j w =>
    obtain ⟨rows', h', hlast⟩ := h.write j w
    refine ⟨rows', h', fun hbegun => ?_⟩
    have hbegun : r.begun = true := hbegun (by simp)
    have hsettled : (r.step (.write j w)).settled rows' = rows'.dropLast := if_pos hbegun
    rw [hsettled, settled, if_pos hbegun, hlast]
  | rollback =>
    rw [hs.step_rollback]
    by_cases hbetween : r.Between
    · rw [if_pos hbetween, hs.rollback_eq_self_iff.mpr hbetween]
      exact ⟨rows, ⟨h.lists, h.length_eq⟩, fun _ => settled_prefix r rows⟩
    · rw [if_neg hbetween]
      refine ⟨rows.dropLast, ⟨h.rollback hs hbetween, ?_⟩, fun hbegun => ?_⟩
      · rw [List.length_dropLast, h.length_eq]
      · rw [settled, if_pos (hbegun (by simp))]
        exact List.prefix_rfl

/-- **The rows before the one in progress stay** as long as every row is dropped once. -/
theorem Has.run (hk : 0 < k) (hs : Stands k r) (h : Has base rows r) (steps : List WriteStep) :
    ∃ rows', Has base rows' (r.run steps) ∧
      (r.Fits steps → r.settled rows <+: (r.run steps).settled rows') := by
  induction steps generalizing r rows with
  | nil => exact ⟨rows, h, fun _ => List.prefix_rfl⟩
  | cons step steps ih =>
    obtain ⟨rows₁, h₁, hkept⟩ := h.step hs step
    obtain ⟨rows', h', hkept'⟩ := ih (hs.step hk step).1 h₁
    exact ⟨rows', h', fun hfits => (hkept hfits.1).trans (hkept' hfits.2)⟩

/-! ## The result -/

/-- **A rollback drops the last row of the open batch**, also if no row has begun since the last
rollback.

Let any steps be done with a new cursor, whatever comes of them. Another rollback succeeds. It has
no effect, and there is no row to write, exactly if no row has begun and the rows fill whole
batches; so a second rollback in a row has none exactly if the rows that the first one leaves do.
Batches that were handed over stay, whatever is done then.

If the store takes the batches, what is dropped otherwise is the last row, be it one that was
followed by others or not. As long as a row has begun whenever one is written or dropped, the rows
before the one in progress stay. -/
theorem rollback_after_steps {schema : Schema} {c : WriteCursor}
    (hcreate : create schema k = .ok c) (s : MemoryStore) (tags : ClassTags)
    (steps : List WriteStep) (hr : (start c s tags).run steps = r) :
    dropRow r.state.1 = (.ok (), { r.state.1 with cursor := r.cursor.rollback }) ∧
    (r.cursor.rollback = r.cursor ↔ r.Between) ∧
    (∀ j, r.cursor.get j = Outcome.fail (.illegalState .notOnRow) ↔ r.Between) ∧
    (r.cursor.rollback.rollback = r.cursor.rollback ↔ k ∣ (r.step .rollback).rowCount) ∧
    (∀ more, r.store.batches.toList <+: (r.run more).store.batches.toList) ∧
    (s.closed = false → s.specs = schema.specs →
      ∃ rows, r.state.1.Lists s rows ∧ rows.length = r.rowCount ∧
        (¬ r.Between →
          WriteState.Lists s { r.state.1 with cursor := r.cursor.rollback } rows.dropLast) ∧
        ∀ more, r.Fits more → ∃ rows', (r.run more).state.1.Lists s rows' ∧
          r.settled rows <+: (r.run more).settled rows') := by
  have hk : 0 < k := by
    unfold create at hcreate
    split at hcreate
    · assumption
    · cases hcreate
  rw [create, if_pos hk] at hcreate
  cases hcreate
  -- the invariant holds at the start, so it holds after the steps and a rollback more
  have hstart : Stands k (start ⟨schema, k, none, 0, false⟩ s tags) :=
    ⟨rfl, rfl, ⟨[], buffers_emptied ⟨schema, k, none, 0, false⟩⟩, ⟨0, by rw [Nat.zero_mul]; rfl⟩,
      nofun, fun _ => hk⟩
  have hstands : Stands k r := hr ▸ (hstart.run hk steps).1
  have hrolled := hstands.rollback hk
  obtain ⟨batchRows, hbuffers⟩ := hstands.buffers
  refine ⟨hstands.dropRow_eq, hstands.rollback_eq_self_iff, fun j => ?_, ?_,
    fun more => (hstands.run hk more).2, fun hopen hspecs => ?_⟩
  · rw [hbuffers.get_eq_notOnRow_iff, hstands.between_iff]
  · rw [hbuffers.beforeRow.2.rollback_eq_self_iff, ← hrolled.chunkSize_eq]
    have hiff := hrolled.between_iff
    rw [hstands.step_rollback] at hiff ⊢
    exact hiff.symm.trans ⟨fun h => h.2, fun h => ⟨rfl, h⟩⟩
  · -- a store that takes all batches has the rows in order
    have hnone : Has s [] (start ⟨schema, k, none, 0, false⟩ s tags) :=
      ⟨WriteState.lists_nil hk hspecs hopen, rfl⟩
    obtain ⟨rows, hrows, -⟩ := hnone.run hk hstart steps
    rw [hr] at hrows
    refine ⟨rows, hrows.lists, hrows.length_eq, hrows.rollback hstands, fun more hfits => ?_⟩
    obtain ⟨rows', hrows', hkept⟩ := hrows.run hk hstands more
    exact ⟨rows', hrows'.lists, hkept hfits⟩

/-- Two rows to a batch. Two rows have begun, and the second was dropped. -/
def sample : WriteRun :=
  (start ⟨[.rowKey], 2, none, 0, false⟩ (.empty [.plain .rowKey] .none) (.empty .builtin)).run
    [.forward, .write 0 (.text "a"), .forward, .write 0 (.text "b"), .rollback]

theorem rollback_after_steps_sample :
    sample.cursor.rollback ≠ sample.cursor ∧
    ∃ rows, sample.state.1.Lists (.empty [.plain .rowKey] .none) rows ∧ rows.length = 1 ∧
      WriteState.Lists (.empty [.plain .rowKey] .none)
        { sample.state.1 with cursor := sample.cursor.rollback } [] ∧
      ∃ rows', (sample.run [.forward, .rollback]).state.1.Lists (.empty [.plain .rowKey] .none)
        rows' ∧ rows <+: rows' := by
  have hrow : ¬ sample.Between := by decide +kernel
  have hcreate : create [.rowKey] 2 = .ok ⟨[.rowKey], 2, none, 0, false⟩ := rfl
  obtain ⟨-, hrollback, -, -, -, hlists⟩ := rollback_after_steps hcreate
    (.empty [.plain .rowKey] .none) (.empty .builtin) _ (r := sample) rfl
  obtain ⟨rows, hrows, hlength, hdropped, hkept⟩ := hlists rfl rfl
  have hone : rows.length = 1 := hlength.trans (by decide +kernel)
  have hnil : rows.dropLast = [] :=
    List.eq_nil_of_length_eq_zero (by rw [List.length_dropLast, hone])
  have hfits : sample.Fits [.forward, .rollback] := ⟨fun h => absurd rfl h, fun _ => rfl, trivial⟩
  exact ⟨mt hrollback.mp hrow, rows, hrows, hone, hnil ▸ hdropped hrow, hkept _ hfits⟩

/-- **The second of two rollbacks drops the row before**, which could be written again. -/
theorem second_rollback_drops_row :
    create [.rowKey] 2 = .ok ⟨[.rowKey], 2, none, 0, false⟩ ∧ sample.begun = false ∧
    (sample.cursor.get 0 >>= fun value => value.chunk.getText value.index) = .ok "a" ∧
    sample.cursor.rollback ≠ sample.cursor ∧
    (close sample.state.1).2.store.batches.toList.map Batch.rowCount = [1] ∧
    (close (sample.step .rollback).state.1).2.store.batches.toList.map Batch.rowCount = [] := by
  refine ⟨rfl, rfl, ?_, fun hsame => ?_, ?_, ?_⟩
  · decide +kernel
  · have hrows : sample.cursor.rollback.rowsInBatch ≠ sample.cursor.rowsInBatch := by
      decide +kernel
    exact hrows (congrArg rowsInBatch hsame)
  · decide +kernel
  · decide +kernel

end WriteRun

end Columnar
