import Columnar.Proofs.Cursor.Buffers

/-!
# Writing rows

**The rows of a cursor** (`WriteState.Lists`) are those of the batches it has handed over, which are
all full, and then those of its open batch. Handing over the open batch moves rows from the second
part to the first (`flush_lists`), which happens when a row begins and the open batch is full
(`forward_lists`). When the cursor is closed all its rows are in batches (`close_lists`), and how
they are divided among them is settled by the number of rows to a batch (`Grouped.eq_of_flatten`).

**A row in progress** (`WriteState.inRow`) is the current row of the open batch. Writing to a slot
changes it and nothing else of the cursor (`atSlot_inRow`), and dropping it leaves the rows before it
(`dropRow_inRow`).
-/

namespace Columnar

/-! ## Batches handed to a store -/

namespace MemoryStore

theorem mismatch?_specs (cs : List Chunk) : mismatch? cs (cs.map Chunk.spec) = none := by
  induction cs with
  | nil => rfl
  | cons c cs ih => simp [mismatch?, ih]

theorem append_of_specs {s : MemoryStore} {b : Batch} (hopen : s.closed = false)
    (h : b.chunks.map Chunk.spec = s.specs) :
    s.append b = .ok { s with batches := s.batches.push b } := by
  have hlen : b.chunks.length = s.specs.length := by rw [← h, List.length_map]
  have hm : mismatch? b.chunks s.specs = none := h ▸ mismatch?_specs b.chunks
  simp [append, hlen, hm, hopen]

end MemoryStore

theorem Schema.Shapes.specs_eq {schema : Schema} {n : Nat} {chunks : List Chunk}
    (h : schema.Shapes n chunks) : chunks.map Chunk.spec = schema.specs := by
  apply List.ext_getElem?
  intro j
  rw [Schema.specs, List.getElem?_map, List.getElem?_map]
  cases hj : schema[j]? with
  | none =>
    have hle : schema.length ≤ j := List.getElem?_eq_none_iff.mp hj
    rw [List.getElem?_eq_none (h.length_eq ▸ hle)]
    rfl
  | some column =>
    obtain ⟨c, hc, hspec, -⟩ := h.exists_chunk hj
    rw [hc, Option.map_some, Option.map_some, hspec]

/-! ## Groups -/

/-- Rows in groups of `k`, of which the last may be smaller, and none is empty. -/
structure Grouped {α : Type} (k : Nat) (groups : List (List α)) : Prop where
  full : ∀ g ∈ groups.dropLast, g.length = k
  bounds : ∀ g ∈ groups, 1 ≤ g.length ∧ g.length ≤ k

theorem Grouped.tail {α : Type} {k : Nat} {g : List α} {groups : List (List α)}
    (h : Grouped k (g :: groups)) : Grouped k groups where
  full g' hg' := by
    cases groups with
    | nil => cases hg'
    | cons g₁ groups => exact h.full g' (List.mem_cons_of_mem g hg')
  bounds g' hg' := h.bounds g' (List.mem_cons_of_mem g hg')

theorem grouped_append {α : Type} {k : Nat} {full : List (List α)} {g : List α}
    (hfull : ∀ g ∈ full, g.length = k) (hlength : 1 ≤ g.length ∧ g.length ≤ k) :
    Grouped k (full ++ [g]) where
  full := by simpa using hfull
  bounds g' hg' := by
    rcases List.mem_append.mp hg' with hg' | hg'
    · have := hfull g' hg'
      omega
    · rw [List.mem_singleton.mp hg']
      exact hlength

/-- The first group has the first rows, as many as there are up to `k`. -/
theorem Grouped.head_eq {α : Type} {k : Nat} {g : List α} {groups : List (List α)}
    (h : Grouped k (g :: groups)) : g = (g ++ groups.flatten).take k := by
  have hle := (h.bounds g List.mem_cons_self).2
  cases groups with
  | nil => rw [List.flatten_nil, List.append_nil, List.take_of_length_le hle]
  | cons g₁ groups => rw [← h.full g List.mem_cons_self, List.take_left']; rfl

/-- **The rows settle the groups.** -/
theorem Grouped.eq_of_flatten {α : Type} {k : Nat} {groups groups' : List (List α)}
    (h : Grouped k groups) (h' : Grouped k groups') (heq : groups.flatten = groups'.flatten) :
    groups = groups' := by
  induction groups generalizing groups' with
  | nil =>
    cases groups' with
    | nil => rfl
    | cons g' groups' =>
      -- no group is empty, so no rows means no groups
      have hpos := (h'.bounds g' List.mem_cons_self).1
      have hlength := congrArg List.length heq
      simp only [List.flatten_nil, List.flatten_cons, List.length_append, List.length_nil]
        at hlength
      omega
  | cons g groups ih =>
    cases groups' with
    | nil =>
      have hpos := (h.bounds g List.mem_cons_self).1
      have hlength := congrArg List.length heq
      simp only [List.flatten_nil, List.flatten_cons, List.length_append, List.length_nil]
        at hlength
      omega
    | cons g' groups' =>
      rw [List.flatten_cons, List.flatten_cons] at heq
      -- the first group is settled by the rows, and then the others are
      have hhead : g = g' := by rw [h.head_eq, h'.head_eq, heq]
      subst hhead
      rw [ih h.tail h'.tail (List.append_cancel_left heq)]

theorem map_length_eq {α β : Type} {R : α → β → Prop} {groups : List (List α)}
    {groups' : List (List β)} (h : List.Forall₂ (List.Forall₂ R) groups groups') :
    groups.map List.length = groups'.map List.length := by
  induction h with
  | nil => rfl
  | cons hg _ ih => rw [List.map_cons, List.map_cons, hg.length_eq, ih]

/-- How rows are grouped is a matter of lengths. -/
theorem Grouped.of_forall₂ {α β : Type} {R : α → β → Prop} {k : Nat} {groups : List (List α)}
    {groups' : List (List β)} (h : Grouped k groups)
    (hR : List.Forall₂ (List.Forall₂ R) groups groups') : Grouped k groups' where
  full g' hg' := by
    have hmem := List.mem_map_of_mem (f := List.length) hg'
    rw [List.map_dropLast, ← map_length_eq hR, ← List.map_dropLast] at hmem
    obtain ⟨g, hg, hlength⟩ := List.mem_map.mp hmem
    rw [← hlength, h.full g hg]
  bounds g' hg' := by
    have hmem := List.mem_map_of_mem (f := List.length) hg'
    rw [← map_length_eq hR] at hmem
    obtain ⟨g, hg, hlength⟩ := List.mem_map.mp hmem
    rw [← hlength]
    exact h.bounds g hg

/-! ## Cursor and store -/

namespace WriteCursor

/-- The cursors differ in their open batches at most. -/
structure Alike (c c' : WriteCursor) : Prop where
  schema_eq : c'.schema = c.schema
  chunkSize_eq : c'.chunkSize = c.chunkSize
  closed_eq : c'.closed = c.closed

theorem Alike.refl (c : WriteCursor) : c.Alike c := ⟨rfl, rfl, rfl⟩

theorem Alike.trans {c₁ c₂ c₃ : WriteCursor} (h : c₁.Alike c₂) (h' : c₂.Alike c₃) : c₁.Alike c₃ :=
  ⟨h'.schema_eq.trans h.schema_eq, h'.chunkSize_eq.trans h.chunkSize_eq,
    h'.closed_eq.trans h.closed_eq⟩

theorem alike_emptied (c : WriteCursor) : c.Alike c.emptied := ⟨rfl, rfl, rfl⟩

theorem Alike.withRows {c c' : WriteCursor} (h : c.Alike c') (rows : List (List Chunk)) :
    c.Alike (c'.withRows rows) :=
  ⟨h.schema_eq, h.chunkSize_eq, h.closed_eq⟩

theorem Alike.storable_iff {c c' : WriteCursor} (h : c.Alike c') : c'.Storable ↔ c.Storable := by
  rw [Storable, Storable, h.schema_eq, h.chunkSize_eq]

end WriteCursor

namespace WriteState

/-- The rows that were written to the store `base`: full batches of them are in the store, and the
last ones are not yet. -/
structure Stores (base : MemoryStore) (t : WriteState) (rows last : List (List Chunk)) : Prop where
  specs_eq : base.specs = t.cursor.schema.specs
  base_open : base.closed = false
  store_eq : t.store = { base with batches := t.store.batches }
  chunkSize_pos : 0 < t.cursor.chunkSize
  shapes : ∀ row ∈ rows, t.cursor.schema.Shapes 1 row
  stored : ∃ full : List (List (List Chunk)), (∀ g ∈ full, g.length = t.cursor.chunkSize) ∧
    t.store.batches.toList =
      base.batches.toList ++ full.map (Batch.ofRows t.cursor.schema.specs) ∧
    full.flatten ++ last = rows

/-- The rows that a cursor has written to the store `base`: the last of them are in its open
batch. -/
def Lists (base : MemoryStore) (t : WriteState) (rows : List (List Chunk)) : Prop :=
  ∃ last, t.Stores base rows last ∧ t.cursor.Buffers last

variable {base : MemoryStore} {t : WriteState} {rows last : List (List Chunk)} {row : List Chunk}

theorem lists_nil {schema : Schema} {k : Nat} (hk : 0 < k) (hspecs : base.specs = schema.specs)
    (hopen : base.closed = false) : Lists base ⟨⟨schema, k, none, 0, false⟩, base⟩ [] :=
  ⟨[], ⟨hspecs, hopen, rfl, hk, nofun, [], nofun, (List.append_nil _).symm, rfl⟩,
    WriteCursor.buffers_emptied ⟨schema, k, none, 0, false⟩⟩

theorem Stores.last_shapes (h : t.Stores base rows last) :
    ∀ row ∈ last, t.cursor.schema.Shapes 1 row := by
  obtain ⟨full, -, -, hrows⟩ := h.stored
  exact fun row hrow => h.shapes row (hrows ▸ List.mem_append_right _ hrow)

theorem Stores.concat (h : t.Stores base rows last) (hrow : t.cursor.schema.Shapes 1 row) :
    t.Stores base (rows ++ [row]) (last ++ [row]) where
  specs_eq := h.specs_eq
  base_open := h.base_open
  store_eq := h.store_eq
  chunkSize_pos := h.chunkSize_pos
  shapes := List.forall_mem_append.mpr ⟨h.shapes, List.forall_mem_singleton.mpr hrow⟩
  stored := by
    obtain ⟨full, hfull, hbatches, hrows⟩ := h.stored
    exact ⟨full, hfull, hbatches, by rw [← List.append_assoc, hrows]⟩

theorem Stores.withRows (h : t.Stores base rows last) (rows' : List (List Chunk)) :
    (t.withRows rows').Stores base rows last :=
  ⟨h.specs_eq, h.base_open, h.store_eq, h.chunkSize_pos, h.shapes, h.stored⟩

theorem Stores.lists_inRow (h : t.Stores base rows last) (hstorable : t.cursor.Storable)
    (hroom : t.cursor.Room last) (hrow : t.cursor.schema.Shapes 1 row) :
    (t.inRow last row).Lists base (rows ++ [row]) :=
  ⟨last ++ [row], (h.concat hrow).withRows _, hroom.buffers_concat hstorable hrow⟩

theorem Stores.lists_withRows (h : t.Stores base rows last) (hstorable : t.cursor.Storable)
    (hroom : t.cursor.Room last) : (t.withRows last).Lists base rows :=
  ⟨last, h.withRows _, hroom.buffers hstorable⟩

/-- The last row of the open batch is in progress. -/
theorem Lists.exists_inRow (h : t.Lists base rows) (hne : t.cursor.rowsInBatch ≠ 0) :
    ∃ (last : List (List Chunk)) (row : List Chunk) (rows₀ : List (List Chunk)),
      t = t.inRow last row ∧ rows = rows₀ ++ [row] ∧ t.Stores base rows₀ last ∧
      t.cursor.Room last ∧ t.cursor.schema.Shapes 1 row ∧ t.cursor.Storable := by
  obtain ⟨rows', hstores, hbuffers⟩ := h
  have hnil : rows' ≠ [] := by
    rintro rfl
    exact hne hbuffers.rowsInBatch_eq
  obtain ⟨last, row, rfl, hcursor, hstorable, hroom, hrow⟩ := hbuffers.exists_last hnil
  obtain ⟨full, hfull, hbatches, hrows⟩ := hstores.stored
  rw [← List.append_assoc] at hrows
  have hbefore := fun r hr => hstores.shapes r (hrows ▸ List.mem_append_left _ hr)
  exact ⟨last, row, full.flatten ++ last, congrArg (WriteState.mk · t.store) hcursor, hrows.symm,
    ⟨hstores.specs_eq, hstores.base_open, hstores.store_eq, hstores.chunkSize_pos, hbefore, full,
      hfull, hbatches, rfl⟩, hroom, hrow, hstorable⟩

end WriteState

namespace WriteCursor

variable {base : MemoryStore} {t : WriteState} {rows last : List (List Chunk)} {row : List Chunk}

/-- **Handing over an open batch with rows**: the store takes it. -/
theorem flush_stores (h : t.Stores base rows last) (hbuffers : t.cursor.Buffers last)
    (hne : last ≠ []) :
    flush t = (.ok (), ⟨t.cursor.emptied, { t.store with
      batches := t.store.batches.push (Batch.ofRows t.cursor.schema.specs last) }⟩) := by
  have hopen : t.store.closed = false := h.store_eq ▸ h.base_open
  have hspecs : t.store.specs = t.cursor.schema.specs := h.store_eq ▸ h.specs_eq
  have happend := MemoryStore.append_of_specs hopen
    ((Schema.shapes_ofRows h.last_shapes).specs_eq.trans hspecs.symm)
  rw [flush_buffers hbuffers, if_neg hne]
  simp only [MemoryStore.write, happend]

/-- **Handing over a full batch** loses no row. -/
theorem flush_lists (h : t.Stores base rows last) (hbuffers : t.cursor.Buffers last)
    (hfull : last.length = t.cursor.chunkSize) :
    ∃ t', flush t = (.ok (), t') ∧ t'.cursor = t.cursor.emptied ∧ t'.Stores base rows [] := by
  obtain ⟨full, hlengths, hbatches, hrows⟩ := h.stored
  have hne : last ≠ [] := by
    rintro rfl
    exact absurd hfull (Nat.ne_of_lt h.chunkSize_pos)
  refine ⟨_, flush_stores h hbuffers hne, rfl, h.specs_eq, h.base_open, ?_, h.chunkSize_pos,
    h.shapes, full ++ [last], ?_, ?_, ?_⟩
  · rw [h.store_eq]
  · exact List.forall_mem_append.mpr ⟨hlengths, List.forall_mem_singleton.mpr hfull⟩
  · simp only [AppendLog.toList_push, hbatches, List.map_append, List.map_singleton,
      List.append_assoc]
    rfl
  · simp [hrows]

/-- **Beginning a row** keeps the rows, also if it is aborted, and makes room for a new one. -/
theorem forward_lists (h : t.Lists base rows) (hopen : t.cursor.closed = false) :
    ∃ (t' : WriteState) (last : List (List Chunk)), t.cursor.Alike t'.cursor ∧
      t'.Stores base rows last ∧ t'.cursor.Buffers last ∧ t'.cursor.Room last ∧
      (t.cursor.Storable ∧
          forward t = (.ok (), t'.inRow last (t.cursor.schema.specs.map (·.fresh 1))) ∨
        ¬ t.cursor.Storable ∧ forward t = (Outcome.abort .capacity, t')) := by
  obtain ⟨last, hstores, hbuffers⟩ := h
  have hrows := hbuffers.rowsInBatch_eq
  obtain ⟨t', last', hrun, halike, hstores', hbuffers', hlt⟩ :
      ∃ (t' : WriteState) (last' : List (List Chunk)),
      (if t.cursor.rowsInBatch = t.cursor.chunkSize then flush else pure ()) t = (.ok (), t') ∧
      t.cursor.Alike t'.cursor ∧ t'.Stores base rows last' ∧ t'.cursor.Buffers last' ∧
      last'.length < t'.cursor.chunkSize := by
    by_cases hfull : t.cursor.rowsInBatch = t.cursor.chunkSize
    · obtain ⟨t', hflush, hcursor, hstores'⟩ :=
        flush_lists hstores hbuffers (hrows.symm.trans hfull)
      exact ⟨t', [], by rw [if_pos hfull, hflush], hcursor ▸ alike_emptied t.cursor, hstores',
        hcursor ▸ buffers_emptied t.cursor, hstores'.chunkSize_pos⟩
    · refine ⟨t, last, by rw [if_neg hfull]; rfl, .refl _, hstores, hbuffers, ?_⟩
      exact Nat.lt_of_le_of_ne hbuffers.length_le (hrows ▸ hfull)
  refine ⟨t', last', halike, hstores', hbuffers', ⟨hbuffers'.shapes, hlt⟩, ?_⟩
  rw [forward_apply hopen, Action.bind_ok hrun, ← halike.storable_iff, ← halike.schema_eq]
  exact beginRow_buffers hbuffers' hlt

/-- **Closing a cursor** leaves its rows in batches, which are full but for the last. -/
theorem close_lists (h : t.Lists base rows) (hopen : t.cursor.closed = false) :
    ∃ (t' : WriteState) (groups : List (List (List Chunk))), close t = (.ok (), t') ∧
      t'.cursor = { t.cursor.emptied with closed := true } ∧
      t'.store = { base with batches := t'.store.batches } ∧
      t'.store.batches.toList =
        base.batches.toList ++ groups.map (Batch.ofRows t.cursor.schema.specs) ∧
      groups.flatten = rows ∧ Grouped t.cursor.chunkSize groups := by
  obtain ⟨last, hstores, hbuffers⟩ := h
  obtain ⟨full, hlengths, hbatches, hrows⟩ := hstores.stored
  have hclose : close t = flush ⟨{ t.cursor with closed := true }, t.store⟩ := by
    simp only [close, Action.bind_apply, Action.get_apply, hopen, Bool.false_eq_true, if_false,
      Action.set_apply]
  have hbuffers' : Buffers { t.cursor with closed := true } last := by
    refine ⟨hbuffers.shapes, hbuffers.length_le, hbuffers.stands.imp ?_ ?_⟩
    · exact fun ⟨hnil, hc⟩ => ⟨hnil, congrArg (fun c => { c with closed := true }) hc⟩
    · exact fun ⟨hs, hc⟩ => ⟨hs, congrArg (fun c => { c with closed := true }) hc⟩
  -- an open batch without rows is not handed over
  by_cases hnil : last = []
  · refine ⟨_, full, hclose.trans ((flush_buffers hbuffers').trans (if_pos hnil)), rfl,
      hstores.store_eq, hbatches, ?_, fun g hg => ?_, fun g hg => ?_⟩
    · rw [← hrows, hnil, List.append_nil]
    · exact hlengths g (List.dropLast_sublist full |>.subset hg)
    · have := hlengths g hg
      have := hstores.chunkSize_pos
      omega
  · have hclosed : WriteState.Stores base ⟨{ t.cursor with closed := true }, t.store⟩ rows last :=
      ⟨hstores.specs_eq, hstores.base_open, hstores.store_eq, hstores.chunkSize_pos,
        hstores.shapes, hstores.stored⟩
    refine ⟨_, full ++ [last], hclose.trans (flush_stores hclosed hbuffers' hnil), rfl, ?_, ?_, ?_,
      grouped_append hlengths ⟨List.length_pos_of_ne_nil hnil, hbuffers.length_le⟩⟩
    · rw [hstores.store_eq]
    · simp only [AppendLog.toList_push, hbatches, List.map_append, List.map_singleton,
        List.append_assoc]
    · simp [hrows]

/-! ## The row in progress -/

theorem dropRow_inRow (hroom : t.cursor.Room last) (hrow : t.cursor.schema.Shapes 1 row) :
    dropRow (t.inRow last row) = (.ok (), t.withRows last) := by
  have hdrop := beforeRow_withRows hroom hrow
  simp only [dropRow, Action.bind_apply, Action.get_apply, WriteState.inRow, WriteState.withRows,
    Action.liftM_apply, hdrop, Action.set_apply]

/-- Writing to a slot of the row in progress changes its chunk, and the tags. -/
theorem atSlot_inRow (hroom : t.cursor.Room last) {j : Nat} {column : PhysicalColumn} {d : Chunk}
    (hs : t.cursor.schema[j]? = some column) (hr : row[j]? = some d)
    (hshape : d.spec = column.spec ∧ d.Uniform 1)
    {m : PhysicalColumn → Nat → Action WriteTarget Unit}
    (hm : PhysicalColumn.Slotwise column.spec (m column)) (tags : ClassTags) :
    atSlot j m (t.inRow last row, tags) = ((m column 0 ⟨d, tags⟩).1,
      (t.inRow last (row.set j (m column 0 ⟨d, tags⟩).2.chunk), (m column 0 ⟨d, tags⟩).2.tags)) := by
  obtain ⟨v, c', hget, rfl, hrun, hset⟩ := write_withRows hroom hs hr hshape.1 hshape.2 hm tags
  simp only [atSlot, Action.bind_apply, Action.get_apply, WriteState.inRow, WriteState.withRows,
    hget, Action.liftM_apply, Action.on_apply, hrun, hset]

theorem atSlot_outside {j : Nat} (hs : t.cursor.schema[j]? = none) (last : List (List Chunk))
    (row : List Chunk) (m : PhysicalColumn → Nat → Action WriteTarget Unit) (tags : ClassTags) :
    atSlot j m (t.inRow last row, tags) =
      (Outcome.fail (.invalidColumn j), (t.inRow last row, tags)) := by
  have hget : (t.inRow last row).cursor.get j = Outcome.fail (.invalidColumn j) := by
    rw [WriteState.inRow, WriteState.withRows, get_withRows, hs]
  simp only [atSlot, Action.bind_apply, Action.get_apply, hget, Action.liftM_apply]
  rfl

/-- Writing a plain value is writing to a slot and leaving the tags alone. -/
theorem on_write (j : Nat) (f : Chunk → Nat → Outcome Chunk) (t : WriteState) (tags : ClassTags) :
    (write j f).on Prod.fst (fun t (_, tags) => (t, tags)) (t, tags) =
      atSlot j (fun _ i => PhysicalColumn.changeChunk (f · i)) (t, tags) := by
  simp only [write, atSlot, PhysicalColumn.changeChunk, Action.on_apply, Action.bind_apply,
    Action.get_apply, Action.liftM_apply]
  cases hget : t.cursor.get j with
  | error e => rfl
  | ok v =>
    cases hf : f v.chunk v.index with
    | ok d => simp only [hf]; rfl
    | error e =>
      -- what is refused leaves the chunk, which is put back where it is
      have hsame : t.cursor.setChunk j v.chunk = t.cursor := setChunk_get hget
      simp only [hf, hsame]

theorem writeCell_fresh (hroom : t.cursor.Room last) {j : Nat} {column : PhysicalColumn}
    (hs : t.cursor.schema[j]? = some column) (hr : row[j]? = some (column.spec.fresh 1))
    (tags : ClassTags) (cell : Cell) :
    writeCell j cell (t.inRow last row, tags) =
      ((column.writeCell 0 cell ⟨column.spec.fresh 1, tags⟩).1,
        (t.inRow last (row.set j (column.writeCell 0 cell ⟨column.spec.fresh 1, tags⟩).2.chunk),
          (column.writeCell 0 cell ⟨column.spec.fresh 1, tags⟩).2.tags)) :=
  atSlot_inRow hroom hs hr ⟨column.spec.spec_fresh 1, column.spec.uniform_fresh 1⟩
    (column.slotwise_writeCell cell) tags

theorem write_key (hs : t.cursor.schema[0]? = some .rowKey) (last : List (List Chunk))
    (row : List Chunk) (tags : ClassTags) (key : String) :
    (write 0 fun c i => c.setText i key).on Prod.fst (fun t (_, tags) => (t, tags))
      (t.inRow last row, tags) = writeCell 0 (.string key) (t.inRow last row, tags) := by
  have hget := get_withRows t.cursor last row 0
  rw [hs] at hget
  rw [on_write 0 fun c i => c.setText i key]
  simp only [writeCell, atSlot, Action.bind_apply, Action.get_apply, WriteState.inRow,
    WriteState.withRows, hget, Action.liftM_apply, PhysicalColumn.writeCell]

end WriteCursor

end Columnar
