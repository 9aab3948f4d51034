import Columnar.Proofs.Chunk.Values
import Columnar.Proofs.Cursor.Write

/-!
# Write cursors as growing lists

**Steps** (`WriteStep`). Rows begin, are written slot by slot, and may be dropped again while they
are the current one. What a step does to a list of rows is `WriteStep.apply`.

**Slots** (`PhysicalColumn.Shows`). A slot shows what was written to it last, in the way in which it
was written: values as values, texts as texts, cells as cells. If nothing was written it is missing,
and so is its supplement.

**The rows of a cursor** (`Writes`). They are in the batches of its store and in the chunks of its
open batch. Each step changes them as it changes the list (`Writes.forward`, `Writes.write`,
`Writes.rollback`), and hence so does a run of steps (`Writes.runSteps`).

Main result: `steps_fill_batches`, the batches have the rows of the list when the cursor is closed.
-/

namespace Columnar

/-- What is written to a slot. -/
inductive SlotWrite
  | missing
  | value (k : Kind) (v : k.Value)
  | bytes (v : Bytes)
  | text (v : String)
  | cell (c : Cell)

/-- What is done with a write cursor before it is closed. -/
inductive WriteStep
  | forward
  | write (column : Nat) (w : SlotWrite)
  | rollback

/-- What was written last to every slot of some rows, none if nothing was. -/
abbrev WrittenRows := List (List (Option SlotWrite))

namespace WriteCursor

/-- Run an action of the cursor next to the class tags. -/
def besideTags (m : Action WriteState Unit) : Action (WriteState × ClassTags) Unit :=
  m.on Prod.fst fun t (_, tags) => (t, tags)

/-- Write to a slot of the current row. -/
def writeSlot (column : Nat) : SlotWrite → Action (WriteState × ClassTags) Unit
  | .missing => besideTags (write column fun c i => c.setMissing i)
  | .value k v => besideTags (write column fun c i => c.set k i v)
  | .bytes v => besideTags (write column fun c i => c.setBytes i v)
  | .text v => besideTags (write column fun c i => c.setText i v)
  | .cell c => writeCell column c

def runStep : WriteStep → Action (WriteState × ClassTags) Unit
  | .forward => besideTags forward
  | .write column w => writeSlot column w
  | .rollback => besideTags dropRow

/-- Run steps up to the first that fails. -/
def runSteps : List WriteStep → Action (WriteState × ClassTags) Unit
  | [] => return ()
  | step :: steps => do
    runStep step
    runSteps steps

end WriteCursor

namespace WriteStep

/-- What a step does to rows of a width, of which the newest is the first. -/
def apply (width : Nat) (rows : WrittenRows) : WriteStep → WrittenRows
  | forward => List.replicate width none :: rows
  | write column w => rows.modifyHead (·.set column (some w))
  | rollback => rows.tail

/-- The rows after some steps, in order. -/
def rowsOf (width : Nat) (steps : List WriteStep) : WrittenRows :=
  (steps.foldl (apply width) []).reverse

/-- Only rows that have begun are dropped: there is at most one rollback after each forward. -/
def RollbacksFit : (begun : Bool) → List WriteStep → Prop
  | _, [] => True
  | _, forward :: steps => RollbacksFit true steps
  | begun, write _ _ :: steps => RollbacksFit begun steps
  | begun, rollback :: steps => begun = true ∧ RollbacksFit false steps

end WriteStep

/-! ## Slots -/

namespace PhysicalColumn

/-- Slot `i` shows what was written to it last. A cell is read as the column gives it back, which is
the cell itself if it is kept. -/
def Shows (column : PhysicalColumn) (tags : ClassTags) (i : Nat) (c : Chunk) :
    Option SlotWrite → Prop
  | none => c.isMissing i = .ok true ∧ ∀ s, c.supplement = .ok s → s.isMissing i = .ok true
  | some .missing => c.isMissing i = .ok true
  | some (.value k v) => c.isMissing i = .ok false ∧ c.get k i = .ok v
  | some (.bytes v) => c.isMissing i = .ok false ∧ c.getBytes i = .ok v
  | some (.text v) => c.isMissing i = .ok false ∧ c.getText i = .ok v
  | some (.cell cell) =>
    column.readCell tags c i = column.recovered tags.serializers cell ∧
      (column.Keeps cell → column.recovered tags.serializers cell = .ok cell)

/-- The slot of a chunk shows this wherever it is put and whatever tags are handed out. -/
def ShowsAlways (column : PhysicalColumn) (tags : ClassTags) (d : Chunk) (w : Option SlotWrite) :
    Prop :=
  ∀ {i : Nat} {c : Chunk} {tags' : ClassTags}, c.SameSlot i 0 d → tags.Extends tags' →
    column.Shows tags' i c w

theorem ShowsAlways.mono {column : PhysicalColumn} {tags tags' : ClassTags} {d : Chunk}
    {w : Option SlotWrite} (h : column.ShowsAlways tags d w) (hext : tags.Extends tags') :
    column.ShowsAlways tags' d w :=
  fun hs hext' => h hs (hext.trans hext')

/-- A new slot shows that nothing was written. -/
theorem showsAlways_fresh (column : PhysicalColumn) (tags : ClassTags) :
    column.ShowsAlways tags (column.spec.fresh 1) none := by
  intro i c tags' hs _
  have hfresh : ∀ {α : Type} (default : α),
      (Slots.fresh default 1).slots[0]? = some ⟨default, true⟩ := fun _ => rfl
  cases column with
  | rowKey =>
    cases hs with
    | plain h => exact ⟨Slots.isMissing_of_getElem? (h.trans (hfresh _)), nofun⟩
  | data p =>
    cases hs with
    | paired hs ht =>
      cases hs with
      | plain h =>
        refine ⟨Slots.isMissing_of_getElem? (h.trans (hfresh _)), fun s hsupplement => ?_⟩
        cases hsupplement
        exact Slots.isMissing_of_getElem? (ht.trans (hfresh _))

end PhysicalColumn

/-! ## Writing to a slot -/

/-- What is written, as an action on the slot. -/
def SlotWrite.run (column : PhysicalColumn) (i : Nat) : SlotWrite → Action WriteTarget Unit
  | missing => PhysicalColumn.changeChunk (·.setMissing i)
  | value k v => PhysicalColumn.changeChunk (·.set k i v)
  | bytes v => PhysicalColumn.changeChunk (·.setBytes i v)
  | text v => PhysicalColumn.changeChunk (·.setText i v)
  | cell c => column.writeCell i c

theorem SlotWrite.slotwise_run (column : PhysicalColumn) (w : SlotWrite) :
    PhysicalColumn.Slotwise column.spec fun i => w.run column i := by
  cases w with
  | missing => exact PhysicalColumn.slotwise_changeChunk (ChunkSpec.slotwise_setMissing _)
  | value k v => exact PhysicalColumn.slotwise_changeChunk (ChunkSpec.slotwise_set _ k v)
  | bytes v => exact PhysicalColumn.slotwise_changeChunk (ChunkSpec.slotwise_setBytes _ v)
  | text v => exact PhysicalColumn.slotwise_changeChunk (ChunkSpec.slotwise_setText _ v)
  | cell c => exact PhysicalColumn.slotwise_writeCell column c

/-- What writing to a slot of a row comes to: a refusal, or another chunk that shows what was
written. -/
inductive PhysicalColumn.WritesSlot (column : PhysicalColumn) (tags : ClassTags) (w : SlotWrite) :
    Outcome Unit × WriteTarget → Prop
  | refused (e : Error) (t : WriteTarget) : WritesSlot column tags w (Outcome.fail e, t)
  | written {d : Chunk} {tags' : ClassTags} (hspec : d.spec = column.spec) (huni : d.Uniform 1)
    (htags : tags'.Valid) (hext : tags.Extends tags')
    (hshows : column.ShowsAlways tags' d (some w)) :
    WritesSlot column tags w (.ok (), ⟨d, tags'⟩)

namespace PhysicalColumn

variable {column : PhysicalColumn} {d : Chunk} {tags : ClassTags}

theorem writesSlot_of_changes {f : Chunk → Outcome Chunk} {P : Chunk → Prop} {w : SlotWrite}
    (hspec : d.spec = column.spec) (htags : tags.Valid) (hchange : d.Changes 1 P (f d))
    (hshows : ∀ d', P d' → column.ShowsAlways tags d' (some w)) :
    column.WritesSlot tags w (changeChunk f ⟨d, tags⟩) := by
  simp only [changeChunk, Action.bind_apply, Action.get_apply, Action.liftM_apply]
  generalize f d = o at hchange
  cases hchange with
  | refused e => exact .refused e _
  | changed hspec' huni hP =>
    exact .written (hspec'.trans hspec) huni htags (.refl _) (hshows _ hP)

/-- **Writing to a slot** is refused, or the slot shows what was written. -/
theorem writesSlot_run (hspec : d.spec = column.spec) (huni : d.Uniform 1) (htags : tags.Valid)
    (w : SlotWrite) : column.WritesSlot tags w (w.run column 0 ⟨d, tags⟩) := by
  cases w with
  | missing =>
    refine writesSlot_of_changes (f := (·.setMissing 0)) hspec htags
      (Chunk.setMissing_changes huni Nat.one_pos) ?_
    exact fun d' h i c tags' hsame _ => hsame.isMissing_eq.trans h
  | value k v =>
    refine writesSlot_of_changes (f := (·.set k 0 v)) hspec htags
      (Chunk.set_changes huni Nat.one_pos k v) ?_
    exact fun d' h i c tags' hsame _ =>
      ⟨hsame.isMissing_eq.trans h.1, (hsame.get_eq k).trans h.2⟩
  | bytes v =>
    refine writesSlot_of_changes (f := (·.setBytes 0 v)) hspec htags
      (Chunk.setBytes_changes huni Nat.one_pos v) ?_
    exact fun d' h i c tags' hsame _ =>
      ⟨hsame.isMissing_eq.trans h.1, hsame.getBytes_eq.trans h.2⟩
  | text v =>
    refine writesSlot_of_changes (f := (·.setText 0 v)) hspec htags
      (Chunk.setBytes_changes huni Nat.one_pos (Utf8.encode v)) ?_
    exact fun d' h i c tags' hsame _ =>
      ⟨hsame.isMissing_eq.trans h.1, Chunk.getText_of_getBytes (hsame.getBytes_eq.trans h.2)⟩
  | cell cell =>
    -- a cell may hand out a tag, and later tags leave it as it is
    have hwrote := writeCell_wrote (t := ⟨d, tags⟩) ⟨hspec, huni, htags⟩ Nat.one_pos cell
    rw [SlotWrite.run]
    generalize column.writeCell 0 cell ⟨d, tags⟩ = r at hwrote
    obtain ⟨o, d', tags'⟩ := r
    cases o with
    | ok u =>
      obtain ⟨hholds, hkept⟩ := hwrote.holds rfl
      refine .written hwrote.valid.spec_eq hwrote.valid.uniform hwrote.valid.tags_valid
        hwrote.tags_extends fun {i c tags''} hsame hext => ?_
      rw [Shows, hext.serializers_eq]
      exact ⟨((hholds.of_sameSlot hsame).mono hext).readCell, hkept⟩
    | error e =>
      cases e with
      | abort a => exact hwrote.returns.elim
      | error e => exact .refused e _

end PhysicalColumn

namespace WriteCursor

variable {t : WriteState} {last : List (List Chunk)} {row : List Chunk} {j : Nat}
  {column : PhysicalColumn} {d : Chunk}

theorem writeSlot_eq (j : Nat) (w : SlotWrite) (p : WriteState × ClassTags) :
    writeSlot j w p = atSlot j (fun access i => w.run access i) p := by
  cases w with
  | cell c => rfl
  | missing => exact on_write j (fun c i => c.setMissing i) p.1 p.2
  | value k v => exact on_write j (fun c i => c.set k i v) p.1 p.2
  | bytes v => exact on_write j (fun c i => c.setBytes i v) p.1 p.2
  | text v => exact on_write j (fun c i => c.setText i v) p.1 p.2

theorem writeSlot_inRow (hroom : t.cursor.Room last) (hs : t.cursor.schema[j]? = some column)
    (hr : row[j]? = some d) (hshape : d.spec = column.spec ∧ d.Uniform 1) (tags : ClassTags)
    (w : SlotWrite) : writeSlot j w (t.inRow last row, tags) = ((w.run column 0 ⟨d, tags⟩).1,
      (t.inRow last (row.set j (w.run column 0 ⟨d, tags⟩).2.chunk),
        (w.run column 0 ⟨d, tags⟩).2.tags)) := by
  rw [writeSlot_eq]
  exact atSlot_inRow hroom hs hr hshape (w.slotwise_run column) tags

theorem writeSlot_outside (hs : t.cursor.schema[j]? = none) (last : List (List Chunk))
    (row : List Chunk) (tags : ClassTags) (w : SlotWrite) :
    writeSlot j w (t.inRow last row, tags) =
      (Outcome.fail (.invalidColumn j), (t.inRow last row, tags)) := by
  rw [writeSlot_eq]
  exact atSlot_outside hs last row _ tags

/-- There is nothing to write where no column can be had. -/
theorem writeSlot_of_get {e : Failure} (h : t.cursor.get j = .error e) (tags : ClassTags)
    (w : SlotWrite) : writeSlot j w (t, tags) = (.error e, (t, tags)) := by
  rw [writeSlot_eq]
  simp only [atSlot, Action.bind_apply, Action.get_apply, h, Action.liftM_apply]

end WriteCursor

/-! ## Rows -/

/-- The chunks of a row show what was written to it, in any batch and with any more tags. -/
structure Schema.ShowsRow (schema : Schema) (tags : ClassTags) (row : List Chunk)
    (writes : List (Option SlotWrite)) : Prop where
  shapes : schema.Shapes 1 row
  length_eq : writes.length = schema.length
  shows : ∀ {j : Nat} {column : PhysicalColumn} {d : Chunk} {w : Option SlotWrite},
    schema[j]? = some column → row[j]? = some d → writes[j]? = some w →
    column.ShowsAlways tags d w

/-- The batch has the columns of the schema, and its rows show what was written to them. -/
structure Batch.ShowsRows (schema : Schema) (tags : ClassTags) (b : Batch) (rows : WrittenRows) :
    Prop where
  rowCount_eq : b.rowCount = rows.length
  shapes : schema.Shapes b.rowCount b.chunks
  shows : ∀ {i : Nat} {writes : List (Option SlotWrite)}, rows[i]? = some writes →
    writes.length = schema.length ∧
      ∀ {j : Nat} {column : PhysicalColumn} {c : Chunk} {w : Option SlotWrite},
        schema[j]? = some column → b.chunks[j]? = some c → writes[j]? = some w →
        column.Shows tags i c w

namespace Schema

variable {schema : Schema} {tags tags' : ClassTags} {row : List Chunk}
  {writes : List (Option SlotWrite)}

theorem ShowsRow.mono (h : schema.ShowsRow tags row writes) (hext : tags.Extends tags') :
    schema.ShowsRow tags' row writes :=
  ⟨h.shapes, h.length_eq, fun hj hd hw =>
    PhysicalColumn.ShowsAlways.mono (h.shows hj hd hw) hext⟩

theorem showsRow_fresh (schema : Schema) (tags : ClassTags) :
    schema.ShowsRow tags (schema.specs.map (·.fresh 1)) (List.replicate schema.length none) where
  shapes := shapes_fresh schema 1
  length_eq := List.length_replicate
  shows {j column d w} hj hd hw := by
    rw [getElem?_fresh, hj] at hd
    rw [List.getElem?_replicate] at hw
    split at hw <;> cases hw
    cases hd
    exact column.showsAlways_fresh tags

theorem ShowsRow.set (h : schema.ShowsRow tags row writes) (hext : tags.Extends tags') {j : Nat}
    {column : PhysicalColumn} {d : Chunk} {w : SlotWrite} (hj : schema[j]? = some column)
    (hspec : d.spec = column.spec) (huni : d.Uniform 1)
    (hd : column.ShowsAlways tags' d (some w)) :
    schema.ShowsRow tags' (row.set j d) (writes.set j (some w)) where
  shapes := h.shapes.set hj hspec huni
  length_eq := by rw [List.length_set, h.length_eq]
  shows {k column' d' w'} hk hd' hw' := by
    by_cases hjk : j = k
    · subst hjk
      rw [List.getElem?_set_self'] at hd' hw'
      obtain ⟨-, -, rfl⟩ := Option.map_eq_some_iff.mp hd'
      obtain ⟨-, -, rfl⟩ := Option.map_eq_some_iff.mp hw'
      rw [hj] at hk
      cases hk
      exact hd
    · rw [List.getElem?_set_ne hjk] at hd' hw'
      exact PhysicalColumn.ShowsAlways.mono (h.shows hk hd' hw') hext

/-- **A batch of rows shows what they show.** -/
theorem showsRows_ofRows {rows : List (List Chunk)} {written : WrittenRows}
    (h : List.Forall₂ (schema.ShowsRow tags) rows written) :
    (Batch.ofRows schema.specs rows).ShowsRows schema tags written := by
  have hshapes : ∀ row ∈ rows, schema.Shapes 1 row := by
    intro row hrow
    obtain ⟨writes, -, hwrites⟩ := (exists_of_mem_forall₂ h).1 row hrow
    exact hwrites.shapes
  refine ⟨h.length_eq, shapes_ofRows hshapes, fun {i writes} hi => ?_⟩
  obtain ⟨hlt', rfl⟩ := List.getElem?_eq_some_iff.mp hi
  have hlt : i < rows.length := h.length_eq ▸ hlt'
  have hrow : schema.ShowsRow tags rows[i] written[i] := h.get hlt hlt'
  refine ⟨hrow.length_eq, fun {j column c w} hj hc hw => ?_⟩
  obtain ⟨d, hd, hsame⟩ := sameSlot_ofRows hshapes (List.getElem?_eq_getElem hlt) hj hc
  exact hrow.shows hj hd hw hsame (.refl _)

end Schema

/-! ## Runs -/

namespace WriteCursor

/-- The cursor has written the rows, of which the newest is the first. If a row has begun it is the
one in progress. -/
structure Writes (base : MemoryStore) (schema : Schema) (chunkSize : Nat) (begun : Bool)
    (rows : WrittenRows) (p : WriteState × ClassTags) : Prop where
  schema_eq : p.1.cursor.schema = schema
  chunkSize_eq : p.1.cursor.chunkSize = chunkSize
  is_open : p.1.cursor.closed = false
  storable : p.1.cursor.Storable
  tags_valid : p.2.Valid
  on_row : begun = true → p.1.cursor.rowsInBatch ≠ 0
  lists : ∃ chunkRows, p.1.Lists base chunkRows ∧
    List.Forall₂ (schema.ShowsRow p.2) chunkRows.reverse rows

variable {base : MemoryStore} {schema : Schema} {chunkSize : Nat} {begun : Bool}
  {rows : WrittenRows} {p : WriteState × ClassTags}

theorem Writes.step (h : Writes base schema chunkSize begun rows p) {t : WriteState}
    {tags : ClassTags} {begun' : Bool} {rows' : WrittenRows} {chunkRows : List (List Chunk)}
    (halike : p.1.cursor.Alike t.cursor) (htags : tags.Valid)
    (hrow : begun' = true → t.cursor.rowsInBatch ≠ 0) (hlists : t.Lists base chunkRows)
    (hshows : List.Forall₂ (schema.ShowsRow tags) chunkRows.reverse rows') :
    Writes base schema chunkSize begun' rows' (t, tags) where
  schema_eq := halike.schema_eq.trans h.schema_eq
  chunkSize_eq := halike.chunkSize_eq.trans h.chunkSize_eq
  is_open := halike.closed_eq.trans h.is_open
  storable := halike.storable_iff.mpr h.storable
  tags_valid := htags
  on_row := hrow
  lists := ⟨chunkRows, hlists, hshows⟩

theorem rowsInBatch_inRow (t : WriteState) (last : List (List Chunk)) (row : List Chunk) :
    (t.inRow last row).cursor.rowsInBatch ≠ 0 := by
  simp [WriteState.inRow, WriteState.withRows, withRows]

/-- The row in progress, and the rows before it. -/
theorem Writes.exists_inRow (h : Writes base schema chunkSize begun rows p)
    (hne : p.1.cursor.rowsInBatch ≠ 0) :
    ∃ (last : List (List Chunk)) (row : List Chunk) (chunkRows : List (List Chunk))
      (writes : List (Option SlotWrite)) (rest : WrittenRows),
      p.1 = p.1.inRow last row ∧ rows = writes :: rest ∧ p.1.Stores base chunkRows last ∧
      p.1.cursor.Room last ∧ schema.ShowsRow p.2 row writes ∧
      List.Forall₂ (schema.ShowsRow p.2) chunkRows.reverse rest := by
  obtain ⟨chunkRows', hlists, hshows⟩ := h.lists
  obtain ⟨last, row, chunkRows, ht, rfl, hstores, hroom, -, -⟩ := hlists.exists_inRow hne
  rw [List.reverse_concat] at hshows
  cases hshows with
  | cons hrow hrest => exact ⟨last, row, chunkRows, _, _, ht, rfl, hstores, hroom, hrow, hrest⟩

/-- **A row begins.** -/
theorem Writes.forward (h : Writes base schema chunkSize begun rows p) :
    ∃ p', runStep .forward p = (.ok (), p') ∧
      Writes base schema chunkSize true (WriteStep.apply schema.length rows .forward) p' := by
  obtain ⟨chunkRows, hlists, hshows⟩ := h.lists
  obtain ⟨t, last, halike, hstores, -, hroom, ⟨-, hforward⟩ | ⟨habort, -⟩⟩ :=
    forward_lists hlists h.is_open
  · have hschema : t.cursor.schema = schema := halike.schema_eq.trans h.schema_eq
    rw [h.schema_eq] at hforward
    refine ⟨(t.inRow last (schema.specs.map (·.fresh 1)), p.2), ?_, h.step (halike.withRows _)
      h.tags_valid (fun _ => rowsInBatch_inRow t last _)
      (hstores.lists_inRow (halike.storable_iff.mpr h.storable) hroom
        (hschema ▸ Schema.shapes_fresh schema 1)) ?_⟩
    · rw [runStep, besideTags, Action.on_apply, hforward]
    · rw [List.reverse_concat]
      exact .cons (Schema.showsRow_fresh schema p.2) hshows
  · exact absurd h.storable habort

/-- **The row in progress is dropped.** -/
theorem Writes.rollback (h : Writes base schema chunkSize true rows p) :
    ∃ p', runStep .rollback p = (.ok (), p') ∧
      Writes base schema chunkSize false (WriteStep.apply schema.length rows .rollback) p' := by
  obtain ⟨last, row, chunkRows, writes, rest, ht, rfl, hstores, hroom, hrow, hrest⟩ :=
    h.exists_inRow (h.on_row rfl)
  have hshapes : p.1.cursor.schema.Shapes 1 row := h.schema_eq ▸ hrow.shapes
  have hdrop := dropRow_inRow hroom hshapes
  rw [← ht] at hdrop
  refine ⟨(p.1.withRows last, p.2), ?_, h.step (.withRows (.refl _) _) h.tags_valid nofun
    (hstores.lists_withRows h.storable hroom) hrest⟩
  rw [runStep, besideTags, Action.on_apply, hdrop]

/-- **A slot of the row in progress is written**, unless it is refused. -/
theorem Writes.write (h : Writes base schema chunkSize begun rows p) (j : Nat) (w : SlotWrite) :
    (∃ e p', runStep (.write j w) p = (Outcome.fail e, p')) ∨
      ∃ p', runStep (.write j w) p = (.ok (), p') ∧ Writes base schema chunkSize begun
        (WriteStep.apply schema.length rows (.write j w)) p' := by
  -- without a row in progress every write is refused
  by_cases hne : p.1.cursor.rowsInBatch = 0
  · obtain ⟨chunkRows, ⟨last, -, hbuffers⟩, -⟩ := h.lists
    obtain rfl : last = [] :=
      List.eq_nil_of_length_eq_zero (hbuffers.rowsInBatch_eq.symm.trans hne)
    exact .inl ⟨_, _, writeSlot_of_get (get_nil hbuffers j) p.2 w⟩
  · obtain ⟨last, row, chunkRows, writes, rest, ht, rfl, hstores, hroom, hrow, hrest⟩ :=
      h.exists_inRow hne
    have hp : p = (p.1.inRow last row, p.2) := congrArg (·, p.2) ht
    cases hj : schema[j]? with
    | none =>
      have hrun := writeSlot_outside (h.schema_eq ▸ hj) last row p.2 w
      rw [← hp] at hrun
      exact .inl ⟨_, _, hrun⟩
    | some column =>
      obtain ⟨d, hd, hshape⟩ := hrow.shapes.exists_chunk hj
      have hrun := writeSlot_inRow hroom (h.schema_eq ▸ hj) hd hshape p.2 w
      have hwrites := PhysicalColumn.writesSlot_run hshape.1 hshape.2 h.tags_valid w
      rw [← hp] at hrun
      generalize w.run column 0 ⟨d, p.2⟩ = r at hrun hwrites
      cases hwrites with
      | refused e t => exact .inl ⟨e, _, hrun⟩
      | @written d' tags' hspec huni htags hext hshows =>
        have hset := hrow.set hext hj hspec huni hshows
        refine .inr ⟨_, hrun, h.step (.withRows (.refl _) _) htags
          (fun _ => rowsInBatch_inRow _ last _)
          (hstores.lists_inRow h.storable hroom (h.schema_eq ▸ hset.shapes)) ?_⟩
        rw [List.reverse_concat]
        exact .cons hset (hrest.imp fun _ _ hs => hs.mono hext)

/-- The run of the steps ends with a write that is refused. -/
def RefusedWrite (steps : List WriteStep) (p : WriteState × ClassTags) : Prop :=
  ∃ before j w after p' e p'', steps = before ++ .write j w :: after ∧
    runSteps before p = (.ok (), p') ∧ runStep (.write j w) p' = (Outcome.fail e, p'') ∧
    runSteps steps p = (Outcome.fail e, p'')

/-- **Steps change the rows of the cursor as they change the list**, up to a refused write. -/
theorem Writes.runSteps {steps : List WriteStep} (hfit : WriteStep.RollbacksFit begun steps)
    (h : Writes base schema chunkSize begun rows p) :
    RefusedWrite steps p ∨
      ∃ p' begun', WriteCursor.runSteps steps p = (.ok (), p') ∧
        Writes base schema chunkSize begun'
          (steps.foldl (WriteStep.apply schema.length) rows) p' := by
  induction steps generalizing begun rows p with
  | nil => exact .inr ⟨p, begun, rfl, h⟩
  | cons step steps ih =>
    -- the step succeeds and the rest goes on from there
    have hnext : ∀ {begun' : Bool} {rows' : WrittenRows} {p' : WriteState × ClassTags},
        WriteStep.RollbacksFit begun' steps → runStep step p = (.ok (), p') →
        rows' = WriteStep.apply schema.length rows step →
        Writes base schema chunkSize begun' rows' p' →
        RefusedWrite (step :: steps) p ∨
          ∃ p' begun', WriteCursor.runSteps (step :: steps) p = (.ok (), p') ∧
            Writes base schema chunkSize begun'
              ((step :: steps).foldl (WriteStep.apply schema.length) rows) p' := by
      rintro begun' rows' p' hfit' hrun rfl h'
      obtain ⟨before, j, w, after, p₁, e, p₂, rfl, hbefore, hwrite, hsteps⟩ |
        ⟨p₁, begun₁, hsteps, h₁⟩ := ih hfit' h'
      · refine .inl ⟨step :: before, j, w, after, p₁, e, p₂, rfl, ?_, hwrite, ?_⟩
        · rw [WriteCursor.runSteps, Action.bind_ok hrun, hbefore]
        · rw [WriteCursor.runSteps, Action.bind_ok hrun, hsteps]
      · refine .inr ⟨p₁, begun₁, ?_, h₁⟩
        rw [WriteCursor.runSteps, Action.bind_ok hrun, hsteps]
    cases step with
    | forward =>
      obtain ⟨p', hrun, h'⟩ := h.forward
      exact hnext hfit hrun rfl h'
    | rollback =>
      obtain ⟨rfl, hfit'⟩ := hfit
      obtain ⟨p', hrun, h'⟩ := h.rollback
      exact hnext hfit' hrun rfl h'
    | write j w =>
      obtain ⟨e, p', hrun⟩ | ⟨p', hrun, h'⟩ := h.write j w
      · refine .inl ⟨[], j, w, steps, p, e, p', rfl, rfl, hrun, ?_⟩
        exact Action.bind_error hrun _
      · exact hnext hfit hrun rfl h'

/-! ## The result -/

theorem create_writes {s : MemoryStore} {tags : ClassTags} (hsize : 0 < chunkSize)
    (hroom : schema ≠ [] → chunkSize < 0x400000000000000) (hopen : s.closed = false)
    (hspecs : s.specs = schema.specs) (htags : tags.Valid) :
    ∃ c, create schema chunkSize = .ok c ∧
      Writes s schema chunkSize false [] (⟨c, s⟩, tags) := by
  refine ⟨_, if_pos hsize, rfl, rfl, rfl, hroom, htags, nofun, [], ?_, .nil⟩
  exact WriteState.lists_nil hsize hspecs hopen

/-- **Closing a cursor** leaves its rows in batches. -/
theorem Writes.close (h : Writes base schema chunkSize begun rows p) :
    ∃ t bs groups, WriteCursor.close p.1 = (.ok (), t) ∧ t.cursor.closed = true ∧
      t.store = { base with batches := t.store.batches } ∧
      t.store.batches.toList = base.batches.toList ++ bs ∧
      List.Forall₂ (Batch.ShowsRows schema p.2) bs groups ∧ groups.flatten = rows.reverse ∧
      Grouped chunkSize groups := by
  obtain ⟨chunkRows, hlists, hshows⟩ := h.lists
  obtain ⟨t, chunkGroups, hrun, hcursor, hstore, hbatches, rfl, hgrouped⟩ :=
    close_lists hlists h.is_open
  have hrows : List.Forall₂ (schema.ShowsRow p.2) chunkGroups.flatten rows.reverse :=
    List.forall₂_reverse_iff.mp ((List.reverse_reverse rows).symm ▸ hshows)
  obtain ⟨groups, hgroups, hflatten⟩ := exists_groups hrows
  rw [h.schema_eq] at hbatches
  refine ⟨t, _, groups, hrun, by rw [hcursor], hstore, hbatches, ?_, hflatten,
    (h.chunkSize_eq ▸ hgrouped).of_forall₂ hgroups⟩
  rw [List.forall₂_map_left_iff]
  exact hgroups.imp fun _ _ hg => Schema.showsRows_ofRows hg

/-- **A write cursor is a list that grows at its end.** The steps that are done with it succeed, but
for writes that are refused. When it is closed, its rows are in new batches of the store: those that
have begun and were not dropped, in order, showing what was written last to every slot. The batches
have as many rows as the cursor was created for, the last one at least one and no more. After that
the cursor is closed for good. -/
theorem steps_fill_batches (schema : Schema) {chunkSize : Nat} (hsize : 0 < chunkSize)
    (hroom : schema ≠ [] → chunkSize < 0x400000000000000) {s : MemoryStore}
    (hopen : s.closed = false) (hspecs : s.specs = schema.specs) {tags : ClassTags}
    (htags : tags.Valid) :
    ∃ c, create schema chunkSize = .ok c ∧
      ∀ steps : List WriteStep, WriteStep.RollbacksFit false steps →
        RefusedWrite steps (⟨c, s⟩, tags) ∨
        ∃ t tags' t' bs groups, runSteps steps (⟨c, s⟩, tags) = (.ok (), (t, tags')) ∧
          close t = (.ok (), t') ∧ t'.store = { s with batches := t'.store.batches } ∧
          t'.store.batches.toList = s.batches.toList ++ bs ∧
          List.Forall₂ (Batch.ShowsRows schema tags') bs groups ∧
          groups.flatten = WriteStep.rowsOf schema.length steps ∧ Grouped chunkSize groups ∧
          close t' = (.ok (), t') ∧ forward t' = (Outcome.fail (.closed .writeCursor), t') := by
  obtain ⟨c, hcreate, hwrites⟩ := create_writes hsize hroom hopen hspecs htags
  refine ⟨c, hcreate, fun steps hfit => (hwrites.runSteps hfit).imp_right ?_⟩
  rintro ⟨⟨t, tags'⟩, begun, hrun, h⟩
  obtain ⟨t', bs, groups, hclose, hclosed, hstore, hbatches, hshows, hflatten, hgrouped⟩ := h.close
  refine ⟨t, tags', t', bs, groups, hrun, hclose, hstore, hbatches, hshows, hflatten, hgrouped,
    ?_, ?_⟩
  · simp only [close, Action.bind_apply, Action.get_apply, hclosed, if_true, Action.pure_apply]
  · simp only [forward, Action.bind_apply, Action.get_apply, hclosed, if_true, Action.fail_apply]

/-- Two rows to a batch, each a key and an integer. The second batch begins with a row that is
dropped. -/
def sampleSteps : List WriteStep :=
  [.forward, .write 0 (.text "a"), .write 1 (.value .int 1), .write 1 (.cell (.long 7)),
    .forward, .write 0 (.text "b"), .forward, .rollback, .forward, .write 1 .missing]

/-- The rows that are in the batches then. -/
def sampleGroups : List WrittenRows :=
  [[[some (.text "a"), some (.cell (.long 7))], [some (.text "b"), none]],
    [[none, some .missing]]]

theorem steps_fill_batches_sample :
    ∃ c t tags t' b₁ b₂, create [.rowKey, .data .int] 2 = .ok c ∧
      runSteps sampleSteps
        (⟨c, .empty [.plain .rowKey, .paired (.plain .int)] .none⟩, .empty .builtin) =
          (.ok (), (t, tags)) ∧
      close t = (.ok (), t') ∧ t'.store.batches.toList = [b₁, b₂] ∧
      List.Forall₂ (Batch.ShowsRows [.rowKey, .data .int] tags) [b₁, b₂] sampleGroups := by
  obtain ⟨c, hcreate, hsteps⟩ := steps_fill_batches [.rowKey, .data .int] (show 0 < 2 by decide)
    (by decide) (s := .empty [.plain .rowKey, .paired (.plain .int)] .none) rfl rfl
    (ClassTags.valid_empty .builtin)
  cases hcreate
  obtain ⟨-, -, -, -, -, e, p, -, -, -, hrefused⟩ |
    ⟨t, tags, t', bs, groups, hrun, hclose, -, hbatches, hshows, hflatten, hgrouped, -⟩ :=
    hsteps sampleSteps (by simp [sampleSteps, WriteStep.RollbacksFit])
  · have hok : (runSteps sampleSteps (⟨⟨[.rowKey, .data .int], 2, none, 0, false⟩,
        .empty [.plain .rowKey, .paired (.plain .int)] .none⟩, .empty .builtin)).1.isOk = true := by
      decide +kernel
    rw [hrefused] at hok
    cases hok
  · obtain rfl : groups = sampleGroups :=
      hgrouped.eq_of_flatten ⟨by decide, by decide⟩ (hflatten.trans rfl)
    obtain ⟨b₁, bs₁, -, hrest, rfl⟩ := List.forall₂_cons_right_iff.mp hshows
    obtain ⟨b₂, bs₂, -, hnil, rfl⟩ := List.forall₂_cons_right_iff.mp hrest
    obtain rfl := List.forall₂_nil_right_iff.mp hnil
    exact ⟨_, t, tags, t', b₁, b₂, rfl, hrun, hclose, hbatches, hshows⟩

/-- Where a batch cannot be stored no row can begin. -/
theorem forward_aborts_huge :
    ∃ c, create [.rowKey] 0xFFFFFFFFFFFFFFFF = .ok c ∧ WriteStep.RollbacksFit false [.forward] ∧
      (runSteps [.forward] (⟨c, .empty [.plain .rowKey] .none⟩, .empty .builtin)).1 =
        Outcome.abort .capacity := by
  exact ⟨_, rfl, trivial, rfl⟩

end WriteCursor

end Columnar
