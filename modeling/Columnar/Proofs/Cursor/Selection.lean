import Columnar.Proofs.Cursor.Calls
import Columnar.Proofs.Cursor.Uniform
import Columnar.Proofs.Store.Contents

/-!
# Access to columns by selection

**Answers** (`ChunkReader.answers`). What a steady reader answers for the columns of a batch does not
depend on what was read before.

**Slots** (`Served`). The chunks at hand stand in the order of the selected columns. Whatever has
failed before, they are the answers for the first of these columns in some batch. As long as all
chunks could be read, they are the answers for all of them, in the batch of the row.

Main result: `get_by_selection`.
-/

namespace Columnar

variable {σ : Type}

namespace ChunkReader

variable {r : ChunkReader σ} {s s' : σ} {batch : Nat}

/-- What the reader answers for columns of a batch. -/
def answers (r : ChunkReader σ) (s : σ) (batch : Nat) (columns : List Nat) : List (Outcome Chunk) :=
  columns.map fun column => (r.readChunk batch column s).1

theorem Same.answers_eq (h : r.Same s s') (batch : Nat) (columns : List Nat) :
    r.answers s' batch columns = r.answers s batch columns := by
  simp only [answers, h.readChunk]

theorem Same.watched (h : r.Same s s') (good good' : Bool) :
    r.watched.Same (s, good) (s', good') where
  batchCount := h.batchCount
  rowCount := h.rowCount
  readChunk := h.readChunk

theorem Same.of_watched {p q : σ × Bool} (h : r.watched.Same p q) : r.Same p.1 q.1 where
  batchCount := h.batchCount
  rowCount := h.rowCount
  readChunk := h.readChunk

theorem Steady.watched (hr : r.Steady) : r.watched.Steady := by
  intro p batch column q h
  have hread : r.Same q.1 (r.readChunk batch column q.1).2 :=
    hr q.1 batch column q.1 (.refl r q.1)
  exact h.trans (hread.watched _ _)

end ChunkReader

namespace ReadCursor

variable {r : ChunkReader σ} {s₀ s s' : σ} {p : σ × Bool} {batch : Nat} {columns : List Nat}
  {chunks : List Chunk} {schema : Schema} {selection : Selection} {calls : List Call}
  {replies : List Reply} {c c' : ReadCursor}

/-! ## What is loaded -/

theorem Loads.answers_eq (hr : r.Steady) (h : Loads r batch columns chunks s s') :
    chunks.map .ok = r.answers s batch columns := by
  induction h with
  | nil => rfl
  | @cons column columns chunk chunks s s₁ s₂ hread _ ih =>
    have hsame := hr.same_of_readChunk hread
    rw [List.map_cons, ih, hsame.answers_eq, ChunkReader.answers, ChunkReader.answers, List.map_cons,
      hread]

/-- The chunks that were read before one failed. -/
theorem StopsAt.answers_prefix (hr : r.Steady) {before : List Nat} {column : Nat} {e : Failure}
    (h : StopsAt r batch columns before column chunks e s s') :
    chunks.map .ok <+: r.answers s batch columns := by
  obtain ⟨after, rfl⟩ := h.split
  obtain ⟨s₁, hloads, -⟩ := h.failed
  rw [hloads.answers_eq hr, ChunkReader.answers, ChunkReader.answers, List.map_append]
  exact List.prefix_append _ _

/-! ## The chunks at hand -/

/-- The cursor as the calls have left it, over a store that was in the state `s₀` at first, with the
note whether all chunks could be read. -/
structure Served (r : ChunkReader σ) (s₀ : σ) (schema : Schema) (selection : Selection)
    (calls : List Call) (c : ReadCursor) (p : σ × Bool) : Prop where
  schema_eq : c.schema = schema
  selection_eq : c.selection = selection
  same : r.Same s₀ p.1
  held : ∃ batch, c.chunks.map .ok <+: r.answers s₀ batch selection.columns
  loaded : p.2 = true → .close ∉ calls → ∀ {b row : Nat}, c.position? = some (b, row) →
    c.chunks.map .ok = r.answers s₀ b selection.columns

theorem served_create (h : create schema selection = .ok c) (r : ChunkReader σ) (s₀ : σ) :
    Served r s₀ schema selection [] c (s₀, true) := by
  rw [create_of_lt (within_of_create h)] at h
  cases h
  exact ⟨rfl, rfl, .refl r s₀, ⟨0, List.nil_prefix⟩, fun _ _ _ _ => nofun⟩

theorem Served.later (h : Served r s₀ schema selection calls c p) (call : Call) :
    Served r s₀ schema selection (calls ++ [call]) c p where
  schema_eq := h.schema_eq
  selection_eq := h.selection_eq
  same := h.same
  held := h.held
  loaded hgood hclose := h.loaded hgood fun hmem => hclose (List.mem_append_left _ hmem)

theorem Served.close (h : Served r s₀ schema selection calls c p) :
    Served r s₀ schema selection (calls ++ [.close]) c.close p := by
  unfold ReadCursor.close
  split
  · exact h.later .close
  · exact ⟨h.schema_eq, h.selection_eq, h.same, ⟨0, List.nil_prefix⟩, fun _ hclose => by
      simp at hclose⟩

/-- **One call**, whatever comes of it. -/
theorem Served.perform (hr : r.Steady) (h : Served r s₀ schema selection calls c p) (call : Call) :
    Served r s₀ schema selection (calls ++ [call]) (ReadCursor.perform r.watched call c p).2.1
      (ReadCursor.perform r.watched call c p).2.2 := by
  cases call with
  | get column => exact h.later _
  | isSelected column => exact h.later _
  | position => exact h.later _
  | close => exact h.close
  | forward =>
    have hmoved := forward_moved r.watched c p
    have hsame := keeps_forward (hr.watched (s₀, true)) (c, p) (h.same.watched true p.2)
    simp only [ReadCursor.perform]
    generalize ReadCursor.forward r.watched (c, p) = result at hmoved hsame
    cases hmoved with
    | closed => exact h.later _
    | ended => exact h.later _
    -- the batch stays, and so do its chunks
    | @within q hopen hq =>
      obtain ⟨row, hp, -, -⟩ := lt_of_sameBatch? hq
      refine ⟨h.schema_eq, h.selection_eq, h.same, h.held, fun hgood hclose b i hi => ?_⟩
      cases hi
      exact (h.later .forward).loaded hgood hclose hp
    | @entered batch chunks p' hopen hq hnext hloads =>
      have hloaded := hloads.answers_eq hr.watched
      have hchunks : chunks.map .ok = r.answers s₀ batch selection.columns := by
        rw [← h.selection_eq, ← h.same.answers_eq]
        exact hloaded
      refine ⟨h.schema_eq, h.selection_eq, hsame.of_watched, ⟨batch, hchunks ▸ List.prefix_rfl⟩,
        fun _ _ b i hi => ?_⟩
      cases hi
      exact hchunks
    | @refused batch before column chunks e p' hopen hq hnext hstops =>
      have hloaded := hstops.answers_prefix hr.watched
      have hchunks : chunks.map .ok <+: r.answers s₀ batch selection.columns := by
        rw [← h.selection_eq, ← h.same.answers_eq]
        exact hloaded
      -- after a chunk that could not be read nothing is claimed of the chunks
      have hbad := hstops.note_eq
      refine ⟨h.schema_eq, h.selection_eq, hsame.of_watched, ⟨batch, hchunks⟩, fun hgood => ?_⟩
      cases hbad.symm.trans hgood

/-- **Any calls**, whatever comes of them. -/
theorem Served.performAll (hr : r.Steady) {past : List Call}
    (h : Served r s₀ schema selection past c p) (calls : List Call) :
    Served r s₀ schema selection (past ++ calls) (ReadCursor.performAll r.watched calls (c, p)).2.1
      (ReadCursor.performAll r.watched calls (c, p)).2.2 := by
  induction calls generalizing past c p with
  | nil => rwa [List.append_nil]
  | cons call calls ih =>
    rw [performAll_cons]
    simpa using ih (h.perform hr call)

/-! ## Access -/

/-- **An access never leads to another column**, whatever has failed before. -/
theorem Served.get_eq_ok (h : Served r s₀ schema selection calls c p) {b row : Nat}
    (hp : c.position? = some (b, row)) {j i : Nat} {source : CellSource}
    (hget : c.get j = .ok (source, i)) :
    schema[j]? = some source.column ∧ i = row ∧
      ∃ batch, (r.readChunk batch j s₀).1 = .ok source.chunk := by
  obtain ⟨k, hk, hcolumn, hchunk, hi⟩ := exists_slot_of_get hp hget
  obtain ⟨batch, after, hafter⟩ := h.held
  rw [h.schema_eq] at hcolumn
  rw [h.selection_eq] at hk
  have hheld : (r.answers s₀ batch selection.columns)[k]? = some (.ok source.chunk) := by
    have hlt : k < (c.chunks.map (.ok : Chunk → Outcome Chunk)).length := by
      rw [List.length_map]
      exact (List.getElem?_eq_some_iff.mp hchunk).1
    rw [← hafter, List.getElem?_append_left hlt, List.getElem?_map, hchunk, Option.map_some]
  rw [ChunkReader.answers, List.getElem?_map, hk] at hheld
  exact ⟨hcolumn, hi, batch, Option.some.inj hheld⟩

/-- **An access to a selected column** succeeds as long as all chunks could be read and the cursor
has not been closed. -/
theorem Served.get_of_mem (h : Served r s₀ schema selection calls c p) (hgood : p.2 = true)
    (hclose : .close ∉ calls) {b row j : Nat} (hp : c.position? = some (b, row))
    (hlt : j < schema.length) (hj : j ∈ selection.columns) :
    ∃ column chunk, schema[j]? = some column ∧ (r.readChunk b j s₀).1 = .ok chunk ∧
      c.get j = .ok (⟨column, chunk⟩, row) := by
  obtain ⟨k, hk⟩ := List.getElem?_of_mem hj
  have hloaded := congrArg (·[k]?) (h.loaded hgood hclose hp)
  simp only [ChunkReader.answers, List.getElem?_map, hk, Option.map_some,
    Option.map_eq_some_iff] at hloaded
  obtain ⟨chunk, hchunk, hread⟩ := hloaded
  obtain ⟨column, hcolumn⟩ : ∃ column, schema[j]? = some column :=
    ⟨_, List.getElem?_eq_getElem hlt⟩
  refine ⟨column, chunk, hcolumn, hread.symm, ?_⟩
  rw [← h.schema_eq] at hcolumn
  rw [← h.selection_eq] at hk
  rw [get_of_slot hp hcolumn hk, hchunk]
  rfl

/-- **Columns by selection.** Take a steady store, as those in memory and on disk are, and any list
of columns.

- The selection has the columns of the list, once each and in ascending order.
- A cursor over it can be made unless there are columns in the list that are not in the schema. Then
  the least of them is named.
- Take any calls on the cursor, failed moves among them, and let it be at a row by then. An access to
  a column of the schema that is not in the list is refused, and so is one that is not in the schema.
  An access to a column of the list comes with the column's own type and a chunk that the store has
  for it, or not at all.
- It does come, with the chunk of the row's batch, as long as all chunks could be read and the cursor
  was not closed. -/
theorem get_by_selection (hr : r.Steady) (schema : Schema) (columns : List Nat) :
    (Selection.ofList columns).columns.Pairwise (· < ·) ∧
    (∀ j, j ∈ (Selection.ofList columns).columns ↔ j ∈ columns) ∧
    (∀ j, (Selection.ofList columns).contains j = true ↔ j ∈ columns) ∧
    (∀ j, IsLeast {i | i ∈ columns ∧ schema.length ≤ i} j →
      create schema (.ofList columns) = Outcome.fail (.invalidColumn j)) ∧
    ((∀ j ∈ columns, j < schema.length) → ∃ c₀, create schema (.ofList columns) = .ok c₀ ∧
      ∀ calls s₀ replies c s, performAll r calls (c₀, s₀) = (replies, (c, s)) →
        (∀ j, c.isSelected j = true ↔ j ∈ columns) ∧
        ∀ b row, c.position? = some (b, row) →
          (∀ j < schema.length, j ∉ columns → c.get j = Outcome.fail (.columnNotSelected j)) ∧
          (∀ j, schema.length ≤ j → c.get j = Outcome.fail (.invalidColumn j)) ∧
          (∀ j source i, c.get j = .ok (source, i) → schema[j]? = some source.column ∧ i = row ∧
            ∃ batch, (r.readChunk batch j s₀).1 = .ok source.chunk) ∧
          (ChunksRead r calls c₀ s₀ → .close ∉ calls → ∀ j ∈ columns, ∃ column chunk,
            schema[j]? = some column ∧ (r.readChunk b j s₀).1 = .ok chunk ∧
              c.get j = .ok (⟨column, chunk⟩, row))) := by
  refine ⟨(Selection.ofList columns).increasing, fun j => Selection.mem_ofList,
    fun j => Selection.contains_ofList, fun j hj => ?_, fun hcolumns => ?_⟩
  · rw [create, Selection.outside?_ofList hj]
  have hschema : ∀ j ∈ (Selection.ofList columns).columns, j < schema.length :=
    fun j hj => hcolumns j (Selection.mem_ofList.mp hj)
  have hcreate := create_of_lt hschema
  refine ⟨_, hcreate, fun calls s₀ replies c s hrun => ?_⟩
  have h := (served_create hcreate r s₀).performAll hr calls
  rw [List.nil_append, cursor_performAll_watched, hrun] at h
  refine ⟨fun j => ?_, fun b row hp => ⟨fun j hlt hj => ?_, fun j hge => ?_, fun j source i => ?_,
    fun hread hclose j hj => ?_⟩⟩
  · rw [isSelected_iff, h.schema_eq, h.selection_eq, Selection.mem_ofList]
    exact and_iff_right_of_imp (hcolumns j)
  · refine get_of_unselected hp (h.schema_eq.symm ▸ hlt) fun hsel => hj ?_
    rwa [h.selection_eq, Selection.mem_ofList] at hsel
  · exact get_of_outside hp (h.schema_eq.symm ▸ hge)
  · exact h.get_eq_ok hp
  · exact h.get_of_mem hread hclose hp (hcolumns j hj) (Selection.mem_ofList.mpr hj)

/-- A store of one row in three columns of one kind. -/
def sampleThree : MemoryStore :=
  (MemoryStore.write ⟨1, [keyChunk [0x61], keyChunk [0x62], keyChunk [0x63]]⟩
    (.empty [.plain .rowKey, .plain .rowKey, .plain .rowKey] .none)).2

/-- A cursor over the outer two columns at the row. -/
def sampleOuter : ReadCursor :=
  ⟨[.rowKey, .rowKey, .rowKey], .ofList [2, 0, 2], [keyChunk [0x61], keyChunk [0x63]], some (0, 0),
    false⟩

theorem get_by_selection_sample :
    create [.rowKey, .rowKey, .rowKey] (.ofList [2, 7, 5]) = Outcome.fail (.invalidColumn 5) ∧
    ∃ c₀, create [.rowKey, .rowKey, .rowKey] (.ofList [2, 0, 2]) = .ok c₀ ∧
      performAll MemoryStore.reader [.get 2, .forward] (c₀, sampleThree) =
        ([.cell (Outcome.fail (.illegalState .notOnRow)), .moved (.ok ())],
          (sampleOuter, sampleThree)) ∧
      sampleOuter.get 0 = .ok (⟨.rowKey, keyChunk [0x61]⟩, 0) ∧
      sampleOuter.get 1 = Outcome.fail (.columnNotSelected 1) ∧
      sampleOuter.get 2 = .ok (⟨.rowKey, keyChunk [0x63]⟩, 0) ∧
      sampleOuter.get 3 = Outcome.fail (.invalidColumn 3) := by
  have hfive : IsLeast {i | i ∈ [2, 7, 5] ∧ 3 ≤ i} 5 := by
    refine ⟨by decide, ?_⟩
    rintro i ⟨hi, hge⟩
    fin_cases hi <;> omega
  obtain ⟨-, -, -, hleast, -⟩ :=
    get_by_selection MemoryStore.steady_reader [.rowKey, .rowKey, .rowKey] [2, 7, 5]
  obtain ⟨-, -, -, -, hall⟩ :=
    get_by_selection MemoryStore.steady_reader [.rowKey, .rowKey, .rowKey] [2, 0, 2]
  obtain ⟨c₀, hcreate, hcalls⟩ := hall (by decide)
  have hrun : performAll MemoryStore.reader [.get 2, .forward] (c₀, sampleThree) =
      ([.cell (Outcome.fail (.illegalState .notOnRow)), .moved (.ok ())],
        (sampleOuter, sampleThree)) := by
    cases hcreate
    rfl
  have hread : ChunksRead MemoryStore.reader [.get 2, .forward] c₀ sampleThree := by
    cases hcreate
    rfl
  obtain ⟨-, hrow⟩ := hcalls _ _ _ _ _ hrun
  obtain ⟨hunlisted, houtside, -, hlisted⟩ := hrow 0 0 rfl
  have hget : ∀ j ∈ [2, 0, 2], ∀ chunk, sampleThree.readChunk 0 j = .ok chunk →
      sampleOuter.get j = .ok (⟨.rowKey, chunk⟩, 0) := by
    intro j hj chunk hchunk
    obtain ⟨column, chunk', hcolumn, hchunk', hget⟩ := hlisted hread (by decide) j hj
    obtain rfl : chunk' = chunk := Except.ok.inj (hchunk'.symm.trans hchunk)
    obtain rfl : column = .rowKey := by
      fin_cases hj <;> exact (Option.some.inj hcolumn).symm
    exact hget
  exact ⟨hleast 5 hfive, c₀, hcreate, hrun, hget 0 (by decide) _ rfl,
    hunlisted 1 (by decide) (by decide), hget 2 (by decide) _ rfl, houtside 3 (by decide)⟩

end ReadCursor

end Columnar
