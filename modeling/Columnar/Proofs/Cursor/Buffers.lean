import Columnar.Cursor.Write
import Columnar.Proofs.Column.Slotwise
import Columnar.Proofs.Cursor.Stored

/-!
# The chunks of an open batch

A write cursor has one chunk for every column of its open batch, with a slot for every row that the
batch can have. To a list of rows, each with chunks of one slot, belong the chunks that have these
rows in front and new rows behind them (`Schema.buffers`).

**The open batch** (`WriteCursor.Buffers`). It has such chunks for its rows, or none at all if there
is no row. This is kept by all that is done with the cursor, which does to the list

- nothing when room is made for rows (`openChunks_eq`), and one more row when a row begins, since
  the slots behind the rows are new (`beginRow_buffers`);
- a change of the last row when a slot is written (`write_withRows`);
- one row less when a row is dropped, since its slots are reset (`beforeRow_withRows`);
- all rows less when they are handed over, as the batch of exactly these rows (`flush_buffers`).
-/

namespace Columnar

section Lists

variable {α β : Type} {f : α → Option β} {l : List α}

theorem filterMap_set_eq {i : Nat} {a a' : α} (hi : l[i]? = some a) (h : f a' = f a) :
    (l.set i a').filterMap f = l.filterMap f := by
  induction l generalizing i with
  | nil => cases hi
  | cons x l ih =>
    cases i with
    | zero =>
      cases hi
      rw [List.set_cons_zero, List.filterMap_cons, List.filterMap_cons, h]
    | succ i => rw [List.set_cons_succ, List.filterMap_cons, List.filterMap_cons, ih hi]

theorem filterMap_set_of_isSome (h : ∀ a ∈ l, (f a).isSome) (i : Nat) {a : α} {b : β}
    (ha : f a = some b) : (l.set i a).filterMap f = (l.filterMap f).set i b := by
  induction l generalizing i with
  | nil => rfl
  | cons x l ih =>
    obtain ⟨y, hy⟩ := Option.isSome_iff_exists.mp (h x List.mem_cons_self)
    cases i with
    | zero =>
      rw [List.set_cons_zero, List.filterMap_cons_some ha, List.filterMap_cons_some hy,
        List.set_cons_zero]
    | succ i =>
      rw [List.set_cons_succ, List.filterMap_cons_some hy, List.filterMap_cons_some hy,
        List.set_cons_succ, ih fun c hc => h c (List.mem_cons_of_mem x hc)]

theorem mapM_eq_ok {f : α → Outcome β} {l : List α} {m : List β}
    (h : List.Forall₂ (fun a b => f a = .ok b) l m) : l.mapM f = .ok m := by
  induction h with
  | nil => rfl
  | cons hab _ ih => rw [List.mapM_cons, hab, Outcome.ok_bind, ih]; rfl

end Lists

namespace Schema

variable {schema : Schema} {n : Nat} {rows : List (List Chunk)} {row row' : List Chunk}

/-- The rows, and new rows behind them until there are `n`. -/
def padded (schema : Schema) (n : Nat) (rows : List (List Chunk)) : List (List Chunk) :=
  rows ++ List.replicate (n - rows.length) (schema.specs.map (·.fresh 1))

/-- The chunks of `n` slots that have the rows in front. -/
def buffers (schema : Schema) (n : Nat) (rows : List (List Chunk)) : List Chunk :=
  (Batch.ofRows schema.specs (schema.padded n rows)).chunks

/-- The slots of a column. -/
def column (schema : Schema) (n : Nat) (rows : List (List Chunk)) (j : Nat) : List Chunk :=
  (schema.padded n rows).filterMap (·[j]?)

theorem mem_padded {r : List Chunk} (h : r ∈ schema.padded n (rows ++ [row])) :
    r ∈ rows ∨ r = row ∨ r = schema.specs.map (·.fresh 1) := by
  rcases List.mem_append.mp h with hmem | hmem
  · rcases List.mem_append.mp hmem with hmem | hmem
    · exact .inl hmem
    · exact .inr (.inl (List.mem_singleton.mp hmem))
  · exact .inr (.inr (List.eq_of_mem_replicate hmem))

theorem getElem?_buffers (schema : Schema) (n : Nat) (rows : List (List Chunk)) (j : Nat) :
    (schema.buffers n rows)[j]? =
      schema[j]?.map fun access => access.spec.join (schema.column n rows j) := by
  simp only [buffers, Batch.ofRows, specs, List.getElem?_mapIdx, List.getElem?_map, column]
  cases schema[j]? <;> rfl

/-- **Behind the rows are new ones already.** -/
theorem padded_new (h : rows.length < n) :
    schema.padded n (rows ++ [schema.specs.map (·.fresh 1)]) = schema.padded n rows := by
  obtain ⟨m, hm⟩ : ∃ m, n - rows.length = m + 1 := ⟨n - rows.length - 1, by omega⟩
  have hrest : n - (rows.length + 1) = m := by omega
  rw [padded, padded, List.length_append, List.length_singleton, hm, hrest, List.append_assoc,
    List.replicate_succ]
  rfl

theorem buffers_new (h : rows.length < n) :
    schema.buffers n (rows ++ [schema.specs.map (·.fresh 1)]) = schema.buffers n rows := by
  rw [buffers, buffers, padded_new h]

theorem set_padded (schema : Schema) (n : Nat) (rows : List (List Chunk))
    (row row' : List Chunk) : (schema.padded n (rows ++ [row])).set rows.length row' =
      schema.padded n (rows ++ [row']) := by
  simp [padded]

theorem getElem?_padded (schema : Schema) (n : Nat) (rows : List (List Chunk))
    (row : List Chunk) : (schema.padded n (rows ++ [row]))[rows.length]? = some row := by
  simp [padded]

theorem buffers_nil (schema : Schema) (n : Nat) :
    schema.buffers n [] = schema.specs.map (·.fresh n) := by
  refine List.ext_getElem? fun j => ?_
  rw [getElem?_buffers, specs, List.map_map, List.getElem?_map]
  cases hj : schema[j]? with
  | none => rfl
  | some access =>
    have hcolumn : schema.column n [] j = List.replicate n (access.spec.fresh 1) := by
      rw [column, padded, List.nil_append, List.length_nil, Nat.sub_zero,
        List.filterMap_replicate, getElem?_fresh, hj]
      rfl
    rw [Option.map_some, hcolumn, ChunkSpec.join_replicate_fresh]
    rfl

section Column

variable {j : Nat} {access : PhysicalColumn}

/-- **The slots of a column** with that of another last row. -/
theorem column_set (h : ∀ row ∈ rows, schema.Shapes 1 row) (hj : schema[j]? = some access)
    (n : Nat) {c d : Chunk} (hr : row[j]? = some c) (hr' : row'[j]? = some d) :
    schema.column n (rows ++ [row']) j = (schema.column n (rows ++ [row]) j).set rows.length d := by
  have hsome : ∀ r ∈ schema.padded n (rows ++ [row]), (r[j]?).isSome := by
    intro r hmem
    obtain hmem | rfl | rfl := mem_padded hmem
    · exact isSome_column h hj r hmem
    · rw [hr]
      rfl
    · rw [getElem?_fresh, hj]
      rfl
  rw [column, column, ← set_padded schema n rows row, filterMap_set_of_isSome hsome _ hr']

theorem column_set_ne {k : Nat} (h : j ≠ k) (n : Nat) (d : Chunk) :
    schema.column n (rows ++ [row.set j d]) k = schema.column n (rows ++ [row]) k := by
  rw [column, column, ← set_padded schema n rows row,
    filterMap_set_eq (getElem?_padded schema n rows row) (List.getElem?_set_ne h)]

theorem getElem?_column (h : ∀ row ∈ rows, schema.Shapes 1 row) (hj : schema[j]? = some access)
    (n : Nat) {c : Chunk} (hr : row[j]? = some c) :
    (schema.column n (rows ++ [row]) j)[rows.length]? = some c := by
  have hlt : rows.length < (schema.column n (rows ++ [row]) j).length := by
    rw [column, padded, List.filterMap_append, List.filterMap_append, List.length_append,
      List.length_append, List.filterMap_length_eq_length.mpr (isSome_column h hj)]
    simp [hr]
    omega
  rw [column_set h hj n hr hr, List.getElem?_set_self hlt]

theorem column_shapes (h : ∀ row ∈ rows, schema.Shapes 1 row) (hj : schema[j]? = some access)
    (n : Nat) {c : Chunk} (hr : row[j]? = some c) (hc : c.spec = access.spec ∧ c.Uniform 1) :
    ∀ d ∈ schema.column n (rows ++ [row]) j, d.spec = access.spec ∧ d.Uniform 1 := by
  intro d hd
  obtain ⟨r, hr', hrd⟩ := List.mem_filterMap.mp hd
  obtain hr' | rfl | rfl := mem_padded hr'
  · exact (h r hr').shape hj hrd
  · rw [hr] at hrd
    cases hrd
    exact hc
  · exact (schema.shapes_fresh 1).shape hj hrd

/-- **Writing to the last row** of the chunks. -/
theorem set_buffers (h : ∀ row ∈ rows, schema.Shapes 1 row) (hj : schema[j]? = some access)
    (n : Nat) {c d : Chunk} (hr : row[j]? = some c) :
    (schema.buffers n (rows ++ [row])).set j
        (access.spec.join ((schema.column n (rows ++ [row]) j).set rows.length d)) =
      schema.buffers n (rows ++ [row.set j d]) := by
  refine List.ext_getElem? fun k => ?_
  rw [getElem?_buffers]
  by_cases hjk : j = k
  · subst hjk
    have hset : (row.set j d)[j]? = some d :=
      List.getElem?_set_self (List.getElem?_eq_some_iff.mp hr).1
    rw [List.getElem?_set_self', getElem?_buffers, hj, column_set h hj n hr hset]
    rfl
  · rw [List.getElem?_set_ne hjk, getElem?_buffers, column_set_ne hjk]

end Column

/-- **The chunks cut down to the rows** are those of the batch of the rows. -/
theorem truncate_buffers (h : ∀ row ∈ rows, schema.Shapes 1 row) (n : Nat) :
    (schema.buffers n rows).map (·.truncate rows.length) =
      (Batch.ofRows schema.specs rows).chunks := by
  refine List.ext_getElem? fun j => ?_
  rw [List.getElem?_map, getElem?_buffers]
  cases hj : schema[j]? with
  | none => simp [Batch.ofRows, specs, hj]
  | some access =>
    have hcolumn : schema.column n rows j = rows.filterMap (·[j]?) ++
        List.replicate (n - rows.length) (access.spec.fresh 1) := by
      rw [column, padded, List.filterMap_append, List.filterMap_replicate, getElem?_fresh, hj]
      rfl
    rw [getElem?_ofRows hj, Option.map_some, Option.map_some, hcolumn,
      ← List.filterMap_length_eq_length.mpr (isSome_column h hj),
      ChunkSpec.truncate_join (of_mem_column h hj)]

/-- **The last row reset** is gone, as there are new rows behind the others. -/
theorem reset_buffers (h : ∀ row ∈ rows, schema.Shapes 1 row) (hrow : schema.Shapes 1 row)
    (hlt : rows.length < n) :
    (schema.buffers n (rows ++ [row])).mapM (·.reset rows.length) =
      .ok (schema.buffers n rows) := by
  refine mapM_eq_ok (List.forall₂_iff_get.mpr ⟨by simp [buffers, Batch.ofRows], ?_⟩)
  intro j hj hj'
  have hlength : j < schema.length := by
    simpa [buffers, Batch.ofRows, specs] using hj
  have hcolumn := List.getElem?_eq_getElem hlength
  obtain ⟨c, hc, hshape⟩ := hrow.exists_chunk hcolumn
  obtain ⟨hi, -⟩ := List.getElem?_eq_some_iff.mp (getElem?_column h hcolumn n hc)
  have hfresh : (schema.specs.map (·.fresh 1))[j]? = some (schema[j].spec.fresh 1) := by
    rw [getElem?_fresh, hcolumn, Option.map_some]
  have hget := getElem?_buffers schema n (rows ++ [row]) j
  have hget' := getElem?_buffers schema n rows j
  rw [List.getElem?_eq_getElem hj, hcolumn, Option.map_some] at hget
  rw [List.getElem?_eq_getElem hj', hcolumn, Option.map_some] at hget'
  rw [List.get_eq_getElem, List.get_eq_getElem, Option.some.inj hget, Option.some.inj hget',
    PhysicalColumn.reset_join _ (column_shapes h hcolumn n hc hshape) hi,
    ← column_set h hcolumn n hc hfresh, column, padded_new hlt]
  rfl

end Schema

/-! ## The open batch -/

namespace WriteCursor

/-- A batch of the cursor can be stored. -/
def Storable (c : WriteCursor) : Prop := c.schema ≠ [] → c.chunkSize < 0x400000000000000

/-- The cursor without an open batch. -/
def emptied (c : WriteCursor) : WriteCursor := { c with chunks? := none, rowsInBatch := 0 }

/-- The cursor with these rows in its open batch. -/
def withRows (c : WriteCursor) (rows : List (List Chunk)) : WriteCursor :=
  { c with chunks? := some (c.schema.buffers c.chunkSize rows), rowsInBatch := rows.length }

/-- There is room for a row behind these rows. -/
structure Room (c : WriteCursor) (rows : List (List Chunk)) : Prop where
  shapes : ∀ row ∈ rows, c.schema.Shapes 1 row
  length_lt : rows.length < c.chunkSize

/-- The open batch of the cursor has these rows. -/
structure Buffers (c : WriteCursor) (rows : List (List Chunk)) : Prop where
  shapes : ∀ row ∈ rows, c.schema.Shapes 1 row
  length_le : rows.length ≤ c.chunkSize
  stands : rows = [] ∧ c = c.emptied ∨ c.Storable ∧ c = c.withRows rows

end WriteCursor

/-- The state with these rows in the open batch. -/
def WriteState.withRows (t : WriteState) (rows : List (List Chunk)) : WriteState :=
  { t with cursor := t.cursor.withRows rows }

/-- The state with a row in progress behind these rows. -/
def WriteState.inRow (t : WriteState) (rows : List (List Chunk)) (row : List Chunk) : WriteState :=
  t.withRows (rows ++ [row])

namespace WriteCursor

variable {c : WriteCursor} {t : WriteState} {rows : List (List Chunk)} {row : List Chunk}

theorem buffers_emptied (c : WriteCursor) : c.emptied.Buffers [] :=
  ⟨nofun, Nat.zero_le _, .inl ⟨rfl, rfl⟩⟩

theorem Room.buffers (h : c.Room rows) (hs : c.Storable) : (c.withRows rows).Buffers rows :=
  ⟨h.shapes, Nat.le_of_lt h.length_lt, .inr ⟨hs, rfl⟩⟩

theorem Room.buffers_concat (h : c.Room rows) (hs : c.Storable) (hrow : c.schema.Shapes 1 row) :
    (c.withRows (rows ++ [row])).Buffers (rows ++ [row]) where
  shapes := List.forall_mem_append.mpr ⟨h.shapes, List.forall_mem_singleton.mpr hrow⟩
  length_le := by
    rw [List.length_append, List.length_singleton]
    exact h.length_lt
  stands := .inr ⟨hs, rfl⟩

theorem Buffers.rowsInBatch_eq (h : c.Buffers rows) : c.rowsInBatch = rows.length := by
  obtain ⟨rfl, hc⟩ | ⟨-, hc⟩ := h.stands <;> rw [hc] <;> rfl

/-- Where there is a row there are chunks. -/
theorem Buffers.eq_withRows (h : c.Buffers rows) (hne : rows ≠ []) :
    c.Storable ∧ c = c.withRows rows :=
  h.stands.resolve_left fun hnil => hne hnil.1

/-- The last row, and room where it is. -/
theorem Buffers.exists_last (h : c.Buffers rows) (hne : rows ≠ []) :
    ∃ (last : List (List Chunk)) (row : List Chunk), rows = last ++ [row] ∧
      c = c.withRows (last ++ [row]) ∧ c.Storable ∧ c.Room last ∧ c.schema.Shapes 1 row := by
  obtain ⟨hstorable, hc⟩ := h.eq_withRows hne
  obtain rfl | ⟨last, row, rfl⟩ := List.eq_nil_or_concat' rows
  · exact absurd rfl hne
  · have hshapes := List.forall_mem_append.mp h.shapes
    have hle := h.length_le
    rw [List.length_append, List.length_singleton] at hle
    exact ⟨last, row, rfl, hc, hstorable, ⟨hshapes.1, hle⟩,
      hshapes.2 row (List.mem_singleton_self row)⟩

theorem mapM_create (hs : c.Storable) :
    c.schema.specs.mapM (·.create c.chunkSize) = .ok (c.schema.buffers c.chunkSize []) := by
  rw [Schema.buffers_nil]
  by_cases hnil : c.schema = []
  · rw [hnil]
    rfl
  · simp only [ChunkSpec.create, Outcome.ofLength_of_lt (hs hnil), Outcome.map_ok]
    exact List.mapM_pure

theorem mapM_create_abort (hs : ¬ c.Storable) :
    c.schema.specs.mapM (·.create c.chunkSize) = Outcome.abort .capacity := by
  obtain ⟨hne, hsize⟩ := Classical.not_imp.mp hs
  obtain ⟨access, schema, hschema⟩ := List.exists_cons_of_ne_nil hne
  have hlength : Outcome.ofLength c.chunkSize = Outcome.abort .capacity := if_neg hsize
  rw [hschema, Schema.specs, List.map_cons, List.mapM_cons, ChunkSpec.create, hlength]
  rfl

/-- **The chunks of the open batch** are there or are made. -/
theorem openChunks_eq (h : c.Buffers rows) (hs : c.Storable) :
    c.openChunks = .ok (c.schema.buffers c.chunkSize rows) := by
  obtain ⟨rfl, hc⟩ | ⟨-, hc⟩ := h.stands
  · rw [hc]
    exact mapM_create hs
  · rw [hc]
    rfl

theorem openChunks_abort (h : c.Buffers rows) (hs : ¬ c.Storable) :
    c.openChunks = Outcome.abort .capacity := by
  obtain ⟨-, hc⟩ | ⟨hstorable, -⟩ := h.stands
  · rw [hc]
    exact mapM_create_abort hs
  · exact absurd hstorable hs

/-- **Beginning a row** in a batch with room adds a new one, if a batch can be stored. -/
theorem beginRow_buffers (h : t.cursor.Buffers rows) (hlt : rows.length < t.cursor.chunkSize) :
    t.cursor.Storable ∧
        beginRow t = (.ok (), t.inRow rows (t.cursor.schema.specs.map (·.fresh 1))) ∨
      ¬ t.cursor.Storable ∧ beginRow t = (Outcome.abort .capacity, t) := by
  by_cases hs : t.cursor.Storable
  · refine .inl ⟨hs, ?_⟩
    simp only [beginRow, Action.bind_apply, Action.get_apply, Action.liftM_apply,
      openChunks_eq h hs, Action.set_apply, WriteState.inRow, WriteState.withRows, withRows,
      Schema.buffers_new hlt, h.rowsInBatch_eq, List.length_append, List.length_singleton]
  · refine .inr ⟨hs, ?_⟩
    simp only [beginRow, Action.bind_apply, Action.get_apply, Action.liftM_apply,
      openChunks_abort h hs]
    rfl

theorem forward_apply (hopen : t.cursor.closed = false) :
    forward t =
      ((if t.cursor.rowsInBatch = t.cursor.chunkSize then flush else pure ()) >>= fun _ =>
        beginRow) t := by
  simp only [forward, Action.bind_apply, Action.get_apply, hopen, Bool.false_eq_true, if_false]
  split <;> rfl

/-- **Handing over the open batch** writes the batch of its rows to the store. Then it has none,
whether the store takes them or not. -/
theorem flush_buffers (h : t.cursor.Buffers rows) :
    flush t = if rows = [] then (.ok (), ⟨t.cursor.emptied, t.store⟩) else
      ((MemoryStore.write (Batch.ofRows t.cursor.schema.specs rows) t.store).1,
        ⟨t.cursor.emptied,
          (MemoryStore.write (Batch.ofRows t.cursor.schema.specs rows) t.store).2⟩) := by
  obtain ⟨c, s⟩ := t
  obtain ⟨rfl, hc⟩ | ⟨-, hc⟩ : rows = [] ∧ c = c.emptied ∨ c.Storable ∧ c = c.withRows rows :=
    h.stands
  · rw [if_pos rfl, hc]
    rfl
  · have hbatch : Batch.ofChunks rows.length
        ((c.schema.buffers c.chunkSize rows).map (·.truncate rows.length)) =
        .ok (Batch.ofRows c.schema.specs rows) := by
      rw [Schema.truncate_buffers h.shapes]
      exact Batch.ofChunks_eq fun d hd => ((Schema.shapes_ofRows h.shapes).of_mem hd).size_eq
    have hrun : flush ⟨c, s⟩ = flush ⟨c.withRows rows, s⟩ := by rw [← hc]
    rw [hrun]
    by_cases hnil : rows = []
    · subst hnil
      rw [if_pos rfl]
      rfl
    · have hlength : rows.length ≠ 0 := fun h => hnil (List.eq_nil_of_length_eq_zero h)
      simp only [flush, Action.bind_apply, Action.get_apply, withRows, Action.set_apply, hlength,
        if_false, hbatch, Action.liftM_apply, Action.on_apply, hnil]
      rfl

/-! ## The current row -/

theorem get_nil (h : c.Buffers []) (j : Nat) :
    c.get j = Outcome.fail (.illegalState .notOnRow) := by
  have hrows := h.rowsInBatch_eq
  rw [get, hrows]
  cases c.chunks? <;> rfl

theorem get_withRows (c : WriteCursor) (rows : List (List Chunk)) (row : List Chunk) (j : Nat) :
    (c.withRows (rows ++ [row])).get j = match c.schema[j]? with
      | some access => .ok ⟨access,
          access.spec.join (c.schema.column c.chunkSize (rows ++ [row]) j), rows.length⟩
      | none => Outcome.fail (.invalidColumn j) := by
  have hrows : (rows ++ [row]).length = rows.length + 1 := by
    rw [List.length_append, List.length_singleton]
  simp only [get, withRows, hrows, Schema.getElem?_buffers]
  cases c.schema[j]? <;> rfl

theorem setChunk_get {j : Nat} {v : WriteValue} (h : c.get j = .ok v) :
    c.setChunk j v.chunk = c := by
  obtain ⟨schema, chunkSize, _ | chunks, _ | index, closed⟩ := c
  case some.succ =>
    simp only [get] at h
    cases hchunk : chunks[j]? <;> cases haccess : schema[j]? <;>
      simp only [hchunk, haccess] at h <;> cases h
    simp only [setChunk, Option.map_some, set_of_getElem? hchunk]
  all_goals cases h

/-- **Writing to a slot of the current row** does to the chunks what it does to the row. -/
theorem write_withRows (hroom : c.Room rows) {j : Nat} {access : PhysicalColumn} {d : Chunk}
    (hs : c.schema[j]? = some access) (hr : row[j]? = some d) (hspec : d.spec = access.spec)
    (huni : d.Uniform 1) {m : Nat → Action WriteTarget Unit}
    (hm : PhysicalColumn.Slotwise access.spec m) (tags : ClassTags) :
    ∃ v c', (c.withRows (rows ++ [row])).get j = .ok v ∧ v.access = access ∧
      m v.index ⟨v.chunk, tags⟩ = ((m 0 ⟨d, tags⟩).1, ⟨c', (m 0 ⟨d, tags⟩).2.tags⟩) ∧
      (c.withRows (rows ++ [row])).setChunk j c' =
        c.withRows (rows ++ [row.set j (m 0 ⟨d, tags⟩).2.chunk]) := by
  have hjoin := hm.join (Schema.column_shapes hroom.shapes hs c.chunkSize hr ⟨hspec, huni⟩)
    (Schema.getElem?_column hroom.shapes hs c.chunkSize hr) tags
  refine ⟨_, _, by rw [get_withRows, hs], rfl, hjoin, ?_⟩
  have hset := Schema.set_buffers (d := (m 0 ⟨d, tags⟩).2.chunk) hroom.shapes hs c.chunkSize hr
  have hlength : (rows ++ [row]).length = (rows ++ [row.set j (m 0 ⟨d, tags⟩).2.chunk]).length := by
    simp
  simp only [setChunk, withRows, Option.map_some, hset, hlength]

/-- **Dropping the current row** leaves the rows before it. -/
theorem beforeRow_withRows (hroom : c.Room rows) (hrow : c.schema.Shapes 1 row) :
    (c.withRows (rows ++ [row])).beforeRow = .ok (c.withRows rows) := by
  have hreset := Schema.reset_buffers hroom.shapes hrow hroom.length_lt
  have hlength : (rows ++ [row]).length = rows.length + 1 := by simp
  simp only [beforeRow, withRows, hlength, hreset, Outcome.ok_bind]
  rfl

theorem beforeRow_nil (h : c.Buffers []) : c.beforeRow = .ok c := by
  have hrows := h.rowsInBatch_eq
  rw [beforeRow, hrows]
  cases c.chunks? <;> rfl

/-- **Rows can be dropped**, and there are none left at the beginning of the batch. -/
theorem Buffers.beforeRow (h : c.Buffers rows) :
    c.beforeRow = .ok c.rollback ∧ c.rollback.Buffers rows.dropLast := by
  by_cases hnil : rows = []
  · subst hnil
    have hsame := beforeRow_nil h
    rw [rollback, hsame]
    exact ⟨rfl, h⟩
  · obtain ⟨last, row, rfl, hc, hs, hroom, hrow⟩ := h.exists_last hnil
    have hdrop := beforeRow_withRows hroom hrow
    rw [← hc] at hdrop
    rw [rollback, hdrop, List.dropLast_concat]
    exact ⟨rfl, hroom.buffers hs⟩

/-- There is something to drop exactly if there is a row. -/
theorem Buffers.rollback_eq_self_iff (h : c.Buffers rows) :
    c.rollback = c ↔ c.rowsInBatch = 0 := by
  have hrolled := h.beforeRow.2.rowsInBatch_eq
  rw [List.length_dropLast] at hrolled
  rw [h.rowsInBatch_eq]
  constructor
  · intro hsame
    rw [hsame, h.rowsInBatch_eq] at hrolled
    omega
  · intro hzero
    obtain rfl := List.eq_nil_of_length_eq_zero hzero
    rw [rollback, beforeRow_nil h]

theorem Buffers.get_eq_notOnRow_iff (h : c.Buffers rows) {j : Nat} :
    c.get j = Outcome.fail (.illegalState .notOnRow) ↔ c.rowsInBatch = 0 := by
  rw [h.rowsInBatch_eq]
  by_cases hnil : rows = []
  · subst hnil
    exact iff_of_true (get_nil h j) rfl
  · obtain ⟨last, row, rfl, hc, -⟩ := h.exists_last hnil
    refine iff_of_false (fun hget => ?_) (by simp)
    rw [hc, get_withRows] at hget
    split at hget <;> cases hget

end WriteCursor

end Columnar
