import Columnar.Proofs.Column.Acceptance
import Columnar.Proofs.Table.Filling

/-!
# Which rows are taken

**Cells** (`writeCells_ok_iff`). Tags are handed out cell by cell, so a class that is new with one
cell may leave no tag for a cell behind it. Over the whole row this comes to one condition: the
classes with a tag and the classes of all foreign cells are no more than there are tags.

**Rows** (`Container.Accepts`). A container takes a row if it is as wide as the table, has a key if
those are stored, and has cells that the columns take. It is open all the while (`Ready`), whatever
rows were offered before (`Ready.add`).

Main result: `Ready.add_ofCells`. The container takes these rows and no others, where a batch can be
stored. Where it cannot, a row that suits the table is aborted (`Ready.add_of_suits`).
-/

namespace Columnar

/-- The classes under which the cells of a row are serialized. -/
def foreignClasses : List Primitive → List Cell → List String
  | p :: ps, cell :: cells => (p.foreignClass? cell).toList ++ foreignClasses ps cells
  | _, _ => []

namespace Container

/-! ## Cells -/

section

variable {schema : Schema} {primitives : List Primitive} {tags : ClassTags} {t : WriteState}
  {last : List (List Chunk)}

/-- **Data columns take the cells of a row** if each takes its cell and there is room for all
foreign classes. -/
theorem writeCells_ok_iff {cells : List Cell} (column : Nat) {row : List Chunk}
    (hlength : cells.length = primitives.length)
    (hdata : ∀ k, schema[column + k]? = primitives[k]?.map .data)
    (hfresh : ∀ k, column ≤ k → row[k]? = schema[k]?.map (·.spec.fresh 1)) (htags : tags.Unique)
    (ht : t.cursor.schema = schema) (hroom : t.cursor.Room last) :
    (writeCells column (cells.map .ok) (t.inRow last row, tags)).1 = .ok () ↔
      List.Forall₂ (·.Takes tags.serializers ·) primitives cells ∧
        tags.HasRoom (foreignClasses primitives cells) := by
  -- on the cells: the columns behind the written ones are still fresh
  induction cells generalizing column primitives row tags with
  | nil =>
    obtain rfl := List.eq_nil_of_length_eq_zero hlength.symm
    exact ⟨fun _ => ⟨.nil, htags.hasRoom_nil⟩, fun _ => rfl⟩
  | cons cell cells ih =>
    obtain ⟨p, ps, rfl⟩ := List.exists_cons_of_length_eq_add_one hlength.symm
    have hcolumn : schema[column]? = some (.data p) := hdata 0
    have hc : row[column]? = some ((PhysicalColumn.data p).spec.fresh 1) := by
      rw [hfresh column (Nat.le_refl _), hcolumn, Option.map_some]
    have hrun := WriteCursor.writeCell_fresh hroom (ht ▸ hcolumn) hc tags cell
    have hweighed := PhysicalColumn.writeData_fresh p htags cell
    have hvalid : WriteTarget.Valid (.data p) 1 ⟨(PhysicalColumn.data p).spec.fresh 1, tags⟩ :=
      ⟨ChunkSpec.spec_fresh _ 1, ChunkSpec.uniform_fresh _ 1, htags.toValid⟩
    have hwrote := PhysicalColumn.writeCell_wrote hvalid Nat.one_pos cell
    generalize (PhysicalColumn.data p).writeCell 0 cell
      ⟨(PhysicalColumn.data p).spec.fresh 1, tags⟩ = r at hrun hweighed hwrote
    obtain ⟨o, c', tags'⟩ := r
    simp only [List.map_cons, writeCells, Action.bind_apply, Action.liftM_apply, hrun]
    rw [List.forall₂_cons, foreignClasses]
    cases o with
    | error e =>
      refine ⟨fun h => (by cases h), ?_⟩
      rintro ⟨⟨htakes, -⟩, hroom⟩
      cases hweighed.ok_iff.mpr ⟨htakes, hroom.of_append⟩
    | ok u =>
      obtain ⟨htakes, -⟩ := hweighed.ok_iff.mp rfl
      have hdata' : ∀ k, schema[column + 1 + k]? = ps[k]?.map .data := by
        intro k
        rw [Nat.add_right_comm]
        exact hdata (k + 1)
      -- the room of all classes is what the first cell leaves to the others
      rw [← hweighed.room rfl, and_iff_right htakes, ← hwrote.tags_extends.serializers_eq]
      exact ih (column + 1) (Nat.succ.inj hlength) hdata' (fresh_behind hfresh c')
        (hwrote.tags_unique htags)

/-! ## Rows -/

/-- **The cells of a row behind its key.** The key is always taken. -/
theorem writeRow_ok_iff {m : SchemaMapping} {cells : List Cell} {key? : Option String} (r : Row)
    (hcells : r.outcomes = cells.map .ok) (hlength : cells.length = m.primitives.length)
    (hkey : key?.isSome = m.hasKeys) (htags : tags.Unique) (ht : t.cursor.schema = m.schema)
    (hroom : t.cursor.Room last) :
    (writeRow key? r (t.inRow last (m.schema.specs.map (·.fresh 1)), tags)).1 = .ok () ↔
      List.Forall₂ (·.Takes tags.serializers ·) m.primitives cells ∧
        tags.HasRoom (foreignClasses m.primitives cells) := by
  have hdata := m.getElem?_schema_data
  cases key? with
  | none =>
    rw [SchemaMapping.keyColumns, ← hkey] at hdata
    show (writeCells 0 r.outcomes _).1 = .ok () ↔ _
    rw [hcells]
    exact writeCells_ok_iff 0 hlength (fun k => (Nat.zero_add k).symm ▸ hdata k)
      (fun k _ => m.schema.getElem?_fresh 1 k) htags ht hroom
  | some key =>
    have hrowKey : m.schema[0]? = some .rowKey := SchemaMapping.getElem?_schema_key hkey.symm
    have hfresh : (m.schema.specs.map (·.fresh 1))[0]? =
        some (PhysicalColumn.rowKey.spec.fresh 1) := by
      rw [m.schema.getElem?_fresh, hrowKey, Option.map_some]
    -- the key is a text, so its column takes it in any case
    obtain ⟨s, -, -, hset⟩ := PhysicalColumn.setText_rowKey (ChunkSpec.spec_fresh _ 1)
      (ChunkSpec.uniform_fresh _ 1) Nat.one_pos key
    have hcell : PhysicalColumn.rowKey.writeCell 0 (.string key)
        ⟨PhysicalColumn.rowKey.spec.fresh 1, tags⟩ = (.ok (), ⟨.plain .rowKey s, tags⟩) :=
      PhysicalColumn.changeChunk_of_ok hset
    have hrun := WriteCursor.writeCell_fresh hroom (ht ▸ hrowKey) hfresh tags (.string key)
    rw [hcell] at hrun
    rw [writeRow_eq t last _ fun _ _ => ht ▸ hrowKey]
    simp only [withKey, Option.toList_some, List.map_cons, List.map_nil, List.cons_append,
      List.nil_append, hcells, writeCells, Action.bind_apply, Action.liftM_apply, hrun]
    rw [SchemaMapping.keyColumns, ← hkey] at hdata
    exact writeCells_ok_iff 1 hlength (fun k => (Nat.add_comm 1 k).symm ▸ hdata k)
      (fresh_behind (fun k _ => m.schema.getElem?_fresh 1 k) _) htags ht hroom

theorem writeRow_returns {key? : Option String} (r : Row) (hreturns : r.Returns)
    (hkey : ∀ key, key? = some key → schema[0]? = some .rowKey) (htags : tags.Unique)
    (ht : t.cursor.schema = schema) (hroom : t.cursor.Room last) :
    (writeRow key? r (t.inRow last (schema.specs.map (·.fresh 1)), tags)).1.Returns := by
  obtain ⟨o, row', tags', hw, hrun⟩ := writeRow_wrote htags hkey r
  rw [hrun ht hroom]
  refine hw.returns fun outcome houtcome => ?_
  rcases List.mem_append.mp houtcome with hmem | hmem
  · obtain ⟨key, -, rfl⟩ := List.mem_map.mp hmem
    trivial
  · exact hreturns outcome hmem

/-- **Appending a row** ends as writing it does, if a row can begin. -/
theorem appendRow_fst {base : MemoryStore} {rows : List (List Chunk)} (h : t.Lists base rows)
    (hopen : t.cursor.closed = false) (htags : tags.Unique) {key? : Option String}
    (hkey : ∀ key, key? = some key → t.cursor.schema[0]? = some .rowKey) (r : Row) :
    (t.cursor.Storable ∧
      ∃ (t₁ : WriteState) (last : List (List Chunk)), t₁.cursor.schema = t.cursor.schema ∧
        t₁.cursor.Room last ∧ (appendRow key? r (t, tags)).1 =
          (writeRow key? r (t₁.inRow last (t.cursor.schema.specs.map (·.fresh 1)), tags)).1) ∨
    (¬ t.cursor.Storable ∧ (appendRow key? r (t, tags)).1 = Outcome.abort .capacity) := by
  obtain ⟨t₁, last, halike, -, -, hroom, ⟨hstorable, hforward⟩ | ⟨habort, hforward⟩⟩ :=
    WriteCursor.forward_lists h hopen
  · refine .inl ⟨hstorable, t₁, last, halike.schema_eq, hroom, ?_⟩
    obtain ⟨o, row', tags', hw, hwrite⟩ := writeRow_wrote htags hkey r
    have hrun := hwrite halike.schema_eq hroom
    rw [appendRow_of_wrote hforward hrun hroom (halike.schema_eq ▸ hw.shapes), hrun]
  · exact .inr ⟨habort, congrArg Prod.fst (appendRow_of_error hforward tags key? r)⟩

end

/-! ## Containers -/

/-- What a container asks of a row of these cells. -/
structure Accepts (c : Container) (key? : Option String) (cells : List Cell) : Prop where
  width : cells.length = c.spec.size
  key : c.mapping.hasKeys = true → key?.isSome = true
  /-- No cell is unmaterialized, and the foreign ones have serializers that accept them. -/
  taken : List.Forall₂ (·.Takes c.mapping.tags.serializers ·) c.mapping.primitives cells
  room : c.mapping.tags.HasRoom (foreignClasses c.mapping.primitives cells)

/-- The container is open for more rows, of which a batch has so many. -/
structure Ready (chunkSize : Nat) (c : Container) (s : MemoryStore) : Prop extends c.Filling s where
  maps : c.spec.MapsTo c.mapping.primitives
  chunkSize_eq : c.cursor?.map WriteCursor.chunkSize = some chunkSize

variable {chunkSize : Nat} {c : Container} {s : MemoryStore} {key? : Option String}
  {cells : List Cell}

theorem Took.ready {options : StoreOptions} {rows : List Row} (h : c.Took options s rows) :
    c.Ready options.chunkSize s := by
  obtain ⟨cursor, hcursor, hwrote⟩ := h.written
  exact ⟨h.filling, h.maps, by rw [hcursor, Option.map_some, hwrote.chunkSize_eq]⟩

/-- **Any row** leaves the container open for more. -/
theorem Ready.add (h : c.Ready chunkSize s) (row : Row) :
    ∃ o c' s', Container.add row (c, s) = (o, (c', s')) ∧ c'.Ready chunkSize s' ∧
      c.Follows c' := by
  obtain ⟨o, c', s', hadd, hfilling, -, hfollows, hsize⟩ := h.toFilling.add row
  refine ⟨o, c', s', hadd, ⟨hfilling, ?_, hsize.trans h.chunkSize_eq⟩, hfollows⟩
  rw [hfollows.spec_eq, hfollows.primitives_eq]
  exact h.maps

theorem add_fst {cursor : WriteCursor} (hcursor : c.cursor? = some cursor) (r : Row) :
    (Container.add r (c, s)).1 =
      if r.size ≠ c.spec.size then
        Outcome.fail (.illegalState (.rowWidth r.size c.spec.size))
      else c.keyOf r >>= fun key? => (appendRow key? r (⟨cursor, s⟩, c.mapping.tags)).1 := by
  rw [add_apply hcursor]
  split
  · rfl
  · cases c.keyOf r with
    | error e => rfl
    | ok key? =>
      rw [Outcome.ok_bind]
      dsimp only
      generalize appendRow key? r (⟨cursor, s⟩, c.mapping.tags) = run
      rcases run with ⟨_ | _, _⟩ <;> rfl

theorem Ready.add_of_not_suits (h : c.Ready chunkSize s) {r : Row}
    (hr : ¬ r.Suits c.mapping.hasKeys c.spec.size) :
    ∃ e, (Container.add r (c, s)).1 = Outcome.fail e := by
  obtain ⟨cursor, -, -, hcursor, -⟩ := h.written
  rw [add_fst hcursor]
  by_cases hwidth : r.size = c.spec.size
  · have hkey : c.keyOf r = Outcome.fail (.illegalState .rowWithoutKey) := by
      cases hkeys : c.mapping.hasKeys with
      | false => exact absurd ⟨hwidth, fun h => by rw [hkeys] at h; cases h⟩ hr
      | true =>
        cases hkey : r.key? with
        | none => simp only [keyOf, hkeys, if_true, hkey]
        | some key => exact absurd ⟨hwidth, fun _ => ⟨key, hkey⟩⟩ hr
    exact ⟨_, by rw [if_neg (not_not_intro hwidth), hkey]; rfl⟩
  · exact ⟨_, if_pos hwidth⟩

/-- **A row that suits the table** is written as a new row, or is aborted if there cannot be one. -/
theorem Ready.add_of_suits (h : c.Ready chunkSize s) {r : Row}
    (hr : r.Suits c.mapping.hasKeys c.spec.size) :
    ((c.mapping.schema ≠ [] → chunkSize < 0x400000000000000) →
      ∃ (t : WriteState) (last : List (List Chunk)) (key? : Option String),
        t.cursor.schema = c.mapping.schema ∧ t.cursor.Room last ∧
        key?.isSome = c.mapping.hasKeys ∧ (Container.add r (c, s)).1 =
          (writeRow key? r
            (t.inRow last (c.mapping.schema.specs.map (·.fresh 1)), c.mapping.tags)).1) ∧
    (¬ (c.mapping.schema ≠ [] → chunkSize < 0x400000000000000) →
      (Container.add r (c, s)).1 = Outcome.abort .capacity) := by
  obtain ⟨cursor, base, rows, hcursor, hschema, hopen, hlists⟩ := h.written
  have hchunkSize : cursor.chunkSize = chunkSize := by
    have := h.chunkSize_eq
    rw [hcursor] at this
    exact Option.some.inj this
  have hwidth : r.size = c.spec.size := hr.length_eq
  -- a row that suits the table has a key if one is needed
  obtain ⟨key?, hkeyOf, hsome⟩ : ∃ key?, c.keyOf r = .ok key? ∧
      key?.isSome = c.mapping.hasKeys := by
    cases hkeys : c.mapping.hasKeys with
    | false => exact ⟨none, by rw [keyOf, hkeys]; rfl, rfl⟩
    | true =>
      obtain ⟨key, hkey⟩ := hr.key hkeys
      exact ⟨some key, by simp only [keyOf, hkeys, if_true, hkey], rfl⟩
  have hkey : ∀ key, key? = some key → cursor.schema[0]? = some .rowKey := by
    rintro key rfl
    rw [hschema]
    exact SchemaMapping.getElem?_schema_key hsome.symm
  rw [add_fst hcursor, if_neg (not_not_intro hwidth), hkeyOf, Outcome.ok_bind, ← hschema,
    ← hchunkSize]
  obtain ⟨hstorable, t, last, ht, hroom, hrun⟩ | ⟨habort, hrun⟩ :=
    appendRow_fst hlists hopen h.tags_unique hkey r
  · exact ⟨fun _ => ⟨t, last, key?, ht, hroom, hsome, hrun⟩, fun hnot => absurd hstorable hnot⟩
  · exact ⟨fun hstorable => absurd hstorable habort, fun _ => hrun⟩

theorem suits_ofCells {hasKeys : Bool} {width : Nat} :
    (Row.ofCells key? cells).Suits hasKeys width ↔
      cells.length = width ∧ (hasKeys = true → key?.isSome = true) := by
  have hlength : (Row.ofCells key? cells).outcomes.length = cells.length := List.length_map ..
  refine ⟨fun h => ⟨hlength ▸ h.length_eq, fun hkeys => ?_⟩, fun ⟨hwidth, hkey⟩ =>
    ⟨hlength.trans hwidth, fun hkeys => Option.isSome_iff_exists.mp (hkey hkeys)⟩⟩
  exact Option.isSome_iff_exists.mpr (h.key hkeys)

/-- **Which rows a container takes**: those that it accepts, where a batch can be stored. It refuses
all others with an error. -/
theorem Ready.add_ofCells (h : c.Ready chunkSize s)
    (hstorable : c.mapping.schema ≠ [] → chunkSize < 0x400000000000000) :
    (Container.add (.ofCells key? cells) (c, s)).1.Returns ∧
      ((Container.add (.ofCells key? cells) (c, s)).1 = .ok () ↔ c.Accepts key? cells) := by
  by_cases hsuits : (Row.ofCells key? cells).Suits c.mapping.hasKeys c.spec.size
  · obtain ⟨hwidth, hkey⟩ := suits_ofCells.mp hsuits
    obtain ⟨t, last, stored?, ht, hroom, hsome, hrun⟩ := (h.add_of_suits hsuits).1 hstorable
    rw [hrun]
    refine ⟨writeRow_returns _ (Row.returns_ofCells key? cells) ?_ h.tags_unique ht hroom, ?_⟩
    · rintro key rfl
      exact SchemaMapping.getElem?_schema_key hsome.symm
    · rw [writeRow_ok_iff _ rfl (hwidth.trans h.maps.length_eq.symm) hsome h.tags_unique ht hroom]
      exact ⟨fun ⟨htaken, hroom⟩ => ⟨hwidth, hkey, htaken, hroom⟩,
        fun haccepts => ⟨haccepts.taken, haccepts.room⟩⟩
  · obtain ⟨e, hrun⟩ := h.add_of_not_suits hsuits
    rw [hrun]
    exact ⟨trivial, fun hok => (by cases hok),
      fun haccepts => absurd (suits_ofCells.mpr ⟨haccepts.width, haccepts.key⟩) hsuits⟩

end Container

end Columnar
