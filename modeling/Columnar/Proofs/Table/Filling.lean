import Columnar.Proofs.Store.Contents
import Columnar.Proofs.Table.Container

/-!
# Containers of any rows

A cell of a row may abort when it is read. Then the part of the row that was written stays in the
open batch, and the container goes on with the next row all the same.

**Being filled** (`Container.Filling`). The open batch can be handed over whatever rows it has, and
those in the store are uniform. This is kept by every `add`, which counts the row if it is taken
(`Filling.add`), and so the container can be closed (`Filling.close`) or cleared (`Filling.clear`) at
any time. After that no row is taken.
-/

namespace Columnar

theorem MemoryStore.uniform_append_iff {base s : MemoryStore} {schema : Schema}
    {groups : List (List (List Chunk))}
    (hbatches : s.batches.toList =
      base.batches.toList ++ groups.map (Batch.ofRows schema.specs))
    (hshapes : ∀ row ∈ groups.flatten, schema.Shapes 1 row) : s.Uniform ↔ base.Uniform := by
  have hgroups : ∀ b ∈ groups.map (Batch.ofRows schema.specs), ∀ c ∈ b.chunks,
      c.Uniform b.rowCount := by
    intro b hb c hc
    obtain ⟨rows, hrows, rfl⟩ := List.mem_map.mp hb
    refine (Schema.shapes_ofRows fun row hrow => ?_).of_mem hc
    exact hshapes row (List.mem_flatten_of_mem hrows hrow)
  rw [Uniform, hbatches, List.forall_mem_append]
  exact and_iff_left hgroups

/-- A store that a cursor writes to is uniform if it was so before. -/
theorem WriteState.Lists.uniform_iff {base : MemoryStore} {t : WriteState}
    {rows : List (List Chunk)} (h : t.Lists base rows) : t.store.Uniform ↔ base.Uniform := by
  obtain ⟨last, hstores, -⟩ := h
  obtain ⟨full, -, hbatches, hrows⟩ := hstores.stored
  exact MemoryStore.uniform_append_iff hbatches fun row hrow =>
    hstores.shapes row (hrows ▸ List.mem_append_left last hrow)

namespace Container

/-- The container is open, and its cursor has written some rows. -/
structure Filling (c : Container) (s : MemoryStore) : Prop where
  tags_unique : c.mapping.tags.Unique
  uniform : s.Uniform
  written : ∃ (cursor : WriteCursor) (base : MemoryStore) (rows : List (List Chunk)),
    c.cursor? = some cursor ∧ cursor.schema = c.mapping.schema ∧ cursor.closed = false ∧
      WriteState.Lists base ⟨cursor, s⟩ rows

variable {c : Container} {s : MemoryStore}

theorem Took.filling {options : StoreOptions} {rows : List Row} (h : c.Took options s rows) :
    c.Filling s := by
  obtain ⟨cursor, hcursor, hwrote⟩ := h.written
  obtain ⟨chunkRows, hlists, -⟩ := hwrote.lists
  have huniform : s.Uniform := hlists.uniform_iff.mpr fun _ h => absurd h List.not_mem_nil
  exact ⟨h.tags_unique, huniform, cursor, _, chunkRows, hcursor, hwrote.schema_eq, hwrote.is_open,
    hlists⟩

/-- **Appending a row** keeps the cursor in order, also if it is aborted. -/
theorem appendRow_lists {base : MemoryStore} {t : WriteState} {rows : List (List Chunk)}
    (h : t.Lists base rows) (hopen : t.cursor.closed = false) {tags : ClassTags}
    (htags : tags.Unique) {key? : Option String}
    (hkey : ∀ key, key? = some key → t.cursor.schema[0]? = some .rowKey) (r : Row) :
    ∃ o t' rows' tags', appendRow key? r (t, tags) = (o, (t', tags')) ∧ t'.Lists base rows' ∧
      t.cursor.Alike t'.cursor ∧ tags'.Unique ∧ tags.Extends tags' := by
  obtain ⟨t₁, last, halike, hstores, hbuffers, hroom, ⟨hstorable, hforward⟩ | ⟨-, hforward⟩⟩ :=
    WriteCursor.forward_lists h hopen
  · obtain ⟨o, row', tags', hw, hwrite⟩ := writeRow_wrote htags hkey r
    have hshapes : t₁.cursor.schema.Shapes 1 row' := halike.schema_eq ▸ hw.shapes
    have hrun := appendRow_of_wrote hforward (hwrite halike.schema_eq hroom) hroom hshapes
    have ht₁ := halike.storable_iff.mpr hstorable
    have hdropped := hstores.lists_withRows ht₁ hroom
    have hlists' := hstores.lists_inRow ht₁ hroom hshapes
    -- what an error leaves behind is dropped, what an abort leaves behind is not
    rcases o with (e | a) | _
    · exact ⟨_, _, rows, tags', hrun, hdropped, halike.withRows _, hw.tags_unique, hw.tags_extends⟩
    · exact ⟨_, _, _, tags', hrun, hlists', halike.withRows _, hw.tags_unique, hw.tags_extends⟩
    · exact ⟨_, _, _, tags', hrun, hlists', halike.withRows _, hw.tags_unique, hw.tags_extends⟩
  · exact ⟨Outcome.abort .capacity, t₁, rows, tags, appendRow_of_error hforward tags key? r,
      ⟨last, hstores, hbuffers⟩, halike, htags, .refl tags⟩

namespace Filling

/-- **Any row** is counted if it is taken, and the same container is filled further. -/
theorem add (h : c.Filling s) (row : Row) :
    ∃ o c' s', Container.add row (c, s) = (o, (c', s')) ∧ c'.Filling s' ∧
      c'.size = (c.size + if o.isOk then 1 else 0) ∧ c.Follows c' ∧
      c'.cursor?.map WriteCursor.chunkSize = c.cursor?.map WriteCursor.chunkSize := by
  obtain ⟨cursor, base, rows, hcursor, hschema, hopen, hlists⟩ := h.written
  by_cases hsize : row.size = c.spec.size
  · cases hkey : c.keyOf row with
    | error e =>
      refine ⟨.error e, c, s, ?_, h, rfl, .refl c, rfl⟩
      simp only [add_apply hcursor, hsize, ne_eq, not_true, if_false, hkey]
    | ok key? =>
      obtain ⟨hfound, -, -⟩ := keyOf_eq_ok hkey
      obtain ⟨o, t', rows', tags', hrun, hlists', halike, htags', hext⟩ :=
        appendRow_lists hlists hopen h.tags_unique
          (fun key hk => hschema ▸ SchemaMapping.getElem?_schema_key (hfound key hk)) row
      have hadd := add_apply (s := s) hcursor row
      simp only [hsize, ne_eq, not_true, if_false, hkey, hrun] at hadd
      have hschema' : t'.cursor.schema = c.mapping.schema := halike.schema_eq.trans hschema
      have hopen' : t'.cursor.closed = false := halike.closed_eq.trans hopen
      have huniform : t'.store.Uniform := hlists'.uniform_iff.mpr (hlists.uniform_iff.mp h.uniform)
      have hwritten : ∃ (cursor : WriteCursor) (base : MemoryStore) (rows : List (List Chunk)),
          some t'.cursor = some cursor ∧ cursor.schema = c.mapping.schema ∧
            cursor.closed = false ∧ WriteState.Lists base ⟨cursor, t'.store⟩ rows :=
        ⟨t'.cursor, base, rows', rfl, hschema', hopen', hlists'⟩
      have hsize' : some t'.cursor.chunkSize = c.cursor?.map WriteCursor.chunkSize := by
        rw [halike.chunkSize_eq, hcursor, Option.map_some]
      -- a row that fails is not counted, and only the tags of its classes stay
      cases o with
      | error e =>
        exact ⟨_, _, _, hadd, ⟨htags', huniform, hwritten⟩, rfl, ⟨rfl, rfl, rfl, rfl, hext⟩, hsize'⟩
      | ok u =>
        exact ⟨_, _, _, hadd, ⟨htags', huniform, hwritten⟩, rfl, ⟨rfl, rfl, rfl, rfl, hext⟩, hsize'⟩
  · refine ⟨Outcome.fail (.illegalState (.rowWidth row.size c.spec.size)), c, s, ?_, h, rfl,
      .refl c, rfl⟩
    rw [add_apply hcursor, if_pos hsize]

/-- **It can be closed.** -/
theorem close (h : c.Filling s) :
    ∃ s', Container.close (c, s) = (.ok (), (c.update none c.mapping.tags, s')) ∧ s'.Uniform := by
  obtain ⟨cursor, base, rows, hcursor, -, hopen, hlists⟩ := h.written
  obtain ⟨t', groups, hrun, -, -, hbatches, hrows, -⟩ := WriteCursor.close_lists hlists hopen
  refine ⟨t'.store, ?_, ?_⟩
  · simp only [Container.close, Action.bind_apply, Action.get_apply, hcursor, Action.on_apply, hrun]
  · have hbase := hlists.uniform_iff.mp h.uniform
    obtain ⟨last, hstores, -⟩ := hlists
    exact (MemoryStore.uniform_append_iff hbatches (hrows ▸ hstores.shapes)).mpr hbase

/-- **It can be cleared**, which closes its store. -/
theorem clear (h : c.Filling s) :
    ∃ s' : MemoryStore,
      Container.clear (c, s) = (.ok (), (c.update none c.mapping.tags, s'.close)) := by
  obtain ⟨s', hclose, -⟩ := h.close
  refine ⟨s', ?_⟩
  simp only [Container.clear, Action.bind_apply, Action.quietly_apply, hclose]
  rfl

end Filling

/-! ## Afterwards -/

theorem add_closed (h : c.cursor? = none) (row : Row) (s : MemoryStore) :
    add row (c, s) = (Outcome.fail (.closed .rowContainer), (c, s)) := by
  simp only [add, Action.bind_apply, Action.get_apply, h]
  rfl

theorem close_closed (h : c.cursor? = none) (s : MemoryStore) :
    close (c, s) = (.ok (), (c, s)) := by
  simp only [close, Action.bind_apply, Action.get_apply, h]
  rfl

theorem clear_closed (h : c.cursor? = none) (s : MemoryStore) :
    clear (c, s) = (.ok (), (c, s.close)) := by
  simp only [clear, Action.bind_apply, Action.quietly_apply, close_closed h]
  rfl

end Container

end Columnar
