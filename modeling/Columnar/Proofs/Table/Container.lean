import Columnar.Proofs.Cursor.Write
import Columnar.Proofs.Table.Rows
import Columnar.Table.Container

/-!
# What a container holds

**One row.** `writeCells_wrote` follows a row through its columns: whatever fails on the way leaves
a row in progress of the right shape, which is then dropped. So a row that is refused leaves the
rows as they were, and one that is taken is added to them (`exists_appends`). What becomes of a row
depends on the columns and the class tags, and not on the rows before it.

**The container** (`Container.Took`). The cells of the rows taken so far settle the rows that its
cursor has written, and its size is their number. This is kept by every `add` (`exists_adds`),
whether the row is taken or not, and closing the container leaves all of them in the batches of the
store (`close_took`). Its table has them as far as its columns keep them (`Finished.holds`).
-/

namespace Columnar

/-! ## Writing one row -/

namespace Container

theorem fresh_behind {schema : Schema} {row : List Chunk} {column : Nat}
    (h : ∀ k, column ≤ k → row[k]? = schema[k]?.map (·.spec.fresh 1)) (c : Chunk) :
    ∀ k, column + 1 ≤ k → (row.set column c)[k]? = schema[k]?.map (·.spec.fresh 1) := by
  intro k hk
  rw [List.getElem?_set_ne (by omega), h k (by omega)]

/-- What holds after cells were written into a row from a column on, successfully or not. -/
structure WroteCells (schema : Schema) (column : Nat) (outcomes : List (Outcome Cell))
    (row : List Chunk) (tags : ClassTags) (o : Outcome Unit) (row' : List Chunk)
    (tags' : ClassTags) : Prop where
  returns : (∀ outcome ∈ outcomes, outcome.Returns) → o.Returns
  shapes : schema.Shapes 1 row'
  tags_unique : tags'.Unique
  tags_extends : tags.Extends tags'
  kept : ∀ k < column, row'[k]? = row[k]?
  settled : o = .ok () → ∀ {k : Nat} {outcome : Outcome Cell}, outcomes[k]? = some outcome →
    ∀ {access : PhysicalColumn} {c : Chunk}, schema[column + k]? = some access →
      row'[column + k]? = some c → ∃ cell, outcome = .ok cell ∧ access.Settled tags' cell c

/-- A run that stops before the next cell. -/
theorem wroteCells_stop {schema : Schema} {column : Nat} {outcomes : List (Outcome Cell)}
    {row row' : List Chunk} {tags tags' : ClassTags} {e : Failure}
    (he : (∀ outcome ∈ outcomes, outcome.Returns) → Outcome.Returns (.error e : Outcome Unit))
    (hshapes : schema.Shapes 1 row')
    (hunique : tags'.Unique) (hext : tags.Extends tags')
    (hkept : ∀ k < column, row'[k]? = row[k]?) :
    WroteCells schema column outcomes row tags (.error e) row' tags' :=
  ⟨he, hshapes, hunique, hext, hkept, fun h => by cases h⟩

theorem WroteCells.cons {schema : Schema} {column : Nat} {access : PhysicalColumn} {cell : Cell}
    {outcomes : List (Outcome Cell)} {row row' : List Chunk} {c' : Chunk}
    {tags tags' tags'' : ClassTags} {o : Outcome Unit} (hcolumn : schema[column]? = some access)
    (hc : row[column]? = some (access.spec.fresh 1)) (hext : tags.Extends tags')
    (hunique : tags'.Unique)
    (hwrite : access.writeCell 0 cell ⟨access.spec.fresh 1, tags⟩ = (.ok (), ⟨c', tags'⟩))
    (hw : WroteCells schema (column + 1) outcomes (row.set column c') tags' o row' tags'') :
    WroteCells schema column (.ok cell :: outcomes) row tags o row' tags'' := by
  have hlt : column < row.length := (List.getElem?_eq_some_iff.mp hc).1
  refine ⟨fun hreturns => hw.returns fun o ho => hreturns o (List.mem_cons_of_mem _ ho), hw.shapes,
    hw.tags_unique, hext.trans hw.tags_extends, fun k hk => ?_,
    fun ho k outcome hk access' d hs hd => ?_⟩
  · rw [hw.kept k (Nat.lt_succ_of_lt hk), List.getElem?_set_ne (Nat.ne_of_gt hk)]
  · cases k with
    | zero =>
      -- the chunk written first is still there, under later tags
      cases hk
      rw [Nat.add_zero, hw.kept column (Nat.lt_succ_self column), List.getElem?_set_self hlt] at hd
      rw [Nat.add_zero, hcolumn] at hs
      cases hs
      cases hd
      have hsettled : access.Settled tags' cell c' :=
        PhysicalColumn.writeCell_again hwrite (.refl _) hunique.nodup
      exact ⟨cell, rfl, hsettled.mono hw.tags_extends hw.tags_unique.nodup⟩
    | succ k =>
      rw [← Nat.add_assoc, Nat.add_right_comm] at hs hd
      exact hw.settled ho hk hs hd

/-- **Writing cells column by column** into fresh slots touches nothing but the row in progress and
the tags, and what it does to them does not depend on anything else. -/
theorem writeCells_wrote (schema : Schema) (outcomes : List (Outcome Cell)) (column : Nat)
    {row : List Chunk} {tags : ClassTags}
    (hshapes : schema.Shapes 1 row)
    (hfresh : ∀ k, column ≤ k → row[k]? = schema[k]?.map (·.spec.fresh 1)) (htags : tags.Unique) :
    ∃ o row' tags', WroteCells schema column outcomes row tags o row' tags' ∧
      ∀ {t : WriteState} {last : List (List Chunk)}, t.cursor.schema = schema →
        t.cursor.Room last →
        writeCells column outcomes (t.inRow last row, tags) = (o, (t.inRow last row', tags')) := by
  induction outcomes generalizing column row tags with
  | nil =>
    exact ⟨.ok (), row, tags, ⟨fun _ => trivial, hshapes, htags, .refl tags, fun _ _ => rfl,
      fun _ _ _ h => by cases h⟩, fun _ _ => rfl⟩
  | cons outcome outcomes ih =>
    cases outcome with
    -- a cell that has no value is not written at all
    | error e =>
      exact ⟨.error e, row, tags, wroteCells_stop (fun h => (h _ List.mem_cons_self).error) hshapes
        htags (.refl tags) fun _ _ => rfl, fun _ _ => rfl⟩
    | ok cell =>
      cases hcolumn : schema[column]? with
      | none =>
        refine ⟨Outcome.fail (.invalidColumn column), row, tags,
          wroteCells_stop (fun _ => trivial) hshapes htags (.refl tags) fun _ _ => rfl,
          fun {t last} ht _ => ?_⟩
        have hrun : WriteCursor.writeCell column cell (t.inRow last row, tags) =
            (Outcome.fail (.invalidColumn column), (t.inRow last row, tags)) :=
          WriteCursor.atSlot_outside (ht ▸ hcolumn) last row _ tags
        simp only [writeCells, Action.bind_apply, Action.liftM_apply, hrun]
        rfl
      | some access =>
        have hc : row[column]? = some (access.spec.fresh 1) := by
          rw [hfresh column (Nat.le_refl _), hcolumn, Option.map_some]
        have hwrote := PhysicalColumn.writeCell_wrote (t := ⟨access.spec.fresh 1, tags⟩)
          ⟨access.spec.spec_fresh 1, access.spec.uniform_fresh 1, htags.toValid⟩ Nat.one_pos cell
        have hrun := fun {t : WriteState} {last : List (List Chunk)} (ht : t.cursor.schema = schema)
            (hroom : t.cursor.Room last) =>
          WriteCursor.writeCell_fresh hroom (ht ▸ hcolumn) hc tags cell
        generalize hr : access.writeCell 0 cell ⟨access.spec.fresh 1, tags⟩ = r at hrun hwrote
        obtain ⟨o, c', tags'⟩ := r
        have hunique := hwrote.tags_unique htags
        have hset := hshapes.set hcolumn hwrote.valid.spec_eq hwrote.valid.uniform
        cases o with
        | error e =>
          -- the slot has changed, though the cell was refused
          refine ⟨.error e, row.set column c', tags',
            wroteCells_stop (fun _ => hwrote.returns.error) hset hunique hwrote.tags_extends
              fun k hk => List.getElem?_set_ne (Nat.ne_of_gt hk),
            fun ht hroom => ?_⟩
          simp only [writeCells, Action.bind_apply, Action.liftM_apply, hrun ht hroom]
        | ok u =>
          obtain ⟨o, row', tags'', hw, hrest⟩ :=
            ih (column + 1) hset (fresh_behind hfresh c') hunique
          refine ⟨o, row', tags'', .cons hcolumn hc hwrote.tags_extends hunique hr hw,
            fun ht hroom => ?_⟩
          simp only [writeCells, Action.bind_apply, Action.liftM_apply, hrun ht hroom,
            hrest ht hroom]

/-- **A row that was written from its first column to its last** is settled by its cells. -/
theorem WroteCells.settles {schema : Schema} {outcomes : RowOutcomes} {row row' : List Chunk}
    {tags tags' : ClassTags} (h : WroteCells schema 0 outcomes row tags (.ok ()) row' tags')
    (hlength : outcomes.length = schema.length) : schema.Settles tags' row' outcomes := by
  refine ⟨hlength, h.shapes, fun {j column c} hj hc => ?_⟩
  have hlt : j < outcomes.length := hlength ▸ (List.getElem?_eq_some_iff.mp hj).1
  have hout := List.getElem?_eq_getElem hlt
  rw [← Nat.zero_add j] at hj hc
  obtain ⟨cell, hcell, hsettled⟩ := h.settled rfl hout hj hc
  exact ⟨cell, hcell ▸ hout, hsettled⟩

/-- The cells of a row behind its key, if that is stored. -/
def withKey (key? : Option String) (outcomes : RowOutcomes) : RowOutcomes :=
  key?.toList.map (fun key => .ok (.string key)) ++ outcomes

theorem writeRow_eq (t : WriteState) (last : List (List Chunk)) (row : List Chunk)
    {tags : ClassTags} {key? : Option String}
    (hkey : ∀ key, key? = some key → t.cursor.schema[0]? = some .rowKey) (r : Row) :
    writeRow key? r (t.inRow last row, tags) =
      writeCells 0 (withKey key? r.outcomes) (t.inRow last row, tags) := by
  cases key? with
  | none => rfl
  | some key =>
    have hwrite := WriteCursor.write_key (hkey key rfl) last row tags key
    show ((WriteCursor.write 0 fun chunk i => chunk.setText i key).on Prod.fst _ >>= fun _ =>
      writeCells 1 r.outcomes) (t.inRow last row, tags) = _
    rw [Action.bind_apply, hwrite]
    rfl

/-- **Writing a new row** touches nothing else. -/
theorem writeRow_wrote {schema : Schema} {tags : ClassTags} (htags : tags.Unique)
    {key? : Option String} (hkey : ∀ key, key? = some key → schema[0]? = some .rowKey) (r : Row) :
    ∃ o row' tags', WroteCells schema 0 (withKey key? r.outcomes) (schema.specs.map (·.fresh 1))
        tags o row' tags' ∧
      ∀ {t : WriteState} {last : List (List Chunk)}, t.cursor.schema = schema →
        t.cursor.Room last → writeRow key? r (t.inRow last (schema.specs.map (·.fresh 1)), tags) =
          (o, (t.inRow last row', tags')) := by
  obtain ⟨o, row', tags', hw, hrun⟩ := writeCells_wrote schema (withKey key? r.outcomes) 0
    (Schema.shapes_fresh schema 1) (fun k _ => schema.getElem?_fresh 1 k) htags
  refine ⟨o, row', tags', hw, fun {t last} ht hroom => ?_⟩
  rw [writeRow_eq t last _ (ht ▸ hkey), hrun ht hroom]

/-- What a row that was written leaves. An error drops the row, an abort leaves there what was
written. -/
def afterRow (t : WriteState) (last : List (List Chunk)) (row : List Chunk) :
    Outcome Unit → WriteState
  | .error (.error _) => t.withRows last
  | _ => t.inRow last row

/-- **Appending a row** ends as writing it does. -/
theorem appendRow_of_wrote {t t₁ : WriteState} {last : List (List Chunk)} {row row' : List Chunk}
    {tags tags' : ClassTags} {key? : Option String} {r : Row} {o : Outcome Unit}
    (hforward : WriteCursor.forward t = (.ok (), t₁.inRow last row))
    (hwrite : writeRow key? r (t₁.inRow last row, tags) = (o, (t₁.inRow last row', tags')))
    (hroom : t₁.cursor.Room last) (hshapes : t₁.cursor.schema.Shapes 1 row') :
    appendRow key? r (t, tags) = (o, (afterRow t₁ last row' o, tags')) := by
  simp only [appendRow, Action.bind_apply, Action.on_apply, hforward, Action.attempt_apply, hwrite]
  rcases o with (e | a) | _
  · simp only [Action.bind_apply, Action.on_apply, WriteCursor.dropRow_inRow hroom hshapes]
    rfl
  · rfl
  · rfl

theorem appendRow_of_error {t t₁ : WriteState} {e : Failure}
    (h : WriteCursor.forward t = (.error e, t₁)) (tags : ClassTags) (key? : Option String)
    (r : Row) : appendRow key? r (t, tags) = (.error e, (t₁, tags)) := by
  simp only [appendRow, Action.bind_apply, Action.on_apply, h]

end Container

/-! ## Appending a row -/

/-- The cursor has written rows to a new store of these options, and the cells settle them. -/
structure WriteState.Wrote (options : StoreOptions) (schema : Schema) (tags : ClassTags)
    (t : WriteState) (cells : List RowOutcomes) : Prop where
  schema_eq : t.cursor.schema = schema
  chunkSize_eq : t.cursor.chunkSize = options.chunkSize
  is_open : t.cursor.closed = false
  storable : cells ≠ [] → t.cursor.Storable
  lists : ∃ rows, t.Lists (.empty schema.specs options.checksum) rows ∧
    List.Forall₂ (schema.Settles tags) rows cells

theorem WriteState.Wrote.step {options : StoreOptions} {schema : Schema} {tags tags' : ClassTags}
    {t t' : WriteState} {cells cells' : List RowOutcomes} {rows : List (List Chunk)}
    (h : t.Wrote options schema tags cells) (halike : t.cursor.Alike t'.cursor)
    (hstorable : cells' ≠ [] → t.cursor.Storable)
    (hlists : t'.Lists (.empty schema.specs options.checksum) rows)
    (hsettles : List.Forall₂ (schema.Settles tags') rows cells') :
    t'.Wrote options schema tags' cells' :=
  ⟨halike.schema_eq.trans h.schema_eq, halike.chunkSize_eq.trans h.chunkSize_eq,
    halike.closed_eq.trans h.is_open, fun hne => halike.storable_iff.mpr (hstorable hne), rows,
    hlists, hsettles⟩

theorem WriteState.Wrote.storable_iff {options : StoreOptions} {schema : Schema} {tags : ClassTags}
    {t : WriteState} {cells : List RowOutcomes} (h : t.Wrote options schema tags cells) :
    t.cursor.Storable ↔ (schema ≠ [] → options.chunkSize < 0x400000000000000) := by
  rw [WriteCursor.Storable, h.schema_eq, h.chunkSize_eq]

namespace Container

/-- With every cursor of the columns and options, the row comes to `o` and these tags, and it is one
more row if that is a success. -/
structure Appends (options : StoreOptions) (schema : Schema) (tags : ClassTags)
    (key? : Option String) (r : Row) (o : Outcome Unit) (tags' : ClassTags) : Prop where
  tags_unique : tags'.Unique
  tags_extends : tags.Extends tags'
  run : ∀ {t : WriteState} {cells : List RowOutcomes}, t.Wrote options schema tags cells →
    ∃ t', appendRow key? r (t, tags) = (o, (t', tags')) ∧
      t'.Wrote options schema tags' (cells ++ if o.isOk then [withKey key? r.outcomes] else [])

section

variable {options : StoreOptions} {schema : Schema} {tags tags' : ClassTags} {t : WriteState}
  {cells : List RowOutcomes} {key? : Option String} {r : Row} {o : Outcome Unit}

theorem begin_row (h : t.Wrote options schema tags cells) (hstorable : t.cursor.Storable) :
    ∃ (t₁ : WriteState) (rows last : List (List Chunk)),
      WriteCursor.forward t = (.ok (), t₁.inRow last (schema.specs.map (·.fresh 1))) ∧
      t.cursor.Alike t₁.cursor ∧
      t₁.Stores (.empty schema.specs options.checksum) rows last ∧ t₁.cursor.Room last ∧
      List.Forall₂ (schema.Settles tags) rows cells := by
  obtain ⟨rows, hlists, hsettles⟩ := h.lists
  obtain ⟨t₁, last, halike, hstores, -, hroom, ⟨-, hforward⟩ | ⟨habort, -⟩⟩ :=
    WriteCursor.forward_lists hlists h.is_open
  · exact ⟨t₁, rows, last, h.schema_eq ▸ hforward, halike, hstores, hroom, hsettles⟩
  · exact absurd hstorable habort

/-- No row begins. -/
theorem appends_abort (htags : tags.Unique) (key? : Option String) (r : Row)
    (hstorable : ¬ (schema ≠ [] → options.chunkSize < 0x400000000000000)) :
    Appends options schema tags key? r (Outcome.abort .capacity) tags where
  tags_unique := htags
  tags_extends := .refl tags
  run {t cells} h := by
    obtain ⟨rows, hlists, hsettles⟩ := h.lists
    obtain ⟨t', last, halike, hstores, hbuffers, -, ⟨hok, -⟩ | ⟨-, hforward⟩⟩ :=
      WriteCursor.forward_lists hlists h.is_open
    · exact absurd (h.storable_iff.mp hok) hstorable
    · refine ⟨t', appendRow_of_error hforward tags key? r,
        h.step halike (fun hne => ?_) ⟨last, hstores, hbuffers⟩ ?_⟩
      · exact h.storable (List.append_nil cells ▸ hne)
      · exact (List.append_nil cells).symm ▸ hsettles

/-- **A row is added as a whole or not at all**, whatever rows there are. -/
theorem exists_appends (options : StoreOptions) (htags : tags.Unique) (hreturns : r.Returns)
    (hkey : ∀ key, key? = some key → schema[0]? = some .rowKey)
    (hlength : (withKey key? r.outcomes).length = schema.length) :
    ∃ o tags', Appends options schema tags key? r o tags' := by
  by_cases hstorable : schema ≠ [] → options.chunkSize < 0x400000000000000
  · have hall : ∀ o : Outcome Cell, o ∈ withKey key? r.outcomes → o.Returns := by
      intro o ho
      rcases List.mem_append.mp ho with ho | ho
      · obtain ⟨key, -, rfl⟩ := List.mem_map.mp ho
        trivial
      · exact hreturns o ho
    obtain ⟨o, row', tags', hw, hwrite⟩ := writeRow_wrote htags hkey r
    refine ⟨o, tags', hw.tags_unique, hw.tags_extends, fun {t cells} h => ?_⟩
    have ht := h.storable_iff.mpr hstorable
    obtain ⟨t₁, rows, last, hforward, halike, hstores, hroom, hsettles⟩ := begin_row h ht
    have hschema : t₁.cursor.schema = schema := halike.schema_eq.trans h.schema_eq
    have hrun := appendRow_of_wrote hforward (hwrite hschema hroom) hroom (hschema ▸ hw.shapes)
    have hsettled := hsettles.imp fun _ _ hs => hs.mono hw.tags_extends hw.tags_unique
    have ht₁ := halike.storable_iff.mpr ht
    -- a refused row is dropped, and only reading a cell can abort
    rcases o with (e | a) | _
    · refine ⟨_, hrun, h.step (halike.withRows _) (fun _ => ht)
        (hstores.lists_withRows ht₁ hroom) ?_⟩
      exact (List.append_nil cells).symm ▸ hsettled
    · exact (hw.returns hall).elim
    · exact ⟨_, hrun, h.step (halike.withRows _) (fun _ => ht)
        (hstores.lists_inRow ht₁ hroom (hschema ▸ hw.shapes))
        (List.rel_append hsettled (.cons (hw.settles hlength) .nil))⟩
  · exact ⟨_, tags, appends_abort htags key? r hstorable⟩

end

end Container

/-! ## Taking rows -/

/-- The container counts the rows, and they are rows of its table. -/
structure Container.Counts (c : Container) (rows : List Row) : Prop where
  tags_unique : c.mapping.tags.Unique
  maps : c.spec.MapsTo c.mapping.primitives
  size_eq : c.size = rows.length
  suits : ∀ r ∈ rows, r.Suits c.mapping.hasKeys c.spec.size

/-- The container has taken the rows, in order, and no others. -/
structure Container.Took (options : StoreOptions) (c : Container) (s : MemoryStore)
    (rows : List Row) : Prop extends c.Counts rows where
  written : ∃ cursor, c.cursor? = some cursor ∧
    WriteState.Wrote options c.mapping.schema c.mapping.tags ⟨cursor, s⟩
      (rows.map (·.physical c.mapping.hasKeys))

/-- The container is closed and has put the rows into the batches of its store. -/
structure Container.Finished (options : StoreOptions) (c : Container) (s : MemoryStore)
    (rows : List Row) : Prop extends c.Counts rows where
  no_cursor : c.cursor? = none
  store_eq : s = { MemoryStore.empty c.mapping.schema.specs options.checksum with
    batches := s.batches }
  batches_eq : ∃ groups, s.batches.toList = groups.map (Batch.ofRows c.mapping.schema.specs) ∧
    Grouped options.chunkSize groups ∧
    List.Forall₂ (c.mapping.schema.Settles c.mapping.tags) groups.flatten
      (rows.map (·.physical c.mapping.hasKeys))

/-- The container `c'` fills the same table as `c`, with the class tags of `c` or more. -/
structure Container.Follows (c c' : Container) : Prop where
  id_eq : c'.id = c.id
  spec_eq : c'.spec = c.spec
  hasKeys_eq : c'.mapping.hasKeys = c.mapping.hasKeys
  primitives_eq : c'.mapping.primitives = c.mapping.primitives
  tags_extends : c.mapping.tags.Extends c'.mapping.tags

namespace Container

theorem Follows.refl (c : Container) : c.Follows c := ⟨rfl, rfl, rfl, rfl, .refl _⟩

theorem Follows.trans {c₁ c₂ c₃ : Container} (h₁ : c₁.Follows c₂) (h₂ : c₂.Follows c₃) :
    c₁.Follows c₃ :=
  ⟨h₂.id_eq.trans h₁.id_eq, h₂.spec_eq.trans h₁.spec_eq, h₂.hasKeys_eq.trans h₁.hasKeys_eq,
    h₂.primitives_eq.trans h₁.primitives_eq, h₁.tags_extends.trans h₂.tags_extends⟩

theorem create_took (id : Int64) {spec : TableSpec} {mapping : SchemaMapping}
    {options : StoreOptions} (hsize : 0 < options.chunkSize) (htags : mapping.tags.Unique)
    (hmaps : spec.MapsTo mapping.primitives) :
    ∃ c s, create id spec mapping options = .ok (c, s) ∧ c.Took options s [] ∧ c.id = id ∧
      c.spec = spec ∧ c.mapping = mapping := by
  refine ⟨_, _, by rw [create, WriteCursor.create, if_pos hsize]; rfl, ?_, rfl, rfl, rfl⟩
  exact {
    tags_unique := htags
    maps := hmaps
    size_eq := rfl
    suits := fun r hr => absurd hr List.not_mem_nil
    written := ⟨_, rfl, rfl, rfl, rfl, fun h => absurd rfl h, [],
      WriteState.lists_nil hsize rfl rfl, .nil⟩ }

/-- The key that is found for a row is in front of its cells when they are stored. -/
theorem keyOf_eq_ok {c : Container} {r : Row} {key? : Option String} (h : c.keyOf r = .ok key?) :
    (∀ key, key? = some key → c.mapping.hasKeys = true) ∧
      (c.mapping.hasKeys = true → ∃ key, r.key? = some key) ∧
      withKey key? r.outcomes = r.physical c.mapping.hasKeys := by
  unfold keyOf at h
  cases hkeys : c.mapping.hasKeys with
  | false =>
    rw [hkeys] at h
    cases h
    exact ⟨fun _ h => (by cases h), fun h => (by cases h), rfl⟩
  | true =>
    rw [hkeys, if_pos rfl] at h
    cases hkey : r.key? with
    | none =>
      rw [hkey] at h
      cases h
    | some key =>
      rw [hkey] at h
      cases h
      refine ⟨fun _ _ => rfl, fun _ => ⟨key, rfl⟩, ?_⟩
      rw [Row.physical, hkey]
      rfl

theorem add_apply {c : Container} {s : MemoryStore} {cursor : WriteCursor}
    (hcursor : c.cursor? = some cursor) (r : Row) :
    add r (c, s) =
      if r.size ≠ c.spec.size then
        (Outcome.fail (.illegalState (.rowWidth r.size c.spec.size)), (c, s))
      else match c.keyOf r with
        | .error e => (.error e, (c, s))
        | .ok key? => match appendRow key? r (⟨cursor, s⟩, c.mapping.tags) with
          | (.ok (), (t, tags)) =>
            (.ok (), ({ c.update (some t.cursor) tags with size := c.size + 1 }, t.store))
          | (.error e, (t, tags)) => (.error e, (c.update (some t.cursor) tags, t.store)) := by
  by_cases hsize : r.size = c.spec.size
  · rw [if_neg (not_not_intro hsize)]
    cases hkey : c.keyOf r with
    | error e =>
      simp only [add, Action.bind_apply, Action.get_apply, hcursor, hsize, ne_eq, not_true,
        if_false, hkey, Action.liftM_apply]
    | ok key? =>
      simp only [add, Action.bind_apply, Action.get_apply, hcursor, hsize, ne_eq, not_true,
        if_false, hkey, Action.liftM_apply, Action.on_apply]
      rcases appendRow key? r (⟨cursor, s⟩, c.mapping.tags) with ⟨_ | _, _⟩ <;> rfl
  · rw [if_pos hsize]
    simp only [add, Action.bind_apply, Action.get_apply, hcursor, hsize, ne_eq, not_false_iff,
      if_true]
    rfl

/-- With every container of the table, the row comes to `o` and these tags, and it is one more row
if that is a success. -/
structure Adds (options : StoreOptions) (spec : TableSpec) (mapping : SchemaMapping) (r : Row)
    (o : Outcome Unit) (tags' : ClassTags) : Prop where
  tags_extends : mapping.tags.Extends tags'
  run : ∀ {c : Container} {s : MemoryStore} {rows : List Row}, c.Took options s rows →
    c.spec = spec → c.mapping = mapping → ∃ c' s', add r (c, s) = (o, (c', s')) ∧ c.Follows c' ∧
      c'.mapping = { mapping with tags := tags' } ∧
      c'.Took options s' (rows ++ if o.isOk then [r] else [])

section

variable {options : StoreOptions} {spec : TableSpec} {mapping : SchemaMapping} {r : Row}

/-- A refusal before anything is written. -/
theorem adds_refused {e : Failure} (hrun : ∀ {c : Container} {s : MemoryStore} {rows : List Row},
    c.Took options s rows → c.spec = spec → c.mapping = mapping →
    add r (c, s) = (.error e, (c, s))) : Adds options spec mapping r (.error e) mapping.tags where
  tags_extends := .refl _
  run {c s rows} h hspec hmapping :=
    ⟨c, s, hrun h hspec hmapping, .refl c, hmapping, (List.append_nil rows).symm ▸ h⟩

theorem adds_of_appends {key? : Option String} {o : Outcome Unit} {tags' : ClassTags}
    (hsize : r.size = spec.size)
    (hkey : ∀ {c : Container}, c.mapping = mapping → c.keyOf r = .ok key?)
    (ha : Appends options mapping.schema mapping.tags key? r o tags') :
    Adds options spec mapping r o tags' where
  tags_extends := ha.tags_extends
  run {c s rows} h hspec hmapping := by
    subst hspec hmapping
    obtain ⟨-, hhas, hphysical⟩ := keyOf_eq_ok (hkey rfl)
    obtain ⟨cursor, hcursor, hwrote⟩ := h.written
    obtain ⟨t', hrun, hwrote'⟩ := ha.run hwrote
    have hadd := add_apply (s := s) hcursor r
    simp only [hsize, ne_eq, not_true, if_false, hkey rfl, hrun] at hadd
    -- a refused row adds nothing to the rows of the cursor
    have hwritten : t'.Wrote options c.mapping.schema tags'
        ((rows ++ if o.isOk then [r] else []).map (·.physical c.mapping.hasKeys)) := by
      rw [List.map_append]
      rw [hphysical] at hwrote'
      cases o <;> exact hwrote'
    cases o with
    | error e =>
      refine ⟨_, _, hadd, ⟨rfl, rfl, rfl, rfl, ha.tags_extends⟩, rfl,
        ⟨ha.tags_unique, h.maps, ?_, ?_⟩, t'.cursor, rfl, hwritten⟩
      · exact h.size_eq.trans (congrArg List.length (List.append_nil rows).symm)
      · exact (List.append_nil rows).symm ▸ h.suits
    | ok u =>
      refine ⟨_, _, hadd, ⟨rfl, rfl, rfl, rfl, ha.tags_extends⟩, rfl,
        ⟨ha.tags_unique, h.maps, ?_, ?_⟩, t'.cursor, rfl, hwritten⟩
      · show c.size + 1 = (rows ++ [r]).length
        rw [List.length_append, h.size_eq, List.length_singleton]
      · intro r' hr'
        rcases List.mem_append.mp hr' with hr' | hr'
        · exact h.suits r' hr'
        · rw [List.mem_singleton.mp hr']
          exact ⟨hsize, hhas⟩

/-- **A container takes a row or leaves its rows as they are**, whatever rows there are. -/
theorem exists_adds (options : StoreOptions) (htags : mapping.tags.Unique)
    (hmaps : spec.MapsTo mapping.primitives) (hreturns : r.Returns) :
    ∃ o tags', Adds options spec mapping r o tags' := by
  by_cases hsize : r.size = spec.size
  · -- which key is found depends on the mapping alone
    have hkeyOf : ∀ {c : Container}, c.mapping = mapping →
        c.keyOf r = keyOf ⟨0, spec, mapping, none, 0⟩ r := by
      intro c hc
      simp only [keyOf, hc]
    cases hkey : keyOf ⟨0, spec, mapping, none, 0⟩ r with
    | error e =>
      refine ⟨_, _, adds_refused (e := e) fun {c s rows} h hspec hmapping => ?_⟩
      obtain ⟨cursor, hcursor, -⟩ := h.written
      simp only [add_apply hcursor, hspec, hsize, ne_eq, not_true, if_false, hkeyOf hmapping, hkey]
    | ok key? =>
      obtain ⟨hfound, -, hphysical⟩ := keyOf_eq_ok hkey
      have hlength : (withKey key? r.outcomes).length = mapping.schema.length := by
        rw [hphysical, Row.length_physical, SchemaMapping.length_schema, hmaps.length_eq]
        exact congrArg (mapping.keyColumns + ·) hsize
      obtain ⟨o, tags', ha⟩ := exists_appends options htags hreturns
        (fun key hk => SchemaMapping.getElem?_schema_key (hfound key hk)) hlength
      exact ⟨o, tags', adds_of_appends hsize (fun hc => (hkeyOf hc).trans hkey) ha⟩
  · refine ⟨_, _, adds_refused (e := .error (.illegalState (.rowWidth r.size spec.size)))
      fun {c s rows} h hspec hmapping => ?_⟩
    obtain ⟨cursor, hcursor, -⟩ := h.written
    rw [add_apply hcursor, hspec, if_pos hsize]
    rfl

end

/-- **Closing a container** leaves its rows in the batches of its store. -/
theorem close_took {options : StoreOptions} {c : Container} {s : MemoryStore} {rows : List Row}
    (h : c.Took options s rows) :
    ∃ c' s', close (c, s) = (.ok (), (c', s')) ∧ c.Follows c' ∧ c'.mapping = c.mapping ∧
      c'.Finished options s' rows := by
  obtain ⟨cursor, hcursor, hwrote⟩ := h.written
  obtain ⟨chunkRows, hlists, hsettles⟩ := hwrote.lists
  obtain ⟨t', groups, hrun, -, hstore, hbatches, hflatten, hgrouped⟩ :=
    WriteCursor.close_lists hlists hwrote.is_open
  refine ⟨c.update none c.mapping.tags, t'.store, ?_, ⟨rfl, rfl, rfl, rfl, .refl _⟩, rfl,
    ⟨h.tags_unique, h.maps, h.size_eq, h.suits⟩, rfl, hstore, groups, ?_,
    hwrote.chunkSize_eq ▸ hgrouped, hflatten.symm ▸ hsettles⟩
  · simp only [close, Action.bind_apply, Action.get_apply, hcursor, Action.on_apply, hrun]
  · rw [hbatches, hwrote.schema_eq]
    rfl

/-! ## The rows of the table -/

/-- What is read of a row that the container has taken. -/
def recovered (c : Container) (r : Row) : Row :=
  r.recovered c.mapping.primitives c.mapping.tags.serializers

theorem Follows.recovered_eq {c c' : Container} (h : c.Follows c') :
    c'.recovered = c.recovered := by
  funext r
  rw [recovered, recovered, h.primitives_eq, h.tags_extends.serializers_eq]

theorem Took.settled {options : StoreOptions} {c : Container} {s : MemoryStore} {rows : List Row}
    (h : c.Took options s rows) {r : Row} (hr : r ∈ rows) :
    ∃ row, c.mapping.schema.Settles c.mapping.tags row (r.physical c.mapping.hasKeys) := by
  obtain ⟨cursor, -, hwrote⟩ := h.written
  obtain ⟨chunkRows, -, hsettles⟩ := hwrote.lists
  obtain ⟨row, -, hrow⟩ :=
    (exists_of_mem_forall₂ hsettles).2 _ (List.mem_map_of_mem hr)
  exact ⟨row, hrow⟩

theorem Took.recovered_of_mem {options : StoreOptions} {c : Container} {s : MemoryStore}
    {rows : List Row} (h : c.Took options s rows) {r : Row} (hr : r ∈ rows) (hfits : r.Fits) :
    c.recovered r = r := by
  obtain ⟨row, hrow⟩ := h.settled hr
  have hkept := hrow.recovered_eq h.tags_unique.toValid fun {j column cell} hj hcell => by
    rcases Nat.lt_or_ge j c.mapping.keyColumns with hlt | hge
    · have hkeys : c.mapping.hasKeys = true := by
        by_contra hno
        simp [SchemaMapping.keyColumns, hno] at hlt
      have hzero : j = 0 := by
        simp only [SchemaMapping.keyColumns, hkeys, if_true] at hlt
        omega
      rw [hzero, SchemaMapping.getElem?_schema_key hkeys] at hj
      cases hj
      exact .inl rfl
    · obtain ⟨k, rfl⟩ := Nat.exists_eq_add_of_le' hge
      rw [Row.getElem?_physical] at hcell
      exact .inr (hfits cell (List.mem_of_getElem? hcell))
  rw [Row.physical_recovered] at hkept
  have houtcomes : (c.recovered r).outcomes = r.outcomes := by
    refine List.ext_getElem? fun j => ?_
    rw [← Row.getElem?_physical c.mapping (c.recovered r), ← Row.getElem?_physical c.mapping r]
    exact congrArg (·[j + c.mapping.keyColumns]?) hkept
  cases r
  exact congrArg _ houtcomes

/-- **The table has the rows that were taken**, as far as its columns keep them. -/
theorem Finished.holds {options : StoreOptions} {c : Container} {s : MemoryStore} {rows : List Row}
    (h : c.Finished options s rows) : c.info.Holds s.batches.toList (rows.map c.recovered) := by
  obtain ⟨groups, hbatches, -, hsettles⟩ := h.batches_eq
  have htags := h.tags_unique.toValid
  have hshapes : ∀ row ∈ groups.flatten, c.mapping.schema.Shapes 1 row := by
    intro row hrow
    obtain ⟨cells, -, hs⟩ := (exists_of_mem_forall₂ hsettles).1 row hrow
    exact hs.shapes
  -- each row of the store holds what its columns kept of the row that was taken
  have hholds : List.Forall₂ (c.mapping.schema.HoldsRow c.mapping.tags 0) groups.flatten
      ((rows.map c.recovered).map (·.physical c.mapping.hasKeys)) := by
    rw [List.map_map]
    rw [List.forall₂_map_right_iff] at hsettles ⊢
    refine hsettles.imp fun row r hs => ?_
    have hrow := hs.holdsRow htags
    rw [Row.physical_recovered] at hrow
    exact hrow
  obtain ⟨cellGroups, hgroups, hflatten⟩ := exists_groups hholds
  refine ⟨htags, h.maps, ?_, ?_, cellGroups, hbatches ▸ batchesHold_ofRows hshapes hgroups,
    hflatten⟩
  · rw [List.length_map]
    exact h.size_eq
  · intro r' hr'
    obtain ⟨r, hr, rfl⟩ := List.mem_map.mp hr'
    have hsuits := h.suits r hr
    refine ⟨?_, hsuits.key⟩
    show (List.zipWith _ c.mapping.primitives r.outcomes).length = _
    rw [List.length_zipWith, h.maps.length_eq, hsuits.length_eq, Nat.min_self]
    rfl

end Container

end Columnar
