import Columnar.Proofs.ChunkFile.Retagged
import Columnar.Proofs.Store.Saved
import Columnar.Proofs.Table.Container

/-!
# Taking rows again

Rows that were taken are offered to another container of the same table, which has given tags to
fewer classes, and to those perhaps in another order.

**Fewer classes** (`ClassTags.Within`). A cell whose class had a tag is written where fewer classes
have one: either its class is among them or there is a tag left. So a row that was taken is taken
again (`Adds.within`).

**The same batches.** Both containers divide their rows among batches in the same way. Their batches
differ in tags at most (`Finished.retagged`) and are saved with the same success
(`MemoryStore.save_retagged`). If the tags are equal, so are the batches (`Finished.toList_eq`).
-/

namespace Columnar

/-! ## Fewer classes -/

namespace ClassTags

/-- The classes of `t` are among those of `u`, which has the same serializers. -/
structure Within (t u : ClassTags) : Prop where
  serializers_eq : t.serializers = u.serializers
  subset : t.classes ⊆ u.classes

theorem Extends.within {t u : ClassTags} (h : t.Extends u) : t.Within u :=
  ⟨h.serializers_eq.symm, h.isPrefix.subset⟩

/-- **A cell that needs no new tag** of the many can be written where there are fewer. -/
theorem Within.writeCell {t u : ClassTags} {c : Cell} {bs : Bytes} (h : t.Within u)
    (ht : t.Unique) (hlimit : u.classes.length ≤ limit)
    (hwrite : ClassTags.writeCell c u = (.ok bs, u)) :
    ∃ bs' t', ClassTags.writeCell c t = (.ok bs', t') ∧ t'.Unique ∧ t'.Within u := by
  obtain ⟨name, s, i, payload, hname, hs, hi, -, hp, -⟩ := writeCell_eq_ok hwrite
  have hmem : name ∈ u.classes := List.mem_of_getElem? (getElem?_of_find? hi)
  rw [← h.serializers_eq] at hs
  have hunique := ht.writeCell c
  by_cases hold : name ∈ t.classes
  · obtain ⟨j, hj⟩ := List.getElem?_of_mem hold
    exact ⟨_, t, writeCell_of_find? hname hs (find?_of_nodup ht.nodup hj) hp, ht, h⟩
  · -- the class is one more of the many, so a tag is left
    have hsub : name :: t.classes ⊆ u.classes := List.cons_subset.mpr ⟨hmem, h.subset⟩
    have hle := (List.subperm_of_subset (List.nodup_cons.mpr ⟨hold, ht.nodup⟩) hsub).length_le
    rw [List.length_cons] at hle
    have hwrite' := writeCell_apply c t
    simp only [serializerFor_of_not_mem hname hs hold (by omega), hp, Outcome.map_ok] at hwrite'
    rw [hwrite'] at hunique
    refine ⟨_, _, hwrite', hunique, h.serializers_eq, ?_⟩
    exact List.append_subset.mpr ⟨h.subset, List.cons_subset.mpr ⟨hmem, List.nil_subset _⟩⟩

end ClassTags

theorem PhysicalColumn.writeCell_within {column : PhysicalColumn} {i : Nat} {cell : Cell}
    {chunk c : Chunk} {t u : ClassTags} (h : t.Within u) (ht : t.Unique)
    (hlimit : u.classes.length ≤ ClassTags.limit)
    (hwrite : column.writeCell i cell ⟨chunk, u⟩ = (.ok (), ⟨c, u⟩)) :
    ∃ c' t', column.writeCell i cell ⟨chunk, t⟩ = (.ok (), ⟨c', t'⟩) ∧ t'.Unique ∧
      t'.Within u := by
  obtain ⟨-, hsame⟩ | ⟨bytes, inner, s, hw, -, hput⟩ := writeCell_involves hwrite
  · exact ⟨c, t, hsame t, ht, h⟩
  · obtain ⟨bytes', t', hw', ht', h'⟩ := h.writeCell ht hlimit hw
    exact ⟨_, t', hput hw', ht', h'⟩

theorem SchemaMapping.schema_congr {m m' : SchemaMapping} (hkeys : m'.hasKeys = m.hasKeys)
    (hprimitives : m'.primitives = m.primitives) : m'.schema = m.schema := by
  rw [schema, schema, hkeys, hprimitives]

namespace Container

variable {options : StoreOptions} {schema : Schema} {t t' u : ClassTags} {key? : Option String}
  {r : Row} {o : Outcome Unit}

/-- **Cells that settle a row** with the many classes are written with fewer. -/
theorem writeCells_within (hlimit : u.classes.length ≤ ClassTags.limit) (outcomes : RowOutcomes)
    (column : Nat) {row : List Chunk}
    (hfresh : ∀ k, column ≤ k → row[k]? = schema[k]?.map (·.spec.fresh 1))
    (hsettled : ∀ {k : Nat} {outcome : Outcome Cell}, outcomes[k]? = some outcome →
      ∃ access cell c, schema[column + k]? = some access ∧ outcome = .ok cell ∧
        access.Settled u cell c) (h : t.Within u) (ht : t.Unique) :
    ∃ row' t', t'.Within u ∧ ∀ {s : WriteState} {last : List (List Chunk)},
      s.cursor.schema = schema → s.cursor.Room last →
      writeCells column outcomes (s.inRow last row, t) = (.ok (), (s.inRow last row', t')) := by
  induction outcomes generalizing column row t with
  | nil => exact ⟨row, t, h, fun _ _ => rfl⟩
  | cons outcome outcomes ih =>
    obtain ⟨access, cell, c, hcolumn, rfl, hcell⟩ :=
      hsettled (k := 0) (List.getElem?_cons_zero)
    rw [Nat.add_zero] at hcolumn
    obtain ⟨c', t', hwrite, ht', h'⟩ := PhysicalColumn.writeCell_within h ht hlimit hcell
    have hc : row[column]? = some (access.spec.fresh 1) := by
      rw [hfresh column (Nat.le_refl _), hcolumn, Option.map_some]
    have hsettled' : ∀ {k : Nat} {outcome : Outcome Cell}, outcomes[k]? = some outcome →
        ∃ access cell c, schema[column + 1 + k]? = some access ∧ outcome = .ok cell ∧
          access.Settled u cell c := by
      intro k outcome hk
      rw [Nat.add_right_comm]
      exact hsettled (k := k + 1) hk
    obtain ⟨row', t'', h'', hrest⟩ :=
      ih (column + 1) (fresh_behind hfresh c') hsettled' h' ht'
    refine ⟨row', t'', h'', fun {s last} hs hroom => ?_⟩
    have hrun := WriteCursor.writeCell_fresh hroom (hs ▸ hcolumn) hc t cell
    rw [hwrite] at hrun
    simp only [writeCells, Action.bind_apply, Action.liftM_apply, hrun, hrest hs hroom]

/-- A row that is settled with the many classes is appended with fewer. -/
theorem Appends.within (ha : Appends options schema t key? r o t') {s : WriteState}
    {cells : List RowOutcomes} (hwrote : s.Wrote options schema t cells)
    (hstorable : s.cursor.Storable)
    (hkey : ∀ key, key? = some key → schema[0]? = some .rowKey) {row : List Chunk}
    (hsettles : schema.Settles u row (withKey key? r.outcomes))
    (hlimit : u.classes.length ≤ ClassTags.limit) (h : t.Within u) (ht : t.Unique) :
    o = .ok () ∧ t'.Within u := by
  have hcells : ∀ {k : Nat} {outcome : Outcome Cell},
      (withKey key? r.outcomes)[k]? = some outcome →
      ∃ access cell c, schema[0 + k]? = some access ∧ outcome = .ok cell ∧
        access.Settled u cell c := by
    intro k outcome hk
    have hlt : k < schema.length := hsettles.length_eq ▸ (List.getElem?_eq_some_iff.mp hk).1
    have hcolumn := List.getElem?_eq_getElem hlt
    obtain ⟨c, hc, -⟩ := hsettles.shapes.exists_chunk hcolumn
    obtain ⟨cell, hcell, hsettled⟩ := hsettles.settled hcolumn hc
    rw [hcell] at hk
    exact ⟨_, cell, c, (Nat.zero_add k).symm ▸ hcolumn, (Option.some.inj hk).symm, hsettled⟩
  obtain ⟨row', t'', h'', hwrite⟩ := writeCells_within hlimit _ 0
    (fun k _ => schema.getElem?_fresh 1 k) hcells h ht
  obtain ⟨s₁, rows, last, hforward, halike, -, hroom, -⟩ := begin_row hwrote hstorable
  have hschema : s₁.cursor.schema = schema := halike.schema_eq.trans hwrote.schema_eq
  obtain ⟨o₁, row₁, t₁, hw, hrow⟩ := writeRow_wrote ht hkey r
  have hrun₁ := hrow hschema hroom
  rw [writeRow_eq s₁ last _ (hschema ▸ hkey), hwrite hschema hroom] at hrun₁
  obtain ⟨rfl, hstate⟩ := Prod.mk.inj hrun₁
  obtain ⟨-, rfl⟩ := Prod.mk.inj hstate
  have hok := appendRow_of_wrote hforward (hrow hschema hroom) hroom (hschema ▸ hw.shapes)
  obtain ⟨s', hrun, -⟩ := ha.run hwrote
  rw [hrun] at hok
  obtain ⟨rfl, hstate'⟩ := Prod.mk.inj hok
  obtain ⟨-, rfl⟩ := Prod.mk.inj hstate'
  exact ⟨rfl, h''⟩

/-- Rows that a container of these columns takes where the classes with tags are among those of `u`.
-/
structure Replayable (options : StoreOptions) (spec : TableSpec) (mapping : SchemaMapping)
    (u : ClassTags) (r : Row) : Prop where
  suits : r.Suits mapping.hasKeys spec.size
  settles : ∃ row, mapping.schema.Settles u row (r.physical mapping.hasKeys)
  storable : mapping.schema ≠ [] → options.chunkSize < 0x400000000000000

theorem Replayable.congr {spec spec' : TableSpec} {mapping mapping' : SchemaMapping}
    (h : Replayable options spec mapping u r) (hspec : spec' = spec)
    (hkeys : mapping'.hasKeys = mapping.hasKeys)
    (hprimitives : mapping'.primitives = mapping.primitives) :
    Replayable options spec' mapping' u r := by
  have hschema := SchemaMapping.schema_congr hkeys hprimitives
  refine ⟨?_, ?_, ?_⟩
  · rw [hspec, hkeys]
    exact h.suits
  · rw [hschema, hkeys]
    exact h.settles
  · rw [hschema]
    exact h.storable

/-- The rows that were taken can be taken again. -/
theorem Took.replayable {c : Container} {s : MemoryStore} {rows : List Row}
    (h : c.Took options s rows) (hr : r ∈ rows) :
    Replayable options c.spec c.mapping c.mapping.tags r := by
  obtain ⟨cursor, hcursor, hwrote⟩ := h.written
  refine ⟨h.suits r hr, h.settled hr, ?_⟩
  have hne : rows.map (·.physical c.mapping.hasKeys) ≠ [] :=
    List.ne_nil_of_mem (List.mem_map_of_mem hr)
  exact hwrote.storable_iff.mp (hwrote.storable hne)

/-- **A row that can be taken with the many classes is taken with fewer.** -/
theorem Adds.within {spec : TableSpec} {mapping : SchemaMapping}
    (ha : Adds options spec mapping r o t') {c : Container} {s : MemoryStore} {rows : List Row}
    (h : c.Took options s rows) (hspec : c.spec = spec) (hmapping : c.mapping = mapping)
    (hreturns : r.Returns) (hr : Replayable options spec mapping u r)
    (hlimit : u.classes.length ≤ ClassTags.limit) (hwithin : mapping.tags.Within u) :
    o = .ok () ∧ t'.Within u := by
  subst hspec hmapping
  obtain ⟨key?, hkeyOf⟩ : ∃ key?, ∀ {k : Container}, k.mapping = c.mapping →
      k.keyOf r = .ok key? := by
    cases hkeys : c.mapping.hasKeys with
    | false => exact ⟨none, fun hk => by simp [keyOf, hk, hkeys]⟩
    | true =>
      obtain ⟨key, hkey⟩ := hr.suits.key hkeys
      exact ⟨some key, fun hk => by simp [keyOf, hk, hkeys, hkey]⟩
  obtain ⟨hfound, -, hphysical⟩ := keyOf_eq_ok (hkeyOf rfl)
  have hkey : ∀ key, key? = some key → c.mapping.schema[0]? = some .rowKey :=
    fun key hk => SchemaMapping.getElem?_schema_key (hfound key hk)
  obtain ⟨row, hsettles⟩ := hr.settles
  rw [← hphysical] at hsettles
  obtain ⟨o₁, t₁, ha₁⟩ := exists_appends options h.tags_unique hreturns hkey hsettles.length_eq
  obtain ⟨cursor, -, hwrote⟩ := h.written
  obtain ⟨rfl, hwithin₁⟩ := ha₁.within hwrote (hwrote.storable_iff.mpr hr.storable) hkey hsettles
    hlimit hwithin h.tags_unique
  -- adding the row is appending it
  have hadds : Adds options c.spec c.mapping r (.ok ()) t₁ :=
    adds_of_appends hr.suits.length_eq hkeyOf ha₁
  obtain ⟨c₁, s₁, hrun₁, -, hmapping₁, -⟩ := hadds.run h rfl rfl
  obtain ⟨c₂, s₂, hrun₂, -, hmapping₂, -⟩ := ha.run h rfl rfl
  rw [hrun₁] at hrun₂
  cases hrun₂
  have htags : t₁ = t' := congrArg SchemaMapping.tags (hmapping₁.symm.trans hmapping₂)
  exact ⟨rfl, htags ▸ hwithin₁⟩

/-! ## The batches of two containers -/

/-- **Rows are divided among batches in one way**: if what the same cells settle is related, the
rows in the batches of two containers are. -/
theorem Finished.exists_related {R : List Chunk → List Chunk → Prop} {c c' : Container}
    {s s' : MemoryStore} {rows : List Row} (h : c.Finished options s rows)
    (h' : c'.Finished options s' rows) (hschema : c'.mapping.schema = c.mapping.schema)
    (hkeys : c'.mapping.hasKeys = c.mapping.hasKeys)
    (hR : ∀ {row row' : List Chunk} {cells : RowOutcomes},
      c.mapping.schema.Settles c.mapping.tags row cells →
      c.mapping.schema.Settles c'.mapping.tags row' cells → R row row') :
    ∃ groups groups', s.batches.toList = groups.map (Batch.ofRows c.mapping.schema.specs) ∧
      s'.batches.toList = groups'.map (Batch.ofRows c.mapping.schema.specs) ∧
      List.Forall₂ (List.Forall₂ R) groups groups' := by
  obtain ⟨groups, hbatches, hgrouped, hsettles⟩ := h.batches_eq
  obtain ⟨groups', hbatches', hgrouped', hsettles'⟩ := h'.batches_eq
  rw [hschema] at hbatches' hsettles'
  rw [hkeys] at hsettles'
  have hrows : List.Forall₂ R groups.flatten groups'.flatten :=
    forall₂_of_common hsettles hsettles' fun hrow hrow' => hR hrow hrow'
  obtain ⟨groups₁, hgroups, hflatten⟩ := Columnar.exists_groups hrows
  obtain rfl := (hgrouped.of_forall₂ hgroups).eq_of_flatten hgrouped' hflatten
  exact ⟨groups, groups₁, hbatches, hbatches', hgroups⟩

/-- **Other tags**: the batches of two containers with the same rows differ in tags at most. -/
theorem Finished.retagged {c c' : Container} {s s' : MemoryStore} {rows : List Row}
    (h : c.Finished options s rows) (h' : c'.Finished options s' rows)
    (hschema : c'.mapping.schema = c.mapping.schema)
    (hkeys : c'.mapping.hasKeys = c.mapping.hasKeys)
    (hserializers : c'.mapping.tags.serializers = c.mapping.tags.serializers) :
    List.Forall₂ (Batch.Retagged c.mapping.tags c'.mapping.tags) s.batches.toList
      s'.batches.toList := by
  obtain ⟨groups, groups', hbatches, hbatches', hgroups⟩ := h.exists_related h' hschema hkeys
    fun hrow hrow' => hrow.retagged hserializers hrow'
  rw [hbatches, hbatches', List.forall₂_map_left_iff, List.forall₂_map_right_iff]
  exact hgroups.imp fun _ _ hrows => Batch.retagged_ofRows _ hrows

/-- **Equal tags**: the batches of two containers with the same rows are the same. -/
theorem Finished.toList_eq {c c' : Container} {s s' : MemoryStore} {rows : List Row}
    (h : c.Finished options s rows) (h' : c'.Finished options s' rows)
    (hmapping : c'.mapping = c.mapping) : s'.batches.toList = s.batches.toList := by
  obtain ⟨groups, groups', hbatches, hbatches', hgroups⟩ := h.exists_related (R := Eq) h'
    (congrArg SchemaMapping.schema hmapping) (congrArg SchemaMapping.hasKeys hmapping)
    fun hrow hrow' => hrow.unique (hmapping ▸ hrow')
  rw [List.forall₂_eq_eq_eq, List.forall₂_eq_eq_eq] at hgroups
  rw [hbatches, hbatches', hgroups]

end Container

/-! ## Saving -/

namespace MemoryStore

theorem save_congr {s s' : MemoryStore} (hspecs : s'.specs = s.specs)
    (hchecksum : s'.checksum = s.checksum) (hclosed : s'.closed = s.closed)
    (hbatches : s'.batches.toList = s.batches.toList) (path : String) :
    s'.save path = s.save path := by
  simp only [save, hspecs, hchecksum, hclosed, hbatches]

/-- **Stores whose batches differ in tags** are saved with the same success, to as many bytes. -/
theorem save_retagged {t t' : ClassTags} {s s' : MemoryStore} (hspecs : s'.specs = s.specs)
    (hchecksum : s'.checksum = s.checksum) (hopen : s.closed = false) (hopen' : s'.closed = false)
    (h : List.Forall₂ (Batch.Retagged t t') s.batches.toList s'.batches.toList) (path : String)
    (fs : Files) :
    (∃ e, s.save path fs = (.error e, fs) ∧ s'.save path fs = (.error e, fs)) ∨
      ∃ fs₁ fs₂,
        fs.write path (ChunkFile.written s.specs s.checksum s.batches.toList) = .ok fs₁ ∧
        fs.write path (ChunkFile.written s.specs s.checksum s'.batches.toList) = .ok fs₂ ∧
        ((∃ e cause, s.save path fs = (.error e, fs₁) ∧ s'.save path fs = (.error e, fs₂) ∧
            ChunkFile.encode s.specs s.checksum s.batches.toList = .error cause ∧
            ChunkFile.encode s.specs s.checksum s'.batches.toList = .error cause) ∨
          ∃ data data', s.save path fs = (.ok (), fs₁) ∧ s'.save path fs = (.ok (), fs₂) ∧
            ChunkFile.encode s.specs s.checksum s.batches.toList = .ok data ∧
            ChunkFile.encode s.specs s.checksum s'.batches.toList = .ok data') := by
  rw [save_apply hopen, save_apply hopen', hspecs, hchecksum]
  -- the path is put in front of every error
  have hfails : ∀ e : Failure,
      ∃ e', Outcome.mapError (.atPath path) (.error e : Outcome Unit) = .error e' := by
    intro e
    cases e <;> exact ⟨_, rfl⟩
  obtain ⟨e, herror⟩ | hwrite := fs.write_cases path
  · obtain ⟨e', he⟩ := hfails e
    simp only [herror]
    exact .inl ⟨e', congrArg (·, fs) he, congrArg (·, fs) he⟩
  · obtain ⟨fs₁, h₁⟩ := hwrite (ChunkFile.written s.specs s.checksum s.batches.toList)
    obtain ⟨fs₂, h₂⟩ := hwrite (ChunkFile.written s.specs s.checksum s'.batches.toList)
    simp only [h₁, h₂]
    refine .inr ⟨fs₁, fs₂, rfl, rfl, ?_⟩
    have hencode := ChunkFile.encode_retagged s.specs s.checksum h
    generalize ChunkFile.encode s.specs s.checksum s.batches.toList = o at hencode ⊢
    generalize ChunkFile.encode s.specs s.checksum s'.batches.toList = o' at hencode ⊢
    cases hencode with
    | error e =>
      obtain ⟨e', he⟩ := hfails e
      exact .inl ⟨e', e, congrArg (·, fs₁) he, congrArg (·, fs₂) he, rfl, rfl⟩
    | ok _ => exact .inr ⟨_, _, rfl, rfl, rfl, rfl⟩

end MemoryStore

end Columnar
