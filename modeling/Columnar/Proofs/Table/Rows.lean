import Columnar.Proofs.Cursor.Stored
import Columnar.Table.Iterator

/-!
# The rows of a table

**Rows.** The cells of a row are what reading them gives, so a row that is offered to a container
and a row that a table has are of one kind. A table that stores keys has the key of a row in front
of its cells (`Row.physical`).

**Tables** (`TableInfo.Holds`). The batches of a table hold its rows, in order, and its size is
their number. This is all that reading a table relies on, wherever the batches are kept.
-/

namespace Columnar

namespace Row

/-- Reading a cell of the row gives a cell or an error, no abort. -/
def Returns (r : Row) : Prop := ∀ o ∈ r.outcomes, o.Returns

/-- All payloads and texts in the cells have lengths that fit in 32 bits. -/
def Fits (r : Row) : Prop := ∀ cell, .ok cell ∈ r.outcomes → cell.Fits

theorem returns_ofCells (key? : Option String) (cells : List Cell) :
    (ofCells key? cells).Returns := by
  intro o ho
  obtain ⟨cell, -, rfl⟩ := List.mem_map.mp ho
  trivial

theorem fits_ofCells {key? : Option String} {cells : List Cell} (h : ∀ cell ∈ cells, cell.Fits) :
    (ofCells key? cells).Fits := by
  intro cell hcell
  obtain ⟨cell', hmem, heq⟩ := List.mem_map.mp hcell
  cases heq
  exact h cell hmem

/-- What is read of the row where a container took it. -/
def recovered (primitives : List Primitive) (serializers : SerializerRegistry) (r : Row) : Row :=
  ⟨r.key?, List.zipWith (fun p cell => cell >>= (PhysicalColumn.data p).recovered serializers)
    primitives r.outcomes⟩

/-- The row has a cell for every data column, and a key if keys are stored. -/
structure Suits (hasKeys : Bool) (width : Nat) (r : Row) : Prop where
  length_eq : r.outcomes.length = width
  key : hasKeys = true → ∃ key, r.key? = some key

/-- The cells as they are stored, the key first if the table stores keys. -/
def physical (hasKeys : Bool) (r : Row) : RowOutcomes :=
  if hasKeys then .ok (.string (r.key?.getD "")) :: r.outcomes else r.outcomes

theorem length_physical (m : SchemaMapping) (r : Row) :
    (r.physical m.hasKeys).length = m.keyColumns + r.outcomes.length := by
  unfold physical SchemaMapping.keyColumns
  split
  · rw [List.length_cons, Nat.add_comm]
  · rw [Nat.zero_add]

theorem getElem?_physical (m : SchemaMapping) (r : Row) (j : Nat) :
    (r.physical m.hasKeys)[j + m.keyColumns]? = r.outcomes[j]? := by
  unfold physical SchemaMapping.keyColumns
  split
  · rw [List.getElem?_cons_succ]
  · rw [Nat.add_zero]

theorem physical_recovered (m : SchemaMapping) (serializers : SerializerRegistry) (r : Row) :
    m.schema.recovered serializers (r.physical m.hasKeys) =
      (r.recovered m.primitives serializers).physical m.hasKeys := by
  unfold SchemaMapping.schema physical Schema.recovered recovered
  cases m.hasKeys with
  | false =>
    simp only [Bool.false_eq_true, if_false, List.nil_append, List.zipWith_map_left]
  | true =>
    simp only [if_true, List.singleton_append, List.zipWith_cons_cons, List.zipWith_map_left]
    rfl

end Row

/-- The columns of the spec are those of the built-in classes. -/
structure TableSpec.MapsTo (spec : TableSpec) (primitives : List Primitive) : Prop where
  supported : spec.isSupported = true
  primitives_eq : primitives = spec.columns.filterMap (·.type.primitive?)

theorem TableSpec.MapsTo.length_eq {spec : TableSpec} {primitives : List Primitive}
    (h : spec.MapsTo primitives) : primitives.length = spec.size := by
  rw [h.primitives_eq, size]
  refine List.filterMap_length_eq_length.mpr ?_
  intro c hc
  have hsome := List.find?_eq_none.mp (Option.isNone_iff_eq_none.mp h.supported) c hc
  simpa [Option.isSome_iff_ne_none] using hsome

namespace SchemaMapping

theorem ofTags_of_supported {spec : TableSpec} (h : spec.isSupported = true) (hasKeys : Bool)
    (tags : ClassTags) :
    ofTags spec hasKeys tags = .ok ⟨hasKeys, spec.columns.filterMap (·.type.primitive?), tags⟩ := by
  rw [ofTags, Option.isNone_iff_eq_none.mp h]

/-- Only a supported spec has a mapping, with a column of its class for every data column. -/
theorem mapsTo_of_ofTags {spec : TableSpec} {hasKeys : Bool} {tags : ClassTags} {m : SchemaMapping}
    (h : ofTags spec hasKeys tags = .ok m) : spec.MapsTo m.primitives := by
  unfold ofTags at h
  split at h
  · cases h
  · rename_i hnone
    cases h
    exact ⟨Option.isNone_iff_eq_none.mpr hnone, rfl⟩

theorem length_schema (m : SchemaMapping) :
    m.schema.length = m.keyColumns + m.primitives.length := by
  unfold schema keyColumns
  split <;> simp [Nat.add_comm]

/-- A table without row keys and data columns stores nothing. -/
theorem schema_ne_nil_iff (m : SchemaMapping) :
    m.schema ≠ [] ↔ m.hasKeys = true ∨ m.primitives.length ≠ 0 := by
  rw [← List.length_pos_iff, length_schema, keyColumns]
  cases m.hasKeys <;> simp [Nat.pos_iff_ne_zero]

theorem getElem?_schema_key {m : SchemaMapping} (h : m.hasKeys = true) :
    m.schema[0]? = some .rowKey := by
  simp [schema, h]

theorem getElem?_schema_data (m : SchemaMapping) (j : Nat) :
    m.schema[j + m.keyColumns]? = m.primitives[j]?.map .data := by
  unfold schema keyColumns
  split <;> simp

end SchemaMapping

/-- The batches hold the rows of the table. -/
structure TableInfo.Holds (t : TableInfo) (bs : List Batch) (rows : List Row) : Prop where
  tags_valid : t.mapping.tags.Valid
  maps : t.spec.MapsTo t.mapping.primitives
  size_eq : t.size = rows.length
  suits : ∀ r ∈ rows, r.Suits t.mapping.hasKeys t.spec.size
  stored : ∃ groups, BatchesHold t.mapping.schema t.mapping.tags bs groups ∧
    groups.flatten = rows.map (·.physical t.mapping.hasKeys)

theorem TableInfo.Holds.width_eq {t : TableInfo} {bs : List Batch} {rows : List Row}
    (h : t.Holds bs rows) : t.mapping.primitives.length = t.spec.size := h.maps.length_eq

end Columnar
