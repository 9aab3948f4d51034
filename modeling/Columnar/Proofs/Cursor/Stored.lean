import Columnar.Proofs.Column.Access
import Mathlib.Data.List.Forall2

/-!
# Rows in batches

**Shape** (`Schema.Shapes`). A batch has a uniform chunk for every column of the schema, and so has
a row on its own, with chunks of one slot.

**Contents.** `Schema.HoldsRow` says what cells row `i` of some chunks holds, `Batch.Holds` what
rows a batch holds, and `BatchesHold` what rows a list of batches holds, batch by batch.

**Written rows** (`Schema.Settles`). The cells that were written to a row settle its chunks, and
what it holds is what the columns make of them (`Settles.holdsRow`).

**Batches of rows** (`Batch.ofRows`). Rows that are chunks of one slot make up a batch. It has the
slots of the rows (`sameSlot_ofRows`) and so holds what they hold (`holds_ofRows`,
`batchesHold_ofRows`).
-/

namespace Columnar

/-- What reading a row gives, physical column by physical column. -/
abbrev RowOutcomes := List (Outcome Cell)

/-- Rows, batch by batch. -/
abbrev Groups := List (List RowOutcomes)

namespace Schema

/-- There is one chunk of `n` slots for every column. -/
structure Shapes (schema : Schema) (n : Nat) (chunks : List Chunk) : Prop where
  length_eq : chunks.length = schema.length
  shape : ∀ {j : Nat} {column : PhysicalColumn} {c : Chunk}, schema[j]? = some column →
    chunks[j]? = some c → c.spec = column.spec ∧ c.Uniform n

/-- Row `i` of the chunks holds the cells, one for every column. -/
structure HoldsRow (schema : Schema) (tags : ClassTags) (i : Nat) (chunks : List Chunk)
    (cells : RowOutcomes) : Prop where
  length_eq : cells.length = schema.length
  holds : ∀ {j : Nat} {column : PhysicalColumn} {c : Chunk} {cell : Outcome Cell},
    schema[j]? = some column → chunks[j]? = some c → cells[j]? = some cell →
    column.Holds tags i c cell

/-- Every cell is settled in its slot of a row. -/
structure Settles (schema : Schema) (tags : ClassTags) (row : List Chunk) (cells : RowOutcomes) :
    Prop where
  length_eq : cells.length = schema.length
  shapes : schema.Shapes 1 row
  settled : ∀ {j : Nat} {column : PhysicalColumn} {c : Chunk}, schema[j]? = some column →
    row[j]? = some c → ∃ cell, cells[j]? = some (.ok cell) ∧ column.Settled tags cell c

/-- What is read of the cells that were put into the columns. -/
def recovered (schema : Schema) (serializers : SerializerRegistry) (cells : RowOutcomes) :
    RowOutcomes :=
  List.zipWith (fun column cell => cell >>= column.recovered serializers) schema cells

variable {schema : Schema} {tags tags' : ClassTags} {n i : Nat} {chunks : List Chunk}
  {cells : RowOutcomes}

theorem HoldsRow.mono (h : schema.HoldsRow tags i chunks cells) (ht : tags.Extends tags') :
    schema.HoldsRow tags' i chunks cells :=
  ⟨h.length_eq, fun hs hc hcell => (h.holds hs hc hcell).mono ht⟩

theorem Shapes.exists_chunk (h : schema.Shapes n chunks) {j : Nat} {column : PhysicalColumn}
    (hj : schema[j]? = some column) :
    ∃ c, chunks[j]? = some c ∧ c.spec = column.spec ∧ c.Uniform n := by
  have hlt : j < chunks.length := h.length_eq ▸ (List.getElem?_eq_some_iff.mp hj).1
  exact ⟨chunks[j], List.getElem?_eq_getElem hlt, h.shape hj (List.getElem?_eq_getElem hlt)⟩

theorem Shapes.set (h : schema.Shapes n chunks) {j : Nat} {column : PhysicalColumn} {c : Chunk}
    (hj : schema[j]? = some column) (hspec : c.spec = column.spec) (huni : c.Uniform n) :
    schema.Shapes n (chunks.set j c) where
  length_eq := by rw [List.length_set, h.length_eq]
  shape {k column' c'} hk hc := by
    by_cases hjk : j = k
    · subst hjk
      rw [hj] at hk
      rw [List.getElem?_set_self' ] at hc
      cases hk
      obtain ⟨d, -, rfl⟩ := Option.map_eq_some_iff.mp hc
      exact ⟨hspec, huni⟩
    · rw [List.getElem?_set_ne hjk] at hc
      exact h.shape hk hc

theorem getElem?_fresh (schema : Schema) (n k : Nat) :
    (schema.specs.map (·.fresh n))[k]? = schema[k]?.map (·.spec.fresh n) := by
  rw [specs, List.map_map, List.getElem?_map]
  rfl

theorem shapes_fresh (schema : Schema) (n : Nat) :
    schema.Shapes n (schema.specs.map (·.fresh n)) where
  length_eq := by simp [specs]
  shape {j column c} hj hc := by
    rw [getElem?_fresh, hj] at hc
    cases hc
    exact ⟨ChunkSpec.spec_fresh _ n, ChunkSpec.uniform_fresh _ n⟩

theorem Settles.mono {row : List Chunk} (h : schema.Settles tags row cells)
    (hext : tags.Extends tags') (hunique : tags'.Unique) : schema.Settles tags' row cells := by
  refine ⟨h.length_eq, h.shapes, fun {j column c} hj hc => ?_⟩
  obtain ⟨cell, hcell, hsettled⟩ := h.settled hj hc
  exact ⟨cell, hcell, hsettled.mono hext hunique.nodup⟩

theorem Settles.forall₂ {R : Chunk → Chunk → Prop} {row row' : List Chunk}
    (h : schema.Settles tags row cells) (h' : schema.Settles tags' row' cells)
    (hR : ∀ {column : PhysicalColumn} {cell : Cell} {c c' : Chunk}, column.Settled tags cell c →
      column.Settled tags' cell c' → R c c') : List.Forall₂ R row row' := by
  have hlength := h.shapes.length_eq.trans h'.shapes.length_eq.symm
  refine List.forall₂_iff_get.mpr ⟨hlength, fun j hj hj' => ?_⟩
  have hlt : j < schema.length := h.shapes.length_eq ▸ hj
  obtain ⟨cell, hcell, hsettled⟩ :=
    h.settled (List.getElem?_eq_getElem hlt) (List.getElem?_eq_getElem hj)
  obtain ⟨cell', hcell', hsettled'⟩ :=
    h'.settled (List.getElem?_eq_getElem hlt) (List.getElem?_eq_getElem hj')
  rw [hcell] at hcell'
  cases hcell'
  exact hR hsettled hsettled'

/-- **The cells settle the row.** -/
theorem Settles.unique {row row' : List Chunk} (h : schema.Settles tags row cells)
    (h' : schema.Settles tags row' cells) : row = row' := by
  rw [← List.forall₂_eq_eq_eq]
  exact h.forall₂ h' fun hsettled hsettled' => congrArg (·.2.chunk) (hsettled.symm.trans hsettled')

/-- **A row holds what the columns make of its cells.** -/
theorem Settles.holdsRow {row : List Chunk} (h : schema.Settles tags row cells)
    (htags : tags.Valid) :
    schema.HoldsRow tags 0 row (schema.recovered tags.serializers cells) := by
  refine ⟨?_, fun {j column c stored} hj hc hstored => ?_⟩
  · rw [recovered, List.length_zipWith, h.length_eq, Nat.min_self]
  · obtain ⟨cell, hcell, hsettled⟩ := h.settled hj hc
    rw [recovered, List.getElem?_zipWith, hj, hcell] at hstored
    cases hstored
    exact (hsettled.holds htags).1

/-- What is kept by its column is what is read. -/
theorem Settles.recovered_eq {row : List Chunk} (h : schema.Settles tags row cells)
    (htags : tags.Valid)
    (hkeeps : ∀ {j : Nat} {column : PhysicalColumn} {cell : Cell}, schema[j]? = some column →
      cells[j]? = some (.ok cell) → column.Keeps cell) :
    schema.recovered tags.serializers cells = cells := by
  refine List.ext_getElem? fun j => ?_
  rw [recovered, List.getElem?_zipWith]
  cases hj : schema[j]? with
  | none =>
    have hle : cells.length ≤ j := h.length_eq ▸ List.getElem?_eq_none_iff.mp hj
    rw [List.getElem?_eq_none hle]
  | some column =>
    obtain ⟨c, hc, -⟩ := h.shapes.exists_chunk hj
    obtain ⟨cell, hcell, hsettled⟩ := h.settled hj hc
    rw [hcell]
    exact congrArg some ((hsettled.holds htags).2 (hkeeps hj hcell))

end Schema

/-! ## Batches -/

/-- The batch has the columns of the schema and holds the rows. -/
structure Batch.Holds (schema : Schema) (tags : ClassTags) (b : Batch) (rows : List RowOutcomes) :
    Prop where
  rowCount_eq : b.rowCount = rows.length
  shapes : schema.Shapes b.rowCount b.chunks
  row : ∀ {i : Nat} {cells : RowOutcomes}, rows[i]? = some cells →
    schema.HoldsRow tags i b.chunks cells

/-- The batches hold the rows of the groups, batch by batch. -/
structure BatchesHold (schema : Schema) (tags : ClassTags) (bs : List Batch)
    (groups : Groups) : Prop where
  length_eq : bs.length = groups.length
  batch : ∀ {i : Nat} {b : Batch} {rows : List RowOutcomes}, bs[i]? = some b →
    groups[i]? = some rows → b.Holds schema tags rows

section Batches

variable {schema : Schema} {tags tags' : ClassTags}

theorem Batch.Holds.mono {b : Batch} {rows : List RowOutcomes} (h : b.Holds schema tags rows)
    (ht : tags.Extends tags') : b.Holds schema tags' rows :=
  ⟨h.rowCount_eq, h.shapes, fun hi => (h.row hi).mono ht⟩

theorem BatchesHold.mono {bs : List Batch} {groups : Groups}
    (h : BatchesHold schema tags bs groups) (ht : tags.Extends tags') :
    BatchesHold schema tags' bs groups :=
  ⟨h.length_eq, fun hb hg => (h.batch hb hg).mono ht⟩

end Batches

/-! ## Batches of rows -/

/-- Rows of chunks of one slot as a batch. -/
def Batch.ofRows (specs : List ChunkSpec) (rows : List (List Chunk)) : Batch :=
  ⟨rows.length, specs.mapIdx fun i spec => spec.join (rows.filterMap (·[i]?))⟩

theorem Batch.ofChunks_eq {n : Nat} {chunks : List Chunk} (h : ∀ c ∈ chunks, c.size = n) :
    Batch.ofChunks n chunks = .ok ⟨n, chunks⟩ :=
  if_pos (List.all_eq_true.mpr fun c hc => beq_iff_eq.mpr (h c hc))

theorem getElem?_filterMap_of_isSome {α β : Type} {f : α → Option β} {l : List α}
    (h : ∀ a ∈ l, (f a).isSome) (i : Nat) : (l.filterMap f)[i]? = l[i]?.bind f := by
  induction l generalizing i with
  | nil => simp
  | cons a l ih =>
    obtain ⟨b, hb⟩ := Option.isSome_iff_exists.mp (h a List.mem_cons_self)
    have ih := ih fun c hc => h c (List.mem_cons_of_mem a hc)
    rw [List.filterMap_cons_some hb]
    cases i with
    | zero => simp [hb]
    | succ i => simpa using ih i

namespace Schema

variable {schema : Schema} {tags : ClassTags} {rows : List (List Chunk)}

theorem Shapes.of_mem (h : schema.Shapes n chunks) {c : Chunk} (hc : c ∈ chunks) : c.Uniform n := by
  obtain ⟨j, hj⟩ := List.getElem?_of_mem hc
  have hlt : j < schema.length := h.length_eq ▸ (List.getElem?_eq_some_iff.mp hj).1
  exact (h.shape (List.getElem?_eq_getElem hlt) hj).2

theorem of_mem_column (h : ∀ row ∈ rows, schema.Shapes 1 row) {j : Nat} {column : PhysicalColumn}
    (hj : schema[j]? = some column) :
    ∀ c ∈ rows.filterMap (·[j]?), c.spec = column.spec ∧ c.Uniform 1 := by
  intro c hc
  obtain ⟨row, hm, hcj⟩ := List.mem_filterMap.mp hc
  exact (h row hm).shape hj hcj

theorem isSome_column (h : ∀ row ∈ rows, schema.Shapes 1 row) {j : Nat} {column : PhysicalColumn}
    (hj : schema[j]? = some column) : ∀ row ∈ rows, (row[j]?).isSome := by
  intro row hm
  obtain ⟨c, hc, -⟩ := (h row hm).exists_chunk hj
  simp [hc]

theorem getElem?_ofRows {j : Nat} {column : PhysicalColumn} (hj : schema[j]? = some column) :
    (Batch.ofRows schema.specs rows).chunks[j]? =
      some (column.spec.join (rows.filterMap (·[j]?))) := by
  simp only [Batch.ofRows, specs, List.getElem?_mapIdx, List.getElem?_map, hj, Option.map_some]

/-- The chunks of a batch of rows have a slot for every row. -/
theorem shapes_ofRows (h : ∀ row ∈ rows, schema.Shapes 1 row) :
    schema.Shapes rows.length (Batch.ofRows schema.specs rows).chunks where
  length_eq := by simp [Batch.ofRows, specs]
  shape {j column c} hj hc := by
    rw [getElem?_ofRows hj] at hc
    cases hc
    have huni := ChunkSpec.uniform_join (of_mem_column h hj)
    rw [List.filterMap_length_eq_length.mpr (isSome_column h hj)] at huni
    exact ⟨ChunkSpec.spec_join _ _, huni⟩

/-- **A batch of rows has their slots.** -/
theorem sameSlot_ofRows (h : ∀ row ∈ rows, schema.Shapes 1 row) {i : Nat} {row : List Chunk}
    (hi : rows[i]? = some row) {j : Nat} {column : PhysicalColumn}
    (hj : schema[j]? = some column) {c : Chunk}
    (hc : (Batch.ofRows schema.specs rows).chunks[j]? = some c) :
    ∃ d, row[j]? = some d ∧ c.SameSlot i 0 d := by
  rw [getElem?_ofRows hj] at hc
  cases hc
  obtain ⟨d, hd, -⟩ := (h row (List.mem_of_getElem? hi)).exists_chunk hj
  refine ⟨d, hd, ChunkSpec.join_sameSlot (of_mem_column h hj) ?_⟩
  rw [getElem?_filterMap_of_isSome (isSome_column h hj), hi, Option.bind_some, hd]

/-- **A batch of rows holds what they hold.** -/
theorem holds_ofRows (h : ∀ row ∈ rows, schema.Shapes 1 row) {cells : List RowOutcomes}
    (hcells : List.Forall₂ (schema.HoldsRow tags 0) rows cells) :
    (Batch.ofRows schema.specs rows).Holds schema tags cells where
  rowCount_eq := hcells.length_eq
  shapes := shapes_ofRows h
  row {i outcomes} hi := by
    have hlt : i < rows.length := hcells.length_eq ▸ (List.getElem?_eq_some_iff.mp hi).1
    have hrow := List.getElem?_eq_getElem hlt
    have hholds := hcells.get hlt (List.getElem?_eq_some_iff.mp hi).1
    rw [List.get_eq_getElem, List.get_eq_getElem, (List.getElem?_eq_some_iff.mp hi).2] at hholds
    refine ⟨hholds.length_eq, fun {j column c cell} hj hc hcell => ?_⟩
    obtain ⟨d, hd, hsame⟩ := sameSlot_ofRows h hrow hj hc
    exact (hholds.holds hj hd hcell).of_sameSlot hsame

end Schema

theorem exists_of_mem_forall₂ {α β : Type} {R : α → β → Prop} {l : List α} {m : List β}
    (h : List.Forall₂ R l m) : (∀ a ∈ l, ∃ b ∈ m, R a b) ∧ ∀ b ∈ m, ∃ a ∈ l, R a b := by
  induction h with
  | nil => exact ⟨nofun, nofun⟩
  | cons hab _ ih =>
    refine ⟨List.forall_mem_cons.mpr ⟨⟨_, List.mem_cons_self, hab⟩, fun a ha => ?_⟩,
      List.forall_mem_cons.mpr ⟨⟨_, List.mem_cons_self, hab⟩, fun b hb => ?_⟩⟩
    · obtain ⟨b, hb, hR⟩ := ih.1 a ha
      exact ⟨b, List.mem_cons_of_mem _ hb, hR⟩
    · obtain ⟨a, ha, hR⟩ := ih.2 b hb
      exact ⟨a, List.mem_cons_of_mem _ ha, hR⟩

theorem forall₂_of_common {α β γ : Type} {R : α → γ → Prop} {S : β → γ → Prop} {Q : α → β → Prop}
    {l : List α} {m : List β} {n : List γ} (h : List.Forall₂ R l n) (h' : List.Forall₂ S m n)
    (hQ : ∀ {a b c}, R a c → S b c → Q a b) : List.Forall₂ Q l m := by
  induction h generalizing m with
  | nil =>
    cases h'
    exact .nil
  | cons hac _ ih =>
    cases h' with
    | cons hbc h' => exact .cons (hQ hac hbc) (ih h')

/-- What is in groups on one side can be put into groups on the other. -/
theorem exists_groups {α β : Type} {R : α → β → Prop} {groups : List (List α)} {l : List β}
    (h : List.Forall₂ R groups.flatten l) :
    ∃ groups' : List (List β), List.Forall₂ (List.Forall₂ R) groups groups' ∧
      groups'.flatten = l := by
  induction groups generalizing l with
  | nil =>
    cases h
    exact ⟨[], .nil, rfl⟩
  | cons g groups ih =>
    have hflip : List.Forall₂ (flip R) l (g ++ groups.flatten) := h.flip
    obtain ⟨groups', hgroups, hflatten⟩ := ih (List.forall₂_drop_append l g _ hflip).flip
    refine ⟨l.take g.length :: groups',
      .cons (List.forall₂_take_append l g _ hflip).flip hgroups, ?_⟩
    rw [List.flatten_cons, hflatten, List.take_append_drop]

/-- **Batches of rows hold what the rows hold.** -/
theorem batchesHold_ofRows {schema : Schema} {tags : ClassTags} {groups : List (List (List Chunk))}
    {cellGroups : Groups} (hshapes : ∀ row ∈ groups.flatten, schema.Shapes 1 row)
    (h : List.Forall₂ (List.Forall₂ (schema.HoldsRow tags 0)) groups cellGroups) :
    BatchesHold schema tags (groups.map (Batch.ofRows schema.specs)) cellGroups where
  length_eq := by rw [List.length_map, h.length_eq]
  batch {i b cells} hb hcells := by
    rw [List.getElem?_map] at hb
    obtain ⟨rows, hrows, rfl⟩ := Option.map_eq_some_iff.mp hb
    obtain ⟨hlt, rfl⟩ := List.getElem?_eq_some_iff.mp hrows
    obtain ⟨hlt', rfl⟩ := List.getElem?_eq_some_iff.mp hcells
    refine Schema.holds_ofRows (fun row hrow => hshapes row ?_) (h.get hlt hlt')
    exact List.mem_flatten.mpr ⟨_, List.getElem_mem hlt, hrow⟩

end Columnar
