import Columnar.Proofs.Store.Opened
import Columnar.Proofs.Table.Draining

/-!
# Reading the rows of any file

A table may be opened over any bytes that pass for a chunk file of its schema. Then nothing that its
rows are read with ends the run: row counts, bitmaps, offsets, texts, tags and payloads are all
checked before they are relied on.

**Use** (`RowIterator.Use`). While an iterator is asked for rows the store is not left alone: others
read from it, chunks are dropped from its cache, its file changes, and in the end it is closed. All
of this keeps what the iterator relies on (`Use.fit`).

Main result: `reading_never_aborts`.
-/

namespace Columnar

namespace RowIterator

variable {rows : Nat → Nat}

/-! ## The iterators of a table -/

section Table

variable {t : TableInfo} {f : ColumnFilter}

theorem fit_ofFilter {it : RowIterator} (h : ofFilter t f = .ok it) (rows : Nat → Nat) :
    it.Fit rows := by
  obtain ⟨-, rfl⟩ | ⟨wrap, read, selection, hm, rfl⟩ := ofFilter_start h
  · exact .blank t.size t.spec.size
  · exact .moves hm fun b i hp => nomatch hp

end Table

/-! ## Use -/

/-- What an iterator over an open store and the store can come to: rows are asked for, chunks are
read on behalf of others or dropped from the cache, files change, and the store is closed. -/
inductive Use (it : RowIterator) (d : DiskStore) (fs : Files) :
    RowIterator × (DiskStore × Files) → Prop
  | start : Use it d fs (it, (d, fs))
  | next {p : RowIterator × (DiskStore × Files)} (h : Use it d fs p) :
    Use it d fs (RowIterator.next DiskStore.reader p).2
  | read {it' : RowIterator} {s : DiskStore × Files} (h : Use it d fs (it', s))
    (batch column : Nat) : Use it d fs (it', (DiskStore.readChunk batch column s).2)
  | evict {it' : RowIterator} {d' : DiskStore} {fs' : Files} (h : Use it d fs (it', (d', fs')))
    (keep : Nat × Nat → Bool) : Use it d fs (it', (d'.evict keep, fs'))
  | change {it' : RowIterator} {d' : DiskStore} {fs' : Files} (h : Use it d fs (it', (d', fs')))
    (fs'' : Files) : Use it d fs (it', (d', fs''))
  | close {it' : RowIterator} {d' : DiskStore} {fs' : Files} (h : Use it d fs (it', (d', fs'))) :
    Use it d fs (it', (d'.close, fs'))

/-- **Whatever happens to the store**, it stays sound and the iterator fit. -/
theorem Use.fit {it : RowIterator} {d : DiskStore} {fs : Files}
    {p : RowIterator × (DiskStore × Files)} (h : Use it d fs p) (hit : it.Fit rows)
    (hd : d.Sound rows) : p.1.Fit rows ∧ p.2.1.Sound rows := by
  induction h with
  | start => exact ⟨hit, hd⟩
  | @next p _ ih =>
    have hkeeps := keeps_next (DiskStore.reader_delivers rows).keeps p ih.2
    exact ⟨(next_delivers (DiskStore.reader_delivers rows) ih.1 ih.2).2, hkeeps⟩
  | @read it' s _ batch column ih => exact ⟨ih.1, (ih.2.readChunk s.2 batch column).2⟩
  | evict _ keep ih => exact ⟨ih.1, ih.2.evict keep⟩
  | change _ fs'' ih => exact ih
  | close _ ih => exact ⟨ih.1, ih.2.close⟩

/-- **Reading an open file never aborts**, whatever bytes it has.

Every block of the index lies in the file, before the index that the tail points to, and is read in
full. Every filter that fits the table has an iterator. Asked for a row, at any time, it answers
that there is none, or with a row, or with an error; and so does every cell of the row. -/
theorem reading_never_aborts {fs : Files} {path : String} {t : TableInfo} {hasKeys : Bool}
    {tags : ClassTags} {d : DiskStore} {f : ColumnFilter}
    (hmapping : SchemaMapping.ofTags t.spec hasKeys tags = .ok t.mapping)
    (hopen : DiskStore.openFile fs path t.mapping.schema.specs = .ok d)
    (hf : f.validate t.spec.size = .ok ()) :
    (∃ file tail, fs.find? path = some file ∧ d.file? = some file ∧
      DiskStore.Indexed fs file t.mapping.schema.specs tail d.index.toList ∧
      ∀ b ∈ d.index.toList, ∀ r ∈ b.blocks, ∃ block,
        fs.readRange file r.offset r.length = .ok block ∧ block.size = r.length) ∧
    ∃ it, ofFilter t f = .ok it ∧ ∀ p, Use it d fs p →
      (next DiskStore.reader p).1.Returns ∧
      ∀ row, (next DiskStore.reader p).1 = .ok (some row) → ∀ i, (row.cell i).Returns := by
  refine ⟨?_, ?_⟩
  · obtain ⟨file, tail, index, -, hfind, hindexed, rfl⟩ := DiskStore.openFile_eq_ok hopen
    exact ⟨file, tail, hfind, rfl, hindexed, fun b hb r hr => hindexed.readRange hb hr⟩
  · have hwidth := (SchemaMapping.mapsTo_of_ofTags hmapping).length_eq
    obtain ⟨it, hfilter⟩ := exists_ofFilter hwidth hf
    refine ⟨it, hfilter, fun p hp => ?_⟩
    obtain ⟨hit, hd⟩ := hp.fit (fit_ofFilter hfilter _) (DiskStore.sound_of_openFile hopen)
    obtain ⟨hnext, -⟩ := next_delivers (DiskStore.reader_delivers _) hit hd
    refine ⟨hnext.returns, fun row hrow i => ?_⟩
    have hreturns := hnext.of_eq_ok hrow row rfl
    unfold Row.cell
    split
    · rename_i o ho
      exact hreturns o (List.mem_of_getElem? ho)
    · trivial

/-- A table of one column of numbers. -/
def sampleNumbers : TableInfo :=
  ⟨1, ⟨[⟨"n", .primitive .int⟩]⟩, ⟨false, [.int], .empty .builtin⟩, 1⟩

/-- A file with one row of it. The number comes with a serialized cell whose tag leads to no
class. -/
def sampleForeign : Files :=
  Files.empty.add "t" <| ChunkFile.header ++
    [9, 0, 0, 0, 5, 0, 0, 0, 0xFE, 1, 0, 0, 0, 1, 0, 0, 0, 0x80, 0xFE, 1, 0, 0, 0] ++
    Chunk.encodeTrailer .supplemented .none 0 ++ BatchIndex.encode ⟨1, [⟨8, 39⟩]⟩ ++
    ChunkSpec.encode (.paired (.plain .int)) ++ FileTail.encode ⟨1, 1, 47⟩

/-- The row that is read from the file. -/
def sampleForeignRow : Row := ⟨none, [Outcome.fail (.unknownCellTag (-128))]⟩

/-- Whether the file opens, and the first row read from it is that row. -/
def sampleIsRead : Bool :=
  match DiskStore.openFile sampleForeign "t" sampleNumbers.mapping.schema.specs,
    ofFilter sampleNumbers .all with
  | .ok d, .ok it =>
    (next DiskStore.reader (it, (d, sampleForeign))).1 = .ok (some sampleForeignRow)
  | .ok _, .error _ | .error _, _ => false

theorem sampleIsRead_eq : sampleIsRead = true := by
  have hopen : sampleForeign.openFile "t" = .ok ⟨0⟩ := by cbv
  have hindex : DiskStore.readIndex sampleForeign ⟨0⟩ sampleNumbers.mapping.schema.specs =
      .ok [⟨1, [⟨8, 39⟩]⟩] := by cbv
  rw [sampleIsRead, DiskStore.openFile_of_readIndex hopen hindex]
  cbv

theorem reading_never_aborts_sample :
    ∃ d it, DiskStore.openFile sampleForeign "t" sampleNumbers.mapping.schema.specs = .ok d ∧
      ofFilter sampleNumbers .all = .ok it ∧
      (next DiskStore.reader (it, (d, sampleForeign))).1 = .ok (some sampleForeignRow) ∧
      ∀ i, (sampleForeignRow.cell i).Returns := by
  have h := sampleIsRead_eq
  unfold sampleIsRead at h
  split at h
  · rename_i d it hopen hfilter
    have hrow := of_decide_eq_true h
    have hmapping : SchemaMapping.ofTags sampleNumbers.spec false (.empty .builtin) =
        .ok sampleNumbers.mapping := rfl
    obtain ⟨-, it', hfilter', huse⟩ := reading_never_aborts (f := .all) hmapping hopen rfl
    cases hfilter.symm.trans hfilter'
    exact ⟨d, it, hopen, hfilter, hrow, (huse _ .start).2 _ hrow⟩
  · cases h
  · cases h

end RowIterator

end Columnar
