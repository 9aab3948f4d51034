import Columnar.Proofs.ChunkFile.Narrowing
import Columnar.Proofs.Store.Saved

/-!
# Numbers of a saved store

A saved store is a file with the numbers of its batches in fields of four and eight bytes. None of
them is checked when it is written.

**Opening** (`DiskStore.index_of_openFile`). The index of a store that was opened is the one that
was decoded from the footer of its file. So the file of a saved store is opened with what the fields
have of its index, and it is not opened at all if there are too many batches or columns for their
fields.

**Counting** (`ofCount_sum_mod_iff`). The remainders of some row counts add up to less than the row
counts, unless all of them fit.

Main result: `numbers_of_save`. A batch without columns may have any row count, so that a store of
few bytes can be saved and reopened with fewer rows (`saved_rows_vanish`).
-/

namespace Columnar

open ChunkFile

/-! ## Opening -/

namespace DiskStore

variable {fs : Files} {path : String} {specs : List ChunkSpec} {d : DiskStore} {tail : FileTail}
  {blocks footer : Bytes}

/-- **A store that was opened has the index of its footer.** -/
theorem index_of_openFile
    (hread : fs.read? path = some (header ++ (blocks ++ (footer ++ tail.encode))))
    (hoffset : tail.indexOffset = headerSize + blocks.length) (hfits : tail.Fits)
    (h : openFile fs path specs = .ok d) :
    tail.decodeIndex footer = .ok (d.index.toList, specs) := by
  obtain ⟨file, hopen, hfile⟩ := Files.openFile_of_read? hread
  have hparts := readIndex_of_parts hfile hoffset hfits specs
  cases hindex : readIndex fs file specs with
  | error e =>
    rw [openFile_of_error hopen hindex] at h
    cases e <;> cases h
  | ok index =>
    rw [openFile_of_readIndex hopen hindex] at h
    cases h
    rw [hindex] at hparts
    obtain ⟨⟨batches, found⟩, hdecode, hrest⟩ := Outcome.bind_eq_ok hparts.symm
    obtain ⟨hspecs, hrest⟩ := Outcome.guard_eq_ok hrest
    split at hrest
    · cases hrest
      rw [hdecode, Decidable.not_not.mp hspecs, List.toList_toArray]
    · cases hrest

theorem exists_openFile
    (hread : fs.read? path = some (header ++ (blocks ++ (footer ++ tail.encode))))
    (hoffset : tail.indexOffset = headerSize + blocks.length) (hfits : tail.Fits)
    {index : List BatchIndex} (hdecode : tail.decodeIndex footer = .ok (index, specs))
    (hends : blocksEndBefore index tail.indexOffset = true) :
    ∃ d, openFile fs path specs = .ok d := by
  obtain ⟨file, hopen, hfile⟩ := Files.openFile_of_read? hread
  have hindex := readIndex_of_parts hfile hoffset hfits specs
  simp only [hdecode, Outcome.ok_bind, ne_eq, not_true, if_false, hends, if_true] at hindex
  exact ⟨_, openFile_of_readIndex hopen hindex⟩

end DiskStore

/-! ## Counting -/

theorem ChunkReader.totalRows_eq {σ : Type} {r : ChunkReader σ} {s : σ} {rows : List Nat}
    (hbatches : r.batchCount s = rows.length) (hrows : ∀ i, r.rowCount s i = rows[i]?.getD 0) :
    r.totalRows s = rows.sum := by
  have hmap : (List.range rows.length).map (r.rowCount s) = rows := by
    refine List.ext_getElem (by simp) fun i h _ => ?_
    have hlt : i < rows.length := by simpa using h
    rw [List.getElem_map, List.getElem_range, hrows, List.getElem?_eq_getElem hlt, Option.getD_some]
  rw [totalRows, hbatches, List.sum_eq_foldl, ← hmap, List.foldl_map, List.length_map,
    List.length_range]

theorem MemoryStore.countRows_eq (s : MemoryStore) :
    MemoryStore.reader.countRows s = Outcome.ofCount (s.batches.toList.map Batch.rowCount).sum := by
  rw [ChunkReader.countRows, ChunkReader.totalRows_eq]
  · exact s.batches.size_eq.trans (List.length_map _).symm
  · intro i
    rw [List.getElem?_map]
    exact s.rowCount_eq i

theorem DiskStore.countRows_eq (d : DiskStore) (fs : Files) :
    DiskStore.reader.countRows (d, fs) =
      Outcome.ofCount (d.index.toList.map BatchIndex.rows).sum := by
  rw [ChunkReader.countRows, ChunkReader.totalRows_eq]
  · exact (List.length_map _).symm
  · intro i
    rw [List.getElem?_map, Array.getElem?_toList]
    rfl

theorem sum_mod_le (limit : Nat) (counts : List Nat) :
    (counts.map (· % limit)).sum ≤ counts.sum := by
  induction counts with
  | nil => exact Nat.le_refl 0
  | cons n counts ih => exact Nat.add_le_add (Nat.mod_le n limit) ih

/-- Remainders add up to the same only if they are what they are remainders of. -/
theorem sum_mod_eq_iff {limit : Nat} (hlimit : 0 < limit) (counts : List Nat) :
    (counts.map (· % limit)).sum = counts.sum ↔ ∀ n ∈ counts, n < limit := by
  induction counts with
  | nil => simp
  | cons n counts ih =>
    have hle := sum_mod_le limit counts
    have hmod := Nat.mod_le n limit
    rw [List.map_cons, List.sum_cons, List.sum_cons, List.forall_mem_cons, ← ih,
      ← Nat.mod_eq_iff_lt hlimit.ne']
    omega

/-- **Row counts are counted as before** if all of them fit their fields. -/
theorem ofCount_sum_mod_iff {counts : List Nat} (hlength : counts.length < wordLimit) :
    Outcome.ofCount (counts.map (· % wordLimit)).sum = Outcome.ofCount counts.sum ↔
      ∀ n ∈ counts, n < wordLimit := by
  rw [← sum_mod_eq_iff (by decide) counts]
  refine ⟨fun h => ?_, fun h => by rw [h]⟩
  have hlt : (counts.map (· % wordLimit)).sum < 0x10000000000000000 := by
    have hle := List.sum_le_card_nsmul (counts.map (· % wordLimit)) (wordLimit - 1)
      (List.forall_mem_map.mpr fun n _ => Nat.le_pred_of_lt (Nat.mod_lt n (by decide)))
    rw [List.length_map, smul_eq_mul] at hle
    have hmul : counts.length * (wordLimit - 1) ≤ wordLimit * (wordLimit - 1) :=
      Nat.mul_le_mul_right _ hlength.le
    rw [wordLimit] at hle hmul ⊢
    omega
  rw [Outcome.ofCount, if_pos hlt, Outcome.ofCount] at h
  split at h
  · exact Except.ok.inj h
  · cases h

/-! ## Saved stores -/

namespace ChunkFile

variable {type : ChecksumType} {specs : List ChunkSpec} {bs : List Batch} {blocks : Bytes}
  {index : List BatchIndex}

/-- Tail of the file of some batches with these blocks. -/
def tailOf (specs : List ChunkSpec) (bs : List Batch) (blocks : Bytes) : FileTail :=
  ⟨specs.length, bs.length, headerSize + blocks.length⟩

/-- Index and specs. -/
def footerOf (specs : List ChunkSpec) (index : List BatchIndex) : Bytes :=
  index.flatMap BatchIndex.encode ++ specs.flatMap ChunkSpec.encode

theorem Indexed.length_eq (hi : Indexed type headerSize bs blocks index) :
    index.length = bs.length := by
  simpa using congrArg List.length hi.rows_eq

theorem Indexed.widths (hi : Indexed type headerSize bs blocks index)
    (hbs : ∀ b ∈ bs, b.WellFormed specs) : ∀ b ∈ index, b.blocks.length = specs.length := by
  intro b hb
  have hmem : b.blocks.length ∈ index.map (·.blocks.length) := List.mem_map_of_mem hb
  rw [hi.widths_eq] at hmem
  obtain ⟨b', hb', heq⟩ := List.mem_map.mp hmem
  rw [← heq, ← (hbs b' hb').specs_eq, List.length_map]

theorem Indexed.fits (hi : Indexed type headerSize bs blocks index)
    (hoffset : headerSize + blocks.length < LittleEndian.limit 8) {b : BatchIndex}
    (hb : b ∈ index) : ∀ r ∈ b.blocks, r.Fits := by
  intro r hr
  have hend := hi.ends b hb r hr
  exact ⟨by omega, by omega⟩

/-- **Nothing is lost** in the fields if the counts fit, and the offset of the index. -/
theorem Indexed.stored_eq_iff (hi : Indexed type headerSize bs blocks index) :
    (tailOf specs bs blocks).stored = tailOf specs bs blocks ∧
      index.map BatchIndex.stored = index ↔
    specs.length < wordLimit ∧ bs.length < wordLimit ∧ (∀ b ∈ bs, b.rowCount < wordLimit) ∧
      headerSize + blocks.length < LittleEndian.limit 8 := by
  have hrows : (∀ b ∈ index, b.rows < wordLimit) ↔ ∀ b ∈ bs, b.rowCount < wordLimit := by
    rw [← List.forall_mem_map (f := BatchIndex.rows) (P := (· < wordLimit)), hi.rows_eq,
      List.forall_mem_map]
  rw [FileTail.stored_eq_iff, ← hrows, BatchIndex.map_stored_eq_iff]
  refine ⟨fun ⟨⟨hcolumns, hbatches, hoffset⟩, hindex⟩ => ?_,
    fun ⟨hcolumns, hbatches, hindex, hoffset⟩ => ⟨⟨hcolumns, hbatches, hoffset⟩, fun b hb => ?_⟩⟩
  · exact ⟨hcolumns, hbatches, fun b hb => (hindex b hb).1, hoffset⟩
  · exact ⟨hindex b hb, hi.fits hoffset hb⟩

/-- The row counts that are stored are what the fields have of those of the batches. -/
theorem Indexed.rows_stored (hi : Indexed type headerSize bs blocks index) :
    (index.map BatchIndex.stored).map BatchIndex.rows =
      (bs.map Batch.rowCount).map (· % wordLimit) := by
  rw [← hi.rows_eq, List.map_map, List.map_map]
  rfl

theorem Indexed.ends_stored (hi : Indexed type headerSize bs blocks index)
    (hoffset : headerSize + blocks.length < LittleEndian.limit 8) :
    DiskStore.blocksEndBefore (index.map BatchIndex.stored) (headerSize + blocks.length) =
      true := by
  simp only [DiskStore.blocksEndBefore, List.all_eq_true, decide_eq_true_eq]
  intro x hx r hr
  obtain ⟨b, hb, rfl⟩ := List.mem_map.mp hx
  obtain ⟨r', hr', rfl⟩ := List.mem_map.mp hr
  rw [r'.stored_eq_iff.mpr (hi.fits hoffset hb r' hr')]
  exact hi.ends b hb r' hr'

section Reopened

variable {fs : Files} {path : String} {d : DiskStore} {data : Bytes}

theorem Indexed.index_of_openFile (hi : Indexed type headerSize bs blocks index)
    (hbs : ∀ b ∈ bs, b.WellFormed specs) (hread : fs.read? path = some data)
    (hdata : data = header ++ (blocks ++ (footerOf specs index ++ (tailOf specs bs blocks).encode)))
    (hoffset : headerSize + blocks.length < LittleEndian.limit 8) {specs' : List ChunkSpec}
    (hopen : DiskStore.openFile fs path specs' = .ok d) :
    specs.length < wordLimit ∧ bs.length < wordLimit ∧
      d.index.toList = index.map BatchIndex.stored := by
  rw [hdata, ← FileTail.encode_stored] at hread
  have hdecode := DiskStore.index_of_openFile hread (Nat.mod_eq_of_lt hoffset)
    (FileTail.fits_stored _) hopen
  exact FileTail.counts_of_decodeIndex rfl hi.length_eq.symm (hi.widths hbs) hdecode

theorem Indexed.exists_openFile (hi : Indexed type headerSize bs blocks index)
    (hbs : ∀ b ∈ bs, b.WellFormed specs) (hread : fs.read? path = some data)
    (hdata : data = header ++ (blocks ++ (footerOf specs index ++ (tailOf specs bs blocks).encode)))
    (hsize : data.length < LittleEndian.limit 8) (hcolumns : specs.length < wordLimit)
    (hbatches : bs.length < wordLimit) (hflat : ∀ spec ∈ specs, spec.IsFlat) :
    ∃ d, DiskStore.openFile fs path specs = .ok d := by
  have hlength := congrArg List.length hdata
  simp only [footerOf, List.length_append, length_header] at hlength
  have hoffset : headerSize + blocks.length < LittleEndian.limit 8 := by omega
  have hfooter : (tailOf specs bs blocks).Footer (index.map BatchIndex.stored) specs
      (footerOf specs index) := by
    refine ⟨(List.length_map _).trans hi.length_eq, rfl, ?_, hflat, ?_⟩
    · exact BatchIndex.fits_map_stored (hi.widths hbs)
    · rw [BatchIndex.flatMap_encode_stored, footerOf]
  have hbytes := hfooter.length_batches
  rw [BatchIndex.flatMap_encode_stored] at hbytes
  exact DiskStore.exists_openFile (hdata ▸ hread) rfl ⟨hcolumns, hbatches, hoffset⟩
    (hfooter.decodeIndex hcolumns (by omega)) (hi.ends_stored hoffset)

end Reopened

end ChunkFile

/-- A store that was opened with the index as it is stored counts the rows of the batches if the
rows of every batch fit. -/
theorem countRows_eq_iff {type : ChecksumType} {s : MemoryStore} {blocks : Bytes}
    {index : List BatchIndex} (hi : Indexed type headerSize s.batches.toList blocks index)
    (hbatches : s.batches.toList.length < wordLimit) {d : DiskStore}
    (hindex : d.index.toList = index.map BatchIndex.stored) (fs : Files) :
    DiskStore.reader.countRows (d, fs) = MemoryStore.reader.countRows s ↔
      ∀ b ∈ s.batches.toList, b.rowCount < wordLimit := by
  rw [DiskStore.countRows_eq, MemoryStore.countRows_eq, hindex, hi.rows_stored,
    ofCount_sum_mod_iff (by rwa [List.length_map]), List.forall_mem_map]

/-- **The numbers of a saved store.** A file that a store of batches was saved as has its blocks,
where the index says, and then the index, the specs and the tail.

- The tail is read back with what four bytes have of the number of columns and of batches, and eight
  bytes of the offset of the index. The index is read back with what four bytes have of each row
  count, and eight bytes of each offset and length.
- These are the numbers themselves if and only if the columns, the batches and the rows of every
  batch can be counted in four bytes, and the bytes before the index in eight.
- What is opened from the file, if its bytes can be counted, has the index as it is stored, and the
  columns and batches could be counted in four bytes. It counts as many rows as the store if and
  only if the rows of every batch could.
- It is opened then if the specs can be read back, whatever the row counts. -/
theorem numbers_of_save {specs : List ChunkSpec} {checksum : ChecksumType} {s : MemoryStore}
    {path : String} {fs fs' : Files} (hs : s.Written specs checksum)
    (hsave : s.save path fs = (.ok (), fs')) :
    ∃ (data blocks : Bytes) (index : List BatchIndex) (tail : FileTail),
      fs'.read? path = some data ∧
      data = header ++ (blocks ++ (footerOf specs index ++ tail.encode)) ∧
      Indexed checksum headerSize s.batches.toList blocks index ∧
      tail = tailOf specs s.batches.toList blocks ∧
      FileTail.decode tail.encode = .ok tail.stored ∧
      BatchIndex.readMany tail.columns tail.batches (footerOf specs index) =
        .ok (index.map BatchIndex.stored, specs.flatMap ChunkSpec.encode) ∧
      (tail.stored = tail ∧ index.map BatchIndex.stored = index ↔
        specs.length < wordLimit ∧ s.batches.toList.length < wordLimit ∧
          (∀ b ∈ s.batches.toList, b.rowCount < wordLimit) ∧
          headerSize + blocks.length < LittleEndian.limit 8) ∧
      (data.length < LittleEndian.limit 8 →
        (∀ specs' d, DiskStore.openFile fs' path specs' = .ok d →
          specs.length < wordLimit ∧ s.batches.toList.length < wordLimit ∧
          d.index.toList = index.map BatchIndex.stored ∧
          (DiskStore.reader.countRows (d, fs') = MemoryStore.reader.countRows s ↔
            ∀ b ∈ s.batches.toList, b.rowCount < wordLimit)) ∧
        (specs.length < wordLimit → s.batches.toList.length < wordLimit →
          (∀ spec ∈ specs, spec.IsFlat) →
          ∃ d, DiskStore.openFile fs' path specs = .ok d)) := by
  obtain ⟨-, data, hdata, hread⟩ := MemoryStore.read?_of_save hsave
  obtain ⟨rfl, rfl, -, hwell⟩ := hs.wellFormed
  obtain ⟨blocks, index, hi, hparts⟩ := encode_eq_ok hdata
  have hlength := congrArg List.length hparts
  simp only [List.length_append, length_header] at hlength
  have hindex := BatchIndex.readMany_stored (hi.widths hwell) (s.specs.flatMap ChunkSpec.encode)
  rw [hi.length_eq] at hindex
  refine ⟨data, blocks, index, _, hread, hparts, hi, rfl, FileTail.decode_stored _, hindex,
    hi.stored_eq_iff, fun hsize => ⟨fun specs' d hopen => ?_, fun hcolumns hbatches hflat => ?_⟩⟩
  · have hoffset : headerSize + blocks.length < LittleEndian.limit 8 := by omega
    obtain ⟨hcolumns, hbatches, hindex⟩ := hi.index_of_openFile hwell hread hparts hoffset hopen
    exact ⟨hcolumns, hbatches, hindex, countRows_eq_iff hi hbatches hindex fs'⟩
  · exact hi.exists_openFile hwell hread hparts hsize hcolumns hbatches hflat

/-- A store without columns with batches of two and of `2 ^ 32` rows. -/
def sampleTall : MemoryStore :=
  (MemoryStore.write ⟨0x100000000, []⟩ (MemoryStore.write ⟨2, []⟩ (.empty [] .none)).2).2

theorem written_sampleTall : sampleTall.Written [] .none :=
  .write (.write .empty _ fun _ h => absurd h List.not_mem_nil) _
    fun _ h => absurd h List.not_mem_nil

/-- What is left of the row counts in the index of its file. -/
def sampleFlat : List BatchIndex := [⟨2, []⟩, ⟨0, []⟩]

/-- The store is saved, and what is opened from the file has lost the rows of a batch. -/
theorem reopen_sampleTall :
    ∃ fs d, sampleTall.save "f" .empty = (.ok (), fs) ∧ DiskStore.openFile fs "f" [] = .ok d ∧
      d.index.toList = sampleFlat ∧
      fs.read? "f" = some (header ++ (footerOf [] sampleFlat ++ FileTail.encode ⟨0, 2, 8⟩)) := by
  have hdata : ChunkFile.encode sampleTall.specs sampleTall.checksum sampleTall.batches.toList =
      .ok (header ++ (footerOf [] sampleFlat ++ FileTail.encode ⟨0, 2, 8⟩)) := by
    decide +kernel
  obtain ⟨fs, hsave⟩ := MemoryStore.save_of_encode (s := sampleTall) rfl
    (show Files.nameOf? "f" = some "f" by cbv) (by cbv) hdata .empty
  obtain ⟨-, data, hdata', hread⟩ := MemoryStore.read?_of_save hsave
  obtain rfl := Except.ok.inj (hdata'.symm.trans hdata)
  have hdecode : FileTail.decodeIndex ⟨0, 2, 8⟩ (footerOf [] sampleFlat) =
      .ok (sampleFlat, []) := by
    decide +kernel
  have hfits : FileTail.Fits ⟨0, 2, 8⟩ := ⟨by decide, by decide, by decide⟩
  have hbytes : fs.read? "f" =
      some (header ++ ([] ++ (footerOf [] sampleFlat ++ FileTail.encode ⟨0, 2, 8⟩))) := hread
  obtain ⟨d, hopen⟩ := DiskStore.exists_openFile hbytes rfl hfits hdecode rfl
  have hindex := DiskStore.index_of_openFile hbytes rfl hfits hopen
  rw [hdecode] at hindex
  exact ⟨fs, d, hsave, hopen, (Prod.mk.inj (Except.ok.inj hindex)).1.symm, hread⟩

theorem numbers_of_save_sample :
    ∃ fs d, sampleTall.Written [] .none ∧ sampleTall.save "f" .empty = (.ok (), fs) ∧
      DiskStore.openFile fs "f" [] = .ok d ∧
      DiskStore.reader.countRows (d, fs) ≠ MemoryStore.reader.countRows sampleTall := by
  obtain ⟨fs, d, hsave, hopen, -, hbytes⟩ := reopen_sampleTall
  refine ⟨fs, d, written_sampleTall, hsave, hopen, fun heq => ?_⟩
  obtain ⟨data, blocks, index, tail, hread, -, -, -, -, -, -, hreopened⟩ :=
    numbers_of_save written_sampleTall hsave
  obtain rfl := Option.some.inj (hread.symm.trans hbytes)
  obtain ⟨-, -, -, hcount⟩ := (hreopened (by decide)).1 [] d hopen
  exact absurd (hcount.mp heq) (by decide +kernel)

/-- **A store may be reopened with fewer rows than were saved**, and saving it succeeds. -/
theorem saved_rows_vanish :
    ∃ fs d, sampleTall.Written [] .none ∧ sampleTall.save "f" .empty = (.ok (), fs) ∧
      DiskStore.openFile fs "f" [] = .ok d ∧
      MemoryStore.reader.countRows sampleTall = .ok 0x100000002 ∧
      DiskStore.reader.countRows (d, fs) = .ok 2 := by
  obtain ⟨fs, d, hsave, hopen, hindex, -⟩ := reopen_sampleTall
  refine ⟨fs, d, written_sampleTall, hsave, hopen, by decide +kernel, ?_⟩
  rw [DiskStore.countRows_eq, hindex]
  rfl

end Columnar
