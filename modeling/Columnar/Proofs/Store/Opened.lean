import Columnar.Proofs.Block.Decoding
import Columnar.Proofs.Cursor.Uniform
import Columnar.Proofs.Store.Contents

/-!
# Stores over any file

A file is opened by what its tail and its index say, and only if they fit the file. What lies in the
blocks is looked at when they are read.

**The index** (`DiskStore.Indexed`). The tail of a file that could be opened points behind the
header and not behind itself, the index found there has one block for every spec in every batch, and
every block ends before it. So every block is read in full (`Indexed.readRange`).

**Reading** (`DiskStore.Sound`). A store whose index goes with its specs, and whose cache has
uniform chunks, delivers uniform chunks (`reader_delivers`). It stays sound when it is read from,
whatever the file has become by then, when chunks are dropped from its cache and when it is closed.
-/

namespace Columnar

open ChunkFile

namespace DiskStore

/-- The index that the tail of a file leads to. -/
structure Indexed (fs : Files) (file : FileId) (specs : List ChunkSpec) (tail : FileTail)
    (index : List BatchIndex) : Prop where
  tail_eq : FileTail.decode ((fs.read file).drop (fs.size file - tailSize)) = .ok tail
  header_le : headerSize ≤ tail.indexOffset
  le_size : tail.indexOffset + tailSize ≤ fs.size file
  widths_eq : ∀ b ∈ index, b.blocks.length = specs.length
  inside : ∀ b ∈ index, ∀ r ∈ b.blocks, r.offset + r.length ≤ tail.indexOffset

variable {fs : Files} {file : FileId} {path : String} {specs : List ChunkSpec} {tail : FileTail}
  {index : List BatchIndex} {d : DiskStore} {rows : Nat → Nat}

/-- **Every block is read in full.** -/
theorem Indexed.readRange (h : Indexed fs file specs tail index) {b : BatchIndex} (hb : b ∈ index)
    {r : BlockRange} (hr : r ∈ b.blocks) :
    ∃ block, fs.readRange file r.offset r.length = .ok block ∧ block.size = r.length := by
  have hinside := h.inside b hb r hr
  have hsize := h.le_size
  have hpart : ((fs.buffer file).slice r.offset (r.offset + r.length)).size = r.length := by
    have hbuffer : (fs.buffer file).size = fs.size file := rfl
    rw [Buffer.size_slice, hbuffer]
    omega
  exact ⟨_, if_pos hpart, hpart⟩

theorem indexed_of_readIndex (h : readIndex fs file specs = .ok index) :
    ∃ tail, Indexed fs file specs tail index := by
  obtain ⟨hlong, h⟩ := Outcome.guard_eq_ok h
  obtain ⟨header, -, h⟩ := Outcome.bind_eq_ok h
  obtain ⟨-, -, h⟩ := Outcome.bind_eq_ok h
  obtain ⟨last, hlast, h⟩ := Outcome.bind_eq_ok h
  obtain ⟨tail, htail, h⟩ := Outcome.bind_eq_ok h
  obtain ⟨hoffset, h⟩ := Outcome.guard_eq_ok h
  obtain ⟨footer, -, h⟩ := Outcome.bind_eq_ok h
  obtain ⟨⟨batches, found⟩, hindex, h⟩ := Outcome.bind_eq_ok h
  obtain ⟨hfound, h⟩ := Outcome.guard_eq_ok h
  have hspecs : found = specs := Decidable.not_not.mp hfound
  split at h
  · rename_i hends
    cases h
    -- what is read at the tail is all that follows
    have hdrop : last.toList = (fs.read file).drop (fs.size file - tailSize) := by
      rw [Files.readRange_eq] at hlast
      have hrest : ((fs.read file).drop (fs.size file - tailSize)).length ≤ tailSize := by
        rw [List.length_drop, Files.length_read]
        omega
      rw [List.take_of_length_le hrest] at hlast
      split at hlast
      · cases hlast
        exact Buffer.toList_ofList _
      · cases hlast
    obtain ⟨-, hwidths, hcolumns⟩ := FileTail.lengths_of_decodeIndex hindex
    refine ⟨tail, hdrop ▸ htail, by omega, by omega, ?_, ?_⟩
    · intro b hb
      rw [hwidths b hb, ← hspecs, hcolumns]
    · simpa [blocksEndBefore] using hends
  · cases h

theorem openFile_eq_ok (h : openFile fs path specs = .ok d) :
    ∃ file tail index hindex, fs.find? path = some file ∧ Indexed fs file specs tail index ∧
      d = ⟨path, specs, index.toArray, some file, .empty, hindex⟩ := by
  cases hopen : fs.openFile path with
  | error e =>
    rw [openFile, hopen] at h
    cases e <;> cases h
  | ok file =>
    cases hindex : readIndex fs file specs with
    | error e =>
      rw [openFile_of_error hopen hindex] at h
      cases e <;> cases h
    | ok index =>
      rw [openFile_of_readIndex hopen hindex] at h
      cases h
      obtain ⟨tail, hindexed⟩ := indexed_of_readIndex hindex
      exact ⟨file, tail, index, numbered_of_readIndex hindex, Outcome.ofOption_eq_ok.mp hopen,
        hindexed, rfl⟩

/-! ## Reading -/

/-- The index goes with the specs, and the cached chunks with the row counts of the index. -/
structure Sound (rows : Nat → Nat) (d : DiskStore) : Prop where
  rowCount_eq : d.rowCount = rows
  widths_le : ∀ {i : Nat} {b : BatchIndex}, d.index[i]? = some b →
    b.blocks.length ≤ d.specs.length
  cached : ∀ {i j : Nat} {c : Chunk}, d.cache.find? i j = some c → c.Uniform (rows i)

theorem sound_of_openFile (h : openFile fs path specs = .ok d) : d.Sound d.rowCount := by
  obtain ⟨file, tail, index, -, -, hindexed, rfl⟩ := openFile_eq_ok h
  refine ⟨rfl, fun {i b} hb => ?_, fun hfind => ?_⟩
  · rw [List.getElem?_toArray] at hb
    exact Nat.le_of_eq (hindexed.widths_eq b (List.mem_of_getElem? hb))
  · rw [ChunkCache.find?_empty] at hfind
    cases hfind

theorem Sound.evict (h : d.Sound rows) (keep : Nat × Nat → Bool) : (d.evict keep).Sound rows where
  rowCount_eq := h.rowCount_eq
  widths_le := h.widths_le
  cached hfind := by
    rw [DiskStore.evict, ChunkCache.find?_evict] at hfind
    split at hfind
    · exact h.cached hfind
    · cases hfind

theorem Sound.close (h : d.Sound rows) : d.close.Sound rows where
  rowCount_eq := h.rowCount_eq
  widths_le := h.widths_le
  cached hfind := by
    rw [DiskStore.close, ChunkCache.find?_empty] at hfind
    cases hfind

theorem Sound.insert (h : d.Sound rows) {i j : Nat} {c : Chunk} (hc : c.Uniform (rows i)) :
    Sound rows { d with cache := d.cache.insert i j c } where
  rowCount_eq := h.rowCount_eq
  widths_le := h.widths_le
  cached {b k c'} hfind := by
    rw [ChunkCache.find?_insert] at hfind
    split at hfind
    · rename_i hbk
      cases hfind
      exact hbk.1 ▸ hc
    · exact h.cached hfind

theorem locate_returns {i j : Nat} {e : Failure} (h : d.locate i j = .error e) :
    Outcome.Returns (.error e : Outcome Chunk) := by
  unfold locate at h
  split at h
  · cases h
    trivial
  split at h
  · cases h
    trivial
  split at h
  · cases h
    trivial
  · cases h

theorem readRange_returns (fs : Files) (file : FileId) (offset length : Nat) :
    (fs.readRange file offset length).Returns := by
  unfold Files.readRange
  dsimp only
  split <;> trivial

/-- A block that is read is decoded as what the index says of it, or refused. -/
theorem Sound.loadChunk_meets (h : d.Sound rows) (fs : Files) (i j : Nat) :
    (d.loadChunk fs i j).Meets (Chunk.Uniform (rows i)) := by
  cases hlocate : d.locate i j with
  | error e =>
    rw [loadChunk_of_locate hlocate]
    exact (locate_returns hlocate).meets_error
  | ok p =>
    obtain ⟨file, n, r⟩ := p
    obtain ⟨-, b, hb, hn, hr⟩ := locate_eq_ok.mp hlocate
    have hlt : j < d.specs.length :=
      Nat.lt_of_lt_of_le (List.getElem?_eq_some_iff.mp hr).1 (h.widths_le hb)
    have hrows : rows i = n := by
      rw [← h.rowCount_eq, rowCount, hb]
      exact hn
    simp only [loadChunk, hlocate, List.getElem?_eq_getElem hlt, Outcome.ofIndex, Outcome.ok_bind,
      hrows]
    refine Outcome.Meets.mapError ?_ _
    refine (readRange_returns fs file r.offset r.length).meets.bind fun block _ => ?_
    refine Outcome.Meets.mapError ?_ _
    exact (Chunk.decodeBlock_meets _ n block).imp fun c hc => hc.2

/-- **Reading a chunk** of a sound store, whatever the file is by now. -/
theorem Sound.readChunk (h : d.Sound rows) (fs : Files) (i j : Nat) :
    (DiskStore.readChunk i j (d, fs)).1.Meets (Chunk.Uniform (rows i)) ∧
      (DiskStore.readChunk i j (d, fs)).2.1.Sound rows := by
  have hload := h.loadChunk_meets fs i j
  have hreads := readChunk_reads d fs i j
  generalize DiskStore.readChunk i j (d, fs) = result at hreads
  cases hreads with
  | refused hlocate =>
    rw [loadChunk_of_locate hlocate] at hload
    exact ⟨hload, h⟩
  | cached hlocate hfind => exact ⟨h.cached hfind, h⟩
  | loaded hlocate hfind hc => exact ⟨hload.of_eq_ok hc, h.insert (hload.of_eq_ok hc)⟩
  | failed hlocate hfind he =>
    rw [he] at hload
    exact ⟨hload, h⟩

theorem reader_delivers (rows : Nat → Nat) :
    reader.Delivers (fun s => s.1.Sound rows) rows where
  rowCount h := h.rowCount_eq
  readChunk {s} h i j := (h.readChunk s.2 i j).1
  keeps i j s h := (h.readChunk s.2 i j).2

end DiskStore

end Columnar
