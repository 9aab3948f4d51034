import Columnar.Proofs.Block.Basic
import Columnar.Proofs.ChunkFile.Writer
import Columnar.Proofs.Files
import Columnar.Proofs.Store.Contents

/-!
# Opening the chunk file of some batches

Main results: `openFile_mirrors`, a file with the encoding of some batches opens as a store that
mirrors them, and `openFile_otherSpecs`, it opens under no other specs.
-/

namespace Columnar

/-- The batch has uniform chunks of these specs, all of its row count. -/
structure Batch.WellFormed (specs : List ChunkSpec) (b : Batch) : Prop where
  specs_eq : b.chunks.map Chunk.spec = specs
  uniform : ∀ c ∈ b.chunks, c.Uniform b.rowCount

/-- What it takes for batches to be saved: columns that can be read back, and counts that fit. -/
structure Savable (specs : List ChunkSpec) (bs : List Batch) : Prop where
  wellFormed : ∀ b ∈ bs, b.WellFormed specs
  flat : ∀ spec ∈ specs, spec.IsFlat
  columns_lt : specs.length < wordLimit
  batches_lt : bs.length < wordLimit
  rows_lt : ∀ b ∈ bs, b.rowCount < wordLimit

namespace DiskStore

variable {specs : List ChunkSpec} {type : ChecksumType} {bs : List Batch} {data blocks : Bytes}
  {index : List BatchIndex} {fs : Files} {file : FileId} {path : String}

open ChunkFile

theorem fits_of_indexed (hbs : Savable specs bs)
    (hi : ChunkFile.Indexed type headerSize bs blocks index)
    (hsize : headerSize + blocks.length < longLimit) :
    ∀ x ∈ index, x.Fits specs.length := by
  intro x hx
  obtain ⟨i, hi'⟩ := List.getElem?_of_mem hx
  have hrows := congrArg (·[i]?) hi.rows_eq
  have hwidths := congrArg (·[i]?) hi.widths_eq
  simp only [List.getElem?_map, hi', Option.map_some] at hrows hwidths
  obtain ⟨b, hb, hrow⟩ := Option.map_eq_some_iff.mp hrows.symm
  have hmem := List.mem_of_getElem? hb
  rw [hb, Option.map_some, Option.some.injEq] at hwidths
  refine ⟨hrow ▸ hbs.rows_lt b hmem, ?_, fun r hr => ?_⟩
  · rw [hwidths, ← (hbs.wellFormed b hmem).specs_eq, List.length_map]
  · have := hi.ends x hx r hr
    have := LittleEndian.longLimit_lt_limit
    exact ⟨by omega, by omega⟩

/-- Reading the index of a file that has the four parts finds the one before the tail. -/
theorem readIndex_of_parts {tail : FileTail} {footer : Bytes}
    (hread : fs.read file = header ++ (blocks ++ (footer ++ tail.encode)))
    (hoffset : tail.indexOffset = headerSize + blocks.length) (hfits : tail.Fits)
    (specs' : List ChunkSpec) :
    readIndex fs file specs' = (tail.decodeIndex footer >>= fun (index, found) =>
      if found ≠ specs' then Outcome.fail (.decode (.fileSpecs found specs'))
      else if blocksEndBefore index tail.indexOffset then .ok index
      else Outcome.fail (.decode .blockRange)) := by
  have hlen : (fs.read file).length = headerSize + blocks.length + footer.length + tailSize := by
    rw [hread]
    simp only [List.length_append, length_header, FileTail.length_encode]
    omega
  -- each of the three reads finds its part where the parts before it end
  have hheader : fs.readRange file 0 headerSize = .ok (.ofList header) :=
    Files.readRange_of_append [] header _ hread
  have htail : fs.readRange file (headerSize + blocks.length + footer.length) tailSize =
      .ok (.ofList tail.encode) := by
    have h := Files.readRange_of_append (header ++ blocks ++ footer) tail.encode []
      (by rw [hread, List.append_nil]; simp only [List.append_assoc])
    rwa [List.length_append, List.length_append, length_header, FileTail.length_encode] at h
  have hfooter : fs.readRange file tail.indexOffset footer.length = .ok (.ofList footer) := by
    have h := Files.readRange_of_append (header ++ blocks) footer tail.encode
      (by rw [hread, List.append_assoc])
    rwa [List.length_append, length_header, ← hoffset] at h
  have hlong : ¬ (fs.read file).length < headerSize + tailSize := by omega
  have htailOffset :
      (fs.read file).length - tailSize = headerSize + blocks.length + footer.length := by
    omega
  have hinside : ¬ (tail.indexOffset < headerSize ∨
      headerSize + blocks.length + footer.length < tail.indexOffset) := by omega
  have hfooterLength : headerSize + blocks.length + footer.length - tail.indexOffset =
      footer.length := by omega
  rw [readIndex, ← Files.length_read]
  simp only [if_neg hlong, hheader, Outcome.ok_bind, Buffer.toList_ofList, checkHeader_header,
    htailOffset, htail, FileTail.decode_encode hfits, if_neg hinside, hfooterLength, hfooter]
  rfl

theorem readIndex_eq (hbs : Savable specs bs)
    (hi : ChunkFile.Indexed type headerSize bs blocks index)
    (hread : fs.read file = header ++ (blocks ++ ((index.flatMap BatchIndex.encode ++
      specs.flatMap ChunkSpec.encode) ++
        FileTail.encode ⟨specs.length, bs.length, headerSize + blocks.length⟩)))
    (hsize : (fs.read file).length < longLimit) (specs' : List ChunkSpec) :
    readIndex fs file specs' =
      if specs ≠ specs' then Outcome.fail (.decode (.fileSpecs specs specs')) else .ok index := by
  have hlen := congrArg List.length hread
  simp only [List.length_append, length_header] at hlen
  have hlimit := LittleEndian.longLimit_lt_limit
  have hcount : bs.length = index.length := by simpa using (congrArg List.length hi.rows_eq).symm
  have htail : FileTail.Fits ⟨specs.length, bs.length, headerSize + blocks.length⟩ :=
    ⟨hbs.columns_lt, hbs.batches_lt, by dsimp only; omega⟩
  have hindex : FileTail.decodeIndex ⟨specs.length, bs.length, headerSize + blocks.length⟩
      (index.flatMap BatchIndex.encode ++ specs.flatMap ChunkSpec.encode) = .ok (index, specs) :=
    FileTail.decodeIndex_encode rfl hcount hbs.flat (fits_of_indexed hbs hi (by omega))
      hbs.columns_lt (by omega)
  have hends : blocksEndBefore index (headerSize + blocks.length) = true := by
    simp only [blocksEndBefore, List.all_eq_true, decide_eq_true_eq]
    exact hi.ends
  rw [readIndex_of_parts hread rfl htail, hindex, Outcome.ok_bind]
  simp only [hends, if_true]

/-- **A chunk file opens as a store that mirrors its batches.** -/
theorem openFile_mirrors (hbs : Savable specs bs)
    (hdata : ChunkFile.encode specs type bs = .ok data)
    (hread : fs.read? path = some data) (hsize : data.length < longLimit) :
    ∃ d, openFile fs path specs = .ok d ∧ d.Mirrors fs bs := by
  obtain ⟨blocks, index, hi, hparts⟩ := encode_eq_ok hdata
  obtain ⟨file, hopen, hfile⟩ := Files.openFile_of_read? hread
  have hindex := readIndex_eq hbs hi (hfile.trans hparts) (hfile ▸ hsize) specs
  rw [if_neg (fun hne => hne rfl)] at hindex
  refine ⟨_, openFile_of_readIndex hopen hindex, ⟨file, rfl⟩, hi.rows_eq, hi.widths_eq,
    fun {i j c} hat => ?_, fun hfind => ?_⟩
  · obtain ⟨b, hb, hc⟩ := chunkAt_eq_ok.mp hat
    have hrows := congrArg (·[i]?) hi.rows_eq
    have hwidths := congrArg (·[i]?) hi.widths_eq
    simp only [List.getElem?_map, hb, Option.map_some] at hrows hwidths
    obtain ⟨x, hx, hrow⟩ := Option.map_eq_some_iff.mp hrows
    rw [hx, Option.map_some, Option.some.injEq] at hwidths
    have hlt : j < x.blocks.length := hwidths ▸ (List.getElem?_eq_some_iff.mp hc).1
    have hr : x.blocks[j]? = some x.blocks[j] := List.getElem?_eq_getElem hlt
    obtain ⟨block, hblock, hlength, front, rest, hbytes, hfront⟩ :=
      hi.holds header _ length_header hb hx hc hr
    rw [← hparts, ← hfile] at hbytes
    -- the range that the index names holds the block of the chunk
    have hrange := Files.readRange_of_append front block rest hbytes
    have hwell := hbs.wellFormed b (List.mem_of_getElem? hb)
    have hspec : specs[j]? = some c.spec := by
      rw [← hwell.specs_eq, List.getElem?_map, hc, Option.map_some]
    have hdecode := Chunk.decodeBlock_encodeBlock (hwell.uniform c (List.mem_of_getElem? hc))
      (hbs.rows_lt b (List.mem_of_getElem? hb)) hblock
    have hx' : index.toArray[i]? = some x := by rw [List.getElem?_toArray, hx]
    simp only [loadChunk, locate, hx', hr, hspec, Outcome.ofIndex, Outcome.ok_bind, loadBlock,
      ← hfront, hlength, hrange, hrow, hdecode]
    rfl
  · rw [ChunkCache.find?_empty] at hfind
    cases hfind

/-- **A chunk file opens under no other specs.** -/
theorem openFile_otherSpecs (hbs : Savable specs bs)
    (hdata : ChunkFile.encode specs type bs = .ok data) (hread : fs.read? path = some data)
    (hsize : data.length < longLimit) {specs' : List ChunkSpec} (hne : specs' ≠ specs) :
    openFile fs path specs' = Outcome.fail (.atPath path (.decode (.fileSpecs specs specs'))) := by
  obtain ⟨blocks, index, hi, hparts⟩ := encode_eq_ok hdata
  obtain ⟨file, hopen, hfile⟩ := Files.openFile_of_read? hread
  have hindex := readIndex_eq hbs hi (hfile.trans hparts) (hfile ▸ hsize) specs'
  rw [if_pos (Ne.symm hne)] at hindex
  exact openFile_of_error hopen hindex

end DiskStore

end Columnar
