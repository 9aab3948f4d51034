import Columnar.ChunkFile
import Columnar.Proofs.Action

/-!
# Index and tail are read back

Every part of a chunk file that describes the others is read back from its bytes, whatever follows:
header, batches of the index, chunk specs and tail. Main result: `decodeIndex_encode`.
-/

namespace Columnar

/-- No pair is in a pair. -/
def ChunkSpec.IsFlat : ChunkSpec → Prop
  | .plain _ | .paired (.plain _) => True
  | .paired (.paired _) => False

instance (spec : ChunkSpec) : Decidable spec.IsFlat :=
  match spec with
  | .plain _ | .paired (.plain _) => .isTrue trivial
  | .paired (.paired _) => .isFalse id

theorem ChunkSpec.decode_encode {spec : ChunkSpec} (h : spec.IsFlat) (rest : Bytes) :
    decode (spec.encode ++ rest) = .ok (spec, rest) := by
  cases spec with
  | plain k => exact decode_encode_plain k rest
  | paired inner =>
    cases inner with
    | plain k => exact decode_encode_paired k rest
    | paired inner => exact h.elim

theorem ChunkSpec.decodeMany_flatMap {specs : List ChunkSpec} (h : ∀ spec ∈ specs, spec.IsFlat)
    (rest : Bytes) :
    decodeMany specs.length (specs.flatMap encode ++ rest) = .ok (specs, rest) := by
  induction specs with
  | nil => rfl
  | cons spec specs ih =>
    have ih := ih fun s hs => h s (List.mem_cons_of_mem spec hs)
    simp only [List.length_cons, decodeMany, List.flatMap_cons, List.append_assoc,
      decode_encode (h spec List.mem_cons_self), Outcome.ok_bind, ih]
    rfl

namespace ChunkFile

theorem length_header : header.length = headerSize := rfl

theorem checkHeader_header : checkHeader header = .ok () := rfl

end ChunkFile

/-! ## Batches -/

/-- Offset and length fit their fields. -/
def BlockRange.Fits (r : BlockRange) : Prop :=
  r.offset < LittleEndian.limit 8 ∧ r.length < LittleEndian.limit 8

namespace BatchIndex

/-- Row count and block ranges fit their fields, and there are as many ranges as columns. -/
structure Fits (columns : Nat) (b : BatchIndex) : Prop where
  rows : b.rows < wordLimit
  length_eq : b.blocks.length = columns
  blocks : ∀ r ∈ b.blocks, r.Fits

/-- The bytes of block ranges. -/
def encodeBlocks (blocks : List BlockRange) : Bytes :=
  blocks.flatMap fun r => LittleEndian.encode 8 r.offset ++ LittleEndian.encode 8 r.length

theorem readBlocks_encodeBlocks {blocks : List BlockRange} (h : ∀ r ∈ blocks, r.Fits)
    (rest : Bytes) :
    readBlocks blocks.length (encodeBlocks blocks ++ rest) = .ok (blocks, rest) := by
  induction blocks with
  | nil => rfl
  | cons r blocks ih =>
    have ih := ih fun s hs => h s (List.mem_cons_of_mem r hs)
    obtain ⟨hoffset, hlength⟩ := h r List.mem_cons_self
    have hoffset : r.offset < LittleEndian.limit 8 := hoffset
    have hlength : r.length < LittleEndian.limit 8 := hlength
    unfold encodeBlocks at ih ⊢
    simp only [List.length_cons, readBlocks, List.flatMap_cons, List.append_assoc,
      Bytes.readWord_encode_append hoffset, Bytes.readWord_encode_append hlength, Outcome.ok_bind,
      ih]
    rfl

theorem read_encode {columns : Nat} {b : BatchIndex} (h : b.Fits columns) (rest : Bytes) :
    read columns (b.encode ++ rest) = .ok (b, rest) := by
  have hrows : b.rows < LittleEndian.limit 4 := h.rows
  have hblocks := readBlocks_encodeBlocks h.blocks rest
  rw [h.length_eq, encodeBlocks] at hblocks
  simp only [read, encode, List.append_assoc, Bytes.readWord_encode_append hrows, Outcome.ok_bind,
    hblocks]
  rfl

theorem readMany_flatMap {columns : Nat} {index : List BatchIndex}
    (h : ∀ b ∈ index, b.Fits columns) (rest : Bytes) :
    readMany columns index.length (index.flatMap encode ++ rest) = .ok (index, rest) := by
  induction index with
  | nil => rfl
  | cons b index ih =>
    have ih := ih fun s hs => h s (List.mem_cons_of_mem b hs)
    simp only [List.length_cons, readMany, List.flatMap_cons, List.append_assoc,
      read_encode (h b List.mem_cons_self), Outcome.ok_bind, ih]
    rfl

theorem length_encodeBlocks (blocks : List BlockRange) :
    (encodeBlocks blocks).length = blocks.length * 16 := by
  induction blocks with
  | nil => rfl
  | cons r blocks ih =>
    unfold encodeBlocks at ih ⊢
    rw [List.flatMap_cons, List.length_append, ih]
    simp
    omega

theorem length_flatMap_encode {columns : Nat} {index : List BatchIndex}
    (h : ∀ b ∈ index, b.blocks.length = columns) :
    (index.flatMap encode).length = index.length * (4 + columns * 16) := by
  induction index with
  | nil => simp
  | cons b index ih =>
    have hb := length_encodeBlocks b.blocks
    rw [h b List.mem_cons_self, encodeBlocks] at hb
    rw [List.flatMap_cons, List.length_append, ih fun s hs => h s (List.mem_cons_of_mem b hs),
      encode, List.length_append, hb, LittleEndian.length_encode, List.length_cons, Nat.succ_mul]
    omega

end BatchIndex

/-! ## The tail -/

namespace FileTail

/-- The counts and the offset fit their fields. -/
structure Fits (t : FileTail) : Prop where
  columns : t.columns < wordLimit
  batches : t.batches < wordLimit
  indexOffset : t.indexOffset < LittleEndian.limit 8

theorem length_encode (t : FileTail) : t.encode.length = ChunkFile.tailSize := by
  simp [encode, ChunkFile.magic, ChunkFile.tailSize]

theorem decode_encode {t : FileTail} (h : t.Fits) : decode t.encode = .ok t := by
  have hcolumns : t.columns < LittleEndian.limit 4 := h.columns
  have hbatches : t.batches < LittleEndian.limit 4 := h.batches
  have hoffset : t.indexOffset < LittleEndian.limit 8 := h.indexOffset
  rw [decode, if_neg (fun hne => hne (length_encode t))]
  simp only [encode, List.append_assoc, Bytes.readWord_encode_append hcolumns,
    Bytes.readWord_encode_append hbatches, Bytes.readWord_encode_append hoffset, Outcome.ok_bind,
    if_true]
  rfl

theorem ofCount_blocks {n : Nat} (h : n < wordLimit) :
    Outcome.ofCount (n * 16) = .ok (n * 16) := by
  rw [wordLimit] at h
  exact Outcome.ofCount_of_lt (by omega)

/-- **The index and the specs are read back** from the bytes before the tail. -/
theorem decodeIndex_encode {t : FileTail} {index : List BatchIndex} {specs : List ChunkSpec}
    (hcolumns : t.columns = specs.length) (hbatches : t.batches = index.length)
    (hspecs : ∀ spec ∈ specs, spec.IsFlat) (hindex : ∀ b ∈ index, b.Fits t.columns)
    (hsize : t.columns < wordLimit)
    (hlength : (index.flatMap BatchIndex.encode).length < LittleEndian.limit 8) :
    t.decodeIndex (index.flatMap BatchIndex.encode ++ specs.flatMap ChunkSpec.encode) =
      .ok (index, specs) := by
  have hbytes := BatchIndex.length_flatMap_encode fun b hb => (hindex b hb).length_eq
  have hread := BatchIndex.readMany_flatMap hindex (specs.flatMap ChunkSpec.encode)
  have hdecode := ChunkSpec.decodeMany_flatMap hspecs []
  rw [List.append_nil] at hdecode
  have hcount : t.indexSize = .ok (index.flatMap BatchIndex.encode).length := by
    have hall : Outcome.ofCount (t.batches * (4 + t.columns * 16)) =
        .ok (t.batches * (4 + t.columns * 16)) :=
      Outcome.ofCount_of_lt (by rw [hbatches, ← hbytes]; exact hlength)
    rw [indexSize, ofCount_blocks hsize, Outcome.ok_bind, hall, hbytes, hbatches]
  have hlong : ¬ (index.flatMap BatchIndex.encode ++ specs.flatMap ChunkSpec.encode).length <
      (index.flatMap BatchIndex.encode).length := by
    rw [List.length_append]
    omega
  rw [← hbatches] at hread
  rw [← hcolumns] at hdecode
  simp only [decodeIndex, hcount, Outcome.ok_bind, if_neg hlong, hread, hdecode, List.isEmpty_nil,
    if_true]
  rfl

end FileTail

end Columnar
