import Columnar.Block
import Columnar.Proofs.Block.Slots

/-!
# Chunks are read back from their blocks

Main result: `decodeBlock_encodeBlock`. A uniform chunk of fewer than `2 ^ 32` rows that has a block
is the chunk of its block, for a decoder that is told its spec and its number of rows, under either
checksum. It covers pairs at any depth.
-/

namespace Columnar.Chunk

/-! ## Data -/

theorem decodePlain_encodePlain {k : Kind} {s : Slots k.Value} {n : Nat} (h : s.Uniform n)
    (hn : n < wordLimit) {data : Bytes} (hdata : encodePlain k s = .ok data) :
    decodePlain (.ofList data) n k = .ok s := by
  cases k with
  | int | long | double | boolean =>
    cases hdata
    exact Slots.decodeFixed_encodeFixed h hn
  | string | rowKey | binary => exact Slots.decodeBytes_encodeBytes h hn hdata

/-- The data of a pair: the length of the inner data, the inner data, and the supplement. -/
theorem encodeData_paired_eq_ok {inner : Chunk} {s : Slots Bytes} {data : Bytes}
    (h : (paired inner s).encodeData = .ok data) :
    ∃ innerData supplement, inner.encodeData = .ok innerData ∧ innerData.length < wordLimit ∧
      s.encodeBytes = .ok supplement ∧
      data = LittleEndian.encode 4 innerData.length ++ (innerData ++ supplement) := by
  obtain ⟨innerData, hinner, h⟩ := Outcome.bind_eq_ok h
  by_cases hlen : innerData.length < wordLimit
  · rw [if_pos hlen] at h
    obtain ⟨supplement, hsupplement, h⟩ := Outcome.bind_eq_ok h
    cases h
    exact ⟨innerData, supplement, hinner, hlen, hsupplement, List.append_assoc ..⟩
  · rw [if_neg hlen] at h
    cases h

/-- The two parts of a pair are decoded on their own, for any number of rows. -/
theorem decodeData_paired (spec : ChunkSpec) {innerData : Bytes}
    (hlen : innerData.length < wordLimit) (supplement : Bytes) (rows : Nat) :
    decodeData (.paired spec)
        (.ofList (LittleEndian.encode 4 innerData.length ++ (innerData ++ supplement))) rows = do
      return paired (← decodeData spec (.ofList innerData) rows)
        (← Slots.decodeBytes (.ofList supplement) rows) := by
  have hfront := Buffer.cutFront_append (LittleEndian.encode 4 innerData.length)
    (innerData ++ supplement)
  rw [LittleEndian.length_encode] at hfront
  have hsize : ¬ (Buffer.ofList (LittleEndian.encode 4 innerData.length ++
      (innerData ++ supplement))).size < 4 := by
    rw [Buffer.size_ofList, List.length_append, LittleEndian.length_encode]
    omega
  have hrest : ¬ (Buffer.ofList (LittleEndian.encode 4 innerData.length ++
      (innerData ++ supplement))).size < 4 + innerData.length := by
    rw [Buffer.size_ofList, List.length_append, List.length_append, LittleEndian.length_encode]
    omega
  have hneeded : Outcome.ofCount (4 + innerData.length) = .ok (4 + innerData.length) := by
    rw [wordLimit] at hlen
    exact Outcome.ofCount_of_lt (by omega)
  rw [decodeData, if_neg hsize, hfront, Outcome.ok_bind]
  simp only [Buffer.word_encode hlen, hneeded, if_neg hrest, Buffer.cutFront_append,
    Outcome.ok_bind]

theorem decodeData_encodeData {c : Chunk} {n : Nat} (h : c.Uniform n) (hn : n < wordLimit)
    {data : Bytes} (hdata : c.encodeData = .ok data) :
    decodeData c.spec (.ofList data) n = .ok c := by
  induction c generalizing data with
  | plain k s =>
    rw [spec, decodeData, decodePlain_encodePlain h hn hdata]
    rfl
  | paired inner s ih =>
    obtain ⟨innerData, supplement, hinner, hlen, hsupplement, rfl⟩ := encodeData_paired_eq_ok hdata
    rw [spec, decodeData_paired _ hlen, ih h.1 hinner,
      Slots.decodeBytes_encodeBytes h.2 hn hsupplement]
    rfl

/-! ## Blocks -/

theorem length_encodeTrailer (layout : Layout) (type : ChecksumType) (checksum : UInt64) :
    (encodeTrailer layout type checksum).length = trailerSize := by
  simp [encodeTrailer, trailerSize]

theorem decodeTrailer_encodeTrailer (layout : Layout) (type : ChecksumType) (checksum : UInt64) :
    decodeTrailer (encodeTrailer layout type checksum) = .ok (layout, type, checksum) := by
  have hlayout : layout.code < LittleEndian.limit 4 := by cases layout <;> decide
  have htype : type.code < LittleEndian.limit 4 := by cases type <;> decide
  have hchecksum : checksum.toNat < LittleEndian.limit 8 := checksum.toNat_lt
  have hlast := Bytes.readWord_encode_append hchecksum []
  rw [List.append_nil] at hlast
  have hof : Outcome.ofOption (.decode .layoutCode) (Layout.ofCode? layout.code) = .ok layout := by
    rw [Layout.ofCode?_code]
    rfl
  have hcode : ChecksumType.ofCode type.code = .ok type := by
    rw [ChecksumType.ofCode, ChecksumType.ofCode?_code]
    rfl
  simp only [decodeTrailer, encodeTrailer, List.append_assoc,
    Bytes.readWord_encode_append hlayout, Bytes.readWord_encode_append htype, hlast,
    Outcome.ok_bind, hof, hcode, UInt64.ofNat_toNat]
  rfl

theorem verify_build (type : ChecksumType) (data : Buffer) :
    type.verify data (type.build data) = .ok () := by
  cases type with
  | none => rfl
  | crc32 => simp [ChecksumType.verify]

theorem encodeBlock_eq_ok {type : ChecksumType} {c : Chunk} {block : Bytes}
    (h : c.encodeBlock type = .ok block) :
    ∃ data, c.encodeData = .ok data ∧
      block = data ++ encodeTrailer c.spec.layout type (type.build (.ofList data)) := by
  obtain ⟨data, hdata, h⟩ := Outcome.bind_eq_ok h
  cases h
  exact ⟨data, hdata, rfl⟩

theorem trailerSize_le_length {type : ChecksumType} {c : Chunk} {block : Bytes}
    (h : c.encodeBlock type = .ok block) : trailerSize ≤ block.length := by
  obtain ⟨data, -, rfl⟩ := encodeBlock_eq_ok h
  rw [List.length_append, length_encodeTrailer]
  omega

theorem decodeBlock_append (spec : ChunkSpec) (rows : Nat) (data : Bytes) {trailer : Bytes}
    (h : trailer.length = trailerSize) :
    decodeBlock spec rows (.ofList (data ++ trailer)) = (do
      let (layout, type, checksum) ← decodeTrailer trailer
      if layout ≠ spec.layout then Outcome.fail (.decode (.layoutMismatch layout spec))
      else
        type.verify (.ofList data) checksum
        decodeData spec (.ofList data) rows) := by
  have hcut := Buffer.cutBack_append data trailer
  rw [h] at hcut
  have hsize : ¬ (Buffer.ofList (data ++ trailer)).size < trailerSize := by
    rw [Buffer.size_ofList, List.length_append, h]
    omega
  rw [decodeBlock, if_neg hsize, hcut, Outcome.ok_bind]
  simp only [Buffer.toList_ofList]

/-- Nothing but the data is left to be decoded of a block that is whole, for any number of rows. -/
theorem decodeBlock_eq_decodeData {type : ChecksumType} {c : Chunk} {block : Bytes}
    (h : c.encodeBlock type = .ok block) :
    ∃ data, c.encodeData = .ok data ∧
      ∀ rows, decodeBlock c.spec rows (.ofList block) = decodeData c.spec (.ofList data) rows := by
  obtain ⟨data, hdata, rfl⟩ := encodeBlock_eq_ok h
  refine ⟨data, hdata, fun rows => ?_⟩
  rw [decodeBlock_append _ _ _ (length_encodeTrailer ..), decodeTrailer_encodeTrailer,
    Outcome.ok_bind]
  simp only [ne_eq, not_true, if_false, verify_build, Outcome.ok_bind]

/-- **A chunk is read back from its block.** -/
theorem decodeBlock_encodeBlock {c : Chunk} {n : Nat} (h : c.Uniform n) (hn : n < wordLimit)
    {type : ChecksumType} {block : Bytes} (hblock : c.encodeBlock type = .ok block) :
    decodeBlock c.spec n (.ofList block) = .ok c := by
  obtain ⟨data, hdata, hdecode⟩ := decodeBlock_eq_decodeData hblock
  rw [hdecode, decodeData_encodeData h hn hdata]

end Columnar.Chunk
