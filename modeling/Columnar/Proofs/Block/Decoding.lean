import Columnar.Block
import Columnar.Proofs.Action
import Columnar.Proofs.Chunk.Uniform

/-!
# Decoding any bytes

A decoder takes its bytes apart only after it has compared their number with what it needs, so it
ends in a chunk or in an error whatever the bytes are. What it cuts off has the length it was cut
for; a chunk it gives is uniform. No length that it computes on the way is too large: the length of
a bitmap is a word, and there are no more rows than the bitmap has bits (`decodeFlags_meets`).

Main result: `decodeBlock_meets`. The chunk of a block has the spec and the number of rows that the
decoder was told, however the block says otherwise.
-/

namespace Columnar

open Outcome (Meets Returns)

/-! ## Cuts -/

namespace Bytes

theorem readWord_meets {width : Nat} {bs : Bytes} (h : width ≤ bs.length) :
    (readWord width bs).Meets fun p => p.2.length = bs.length - width := by
  have hhead : (bs.take width).length = width := List.length_take_of_le h
  simp only [readWord, cutFront, hhead, if_true, Outcome.ok_bind]
  exact List.length_drop

end Bytes

namespace Buffer

theorem size_slice (b : Buffer) (start stop : Nat) :
    (b.slice start stop).size = min stop b.size - start := by
  rw [← length_toList, toList_slice, List.length_take, List.length_drop, length_toList]
  omega

theorem cutFront_meets {n : Nat} {b : Buffer} (h : n ≤ b.size) :
    (b.cutFront n).Meets fun p => p.1.size = n ∧ p.2.size = b.size - n := by
  rw [cutFront, if_pos h]
  constructor <;> rw [size_slice] <;> omega

theorem cutBack_meets {n : Nat} {b : Buffer} (h : n ≤ b.size) :
    (b.cutBack n).Meets fun p => p.1.size = b.size - n ∧ p.2.size = n := by
  rw [cutBack, if_pos h]
  constructor <;> rw [size_slice] <;> omega

end Buffer

/-- As many values are read as are asked for, if there are enough bytes. -/
theorem FixedWidth.readMany_meets (α : Type) [FixedWidth α] {n : Nat} {bs : Bytes}
    (h : n * width α ≤ bs.length) : (readMany α n bs).Meets fun values => values.length = n := by
  induction n generalizing bs with
  | zero => exact rfl
  | succ n ih =>
    rw [Nat.succ_mul] at h
    have hhead : (bs.take (width α)).length = width α := List.length_take_of_le (by omega)
    have hrest : n * width α ≤ (bs.drop (width α)).length := by
      rw [List.length_drop]
      omega
    simp only [readMany, read, Bytes.cutFront, hhead, if_true, Outcome.ok_bind]
    exact (ih hrest).bind fun values hlen => congrArg (· + 1) hlen

namespace Slots

variable {α : Type}

/-! ## Missing flags -/

theorem decodeFlags_meets (data : Buffer) (rows : Nat) :
    (decodeFlags data rows).Meets fun p =>
      p.2.1.length = rows ∧ p.2.2.length = paddingSize rows ∧ rows < 8 * wordLimit := by
  unfold decodeFlags
  refine Outcome.meets_guard fun hshort => ?_
  refine (Buffer.cutBack_meets (by omega)).bind fun ⟨front, field⟩ ⟨hfront, hfield⟩ => ?_
  dsimp only at hfront hfield ⊢
  have hword := Buffer.word_lt hfield
  rw [wordLimit] at hword ⊢
  rw [Outcome.ofCount_of_lt (by omega), Outcome.ok_bind, Outcome.ofCount_of_lt (by omega),
    Outcome.ok_bind]
  refine Outcome.meets_guard fun htruncated => ?_
  refine (Buffer.cutBack_meets (by omega)).bind ?_
  rintro ⟨inner, bitmap⟩ ⟨-, hbitmap⟩
  dsimp only at hbitmap
  -- the bitmap has the bytes that the rows take up
  have hle : bitmapSize rows ≤ bitmap.size := by
    rw [bitmapSize]
    omega
  have hbits : (Bits.unpack (bitmap.slice 0 (bitmapSize rows)).toList).length =
      8 * bitmapSize rows := by
    rw [Bits.length_unpack, Buffer.length_toList, Buffer.size_slice, Nat.min_eq_left hle,
      Nat.sub_zero]
  refine ⟨?_, ?_, by omega⟩
  · rw [List.length_take, hbits, bitmapSize]
    omega
  · rw [List.length_drop, hbits, bitmapSize, paddingSize]
    omega

theorem ofParts_meets {values : List α} {flags padding : List Bool} {n : Nat}
    (hvalues : values.length = n) (hflags : flags.length = n)
    (hpadding : padding.length = paddingSize n) :
    (ofParts values flags padding).Meets (Uniform n) := by
  rw [ofParts, if_pos (hvalues.trans hflags.symm)]
  refine ⟨?_, hpadding⟩
  rw [List.size_toArray, List.length_zipWith, hvalues, hflags, Nat.min_self]

/-! ## Values -/

theorem decodeFixed_meets (α : Type) [FixedWidth α] (data : Buffer) (rows : Nat) :
    (decodeFixed α data rows).Meets (Uniform rows) := by
  unfold decodeFixed
  refine (decodeFlags_meets data rows).bind
    fun ⟨inner, flags, padding⟩ ⟨hflags, hpadding, hrows⟩ => ?_
  dsimp only at hflags hpadding ⊢
  rw [FixedWidth.ofCount_width α hrows, Outcome.ok_bind]
  refine Outcome.meets_guard fun hsize => ?_
  refine (FixedWidth.readMany_meets α ?_).bind fun values hvalues =>
    ofParts_meets hvalues hflags hpadding
  rw [Buffer.length_toList]
  exact Nat.le_of_eq (Decidable.not_not.mp hsize).symm

theorem exists_readOffsets {n : Nat} {bs : Bytes} (h : n * 4 ≤ bs.length) :
    ∃ offsets, readOffsets n bs = .ok offsets ∧ offsets.length = n := by
  induction n generalizing bs with
  | zero => exact ⟨[], rfl, rfl⟩
  | succ n ih =>
    obtain ⟨o, rest, ho, rfl⟩ := Bytes.exists_encode_append (show 4 ≤ bs.length by omega)
    rw [List.length_append, LittleEndian.length_encode] at h
    obtain ⟨offsets, hread, hlen⟩ := ih (show n * 4 ≤ rest.length by omega)
    refine ⟨o :: offsets, ?_, congrArg (· + 1) hlen⟩
    rw [readOffsets, Bytes.readWord_encode_append ho, Outcome.ok_bind]
    simp only [hread]
    rfl

/-- An offset past the end of the contents, or before the one ahead of it, is an error. -/
theorem cutValues_meets (contents : Buffer) (start : Nat) (offsets : List Nat) :
    (cutValues contents start offsets).Meets fun values => values.length = offsets.length := by
  induction offsets generalizing start with
  | nil => exact rfl
  | cons stop offsets ih =>
    unfold cutValues
    refine Outcome.meets_guard fun hinvalid => ?_
    exact (ih stop).bind fun values hlen => congrArg (· + 1) hlen

theorem decodeBytes_meets (data : Buffer) (rows : Nat) :
    (decodeBytes data rows).Meets (Uniform rows) := by
  unfold decodeBytes
  refine (decodeFlags_meets data rows).bind
    fun ⟨inner, flags, padding⟩ ⟨hflags, hpadding, hrows⟩ => ?_
  dsimp only at hflags hpadding ⊢
  rw [wordLimit] at hrows
  rw [Outcome.ofCount_of_lt (by omega), Outcome.ok_bind]
  refine Outcome.meets_guard fun hshort => ?_
  refine (Buffer.cutFront_meets (Nat.le_of_not_lt hshort)).bind ?_
  rintro ⟨head, contents⟩ ⟨hhead, -⟩
  dsimp only at hhead ⊢
  have hroom : rows * 4 ≤ head.toList.length := by
    rw [Buffer.length_toList]
    exact Nat.le_of_eq hhead.symm
  obtain ⟨offsets, hread, hoffsets⟩ := exists_readOffsets hroom
  rw [Outcome.ofLength_of_lt (by omega), Outcome.ok_bind, hread, Outcome.ok_bind]
  refine (cutValues_meets contents 0 offsets).bind fun values hvalues => ?_
  exact ofParts_meets (hvalues.trans hoffsets) hflags hpadding

end Slots

namespace Chunk

/-! ## Data -/

theorem decodePlain_meets (data : Buffer) (rows : Nat) (k : Kind) :
    (decodePlain data rows k).Meets (Slots.Uniform rows) := by
  cases k with
  | int | long | double | boolean => exact Slots.decodeFixed_meets _ data rows
  | string | rowKey | binary => exact Slots.decodeBytes_meets data rows

theorem decodeData_meets (spec : ChunkSpec) (data : Buffer) (rows : Nat) :
    (decodeData spec data rows).Meets fun c => c.spec = spec ∧ c.Uniform rows := by
  induction spec generalizing data with
  | plain k => exact (decodePlain_meets data rows k).bind fun s hs => ⟨rfl, hs⟩
  | paired spec ih =>
    unfold decodeData
    refine Outcome.meets_guard fun hshort => ?_
    refine (Buffer.cutFront_meets (Nat.le_of_not_lt hshort)).bind
      fun ⟨field, rest⟩ ⟨hfield, hrest⟩ => ?_
    dsimp only at hfield hrest ⊢
    have hword := Buffer.word_lt hfield
    rw [wordLimit] at hword
    rw [Outcome.ofCount_of_lt (by omega), Outcome.ok_bind]
    refine Outcome.meets_guard fun htruncated => ?_
    refine (Buffer.cutFront_meets (by omega)).bind ?_
    rintro ⟨inner, supplement⟩ -
    refine (ih inner).bind ?_
    rintro c ⟨hspec, hc⟩
    refine (Slots.decodeBytes_meets supplement rows).bind fun s hs => ?_
    exact ⟨congrArg ChunkSpec.paired hspec, hc, hs⟩

/-! ## Blocks -/

theorem decodeTrailer_returns {bs : Bytes} (h : bs.length = trailerSize) :
    (decodeTrailer bs).Returns := by
  rw [trailerSize] at h
  refine (Bytes.readWord_meets (by omega)).returns_bind fun ⟨layoutCode, bs₁⟩ h₁ => ?_
  dsimp only at h₁
  refine (Outcome.returns_ofOption _ _).bind fun layout => ?_
  refine (Bytes.readWord_meets (by omega)).returns_bind fun ⟨typeCode, bs₂⟩ h₂ => ?_
  dsimp only at h₂
  refine (Outcome.returns_ofOption _ _).bind fun type => ?_
  exact (Bytes.readWord_meets (by omega)).returns_bind fun _ _ => trivial

theorem verify_returns (type : ChecksumType) (data : Buffer) (checksum : UInt64) :
    (type.verify data checksum).Returns := by
  cases type with
  | none => trivial
  | crc32 =>
    unfold ChecksumType.verify
    dsimp only
    split <;> trivial

/-- **Decoding any block** ends in an error, or in a uniform chunk of the spec and of the number of
rows asked for. -/
theorem decodeBlock_meets (spec : ChunkSpec) (rows : Nat) (block : Buffer) :
    (decodeBlock spec rows block).Meets fun c => c.spec = spec ∧ c.Uniform rows := by
  unfold decodeBlock
  refine Outcome.meets_guard fun hshort => ?_
  refine (Buffer.cutBack_meets (Nat.le_of_not_lt hshort)).bind fun ⟨data, trailer⟩ ⟨_, hsize⟩ => ?_
  have htrailer : trailer.toList.length = trailerSize := by rw [Buffer.length_toList, hsize]
  refine (decodeTrailer_returns htrailer).meets.bind fun ⟨layout, type, checksum⟩ _ => ?_
  dsimp only
  refine Outcome.meets_guard fun hlayout => ?_
  exact (verify_returns type data checksum).meets.bind fun _ _ => decodeData_meets spec data rows

end Chunk

end Columnar
