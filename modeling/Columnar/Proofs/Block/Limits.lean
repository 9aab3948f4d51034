import Columnar.Proofs.Block.Basic

/-!
# Which chunks have a block

The lengths in a block have 32 bits: the end offsets of byte strings, and the length of the inner
data of a pair. A chunk with a part that is longer is overlong (`Chunk.Overlong`), said by the sizes
of its parts (`Slots.contentSize`, `Chunk.dataSize`), at whatever depth of pairs they are.

Main result: `decodeBlock_or_overlong`. An overlong chunk is refused with an error, every other one
has a block, and the chunk is read back from its block.
-/

namespace Columnar

namespace Slots

/-- The bytes of all values together. -/
def contentSize (s : Slots Bytes) : Nat := s.values.flatten.length

variable {α : Type} {n : Nat}

theorem length_encodeFlags {s : Slots α} (h : s.Uniform n) :
    s.encodeFlags.length = bitmapSize s.size + 4 := by
  rw [encodeFlags, List.length_append, LittleEndian.length_encode, (unpack_flags h).1, size,
    h.size_eq]

theorem length_encodeFixed [FixedWidth α] [LawfulFixedWidth α] {s : Slots α} (h : s.Uniform n) :
    s.encodeFixed.length = s.size * FixedWidth.width α + (bitmapSize s.size + 4) := by
  rw [encodeFixed, List.length_append, length_flatMap_encode, length_encodeFlags h, length_values]

/-! ## End offsets -/

theorem endOffsets_of_lt {start : Nat} {values : List Bytes}
    (h : start + values.flatten.length < wordLimit) :
    endOffsets start values = .ok (ends start values) := by
  induction values generalizing start with
  | nil => rfl
  | cons v values ih =>
    rw [List.flatten_cons, List.length_append] at h
    rw [endOffsets, if_pos (by omega), ih (by omega)]
    rfl

theorem endOffsets_of_le {start : Nat} {values : List Bytes} (hstart : start < wordLimit)
    (h : wordLimit ≤ start + values.flatten.length) :
    endOffsets start values = Outcome.fail (.illegalState .chunkTooLong) := by
  induction values generalizing start with
  | nil =>
    rw [List.flatten_nil, List.length_nil] at h
    omega
  | cons v values ih =>
    rw [List.flatten_cons, List.length_append] at h
    by_cases hfits : start + v.length < wordLimit
    · rw [endOffsets, if_pos hfits, ih hfits (by omega)]
      rfl
    · rw [endOffsets, if_neg hfits]

theorem exists_encodeBytes {s : Slots Bytes} (h : s.Uniform n) (hfits : s.contentSize < wordLimit) :
    ∃ data, s.encodeBytes = .ok data ∧
      data.length = s.size * 4 + s.contentSize + (bitmapSize s.size + 4) := by
  have hoffsets : endOffsets 0 s.values = .ok (ends 0 s.values) :=
    endOffsets_of_lt (by rwa [Nat.zero_add])
  refine ⟨_, by rw [encodeBytes, hoffsets]; rfl, ?_⟩
  rw [List.length_append, List.length_append, length_flatMap_offsets, length_ends, length_values,
    length_encodeFlags h, contentSize]

theorem encodeBytes_of_le {s : Slots Bytes} (h : wordLimit ≤ s.contentSize) :
    s.encodeBytes = Outcome.fail (.illegalState .chunkTooLong) := by
  rw [encodeBytes, endOffsets_of_le (by decide) (by rwa [Nat.zero_add])]
  rfl

end Slots

/-! ## Sizes -/

namespace Kind

/-- The bytes that each value takes up in front: its own, or those of its end offset. -/
def width : Kind → Nat
  | int | string | rowKey | binary => 4
  | long | double => 8
  | boolean => 1

/-- The bytes behind the end offsets. -/
def contentSize : (k : Kind) → Slots k.Value → Nat
  | string, s | rowKey, s | binary, s => s.contentSize
  | int, _ | long, _ | double, _ | boolean, _ => 0

end Kind

namespace Chunk

/-- The number of bytes of the data of a chunk, were its lengths to fit. -/
def dataSize : Chunk → Nat
  | plain k s => s.size * k.width + k.contentSize s + (Slots.bitmapSize s.size + 4)
  | paired inner s =>
    4 + inner.dataSize + (s.size * 4 + s.contentSize + (Slots.bitmapSize s.size + 4))

/-- Some part of the chunk is too long for its length field: the byte strings of a chunk or of a
supplement together, or the inner data of a pair. -/
def Overlong : Chunk → Prop
  | plain k s => wordLimit ≤ k.contentSize s
  | paired inner s => inner.Overlong ∨ wordLimit ≤ inner.dataSize ∨ wordLimit ≤ s.contentSize

instance decidableOverlong : (c : Chunk) → Decidable c.Overlong
  | plain k s => inferInstanceAs (Decidable (wordLimit ≤ k.contentSize s))
  | paired inner s =>
    have := inner.decidableOverlong
    inferInstanceAs
      (Decidable (inner.Overlong ∨ wordLimit ≤ inner.dataSize ∨ wordLimit ≤ s.contentSize))

variable {n : Nat}

/-! ## Data -/

theorem exists_encodePlain {k : Kind} {s : Slots k.Value} (h : s.Uniform n)
    (hfits : k.contentSize s < wordLimit) :
    ∃ data, encodePlain k s = .ok data ∧
      data.length = s.size * k.width + k.contentSize s + (Slots.bitmapSize s.size + 4) := by
  cases k with
  | int | long | double | boolean => exact ⟨_, rfl, Slots.length_encodeFixed h⟩
  | string | rowKey | binary => exact Slots.exists_encodeBytes h hfits

theorem encodePlain_of_le {k : Kind} {s : Slots k.Value} (h : wordLimit ≤ k.contentSize s) :
    encodePlain k s = Outcome.fail (.illegalState .chunkTooLong) := by
  cases k with
  | int | long | double | boolean => cases h
  | string | rowKey | binary => exact Slots.encodeBytes_of_le h

/-- A chunk that is not overlong has data, of the size of the chunk's parts. -/
theorem exists_encodeData {c : Chunk} (h : c.Uniform n) (hfits : ¬ c.Overlong) :
    ∃ data, c.encodeData = .ok data ∧ data.length = c.dataSize := by
  induction c with
  | plain k s => exact exists_encodePlain h (Nat.not_le.mp hfits)
  | paired inner s ih =>
    rw [Overlong, not_or, not_or, Nat.not_le, Nat.not_le] at hfits
    obtain ⟨hinner, hlen, hcontent⟩ := hfits
    obtain ⟨data, hdata, hsize⟩ := ih h.1 hinner
    obtain ⟨supplement, hsupplement, hsupplementSize⟩ := Slots.exists_encodeBytes h.2 hcontent
    refine ⟨LittleEndian.encode 4 data.length ++ data ++ supplement, ?_, ?_⟩
    · rw [encodeData, hdata, Outcome.ok_bind, if_pos (hsize ▸ hlen), hsupplement]
      rfl
    · rw [List.length_append, List.length_append, LittleEndian.length_encode, hsize,
        hsupplementSize, dataSize]

theorem encodeData_of_overlong {c : Chunk} (h : c.Uniform n) (hlong : c.Overlong) :
    ∃ fault, c.encodeData = Outcome.fail (.illegalState fault) := by
  induction c with
  | plain k s => exact ⟨_, encodePlain_of_le hlong⟩
  | paired inner s ih =>
    by_cases hinner : inner.Overlong
    · obtain ⟨fault, hfault⟩ := ih h.1 hinner
      exact ⟨fault, by rw [encodeData, hfault]; rfl⟩
    · obtain ⟨data, hdata, hsize⟩ := exists_encodeData h.1 hinner
      by_cases hlen : inner.dataSize < wordLimit
      · have hcontent : wordLimit ≤ s.contentSize :=
          (hlong.resolve_left hinner).resolve_left (Nat.not_le.mpr hlen)
        refine ⟨.chunkTooLong, ?_⟩
        rw [encodeData, hdata, Outcome.ok_bind, if_pos (hsize ▸ hlen),
          Slots.encodeBytes_of_le hcontent]
        rfl
      · exact ⟨.innerTooLong, by rw [encodeData, hdata, Outcome.ok_bind, if_neg (hsize ▸ hlen)]⟩

/-! ## Blocks -/

/-- **Which chunks have a block, and what is read from it.** Let the chunk be uniform, of any spec
and of fewer than `2 ^ 32` rows, with any values in its missing slots and any padding.

- From a block of the chunk, the chunk is read back.
- The chunk has a block exactly if it is not overlong.
- An overlong chunk is refused with an error. -/
theorem decodeBlock_or_overlong {c : Chunk} (h : c.Uniform n) (hn : n < wordLimit)
    (type : ChecksumType) :
    (∀ block, c.encodeBlock type = .ok block → decodeBlock c.spec n (.ofList block) = .ok c) ∧
    ((∃ block, c.encodeBlock type = .ok block) ↔ ¬ c.Overlong) ∧
    (c.Overlong → ∃ fault, c.encodeBlock type = Outcome.fail (.illegalState fault)) := by
  have hrefused : c.Overlong →
      ∃ fault, c.encodeBlock type = Outcome.fail (.illegalState fault) := by
    intro hlong
    obtain ⟨fault, hfault⟩ := encodeData_of_overlong h hlong
    exact ⟨fault, by rw [encodeBlock, hfault]; rfl⟩
  refine ⟨fun block hblock => decodeBlock_encodeBlock h hn hblock, ⟨?_, ?_⟩, hrefused⟩
  · rintro ⟨block, hblock⟩ hlong
    obtain ⟨fault, hfault⟩ := hrefused hlong
    rw [hblock] at hfault
    cases hfault
  · intro hfits
    obtain ⟨data, hdata, -⟩ := exists_encodeData h hfits
    exact ⟨_, by rw [encodeBlock, hdata]; rfl⟩

/-- Integers with two supplements, one around the other. Slots are missing with values left in them,
and no two bitmaps are padded alike. -/
def sampleNested : Chunk :=
  .paired
    (.paired (.plain .int ⟨#[⟨7, true⟩, ⟨-1, false⟩], [true, false, false, true, false, true]⟩)
      ⟨#[⟨[1, 2], true⟩, ⟨[], false⟩], [false, false, false, false, false, false]⟩)
    ⟨#[⟨[3], false⟩, ⟨[4, 5, 6], true⟩], [true, true, true, true, true, true]⟩

theorem decodeBlock_or_overlong_sample :
    sampleNested.Uniform 2 ∧ 2 < wordLimit ∧
      ∃ block, sampleNested.encodeBlock .crc32 = .ok block ∧
        decodeBlock sampleNested.spec 2 (.ofList block) = .ok sampleNested := by
  have huniform : sampleNested.Uniform 2 := ⟨⟨⟨rfl, rfl⟩, ⟨rfl, rfl⟩⟩, ⟨rfl, rfl⟩⟩
  obtain ⟨hread, hfits, -⟩ := decodeBlock_or_overlong huniform (by decide) .crc32
  obtain ⟨block, hblock⟩ := hfits.mpr (by decide)
  exact ⟨huniform, by decide, block, hblock, hread block hblock⟩

end Chunk

end Columnar
