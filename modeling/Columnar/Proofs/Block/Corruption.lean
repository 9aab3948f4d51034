import Columnar.Proofs.Block.Basic
import Columnar.Proofs.Block.Decoding
import Mathlib.Logic.Function.Basic

/-!
# Damaged blocks

**Check values.** Dividing by a bit loses nothing: the polynomial has its lowest power, so the
highest bit of the register tells which bit was divided by (`testBit_bitStep`), and the rest is the
register shifted. A step is injective, and so is an update, in the register and in the byte. A byte
string in which one byte was replaced has another check value (`hash_set_ne`): the registers differ
after that byte, and what follows keeps them apart (`hash_ne_of_byte`).

**Trailers.** What a decoder accepts, it accepts for its trailer: the trailer is the one that names
the layout, the checksum type and the checksum that were read (`decodeBlock_eq_ok`), and data with a
checksum has that checksum (`checksum_eq_of_verify`).

Main result: `decodeBlock_set`. A block with a checksum in which one byte was changed is refused, or
its chunk is read. Changed data has another checksum. A changed trailer names another layout,
another checksum or no checksum: with none, the data is still whole.
-/

namespace Columnar.Crc32

/-! ## Check values -/

theorem low_bit_iff (r : UInt32) : r &&& 1 = 1 ↔ r.toNat % 2 = 1 := by
  rw [← UInt32.toNat_inj, UInt32.toNat_and]
  exact Eq.congr (Nat.and_one_is_mod _) rfl

theorem toNat_half (r : UInt32) : (r >>> 1).toNat = r.toNat / 2 := by
  rw [UInt32.toNat_shiftRight]
  exact Nat.shiftRight_eq_div_pow r.toNat 1

theorem testBit_half (r : UInt32) : (r >>> 1).toNat.testBit 31 = false := by
  rw [toNat_half, Nat.testBit_div_two]
  exact Nat.testBit_lt_two_pow r.toNat_lt

/-- The highest bit of the register is the bit that was divided by. -/
theorem testBit_bitStep (r : UInt32) : (bitStep r).toNat.testBit 31 = true ↔ r &&& 1 = 1 := by
  by_cases hr : r &&& 1 = 1
  · have hpolynomial : polynomial.toNat.testBit 31 = true := by decide
    rw [bitStep, if_pos hr, UInt32.toNat_xor, Nat.testBit_xor, testBit_half, hpolynomial,
      Bool.false_xor]
    exact iff_of_true rfl hr
  · rw [bitStep, if_neg hr, testBit_half]
    exact iff_of_false Bool.false_ne_true hr

/-- **Dividing by a bit can be undone.** -/
theorem bitStep_injective : Function.Injective bitStep := by
  intro r r' h
  have hlow : r &&& 1 = 1 ↔ r' &&& 1 = 1 := by
    rw [← testBit_bitStep, h, testBit_bitStep]
  have hhalf : r >>> 1 = r' >>> 1 := by
    by_cases hr : r &&& 1 = 1
    · rw [bitStep, bitStep, if_pos hr, if_pos (hlow.mp hr)] at h
      exact (UInt32.xor_left_inj polynomial).mp h
    · rwa [bitStep, bitStep, if_neg hr, if_neg fun hr' => hr (hlow.mpr hr')] at h
  have hdiv : r.toNat / 2 = r'.toNat / 2 := by rw [← toNat_half, hhalf, toNat_half]
  rw [low_bit_iff, low_bit_iff] at hlow
  exact UInt32.toNat_inj.mp (by omega)

theorem halfStep_injective : Function.Injective halfStep :=
  bitStep_injective.comp <| bitStep_injective.comp <| bitStep_injective.comp bitStep_injective

theorem update_injective (b : UInt8) : Function.Injective (update · b) := fun _ _ h =>
  (UInt32.xor_left_inj _).mp (halfStep_injective (halfStep_injective h))

theorem update_byte_injective (r : UInt32) : Function.Injective (update r) := fun _ _ h =>
  UInt8.toUInt32_inj.mp <|
    (UInt32.xor_right_inj r).mp (halfStep_injective (halfStep_injective h))

theorem foldl_update_injective (bs : List UInt8) : Function.Injective (bs.foldl update ·) := by
  induction bs with
  | nil => exact fun _ _ h => h
  | cons b bs ih => exact ih.comp (update_injective b)

theorem hash_ne_of_byte {b b' : UInt8} (h : b ≠ b') (front back : Bytes) :
    hash (.ofList (front ++ b :: back)) ≠ hash (.ofList (front ++ b' :: back)) := by
  intro heq
  have hfold := (UInt32.xor_left_inj _).mp heq
  simp only [Buffer.foldl_eq, Buffer.toList_ofList, List.foldl_append, List.foldl_cons] at hfold
  exact h (update_byte_injective _ (foldl_update_injective back hfold))

/-- **A replaced byte changes the check value.** -/
theorem hash_set_ne {bs : Bytes} {i : Nat} (h : i < bs.length) {v : UInt8} (hv : bs[i] ≠ v) :
    hash (.ofList (bs.set i v)) ≠ hash (.ofList bs) := by
  have hne := hash_ne_of_byte hv.symm (bs.take i) (bs.drop (i + 1))
  rw [List.getElem_cons_drop, List.take_append_drop] at hne
  rwa [List.set_eq_take_append_cons_drop, if_pos h]

end Columnar.Crc32

namespace Columnar

/-! ## Blocks -/

theorem ChecksumType.checksum_eq_of_verify {data : Buffer} {checksum : UInt64}
    (h : verify .crc32 data checksum = .ok ()) : checksum = build .crc32 data := by
  by_cases heq : build .crc32 data = checksum
  · exact heq.symm
  · rw [verify, if_neg heq] at h
    cases h

namespace Chunk

variable {c : Chunk} {n : Nat}

theorem decodeTrailer_eq_ok {bs : Bytes} (hlen : bs.length = trailerSize) {layout : Layout}
    {type : ChecksumType} {checksum : UInt64}
    (h : decodeTrailer bs = .ok (layout, type, checksum)) :
    bs = encodeTrailer layout type checksum := by
  rw [trailerSize] at hlen
  obtain ⟨layoutCode, bs, hlayout, rfl⟩ := Bytes.exists_encode_append (show 4 ≤ bs.length by omega)
  rw [List.length_append, LittleEndian.length_encode] at hlen
  obtain ⟨typeCode, bs, htype, rfl⟩ := Bytes.exists_encode_append (show 4 ≤ bs.length by omega)
  rw [List.length_append, LittleEndian.length_encode] at hlen
  obtain ⟨word, rest, hword, rfl⟩ := Bytes.exists_encode_append (show 8 ≤ bs.length by omega)
  rw [List.length_append, LittleEndian.length_encode] at hlen
  have hrest : rest = [] := List.eq_nil_of_length_eq_zero (by omega)
  simp only [decodeTrailer, Bytes.readWord_encode_append hlayout,
    Bytes.readWord_encode_append htype, Bytes.readWord_encode_append hword, Outcome.ok_bind] at h
  obtain ⟨layout', hlayout', h⟩ := Outcome.bind_eq_ok h
  obtain ⟨type', htype', h⟩ := Outcome.bind_eq_ok h
  cases h
  rw [Outcome.ofOption_eq_ok] at hlayout'
  rw [ChecksumType.ofCode, Outcome.ofOption_eq_ok] at htype'
  rw [hrest, List.append_nil, encodeTrailer, Layout.eq_code_of_ofCode? hlayout',
    ChecksumType.eq_code_of_ofCode? htype', UInt64.toNat_ofNat_of_lt' hword, List.append_assoc]

theorem decodeBlock_eq_ok {spec : ChunkSpec} {rows : Nat} {data trailer : Bytes}
    (hlen : trailer.length = trailerSize)
    (h : decodeBlock spec rows (.ofList (data ++ trailer)) = .ok c) :
    ∃ type checksum, trailer = encodeTrailer spec.layout type checksum ∧
      type.verify (.ofList data) checksum = .ok () ∧
      decodeData spec (.ofList data) rows = .ok c := by
  rw [decodeBlock_append _ _ _ hlen] at h
  obtain ⟨⟨layout, type, checksum⟩, htrailer, h⟩ := Outcome.bind_eq_ok h
  dsimp only at h
  by_cases hlayout : layout ≠ spec.layout
  · rw [if_pos hlayout] at h
    cases h
  · rw [if_neg hlayout] at h
    obtain ⟨⟨⟩, hverify, hdata⟩ := Outcome.bind_eq_ok h
    rw [decodeTrailer_eq_ok hlen htrailer, Decidable.not_not.mp hlayout]
    exact ⟨type, checksum, rfl, hverify, hdata⟩

/-- Another byte in the data is found out by the checksum. -/
theorem decodeBlock_set_data {spec : ChunkSpec} {rows : Nat} {data : Bytes} {pos : Nat}
    (hpos : pos < data.length) {v : UInt8} (hv : data[pos] ≠ v) (layout : Layout) :
    decodeBlock spec rows (.ofList (data.set pos v ++
      encodeTrailer layout .crc32 (ChecksumType.build .crc32 (.ofList data)))) ≠ .ok c := by
  intro h
  obtain ⟨type, checksum, htrailer, hverify, -⟩ := decodeBlock_eq_ok (length_encodeTrailer ..) h
  have hsame := congrArg decodeTrailer htrailer
  rw [decodeTrailer_encodeTrailer, decodeTrailer_encodeTrailer] at hsame
  cases hsame
  have hhash := UInt32.toUInt64_inj.mp (ChecksumType.checksum_eq_of_verify hverify)
  exact Crc32.hash_set_ne hpos hv hhash.symm

/-- The byte of a trailer that tells the checksum types apart. -/
theorem getElem?_encodeTrailer (layout : Layout) (type : ChecksumType) (checksum : UInt64) :
    (encodeTrailer layout type checksum)[4]? = some (UInt8.ofNat type.code) := by
  simp [encodeTrailer, LittleEndian.encode]

/-- With another byte in its trailer, a block is accepted only if the trailer names no checksum now,
and then the data is whole. -/
theorem decodeBlock_set_trailer {spec : ChunkSpec} {rows : Nat} {data : Bytes} {checksum : UInt64}
    (hchecksum : checksum = ChecksumType.build .crc32 (.ofList data)) {trailer : Bytes}
    (htrailer : trailer = encodeTrailer spec.layout .crc32 checksum) {k : Nat}
    (hk : k < trailer.length) {v : UInt8} (hv : trailer[k] ≠ v)
    (h : decodeBlock spec rows (.ofList (data ++ trailer.set k v)) = .ok c) :
    decodeData spec (.ofList data) rows = .ok c ∧ k = 4 ∧ v = 0 := by
  have hlen : (trailer.set k v).length = trailerSize := by
    rw [List.length_set, htrailer, length_encodeTrailer]
  obtain ⟨type, found, hfound, hverify, hdata⟩ := decodeBlock_eq_ok hlen h
  cases type with
  | none =>
    refine ⟨hdata, ?_⟩
    have hbyte := congrArg (·[4]?) hfound
    by_cases hfour : k = 4
    · subst hfour
      rw [List.getElem?_set_self hk, getElem?_encodeTrailer] at hbyte
      exact ⟨rfl, Option.some.inj hbyte⟩
    · rw [List.getElem?_set_ne hfour, htrailer, getElem?_encodeTrailer,
        getElem?_encodeTrailer] at hbyte
      exact absurd hbyte (by decide)
  | crc32 =>
    rw [ChecksumType.checksum_eq_of_verify hverify, ← hchecksum, ← htrailer] at hfound
    have hbyte := congrArg (·[k]?) hfound
    rw [List.getElem?_set_self hk, List.getElem?_eq_getElem hk] at hbyte
    exact absurd (Option.some.inj hbyte).symm hv

/-- **One byte changed in a block with a checksum.** Let the chunk be uniform, of any spec and of
fewer than `2 ^ 32` rows. Wherever the byte is, the block is refused with an error or the chunk is
read from it; the latter only if the byte now says that there is no checksum. -/
theorem decodeBlock_set (h : c.Uniform n) (hn : n < wordLimit) {block : Bytes}
    (hblock : c.encodeBlock .crc32 = .ok block) {pos : Nat} (hpos : pos < block.length) {v : UInt8}
    (hv : block[pos] ≠ v) :
    (decodeBlock c.spec n (.ofList (block.set pos v)) = .ok c ∧
      pos + 12 = block.length ∧ v = 0) ∨
    ∃ e, decodeBlock c.spec n (.ofList (block.set pos v)) = Outcome.fail e := by
  refine (decodeBlock_meets c.spec n _).ok_or_fail.imp_left ?_
  rintro ⟨found, hfound, -⟩
  obtain ⟨data, hdata, rfl⟩ := encodeBlock_eq_ok hblock
  have htrailer := length_encodeTrailer c.spec.layout .crc32
    (ChecksumType.build .crc32 (.ofList data))
  by_cases hinside : pos < data.length
  · rw [List.set_append_left _ _ hinside] at hfound
    rw [List.getElem_append_left hinside] at hv
    exact absurd hfound (decodeBlock_set_data hinside hv c.spec.layout)
  · have hbehind := Nat.le_of_not_lt hinside
    rw [List.length_append] at hpos
    rw [List.getElem_append_right hbehind] at hv
    have hset := hfound
    rw [List.set_append_right _ _ hbehind] at hset
    obtain ⟨hread, hfour, hzero⟩ := decodeBlock_set_trailer rfl rfl (by omega) hv hset
    have hsame := decodeData_encodeData h hn hdata
    rw [hread] at hsame
    cases hsame
    rw [List.length_append, htrailer, trailerSize]
    exact ⟨hfound, by omega, hzero⟩

/-- Two integers, one of them missing. -/
def sampleNumbers : Chunk := .plain .int (.ofList [⟨7, false⟩, ⟨0, true⟩])

theorem decodeBlock_set_sample :
    sampleNumbers.Uniform 2 ∧ 2 < wordLimit ∧
      ∃ block, sampleNumbers.encodeBlock .crc32 = .ok block ∧ block[0]? = some 7 ∧
        12 < block.length ∧
        ∃ e, decodeBlock sampleNumbers.spec 2 (.ofList (block.set 0 9)) = Outcome.fail e := by
  have huniform : sampleNumbers.Uniform 2 := ⟨rfl, rfl⟩
  obtain ⟨block, hblock⟩ : ∃ block, sampleNumbers.encodeBlock .crc32 = .ok block := ⟨_, rfl⟩
  have hlen := trailerSize_le_length hblock
  rw [trailerSize] at hlen
  obtain ⟨data, hdata, hparts⟩ := encodeBlock_eq_ok hblock
  have hbyte : block[0]? = some 7 := by
    cases hdata
    rw [hparts]
    rfl
  have hne : block[0] ≠ 9 := by
    rw [List.getElem?_eq_getElem (by omega)] at hbyte
    rw [Option.some.inj hbyte]
    decide
  refine ⟨huniform, by decide, block, hblock, hbyte, by omega, ?_⟩
  refine (decodeBlock_set huniform (by decide) hblock (by omega) hne).resolve_left ?_
  rintro ⟨-, hlast, -⟩
  omega

end Chunk

end Columnar
