import Columnar.Proofs.ChunkFile.Index

/-!
# Decoding any footer

The footer of a chunk file is what lies between its blocks and its tail: the batches of the index,
and then the specs of the columns.

**Batches** have a fixed size. So bytes enough for some batches are the bytes of as many batches,
whatever they are (`BatchIndex.exists_flatMap_encode`).

**Specs** have a byte or two. Some bytes stand for no specs, and these are refused
(`ChunkSpec.decodeMany_cases`).

**Footers** (`FileTail.Footer`). If the size of the index can be counted, a footer is decoded to the
batches and specs that it is the bytes of, and everything else is refused with a decoding error.

Main result: `decodeIndex_of_tail`. The two counts of a tail are words, and the size of an index
with as many batches and columns need not fit in 64 bits (`decodeIndex_overflows`).
-/

namespace Columnar

namespace BatchIndex

/-! ## Batches -/

theorem exists_encodeBlocks {columns : Nat} {bs : Bytes} (h : columns * 16 ≤ bs.length) :
    ∃ blocks rest, blocks.length = columns ∧ (∀ r ∈ blocks, r.Fits) ∧
      bs = encodeBlocks blocks ++ rest := by
  induction columns generalizing bs with
  | zero => exact ⟨[], bs, rfl, fun r hr => absurd hr List.not_mem_nil, rfl⟩
  | succ columns ih =>
    obtain ⟨offset, bs, hoffset, rfl⟩ :=
      Bytes.exists_encode_append (show 8 ≤ bs.length by omega)
    rw [List.length_append, LittleEndian.length_encode] at h
    obtain ⟨length, bs, hlength, rfl⟩ :=
      Bytes.exists_encode_append (show 8 ≤ bs.length by omega)
    rw [List.length_append, LittleEndian.length_encode] at h
    obtain ⟨blocks, rest, hcount, hfits, rfl⟩ := ih (show columns * 16 ≤ bs.length by omega)
    refine ⟨⟨offset, length⟩ :: blocks, rest, congrArg (· + 1) hcount, ?_, ?_⟩
    · exact List.forall_mem_cons.mpr ⟨⟨hoffset, hlength⟩, hfits⟩
    · simp only [encodeBlocks, List.flatMap_cons, List.append_assoc]

theorem exists_encode {columns : Nat} {bs : Bytes} (h : 4 + columns * 16 ≤ bs.length) :
    ∃ (b : BatchIndex) (rest : Bytes), b.Fits columns ∧ bs = b.encode ++ rest := by
  obtain ⟨rows, bs, hrows, rfl⟩ := Bytes.exists_encode_append (show 4 ≤ bs.length by omega)
  rw [List.length_append, LittleEndian.length_encode] at h
  obtain ⟨blocks, rest, hcount, hfits, rfl⟩ :=
    exists_encodeBlocks (show columns * 16 ≤ bs.length by omega)
  exact ⟨⟨rows, blocks⟩, rest, ⟨hrows, hcount, hfits⟩, (List.append_assoc _ _ _).symm⟩

/-- **Bytes enough for some batches** are those of as many batches and the rest. -/
theorem exists_flatMap_encode {columns n : Nat} {bs : Bytes}
    (h : n * (4 + columns * 16) ≤ bs.length) :
    ∃ (index : List BatchIndex) (rest : Bytes), index.length = n ∧ (∀ b ∈ index, b.Fits columns) ∧
      bs = index.flatMap encode ++ rest := by
  induction n generalizing bs with
  | zero => exact ⟨[], bs, rfl, fun b hb => absurd hb List.not_mem_nil, rfl⟩
  | succ n ih =>
    rw [Nat.succ_mul] at h
    obtain ⟨b, bs, hb, rfl⟩ := exists_encode (show 4 + columns * 16 ≤ bs.length by omega)
    have hlen := length_flatMap_encode (List.forall_mem_singleton.mpr hb.length_eq)
    rw [List.flatMap_singleton, List.length_singleton, Nat.one_mul] at hlen
    rw [List.length_append, hlen] at h
    obtain ⟨index, rest, hcount, hfits, rfl⟩ :=
      ih (show n * (4 + columns * 16) ≤ bs.length by omega)
    refine ⟨b :: index, rest, congrArg (· + 1) hcount, List.forall_mem_cons.mpr ⟨hb, hfits⟩, ?_⟩
    rw [List.flatMap_cons, List.append_assoc]

end BatchIndex

/-! ## Specs -/

theorem Kind.tag_of_ofTag? {b : UInt8} {k : Kind} (h : ofTag? b = some k) : k.tag = b := by
  unfold ofTag? at h
  split at h <;> cases h <;> rfl

namespace ChunkSpec

/-- The bytes begin with those of a spec, or they are refused. -/
theorem decode_cases (bs : Bytes) :
    (∃ spec rest, decode bs = .ok (spec, rest) ∧ spec.IsFlat ∧ bs = spec.encode ++ rest) ∨
      ∃ fault, decode bs = Outcome.fail (.decode fault) := by
  induction bs with
  | nil => exact .inr ⟨_, rfl⟩
  | cons b bs ih =>
    by_cases hpair : b = pairTag
    · obtain ⟨spec, rest, hdecode, hflat, hbytes⟩ | ⟨fault, hfault⟩ := ih
      · -- a pair tag is followed by a plain spec, or the pair is nested
        cases spec with
        | plain k =>
          refine .inl ⟨.paired (.plain k), rest, ?_, trivial, by rw [hpair, hbytes]; rfl⟩
          rw [decode, if_pos hpair, hdecode]
          rfl
        | paired inner =>
          refine .inr ⟨.nestedSupplement, ?_⟩
          rw [decode, if_pos hpair, hdecode]
          rfl
      · refine .inr ⟨fault, ?_⟩
        rw [decode, if_pos hpair, hfault]
        rfl
    · cases hk : Kind.ofTag? b with
      | none => exact .inr ⟨.unknownTag b, by rw [decode, if_neg hpair, hk]⟩
      | some k =>
        refine .inl ⟨.plain k, bs, ?_, trivial, ?_⟩
        · simp only [decode, if_neg hpair, hk]
          rfl
        · rw [encode, Kind.tag_of_ofTag? hk]
          rfl

/-- **The bytes begin with those of some specs**, or they are refused. -/
theorem decodeMany_cases (n : Nat) (bs : Bytes) :
    (∃ specs rest, decodeMany n bs = .ok (specs, rest) ∧ specs.length = n ∧
        (∀ spec ∈ specs, spec.IsFlat) ∧ bs = specs.flatMap encode ++ rest) ∨
      ∃ fault, decodeMany n bs = Outcome.fail (.decode fault) := by
  induction n generalizing bs with
  | zero => exact .inl ⟨[], bs, rfl, rfl, fun spec hs => absurd hs List.not_mem_nil, rfl⟩
  | succ n ih =>
    obtain ⟨spec, rest, hdecode, hflat, hbytes⟩ | ⟨fault, hfault⟩ := decode_cases bs
    · obtain ⟨specs, rest', hmany, hcount, hflats, hrest⟩ | ⟨fault, hfault⟩ := ih rest
      · refine .inl ⟨spec :: specs, rest', ?_, congrArg (· + 1) hcount,
          List.forall_mem_cons.mpr ⟨hflat, hflats⟩, ?_⟩
        · simp only [decodeMany, hdecode, Outcome.ok_bind, hmany]
          rfl
        · rw [hbytes, hrest, List.flatMap_cons, List.append_assoc]
      · refine .inr ⟨fault, ?_⟩
        simp only [decodeMany, hdecode, Outcome.ok_bind, hfault, Outcome.fail_bind]
    · exact .inr ⟨fault, by rw [decodeMany, hfault, Outcome.fail_bind]⟩

end ChunkSpec

open ChunkFile

namespace FileTail

/-! ## Footers -/

/-- The bytes are those of batches and of specs, as many as the tail says. -/
structure Footer (t : FileTail) (index : List BatchIndex) (specs : List ChunkSpec) (bs : Bytes) :
    Prop where
  batches_eq : index.length = t.batches
  columns_eq : specs.length = t.columns
  fits : ∀ b ∈ index, b.Fits t.columns
  flat : ∀ spec ∈ specs, spec.IsFlat
  bytes_eq : bs = index.flatMap BatchIndex.encode ++ specs.flatMap ChunkSpec.encode

variable {t : FileTail} {index : List BatchIndex} {specs : List ChunkSpec} {bs : Bytes}

/-- The number of bytes of the batches. -/
def batchBytes (t : FileTail) : Nat := t.batches * (4 + 16 * t.columns)

/-- The size of the index, if the columns can be counted. -/
theorem indexSize_eq (h : t.columns < wordLimit) : t.indexSize = Outcome.ofCount t.batchBytes := by
  rw [indexSize, ofCount_blocks h, Outcome.ok_bind, batchBytes, Nat.mul_comm 16]

theorem Footer.length_batches (h : t.Footer index specs bs) :
    (index.flatMap BatchIndex.encode).length = t.batchBytes := by
  rw [BatchIndex.length_flatMap_encode fun b hb => (h.fits b hb).length_eq, h.batches_eq,
    batchBytes, Nat.mul_comm 16]

/-- **A footer is decoded** to what it is the bytes of. -/
theorem Footer.decodeIndex (h : t.Footer index specs bs) (hcolumns : t.columns < wordLimit)
    (hsize : t.batchBytes < LittleEndian.limit 8) : t.decodeIndex bs = .ok (index, specs) := by
  rw [h.bytes_eq]
  exact decodeIndex_encode h.columns_eq.symm h.batches_eq.symm h.flat h.fits hcolumns
    (h.length_batches ▸ hsize)

/-- **Any bytes** are a footer or are refused. -/
theorem decodeIndex_cases (bs : Bytes) (hsize : t.indexSize = .ok t.batchBytes) :
    (∃ index specs, t.decodeIndex bs = .ok (index, specs) ∧ t.Footer index specs bs) ∨
      ∃ fault, t.decodeIndex bs = Outcome.fail (.decode fault) := by
  by_cases hshort : bs.length < t.batchBytes
  · exact .inr ⟨.truncatedIndex, by rw [decodeIndex, hsize, Outcome.ok_bind, if_pos hshort]⟩
  have hlong : t.batches * (4 + t.columns * 16) ≤ bs.length := by
    rw [batchBytes, Nat.mul_comm 16] at hshort
    exact Nat.not_lt.mp hshort
  obtain ⟨index, rest, hbatches, hfits, rfl⟩ := BatchIndex.exists_flatMap_encode hlong
  have hread := BatchIndex.readMany_flatMap hfits rest
  rw [hbatches] at hread
  -- the batches take up what was compared, so only the specs are left to be refused
  have hrun : t.decodeIndex (index.flatMap BatchIndex.encode ++ rest) =
      (ChunkSpec.decodeMany t.columns rest >>= fun p =>
        if p.2.isEmpty then return (index, p.1) else Outcome.fail (.decode .trailingBytes)) := by
    simp only [decodeIndex, hsize, Outcome.ok_bind, if_neg hshort, hread]
  rw [hrun]
  obtain ⟨specs, bs, hdecode, hcolumns, hflat, rfl⟩ | ⟨fault, hfault⟩ :=
    ChunkSpec.decodeMany_cases t.columns rest
  · rw [hdecode, Outcome.ok_bind]
    cases bs with
    | nil =>
      rw [List.append_nil]
      exact .inl ⟨index, specs, rfl, hbatches, hcolumns, hfits, hflat, rfl⟩
    | cons b bs => exact .inr ⟨.trailingBytes, rfl⟩
  · exact .inr ⟨fault, by rw [hfault, Outcome.fail_bind]⟩

theorem footer_of_decodeIndex (hcolumns : t.columns < wordLimit)
    (h : t.decodeIndex bs = .ok (index, specs)) : t.Footer index specs bs := by
  obtain ⟨size, hsize, -⟩ := Outcome.bind_eq_ok h
  rw [indexSize_eq hcolumns] at hsize
  have hlt : t.batchBytes < LittleEndian.limit 8 := by
    unfold Outcome.ofCount at hsize
    split at hsize
    · assumption
    · cases hsize
  obtain ⟨index', specs', hrun, hfooter⟩ | ⟨fault, hfault⟩ :=
    decodeIndex_cases bs ((indexSize_eq hcolumns).trans (if_pos hlt))
  · cases h.symm.trans hrun
    exact hfooter
  · cases h.symm.trans hfault

/-- **Decoding any footer** with any tail.

- If the number of bytes of the index fits in 64 bits, it is the size of the index. The bytes are
  then decoded to the batches and the specs that they are the bytes of, all of them, or refused with
  a decoding error.
- Otherwise the size of the index cannot be had, and decoding aborts. -/
theorem decodeIndex_of_tail {last : Bytes} (ht : decode last = .ok t) (bs : Bytes) :
    (t.batches * (4 + 16 * t.columns) < UInt64.size →
      t.indexSize = .ok (t.batches * (4 + 16 * t.columns)) ∧
      (∀ index specs, t.decodeIndex bs = .ok (index, specs) ↔ t.Footer index specs bs) ∧
      ((∃ index specs, t.decodeIndex bs = .ok (index, specs)) ∨
        ∃ fault, t.decodeIndex bs = Outcome.fail (.decode fault))) ∧
    (UInt64.size ≤ t.batches * (4 + 16 * t.columns) →
      t.indexSize = Outcome.abort .overflow ∧ t.decodeIndex bs = Outcome.abort .overflow) := by
  have hcolumns := (counts_lt_of_decode ht).1
  have hcount := indexSize_eq hcolumns
  refine ⟨fun hlt => ?_, fun hle => ?_⟩
  · have hsize : t.indexSize = .ok t.batchBytes := hcount.trans (if_pos hlt)
    refine ⟨hsize, fun index specs => ?_, ?_⟩
    · exact ⟨footer_of_decodeIndex hcolumns, fun h => h.decodeIndex hcolumns hlt⟩
    · exact (decodeIndex_cases bs hsize).imp (fun ⟨index, specs, h, _⟩ => ⟨index, specs, h⟩) id
  · have hsize : t.indexSize = Outcome.abort .overflow := hcount.trans (if_neg (Nat.not_lt.mpr hle))
    exact ⟨hsize, by rw [decodeIndex, hsize]; rfl⟩

/-- The tail of a file with one batch of one column. -/
def sampleTail : FileTail := ⟨1, 1, 24⟩

/-- Three rows in a block of sixteen bytes behind the header, and the tag of a row key. -/
def sampleFooter : Bytes := BatchIndex.encode ⟨3, [⟨8, 16⟩]⟩ ++ [6]

theorem fits_sampleFooter : BatchIndex.Fits 1 ⟨3, [⟨8, 16⟩]⟩ :=
  ⟨by decide, rfl, List.forall_mem_singleton.mpr ⟨by decide, by decide⟩⟩

theorem decodeIndex_of_tail_sample :
    decode sampleTail.encode = .ok sampleTail ∧
    sampleTail.batches * (4 + 16 * sampleTail.columns) < UInt64.size ∧
    sampleTail.indexSize = .ok 20 ∧
    sampleTail.decodeIndex sampleFooter = .ok ([⟨3, [⟨8, 16⟩]⟩], [.plain .rowKey]) ∧
    decode (encode ⟨0xFFFFFFFF, 0xFFFFFFFF, 8⟩) = .ok ⟨0xFFFFFFFF, 0xFFFFFFFF, 8⟩ ∧
    UInt64.size ≤ 0xFFFFFFFF * (4 + 16 * 0xFFFFFFFF) ∧
    decodeIndex ⟨0xFFFFFFFF, 0xFFFFFFFF, 8⟩ sampleFooter = Outcome.abort .overflow := by
  have htail : decode sampleTail.encode = .ok sampleTail :=
    decode_encode ⟨by decide, by decide, by decide⟩
  have hlarge : decode (encode ⟨0xFFFFFFFF, 0xFFFFFFFF, 8⟩) = .ok ⟨0xFFFFFFFF, 0xFFFFFFFF, 8⟩ :=
    decode_encode ⟨by decide, by decide, by decide⟩
  have hlt : sampleTail.batches * (4 + 16 * sampleTail.columns) < UInt64.size := by decide
  have hle : UInt64.size ≤ 0xFFFFFFFF * (4 + 16 * 0xFFFFFFFF) := by decide
  obtain ⟨hsize, hfooter, -⟩ := (decodeIndex_of_tail htail sampleFooter).1 hlt
  have hdecode := (hfooter [⟨3, [⟨8, 16⟩]⟩] [.plain .rowKey]).mpr
    ⟨rfl, rfl, List.forall_mem_singleton.mpr fits_sampleFooter, by decide, rfl⟩
  exact ⟨htail, hlt, hsize, hdecode, hlarge, hle,
    ((decodeIndex_of_tail hlarge sampleFooter).2 hle).2⟩

/-- **The size of an index need not fit in 64 bits.** What stands before the tail is then not
compared with it, and decoding aborts. -/
theorem decodeIndex_overflows :
    decode ([0xFF, 0xFF, 0xFF, 0xFF, 0xFF, 0xFF, 0xFF, 0xFF, 8, 0, 0, 0, 0, 0, 0, 0] ++ magic) =
      .ok ⟨0xFFFFFFFF, 0xFFFFFFFF, 8⟩ ∧
    indexSize ⟨0xFFFFFFFF, 0xFFFFFFFF, 8⟩ = Outcome.abort .overflow ∧
    decodeIndex ⟨0xFFFFFFFF, 0xFFFFFFFF, 8⟩ [] = Outcome.abort .overflow ∧
    ¬ (decodeIndex ⟨0xFFFFFFFF, 0xFFFFFFFF, 8⟩ []).Returns :=
  ⟨by decide +kernel, rfl, rfl, fun h => h⟩

end FileTail

end Columnar
