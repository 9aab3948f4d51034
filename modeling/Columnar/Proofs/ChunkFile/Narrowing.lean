import Columnar.Proofs.ChunkFile.Footer
import Columnar.Proofs.ChunkFile.Writer

/-!
# Numbers in the fields of a chunk file

A field of a chunk file has four bytes or eight. A number that is too large for it loses what does
not fit: the bytes of a number are those of its remainder (`LittleEndian.encode_mod`).

**What is stored** (`stored`). Index and tail have the bytes of an index and a tail whose numbers
fit, and these are read back. They are the ones that were written if the numbers did fit.

Main result: `counts_of_decodeIndex`. The counts of the tail are not the only record of how many
batches and columns there are. If they have lost something, there are too many bytes in the footer
for what is left of them, and it is not decoded.
-/

namespace Columnar

namespace LittleEndian

theorem limit_pos (width : Nat) : 0 < limit width := by
  induction width with
  | zero => exact Nat.one_pos
  | succ width ih => exact Nat.mul_pos (by decide) ih

/-- **A field has the bytes of a number** that fits it. -/
theorem encode_mod (width n : Nat) : encode width (n % limit width) = encode width n := by
  induction width generalizing n with
  | zero => rfl
  | succ width ih =>
    have hlow : UInt8.ofNat (n % (256 * limit width)) = UInt8.ofNat n := by
      apply UInt8.toNat_inj.mp
      rw [UInt8.toNat_ofNat', UInt8.toNat_ofNat']
      exact Nat.mod_mul_right_mod n 256 (limit width)
    have hhigh : n % (256 * limit width) / 256 = n / 256 % limit width :=
      Nat.mod_mul_right_div_self n 256 (limit width)
    rw [limit, encode, encode, hlow, hhigh, ih]

end LittleEndian

/-! ## What is stored -/

/-- The range with what its fields have of offset and length. -/
def BlockRange.stored (r : BlockRange) : BlockRange :=
  ⟨r.offset % LittleEndian.limit 8, r.length % LittleEndian.limit 8⟩

theorem BlockRange.fits_stored (r : BlockRange) : r.stored.Fits :=
  ⟨Nat.mod_lt _ (LittleEndian.limit_pos 8), Nat.mod_lt _ (LittleEndian.limit_pos 8)⟩

theorem BlockRange.stored_eq_iff (r : BlockRange) : r.stored = r ↔ r.Fits := by
  refine ⟨fun h => h ▸ r.fits_stored, fun ⟨hoffset, hlength⟩ => ?_⟩
  rw [stored, Nat.mod_eq_of_lt hoffset, Nat.mod_eq_of_lt hlength]

namespace BatchIndex

/-- The batch with what its fields have of the row count and the ranges. -/
def stored (b : BatchIndex) : BatchIndex := ⟨b.rows % wordLimit, b.blocks.map BlockRange.stored⟩

theorem fits_stored (b : BatchIndex) : b.stored.Fits b.blocks.length where
  rows := Nat.mod_lt _ (by decide)
  length_eq := List.length_map _
  blocks := List.forall_mem_map.mpr fun r _ => r.fits_stored

theorem stored_eq_iff (b : BatchIndex) :
    b.stored = b ↔ b.rows < wordLimit ∧ ∀ r ∈ b.blocks, r.Fits := by
  refine ⟨fun h => ?_, fun ⟨hrows, hblocks⟩ => ?_⟩
  · have hfits := b.fits_stored
    rw [h] at hfits
    exact ⟨hfits.rows, hfits.blocks⟩
  · have hmap : b.blocks.map BlockRange.stored = b.blocks :=
      (List.map_congr_left fun r hr => r.stored_eq_iff.mpr (hblocks r hr)).trans (List.map_id _)
    rw [stored, Nat.mod_eq_of_lt hrows, hmap]

theorem map_stored_eq_iff (index : List BatchIndex) :
    index.map stored = index ↔ ∀ b ∈ index, b.rows < wordLimit ∧ ∀ r ∈ b.blocks, r.Fits := by
  have hmap := List.map_inj_left (l := index) (f := stored) (g := id)
  rw [List.map_id] at hmap
  exact hmap.trans (forall₂_congr fun b _ => b.stored_eq_iff)

theorem encode_stored (b : BatchIndex) : b.stored.encode = b.encode := by
  have hrows : LittleEndian.encode 4 (b.rows % wordLimit) = LittleEndian.encode 4 b.rows :=
    LittleEndian.encode_mod 4 b.rows
  rw [encode, encode, stored, hrows, List.flatMap_map]
  simp only [BlockRange.stored, LittleEndian.encode_mod]

theorem flatMap_encode_stored (index : List BatchIndex) :
    (index.map stored).flatMap encode = index.flatMap encode := by
  rw [List.flatMap_map]
  exact congrArg index.flatMap (funext encode_stored)

variable {columns : Nat} {index : List BatchIndex}

theorem fits_map_stored (h : ∀ b ∈ index, b.blocks.length = columns) :
    ∀ b ∈ index.map stored, b.Fits columns :=
  List.forall_mem_map.mpr fun b hb => h b hb ▸ b.fits_stored

/-- **The index is read back** with what its fields have of it. -/
theorem readMany_stored (h : ∀ b ∈ index, b.blocks.length = columns) (rest : Bytes) :
    readMany columns index.length (index.flatMap encode ++ rest) =
      .ok (index.map stored, rest) := by
  rw [← flatMap_encode_stored, ← List.length_map (f := stored)]
  exact readMany_flatMap (fits_map_stored h) rest

end BatchIndex

namespace FileTail

/-- The tail with what its fields have of its numbers. -/
def stored (t : FileTail) : FileTail :=
  ⟨t.columns % wordLimit, t.batches % wordLimit, t.indexOffset % LittleEndian.limit 8⟩

theorem fits_stored (t : FileTail) : t.stored.Fits :=
  ⟨Nat.mod_lt _ (by decide), Nat.mod_lt _ (by decide), Nat.mod_lt _ (LittleEndian.limit_pos 8)⟩

theorem stored_eq_iff (t : FileTail) : t.stored = t ↔ t.Fits := by
  refine ⟨fun h => h ▸ t.fits_stored, fun h => ?_⟩
  rw [stored, Nat.mod_eq_of_lt h.columns, Nat.mod_eq_of_lt h.batches,
    Nat.mod_eq_of_lt h.indexOffset]

theorem encode_stored (t : FileTail) : t.stored.encode = t.encode := by
  have hword : ∀ n, LittleEndian.encode 4 (n % wordLimit) = LittleEndian.encode 4 n :=
    LittleEndian.encode_mod 4
  rw [encode, encode, stored, hword, hword, LittleEndian.encode_mod]

/-- **The tail is read back** with what its fields have of it. -/
theorem decode_stored (t : FileTail) : decode t.encode = .ok t.stored := by
  rw [← encode_stored]
  exact decode_encode t.fits_stored

end FileTail

/-! ## Counts -/

theorem ChunkSpec.length_encode_pos (spec : ChunkSpec) : 0 < spec.encode.length := by
  cases spec <;> exact Nat.succ_pos _

theorem ChunkSpec.length_encode_le {spec : ChunkSpec} (h : spec.IsFlat) :
    spec.encode.length ≤ 2 := by
  cases spec with
  | plain k => exact Nat.le_succ 1
  | paired inner =>
    cases inner with
    | plain k => exact Nat.le_refl 2
    | paired inner => exact h.elim

theorem ChunkSpec.le_length_flatMap (specs : List ChunkSpec) :
    specs.length ≤ (specs.flatMap encode).length := by
  induction specs with
  | nil => exact Nat.le_refl 0
  | cons spec specs ih =>
    have := spec.length_encode_pos
    rw [List.length_cons, List.flatMap_cons, List.length_append]
    omega

theorem ChunkSpec.length_flatMap_le {specs : List ChunkSpec} (h : ∀ spec ∈ specs, spec.IsFlat) :
    (specs.flatMap encode).length ≤ 2 * specs.length := by
  induction specs with
  | nil => exact Nat.le_refl 0
  | cons spec specs ih =>
    obtain ⟨hspec, hspecs⟩ := List.forall_mem_cons.mp h
    have := length_encode_le hspec
    have := ih hspecs
    rw [List.length_cons, List.flatMap_cons, List.length_append]
    omega

/-- The same number of bytes is not that of fewer columns, nor of fewer batches. The specs of the
one take up between one and two bytes for a column, and those of the other as well. -/
theorem counts_eq_of_length {columns batches columns' batches' specs specs' : Nat}
    (hcolumns : columns' = columns % wordLimit) (hbatches : batches' ≤ batches)
    (hspecs : columns ≤ specs) (hspecs' : specs' ≤ 2 * columns')
    (h : batches' * (4 + columns' * 16) + specs' = batches * (4 + columns * 16) + specs) :
    columns' = columns ∧ batches' = batches := by
  have hle : columns' ≤ columns := hcolumns ▸ Nat.mod_le _ _
  have hwidth : 4 + columns' * 16 ≤ 4 + columns * 16 := by omega
  have hbytes := Nat.mul_le_mul hbatches hwidth
  have heq : columns' = columns := by
    rw [wordLimit] at hcolumns
    omega
  refine ⟨heq, Nat.le_antisymm hbatches (Nat.le_of_not_lt fun hlt => ?_)⟩
  rw [heq] at h hspecs'
  have hmore := Nat.mul_le_mul_right (4 + columns * 16) (Nat.succ_le_of_lt hlt)
  rw [Nat.succ_mul] at hmore
  omega

namespace FileTail

variable {t : FileTail} {index : List BatchIndex} {specs : List ChunkSpec}

/-- **A footer that is decoded has lost no count.** -/
theorem counts_of_decodeIndex (hcolumns : t.columns = specs.length)
    (hbatches : t.batches = index.length) (hwidths : ∀ b ∈ index, b.blocks.length = t.columns)
    {found : List BatchIndex} {specs' : List ChunkSpec}
    (h : t.stored.decodeIndex (index.flatMap BatchIndex.encode ++ specs.flatMap ChunkSpec.encode) =
      .ok (found, specs')) :
    t.columns < wordLimit ∧ t.batches < wordLimit ∧ found = index.map BatchIndex.stored := by
  have hfooter := footer_of_decodeIndex t.fits_stored.columns h
  have hlength := congrArg List.length hfooter.bytes_eq
  rw [List.length_append, List.length_append,
    BatchIndex.length_flatMap_encode fun b hb => (hfooter.fits b hb).length_eq, hfooter.batches_eq,
    BatchIndex.length_flatMap_encode hwidths, ← hbatches] at hlength
  have hspecs := ChunkSpec.le_length_flatMap specs
  have hspecs' := ChunkSpec.length_flatMap_le hfooter.flat
  rw [← hcolumns] at hspecs
  rw [hfooter.columns_eq] at hspecs'
  obtain ⟨hcolumns', hbatches'⟩ : t.stored.columns = t.columns ∧ t.stored.batches = t.batches :=
    counts_eq_of_length rfl (Nat.mod_le _ _) hspecs hspecs' hlength.symm
  refine ⟨hcolumns' ▸ t.fits_stored.columns, hbatches' ▸ t.fits_stored.batches, ?_⟩
  -- both are read from the front of the same bytes
  have hfound := BatchIndex.readMany_flatMap hfooter.fits (specs'.flatMap ChunkSpec.encode)
  have hindex := BatchIndex.readMany_stored hwidths (specs.flatMap ChunkSpec.encode)
  rw [← hfooter.bytes_eq, hfooter.batches_eq, hcolumns', hbatches', hbatches] at hfound
  exact (Prod.mk.inj (Except.ok.inj (hfound.symm.trans hindex))).1

end FileTail

end Columnar
