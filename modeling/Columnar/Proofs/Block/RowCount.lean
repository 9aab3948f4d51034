import Columnar.Proofs.Block.Basic
import Columnar.Proofs.Block.Decoding

/-!
# Blocks and other numbers of rows

A block does not carry the number of rows of its chunk. What a decoder makes of another number
depends on the kind of the values, at whatever depth of pairs they are (`ChunkSpec.innermost`):

- An array of values must have exactly the length of the rows (`decodeFixed_of_rows_ne`).
- More byte strings than there are do not find their flags or their offsets. If they find both, then
  they have taken contents for offsets, and the last real offset points past what is left
  (`decodeBytes_of_lt`).
- Fewer byte strings than there are are not found out. Contents need not end at the last offset, so
  the offsets that are left over count as contents (`decodeBytes_of_le`).

Main result: `decodeBlock_of_rows_ne`. Fewer rows of byte strings are read as something else
(`Chunk.readAs`), every other wrong number of rows is refused.
-/

namespace Columnar

/-- The kinds of value that are byte strings. -/
def Kind.isBytes : Kind → Bool
  | string | rowKey | binary => true
  | int | long | double | boolean => false

/-- The kind of the values, at whatever depth of pairs they are. -/
def ChunkSpec.innermost : ChunkSpec → Kind
  | .plain k => k
  | .paired spec => spec.innermost

namespace Slots

/-! ## Fixed-width values -/

/-- **Another number of fixed-width values** is refused. -/
theorem decodeFixed_of_rows_ne {α : Type} [FixedWidth α] [LawfulFixedWidth α] {s : Slots α}
    {m n : Nat} (h : s.Uniform m) (hm : m < wordLimit) (hne : n ≠ m)
    (hwidth : 0 < FixedWidth.width α) :
    ∃ fault, decodeFixed α (.ofList s.encodeFixed) n = Outcome.fail (.decode fault) := by
  rw [decodeFixed, encodeFixed, decodeFlags_append_rows h hm]
  by_cases hrows : 8 * bitmapSize m < n
  · exact ⟨.truncatedBitmap, by rw [if_pos hrows, Outcome.fail_bind]⟩
  · have hsize : (Buffer.ofList (s.values.flatMap FixedWidth.encode)).size ≠
        n * FixedWidth.width α := by
      rw [Buffer.size_ofList, length_flatMap_encode, h.length_values]
      exact fun heq => hne (Nat.eq_of_mul_eq_mul_right hwidth heq).symm
    have hcount := FixedWidth.ofCount_width α (n := n) (by rw [bitmapSize] at hrows; omega)
    refine ⟨.valueBytes (n * FixedWidth.width α)
      (Buffer.ofList (s.values.flatMap FixedWidth.encode)).size, ?_⟩
    rw [if_neg hrows, Outcome.ok_bind]
    dsimp only
    rw [hcount, Outcome.ok_bind, if_pos hsize]

/-! ## More byte strings -/

theorem mem_ends {values : List Bytes} (h : values ≠ []) (start : Nat) :
    start + values.flatten.length ∈ ends start values := by
  induction values generalizing start with
  | nil => exact absurd rfl h
  | cons v values ih =>
    rw [List.flatten_cons, List.length_append, ← Nat.add_assoc]
    cases values with
    | nil => exact List.mem_singleton.mpr rfl
    | cons w values => exact List.mem_cons_of_mem _ (ih (List.cons_ne_nil w values) _)

/-- An offset past the end of the contents is refused, wherever it stands. -/
theorem cutValues_of_lt {contents : Buffer} {offsets : List Nat} {o : Nat} (ho : o ∈ offsets)
    (hlt : contents.size < o) (start : Nat) :
    cutValues contents start offsets = Outcome.fail (.decode .invalidOffset) := by
  induction offsets generalizing start with
  | nil => exact absurd ho List.not_mem_nil
  | cons stop offsets ih =>
    by_cases hinvalid : stop < start ∨ contents.size < stop
    · rw [cutValues, if_pos hinvalid]
    · have htail : o ∈ offsets :=
        (List.mem_cons.mp ho).resolve_left fun heq => hinvalid (.inr (heq ▸ hlt))
      rw [cutValues, if_neg hinvalid, ih htail]
      rfl

/-- The last end offset points past contents that have lost bytes at the front. -/
theorem cutValues_drop {values : List Bytes} (hne : values ≠ []) {k : Nat} (hk : 0 < k)
    (hle : k ≤ values.flatten.length) (more : List Nat) :
    cutValues (.ofList (values.flatten.drop k)) 0 (ends 0 values ++ more) =
      Outcome.fail (.decode .invalidOffset) := by
  have hlast := mem_ends hne 0
  rw [Nat.zero_add] at hlast
  refine cutValues_of_lt (List.mem_append_left more hlast) ?_ 0
  rw [Buffer.size_ofList, List.length_drop]
  omega

/-- **More byte strings than there are** are refused. -/
theorem decodeBytes_of_lt {s : Slots Bytes} {m n : Nat} (h : s.Uniform m) (hm : m < wordLimit)
    (hlt : m < n) {data : Bytes} (hdata : s.encodeBytes = .ok data) :
    ∃ fault, decodeBytes (.ofList data) n = Outcome.fail (.decode fault) := by
  obtain ⟨hfits, rfl⟩ := encodeBytes_eq_ok hdata
  rw [decodeBytes_append h hm]
  by_cases hrows : 8 * bitmapSize m < n
  · exact ⟨.truncatedBitmap, if_pos hrows⟩
  rw [if_neg hrows]
  by_cases hshort : ((ends 0 s.values).flatMap (LittleEndian.encode 4) ++
      s.values.flatten).length < n * 4
  · exact ⟨.truncatedOffsets, if_pos hshort⟩
  rw [if_neg hshort]
  have hhead : ((ends 0 s.values).flatMap (LittleEndian.encode 4)).length = m * 4 := by
    rw [length_flatMap_offsets, length_ends, h.length_values]
  rw [List.length_append, hhead] at hshort
  have hsplit : n * 4 = ((ends 0 s.values).flatMap (LittleEndian.encode 4)).length +
      (n - m) * 4 := by
    rw [hhead]
    omega
  -- the offsets of the rows that are not there come out of the contents
  have hmore : (n - m) * 4 ≤ (s.values.flatten.take ((n - m) * 4)).length :=
    (List.length_take_of_le (by omega)).ge
  obtain ⟨more, hreadMore, -⟩ := exists_readOffsets hmore
  have hread := readOffsets_append hfits (n - m) (s.values.flatten.take ((n - m) * 4))
  rw [length_ends, h.length_values, Nat.add_sub_cancel' hlt.le, hreadMore, Outcome.map_ok] at hread
  -- a bitmap with a bit to spare is not empty
  have hne : s.values ≠ [] := by
    intro hnil
    have hzero := h.length_values
    rw [hnil, List.length_nil] at hzero
    rw [← hzero, bitmapSize] at hrows
    omega
  refine ⟨.invalidOffset, ?_⟩
  rw [hsplit, List.take_length_add_append, List.drop_length_add_append, hread, Outcome.ok_bind,
    cutValues_drop hne (by omega) (by omega), Outcome.fail_bind]

end Slots

namespace Chunk

variable {c : Chunk} {m n : Nat}

/-! ## Data -/

/-- What is made of an encoded chunk of byte strings by a decoder that is told of its first `n`
rows. -/
def readAs (n : Nat) : Chunk → Chunk
  | plain .string s => plain .string (s.readAs n)
  | plain .rowKey s => plain .rowKey (s.readAs n)
  | plain .binary s => plain .binary (s.readAs n)
  | paired inner s => paired (inner.readAs n) (s.readAs n)
  | c => c

/-- **Fewer rows of byte strings** are decoded. -/
theorem decodeData_of_lt (h : c.Uniform m) (hm : m < wordLimit) (hbytes : c.spec.innermost.isBytes)
    (hlt : n < m) {data : Bytes} (hdata : c.encodeData = .ok data) :
    decodeData c.spec (.ofList data) n = .ok (c.readAs n) := by
  induction c generalizing data with
  | plain k s =>
    cases k with
    | int | long | double | boolean => cases hbytes
    | string | rowKey | binary =>
      rw [spec, decodeData, decodePlain, Slots.decodeBytes_of_le h hm hlt.le hdata]
      rfl
  | paired inner s ih =>
    obtain ⟨innerData, supplement, hinner, hlen, hsupplement, rfl⟩ := encodeData_paired_eq_ok hdata
    rw [spec, decodeData_paired _ hlen, ih h.1 hbytes hinner,
      Slots.decodeBytes_of_le h.2 hm hlt.le hsupplement]
    rfl

/-- **Every other wrong number of rows** is refused. -/
theorem decodeData_of_rows_ne (h : c.Uniform m) (hm : m < wordLimit) (hne : n ≠ m)
    (hother : ¬ (c.spec.innermost.isBytes ∧ n < m)) {data : Bytes}
    (hdata : c.encodeData = .ok data) :
    ∃ fault, decodeData c.spec (.ofList data) n = Outcome.fail (.decode fault) := by
  induction c generalizing data with
  | plain k s =>
    have hplain : ∃ fault, decodePlain (.ofList data) n k = Outcome.fail (.decode fault) := by
      cases k with
      | int | long | double | boolean =>
        cases hdata
        exact Slots.decodeFixed_of_rows_ne h hm hne (by decide)
      | string | rowKey | binary =>
        have hlt : m < n := by
          have hle : ¬ n < m := fun hlt => hother ⟨rfl, hlt⟩
          omega
        exact Slots.decodeBytes_of_lt h hm hlt hdata
    obtain ⟨fault, hfault⟩ := hplain
    exact ⟨fault, by rw [spec, decodeData, hfault]; rfl⟩
  | paired inner s ih =>
    obtain ⟨innerData, supplement, hinner, hlen, hsupplement, rfl⟩ := encodeData_paired_eq_ok hdata
    obtain ⟨fault, hfault⟩ := ih h.1 hother hinner
    exact ⟨fault, by rw [spec, decodeData_paired _ hlen, hfault]; rfl⟩

/-! ## Blocks -/

/-- **A block under a wrong number of rows.** Let the chunk be uniform, of any spec and of fewer
than `2 ^ 32` rows.

- If its values are byte strings and the number is too small, the block is decoded: to that many
  rows, cut from contents that begin with the end offsets of the others.
- Otherwise the block is refused. -/
theorem decodeBlock_of_rows_ne (h : c.Uniform m) (hm : m < wordLimit) (hne : n ≠ m)
    {type : ChecksumType} {block : Bytes} (hblock : c.encodeBlock type = .ok block) :
    (c.spec.innermost.isBytes ∧ n < m →
      decodeBlock c.spec n (.ofList block) = .ok (c.readAs n)) ∧
    (¬ (c.spec.innermost.isBytes ∧ n < m) →
      ∃ fault, decodeBlock c.spec n (.ofList block) = Outcome.fail (.decode fault)) := by
  obtain ⟨data, hdata, hdecode⟩ := decodeBlock_eq_decodeData hblock
  rw [hdecode]
  exact ⟨fun hbytes => decodeData_of_lt h hm hbytes.1 hbytes.2 hdata,
    fun hother => decodeData_of_rows_ne h hm hne hother hdata⟩

/-- Two rows of text, "a" and "b". -/
def sampleText : Chunk := .plain .string (.ofList [⟨[0x61], false⟩, ⟨[0x62], false⟩])

theorem decodeBlock_of_rows_ne_sample :
    sampleText.Uniform 2 ∧ 2 < wordLimit ∧ 1 ≠ 2 ∧ 3 ≠ 2 ∧
      ∃ block, sampleText.encodeBlock .crc32 = .ok block ∧
        decodeBlock sampleText.spec 1 (.ofList block) = .ok (sampleText.readAs 1) ∧
        ∃ fault, decodeBlock sampleText.spec 3 (.ofList block) = Outcome.fail (.decode fault) := by
  have huniform : sampleText.Uniform 2 := ⟨rfl, rfl⟩
  have hlimit : 2 < wordLimit := by decide
  obtain ⟨block, hblock⟩ : ∃ block, sampleText.encodeBlock .crc32 = .ok block := ⟨_, rfl⟩
  have hone := decodeBlock_of_rows_ne huniform hlimit (show 1 ≠ 2 by decide) hblock
  have hthree := decodeBlock_of_rows_ne huniform hlimit (show 3 ≠ 2 by decide) hblock
  exact ⟨huniform, hlimit, by decide, by decide, block, hblock, hone.1 ⟨rfl, by decide⟩,
    hthree.2 fun hbytes => absurd hbytes.2 (by decide)⟩

/-- The first of the two rows is read as the end offset of the second. -/
theorem first_row_misread :
    sampleText.Uniform 2 ∧ sampleText.get .string 0 = .ok [0x61] ∧
      ∃ block first, sampleText.encodeBlock .crc32 = .ok block ∧
        decodeBlock sampleText.spec 1 (.ofList block) = .ok first ∧
        first.get .string 0 = .ok [2] := by
  obtain ⟨block, hblock⟩ : ∃ block, sampleText.encodeBlock .crc32 = .ok block := ⟨_, rfl⟩
  obtain ⟨data, hdata, hdecode⟩ := decodeBlock_eq_decodeData hblock
  cases hdata
  exact ⟨⟨rfl, rfl⟩, rfl, block, sampleText.readAs 1, hblock, (hdecode 1).trans rfl, rfl⟩

end Chunk

end Columnar
