import Columnar.Proofs.Block.Corruption

/-!
# What becomes of a block

A decoder refuses data with a decode error and with no other (`decodeData_raises`): every check on
the way has one, and the cuts and counts behind the checks have none.

Main result: `decodeBlock_decoded_or_refused`. Whatever the bytes are, decoding a block ends in one
of three ways: in a chunk of the spec asked for, of which every part has as many values and as many
missing flags as there are rows (`Chunk.lengths`); in a decode error; or in a checksum error, and
this only if the block is whole but for its checksum.
-/

namespace Columnar

open Outcome (Raises)

/-- The error says that bytes could not be decoded. -/
def Error.IsDecode (e : Error) : Prop := ∃ fault, e = .decode fault

theorem Error.isDecode (fault : DecodeFault) : (Error.decode fault).IsDecode := ⟨fault, rfl⟩

/-! ## Cuts -/

namespace Bytes

theorem raises_readWord {P : Error → Prop} (width : Nat) (bs : Bytes) :
    (readWord width bs).Raises P :=
  (Outcome.raises_ite_abort _ _).bind fun _ => trivial

end Bytes

namespace Buffer

theorem raises_cutFront {P : Error → Prop} (n : Nat) (b : Buffer) : (b.cutFront n).Raises P :=
  Outcome.raises_ite_abort _ _

theorem raises_cutBack {P : Error → Prop} (n : Nat) (b : Buffer) : (b.cutBack n).Raises P :=
  Outcome.raises_ite_abort _ _

end Buffer

theorem FixedWidth.raises_readMany {P : Error → Prop} (α : Type) [FixedWidth α] (n : Nat)
    (bs : Bytes) : (readMany α n bs).Raises P := by
  induction n generalizing bs with
  | zero => trivial
  | succ n ih =>
    have hread : (read α bs).Raises P := (Outcome.raises_ite_abort _ _).bind fun _ => trivial
    exact hread.bind fun ⟨v, rest⟩ => (ih rest).bind fun _ => trivial

/-! ## Slots -/

namespace Slots

theorem raises_ofParts {α : Type} {P : Error → Prop} (values : List α) (flags padding : List Bool) :
    (ofParts values flags padding).Raises P := Outcome.raises_ite_abort _ _

theorem raises_readOffsets {P : Error → Prop} (n : Nat) (bs : Bytes) :
    (readOffsets n bs).Raises P := by
  induction n generalizing bs with
  | zero => trivial
  | succ n ih =>
    exact (Bytes.raises_readWord 4 bs).bind fun ⟨word, rest⟩ => (ih rest).bind fun _ => trivial

theorem cutValues_raises (contents : Buffer) (start : Nat) (offsets : List Nat) :
    (cutValues contents start offsets).Raises Error.IsDecode := by
  induction offsets generalizing start with
  | nil => trivial
  | cons stop offsets ih =>
    exact Outcome.raises_guard (Error.isDecode _) ((ih stop).bind fun _ => trivial)

theorem decodeFlags_raises (data : Buffer) (rows : Nat) :
    (decodeFlags data rows).Raises Error.IsDecode := by
  refine Outcome.raises_guard (Error.isDecode _) ?_
  refine (Buffer.raises_cutBack _ _).bind fun ⟨front, field⟩ => ?_
  refine (Outcome.raises_ofCount _).bind fun bitCount => ?_
  refine (Outcome.raises_ofCount _).bind fun needed => ?_
  refine Outcome.raises_guard (Error.isDecode _) ?_
  exact (Buffer.raises_cutBack _ _).bind fun _ => trivial

theorem decodeFixed_raises (α : Type) [FixedWidth α] (data : Buffer) (rows : Nat) :
    (decodeFixed α data rows).Raises Error.IsDecode := by
  refine (decodeFlags_raises data rows).bind fun ⟨inner, flags, padding⟩ => ?_
  refine (Outcome.raises_ofCount _).bind fun expected => ?_
  refine Outcome.raises_guard (Error.isDecode _) ?_
  exact (FixedWidth.raises_readMany α rows _).bind fun values => raises_ofParts values flags padding

theorem decodeBytes_raises (data : Buffer) (rows : Nat) :
    (decodeBytes data rows).Raises Error.IsDecode := by
  refine (decodeFlags_raises data rows).bind fun ⟨inner, flags, padding⟩ => ?_
  refine (Outcome.raises_ofCount _).bind fun headSize => ?_
  refine Outcome.raises_guard (Error.isDecode _) ?_
  refine (Buffer.raises_cutFront _ _).bind fun ⟨head, contents⟩ => ?_
  refine (Outcome.raises_ofLength _).bind fun _ => ?_
  refine (raises_readOffsets rows _).bind fun offsets => ?_
  exact (cutValues_raises contents 0 offsets).bind fun values => raises_ofParts values flags padding

end Slots

namespace Chunk

/-! ## Data -/

theorem decodePlain_raises (data : Buffer) (rows : Nat) (k : Kind) :
    (decodePlain data rows k).Raises Error.IsDecode := by
  cases k with
  | int | long | double | boolean => exact Slots.decodeFixed_raises _ data rows
  | string | rowKey | binary => exact Slots.decodeBytes_raises data rows

theorem decodeData_raises (spec : ChunkSpec) (data : Buffer) (rows : Nat) :
    (decodeData spec data rows).Raises Error.IsDecode := by
  induction spec generalizing data with
  | plain k => exact (decodePlain_raises data rows k).bind fun _ => trivial
  | paired spec ih =>
    refine Outcome.raises_guard (Error.isDecode _) ?_
    refine (Buffer.raises_cutFront _ _).bind fun ⟨field, rest⟩ => ?_
    refine (Outcome.raises_ofCount _).bind fun needed => ?_
    refine Outcome.raises_guard (Error.isDecode _) ?_
    refine (Buffer.raises_cutFront _ _).bind fun ⟨inner, supplement⟩ => ?_
    refine (ih inner).bind fun c => ?_
    exact (Slots.decodeBytes_raises supplement rows).bind fun _ => trivial

theorem decodeTrailer_raises (bs : Bytes) : (decodeTrailer bs).Raises Error.IsDecode := by
  refine (Bytes.raises_readWord 4 bs).bind fun ⟨layoutCode, bs₁⟩ => ?_
  refine (Outcome.raises_ofOption (Error.isDecode _) _).bind fun layout => ?_
  refine (Bytes.raises_readWord 4 bs₁).bind fun ⟨typeCode, bs₂⟩ => ?_
  refine (Outcome.raises_ofOption (Error.isDecode _) _).bind fun type => ?_
  exact (Bytes.raises_readWord 8 bs₂).bind fun _ => trivial

/-! ## Blocks -/

/-- The numbers of values and of missing flags, of the chunk and of its supplement at every level.
-/
def lengths : Chunk → List Nat
  | plain _ s => [s.values.length, s.flags.length]
  | paired inner s => inner.lengths ++ [s.values.length, s.flags.length]

theorem Uniform.eq_of_mem_lengths {c : Chunk} {n m : Nat} (h : c.Uniform n) (hm : m ∈ c.lengths) :
    m = n := by
  induction c with
  | plain k s =>
    rw [lengths, h.length_values, h.length_flags] at hm
    simpa using hm
  | paired inner s ih =>
    rw [lengths, h.2.length_values, h.2.length_flags, List.mem_append] at hm
    exact hm.elim (ih h.1) fun hs => by simpa using hs

theorem decodeData_decoded_or_refused (spec : ChunkSpec) (data : Buffer) (rows : Nat) :
    (∃ c, decodeData spec data rows = .ok c ∧ c.spec = spec ∧ ∀ n ∈ c.lengths, n = rows) ∨
    ∃ fault, decodeData spec data rows = Outcome.fail (.decode fault) := by
  obtain ⟨c, hc, hspec, huniform⟩ | ⟨e, he⟩ := (decodeData_meets spec data rows).ok_or_fail
  · exact .inl ⟨c, hc, hspec, fun _ hn => huniform.eq_of_mem_lengths hn⟩
  · obtain ⟨fault, rfl⟩ := (decodeData_raises spec data rows).of_eq_fail he
    exact .inr ⟨fault, he⟩

/-- **Decoding any block**, for any spec and any number of rows, ends in one of three ways.

- There is a chunk, of the spec, of which every part has as many entries as there are rows.
- There is a decode error.
- There is a checksum error. Then the layout is that of the spec, and the trailer names a checksum
  that the data before it does not have. -/
theorem decodeBlock_decoded_or_refused (spec : ChunkSpec) (rows : Nat) (block : Buffer) :
    (∃ c, decodeBlock spec rows block = .ok c ∧ c.spec = spec ∧ ∀ n ∈ c.lengths, n = rows) ∨
    (∃ fault, decodeBlock spec rows block = Outcome.fail (.decode fault)) ∨
    ∃ data expected,
      block.toList = data ++ encodeTrailer spec.layout .crc32 expected ∧
      ChecksumType.build .crc32 (.ofList data) ≠ expected ∧
      decodeBlock spec rows block =
        Outcome.fail (.checksum (ChecksumType.build .crc32 (.ofList data)) expected) := by
  by_cases hshort : block.size < trailerSize
  · exact .inr (.inl ⟨.blockWithoutTrailer, if_pos hshort⟩)
  -- what is long enough is data and a trailer
  obtain ⟨data, trailer, hlen, hblock⟩ : ∃ data trailer, trailer.length = trailerSize ∧
      block.toList = data ++ trailer := by
    refine ⟨_, _, ?_, (List.take_append_drop (block.size - trailerSize) block.toList).symm⟩
    rw [List.length_drop, Buffer.length_toList]
    omega
  rw [← Buffer.ofList_toList block, Buffer.toList_ofList, hblock, decodeBlock_append _ _ _ hlen]
  obtain ⟨⟨layout, type, checksum⟩, htrailer, -⟩ | ⟨e, he⟩ :=
    (decodeTrailer_returns hlen).meets.ok_or_fail
  · rw [htrailer, Outcome.ok_bind]
    dsimp only
    by_cases hlayout : layout = spec.layout
    · rw [if_neg (not_not_intro hlayout)]
      have hdata := decodeData_decoded_or_refused spec (.ofList data) rows
      cases type with
      | none => exact hdata.imp_right .inl
      | crc32 =>
        by_cases hsum : ChecksumType.build .crc32 (.ofList data) = checksum
        · rw [ChecksumType.verify, if_pos hsum, Outcome.ok_bind]
          exact hdata.imp_right .inl
        · rw [decodeTrailer_eq_ok hlen htrailer, hlayout, ChecksumType.verify, if_neg hsum]
          exact .inr (.inr ⟨data, checksum, rfl, hsum, rfl⟩)
    · exact .inr (.inl ⟨_, if_pos hlayout⟩)
  · obtain ⟨fault, rfl⟩ := (decodeTrailer_raises trailer).of_eq_fail he
    exact .inr (.inl ⟨fault, by rw [he, Outcome.fail_bind]⟩)

end Chunk

end Columnar
