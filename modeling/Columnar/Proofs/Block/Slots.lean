import Columnar.Block
import Mathlib.Data.List.SplitLengths
import Columnar.Proofs.Chunk.Uniform
import Columnar.Proofs.Payload.Stream

/-!
# Slots are read back from their bytes

The three parts of encoded slots are read back one by one: the flags with their padding from the end
(`decodeFlags_append`), fixed-width values as an array (`readMany_flatMap`), and byte strings by
their end offsets (`cutValues_ends`). Put together again they are the slots that were encoded
(`ofParts_eq`), so `decodeFixed_encodeFixed` and `decodeBytes_encodeBytes` hold for uniform slots of
fewer than `2 ^ 32` rows.

Flags and byte strings are also said for a decoder that is told another number of rows
(`decodeFlags_append_rows`, `decodeBytes_append`). Of byte strings it may be told fewer, and it does
not see that there are more: it takes the offsets that are left over for the beginning of the
contents (`Slots.readAs`, `decodeBytes_of_le`).
-/

namespace Columnar

theorem Buffer.word_encode {n : Nat} (h : n < wordLimit) :
    (Buffer.ofList (LittleEndian.encode 4 n)).word = n := by
  rw [Buffer.word, Buffer.toList_ofList,
    LittleEndian.decode_encode (show n < LittleEndian.limit 4 from h)]

namespace Slots

variable {α : Type}

/-! ## Missing flags -/

theorem length_flags_padding {s : Slots α} {n : Nat} (h : s.Uniform n) :
    (s.flags ++ s.padding).length = 8 * bitmapSize n := by
  rw [List.length_append, h.length_flags, h.padding_length, paddingSize, bitmapSize]
  omega

theorem unpack_flags {s : Slots α} {n : Nat} (h : s.Uniform n) :
    (Bits.pack (s.flags ++ s.padding)).length = bitmapSize n ∧
      Bits.unpack (Bits.pack (s.flags ++ s.padding)) = s.flags ++ s.padding := by
  have hlen := length_flags_padding h
  have hmod : (s.flags ++ s.padding).length % 8 = 0 := by omega
  refine ⟨?_, Bits.unpack_pack hmod⟩
  have hpack := Bits.length_pack hmod
  omega

/-- **The flags, for any number of rows.** A decoder that is told `n` rows gets the flags of `n`
rows out of the bitmap, padding included, if the bitmap has that many bits. -/
theorem decodeFlags_append_rows {s : Slots α} {m : Nat} (h : s.Uniform m) (hm : m < wordLimit)
    (front : Bytes) (n : Nat) :
    decodeFlags (.ofList (front ++ s.encodeFlags)) n =
      if 8 * bitmapSize m < n then Outcome.fail (.decode .truncatedBitmap)
      else .ok (.ofList front, (s.flags ++ s.padding).take n,
        ((s.flags ++ s.padding).take (8 * bitmapSize n)).drop n) := by
  obtain ⟨hlen, hunpack⟩ := unpack_flags h
  have hword : bitmapSize m < wordLimit := by
    rw [bitmapSize]
    rw [wordLimit] at *
    omega
  generalize hbitmap : Bits.pack (s.flags ++ s.padding) = bitmap at hlen hunpack
  have hencode : s.encodeFlags = bitmap ++ LittleEndian.encode 4 bitmap.length := by
    rw [encodeFlags, hbitmap]
  -- the length behind the bitmap is cut off first, then the bitmap it announces
  have hback := Buffer.cutBack_append (front ++ bitmap) (LittleEndian.encode 4 bitmap.length)
  rw [LittleEndian.length_encode, List.append_assoc, ← hencode] at hback
  have hsize :
      (Buffer.ofList (front ++ s.encodeFlags)).size = front.length + bitmap.length + 4 := by
    rw [Buffer.size_ofList, hencode]
    simp [Nat.add_assoc]
  have hcount : bitmap.length < 0x100000000 := hlen ▸ hword
  rw [decodeFlags, hsize, if_neg (by omega), hback, Outcome.ok_bind]
  simp only [Buffer.word_encode (hlen ▸ hword)]
  rw [Outcome.ofCount_of_lt (by omega), Outcome.ok_bind, Outcome.ofCount_of_lt (by omega),
    Outcome.ok_bind]
  by_cases hrows : 8 * bitmapSize m < n
  · rw [if_pos (by omega), if_pos hrows]
  · have hbits : ((Buffer.ofList bitmap).slice 0 (bitmapSize n)).toList =
        bitmap.take (bitmapSize n) := by
      simp [Buffer.toList_slice]
    -- a shorter bitmap loses whole bytes of flags, none of the first `n`
    have htake : (s.flags ++ s.padding).take n =
        ((s.flags ++ s.padding).take (8 * bitmapSize n)).take n := by
      rw [List.take_take, Nat.min_eq_left (by rw [bitmapSize]; omega)]
    rw [if_neg (by omega), if_neg hrows, Buffer.cutBack_append, Outcome.ok_bind]
    simp only [hbits, Bits.unpack_take, hunpack, ← htake]
    rfl

theorem decodeFlags_append {s : Slots α} {n : Nat} (h : s.Uniform n) (hn : n < wordLimit)
    (front : Bytes) :
    decodeFlags (.ofList (front ++ s.encodeFlags)) n =
      .ok (.ofList front, s.flags, s.padding) := by
  have hlen := length_flags_padding h
  have hrows : ¬ 8 * bitmapSize n < n := by
    rw [bitmapSize]
    omega
  rw [decodeFlags_append_rows h hn, if_neg hrows, ← hlen, List.take_length,
    List.take_left' h.length_flags, List.drop_left' h.length_flags]

theorem zipWith_mk (l : List (Slot α)) :
    List.zipWith Slot.mk (l.map Slot.value) (l.map Slot.missing) = l := by
  induction l with
  | nil => rfl
  | cons a l ih => simp [ih]

theorem ofParts_eq (s : Slots α) : ofParts s.values s.flags s.padding = .ok s := by
  have hlen : s.values.length = s.flags.length := by rw [length_values, length_flags]
  have hzip : List.zipWith Slot.mk s.values s.flags = s.slots.toList :=
    zipWith_mk s.slots.toList
  rw [ofParts, if_pos hlen, hzip]

/-! ## Fixed-width values -/

section Fixed

variable [FixedWidth α] [LawfulFixedWidth α]

theorem length_flatMap_encode (values : List α) :
    (values.flatMap FixedWidth.encode).length = values.length * FixedWidth.width α := by
  induction values with
  | nil => simp
  | cons v values ih =>
    rw [List.flatMap_cons, List.length_append, ih, LawfulFixedWidth.length_encode, List.length_cons,
      Nat.succ_mul, Nat.add_comm]

theorem readMany_flatMap (values : List α) (rest : Bytes) :
    FixedWidth.readMany α values.length (values.flatMap FixedWidth.encode ++ rest) =
      .ok values := by
  induction values with
  | nil => rfl
  | cons v values ih =>
    have hcut := Bytes.cutFront_append (FixedWidth.encode v)
      (values.flatMap FixedWidth.encode ++ rest)
    rw [LawfulFixedWidth.length_encode] at hcut
    have hread : FixedWidth.read α (FixedWidth.encode v ++
        (values.flatMap FixedWidth.encode ++ rest)) =
        .ok (v, values.flatMap FixedWidth.encode ++ rest) := by
      simp only [FixedWidth.read, hcut, Outcome.ok_bind, LawfulFixedWidth.decode_encode]
      rfl
    simp only [List.length_cons, FixedWidth.readMany, List.flatMap_cons, List.append_assoc, hread,
      Outcome.ok_bind, ih]
    rfl

/-- **Slots of fixed-width values are read back.** -/
theorem decodeFixed_encodeFixed {s : Slots α} {n : Nat} (h : s.Uniform n) (hn : n < wordLimit) :
    decodeFixed α (.ofList s.encodeFixed) n = .ok s := by
  have hvalues := readMany_flatMap s.values []
  rw [List.append_nil, h.length_values] at hvalues
  have hsize := length_flatMap_encode s.values
  rw [h.length_values] at hsize
  have hcount := FixedWidth.ofCount_width α (show n < 8 * wordLimit by omega)
  rw [decodeFixed, encodeFixed, decodeFlags_append h hn, Outcome.ok_bind]
  dsimp only
  rw [hcount, Outcome.ok_bind]
  simp only [Buffer.size_ofList, hsize, ne_eq, not_true, if_false, Buffer.toList_ofList, hvalues,
    Outcome.ok_bind, ofParts_eq]

end Fixed

/-! ## Byte strings -/

/-- The end offsets of values laid out from `start` on, whatever room there is for them. -/
def ends : (start : Nat) → (values : List Bytes) → List Nat
  | _, [] => []
  | start, v :: vs => (start + v.length) :: ends (start + v.length) vs

@[simp] theorem length_ends (start : Nat) (values : List Bytes) :
    (ends start values).length = values.length := by
  induction values generalizing start with
  | nil => rfl
  | cons v values ih => simp [ends, ih]

/-- The end offsets that are written are the end offsets, and they fit their fields. -/
theorem endOffsets_eq_ok {start : Nat} {values : List Bytes} {offsets : List Nat}
    (h : endOffsets start values = .ok offsets) :
    offsets = ends start values ∧ ∀ o ∈ offsets, o < wordLimit := by
  induction values generalizing start offsets with
  | nil =>
    cases h
    exact ⟨rfl, fun o ho => absurd ho List.not_mem_nil⟩
  | cons v values ih =>
    by_cases hfits : start + v.length < wordLimit
    · rw [endOffsets, if_pos hfits] at h
      obtain ⟨more, hmore, h⟩ := Outcome.bind_eq_ok h
      cases h
      obtain ⟨rfl, hlt⟩ := ih hmore
      exact ⟨rfl, List.forall_mem_cons.mpr ⟨hfits, hlt⟩⟩
    · rw [endOffsets, if_neg hfits] at h
      cases h

theorem take_ends (start : Nat) (values : List Bytes) (n : Nat) :
    (ends start values).take n = ends start (values.take n) := by
  induction values generalizing start n with
  | nil => simp [ends]
  | cons v values ih =>
    cases n with
    | zero => rfl
    | succ n => rw [List.take_succ_cons, ends, ends, List.take_succ_cons, ih]

theorem cutValues_ends {contents : Buffer} {start : Nat} {values : List Bytes}
    (h : start + values.flatten.length ≤ contents.size) :
    cutValues contents start (ends start values) =
      .ok ((values.map List.length).splitLengths (contents.toList.drop start)) := by
  induction values generalizing start with
  | nil => rfl
  | cons v values ih =>
    rw [List.flatten_cons, List.length_append] at h
    have hbounds : ¬ (start + v.length < start ∨ contents.size < start + v.length) := by omega
    rw [ends, cutValues, if_neg hbounds, ih (by omega), Buffer.toList_slice,
      Nat.add_sub_cancel_left, List.map_cons, List.splitLengths_cons, List.drop_drop]
    rfl

theorem splitLengths_flatten (values : List Bytes) (rest : Bytes) :
    (values.map List.length).splitLengths (values.flatten ++ rest) = values := by
  induction values with
  | nil => rfl
  | cons v values ih =>
    rw [List.map_cons, List.splitLengths_cons, List.flatten_cons, List.append_assoc,
      List.take_left, List.drop_left, ih]

theorem readOffsets_append {offsets : List Nat} (h : ∀ o ∈ offsets, o < wordLimit) (n : Nat)
    (rest : Bytes) :
    readOffsets (offsets.length + n) (offsets.flatMap (LittleEndian.encode 4) ++ rest) =
      (offsets ++ ·) <$> readOffsets n rest := by
  induction offsets with
  | nil =>
    rw [List.length_nil, Nat.zero_add]
    exact (id_map _).symm
  | cons o offsets ih =>
    have ih := ih fun p hp => h p (List.mem_cons_of_mem o hp)
    have ho : o < LittleEndian.limit 4 := h o List.mem_cons_self
    rw [List.length_cons, Nat.add_right_comm, readOffsets, List.flatMap_cons, List.append_assoc,
      Bytes.readWord_encode_append ho, Outcome.ok_bind]
    simp only [ih]
    cases readOffsets n rest <;> rfl

theorem readOffsets_flatMap {offsets : List Nat} (h : ∀ o ∈ offsets, o < wordLimit) :
    readOffsets offsets.length (offsets.flatMap (LittleEndian.encode 4)) = .ok offsets := by
  have hread := readOffsets_append h 0 []
  rwa [List.append_nil, Nat.add_zero, readOffsets, map_pure, List.append_nil] at hread

theorem length_flatMap_offsets (offsets : List Nat) :
    (offsets.flatMap (LittleEndian.encode 4)).length = offsets.length * 4 := by
  induction offsets with
  | nil => rfl
  | cons o offsets ih =>
    rw [List.flatMap_cons, List.length_append, LittleEndian.length_encode, ih, List.length_cons]
    omega

theorem flatMap_offsets_append {offsets : List Nat} {n : Nat} (h : n ≤ offsets.length)
    (rest : Bytes) :
    (offsets.flatMap (LittleEndian.encode 4) ++ rest).take (n * 4) =
        (offsets.take n).flatMap (LittleEndian.encode 4) ∧
      (offsets.flatMap (LittleEndian.encode 4) ++ rest).drop (n * 4) =
        (offsets.drop n).flatMap (LittleEndian.encode 4) ++ rest := by
  have hhead : ((offsets.take n).flatMap (LittleEndian.encode 4)).length = n * 4 := by
    rw [length_flatMap_offsets, List.length_take_of_le h]
  have hsplit : offsets.flatMap (LittleEndian.encode 4) ++ rest =
      (offsets.take n).flatMap (LittleEndian.encode 4) ++
        ((offsets.drop n).flatMap (LittleEndian.encode 4) ++ rest) := by
    rw [← List.append_assoc, ← List.flatMap_append, List.take_append_drop]
  rw [hsplit]
  exact ⟨List.take_left' hhead, List.drop_left' hhead⟩

/-- **Encoded byte strings** are their end offsets, the values, and the flags. -/
theorem encodeBytes_eq_ok {s : Slots Bytes} {data : Bytes} (h : s.encodeBytes = .ok data) :
    (∀ o ∈ ends 0 s.values, o < wordLimit) ∧
      data = (ends 0 s.values).flatMap (LittleEndian.encode 4) ++ s.values.flatten ++
        s.encodeFlags := by
  obtain ⟨offsets, hoffsets, h⟩ := Outcome.bind_eq_ok h
  cases h
  obtain ⟨rfl, hlt⟩ := endOffsets_eq_ok hoffsets
  exact ⟨hlt, rfl⟩

/-- Encoded byte strings, for any number of rows: the flags are taken off the end, and so many
offsets off the front. -/
theorem decodeBytes_append {s : Slots Bytes} {m : Nat} (h : s.Uniform m) (hm : m < wordLimit)
    (inner : Bytes) (n : Nat) :
    decodeBytes (.ofList (inner ++ s.encodeFlags)) n =
      if 8 * bitmapSize m < n then Outcome.fail (.decode .truncatedBitmap)
      else if inner.length < n * 4 then Outcome.fail (.decode .truncatedOffsets)
      else (do
        let offsets ← readOffsets n (inner.take (n * 4))
        let values ← cutValues (.ofList (inner.drop (n * 4))) 0 offsets
        ofParts values ((s.flags ++ s.padding).take n)
          (((s.flags ++ s.padding).take (8 * bitmapSize n)).drop n)) := by
  rw [decodeBytes, decodeFlags_append_rows h hm]
  by_cases hrows : 8 * bitmapSize m < n
  · rw [if_pos hrows, if_pos hrows, Outcome.fail_bind]
  have hfew : n < 0x800000000 := by
    rw [bitmapSize] at hrows
    rw [wordLimit] at hm
    omega
  rw [if_neg hrows, if_neg hrows, Outcome.ok_bind]
  dsimp only
  rw [Outcome.ofCount_of_lt (by omega), Outcome.ofLength_of_lt (by omega), Outcome.ok_bind,
    Buffer.size_ofList]
  by_cases hshort : inner.length < n * 4
  · rw [if_pos hshort, if_pos hshort]
  have hfront := Buffer.cutFront_append (inner.take (n * 4)) (inner.drop (n * 4))
  rw [List.take_append_drop, List.length_take_of_le (Nat.not_lt.mp hshort)] at hfront
  rw [if_neg hshort, if_neg hshort, hfront, Outcome.ok_bind]
  simp only [Buffer.toList_ofList, Outcome.ok_bind]

/-- What is made of encoded byte strings by a decoder that is told of their first `n` rows: values
as long as the first `n`, cut from contents that begin with the end offsets of the others. -/
def readAs (n : Nat) (s : Slots Bytes) : Slots Bytes :=
  let contents := ((ends 0 s.values).drop n).flatMap (LittleEndian.encode 4) ++ s.values.flatten
  let values := ((s.values.take n).map List.length).splitLengths contents
  ⟨(List.zipWith Slot.mk values (s.flags.take n)).toArray,
    ((s.flags ++ s.padding).take (8 * bitmapSize n)).drop n⟩

theorem readAs_self {s : Slots Bytes} {n : Nat} (h : s.Uniform n) : s.readAs n = s := by
  have hdrop : (ends 0 s.values).drop n = [] :=
    List.drop_eq_nil_of_le (by rw [length_ends, h.length_values])
  have hsplit := splitLengths_flatten s.values []
  rw [List.append_nil] at hsplit
  have hzip : List.zipWith Slot.mk s.values s.flags = s.slots.toList := zipWith_mk s.slots.toList
  rw [readAs, hdrop, List.flatMap_nil, List.nil_append, List.take_of_length_le h.length_values.le,
    hsplit, List.take_of_length_le h.length_flags.le, hzip, ← length_flags_padding h,
    List.take_length, List.drop_left' h.length_flags]

/-- **Byte strings, for as many rows or fewer.** No row is refused. -/
theorem decodeBytes_of_le {s : Slots Bytes} {m n : Nat} (h : s.Uniform m) (hm : m < wordLimit)
    (hle : n ≤ m) {data : Bytes} (hdata : s.encodeBytes = .ok data) :
    decodeBytes (.ofList data) n = .ok (s.readAs n) := by
  obtain ⟨hfits, rfl⟩ := encodeBytes_eq_ok hdata
  have hends : n ≤ (ends 0 s.values).length := by rwa [length_ends, h.length_values]
  have hvalues : (s.values.take n).length = n := List.length_take_of_le (h.length_values ▸ hle)
  have hflags : (s.flags.take n).length = n := List.length_take_of_le (h.length_flags ▸ hle)
  obtain ⟨hhead, hcontents⟩ := flatMap_offsets_append hends s.values.flatten
  have hlt : ∀ o ∈ (ends 0 s.values).take n, o < wordLimit := fun o ho =>
    hfits o (List.mem_of_mem_take ho)
  have hread := readOffsets_flatMap hlt
  rw [List.length_take_of_le hends] at hread
  -- the values fit behind the offsets that are taken for contents
  generalize hall : ((ends 0 s.values).drop n).flatMap (LittleEndian.encode 4) ++
    s.values.flatten = contents at hcontents
  have hroom : 0 + (s.values.take n).flatten.length ≤ (Buffer.ofList contents).size := by
    have hflatten := congrArg (List.length ∘ List.flatten) (List.take_append_drop n s.values)
    simp only [Function.comp_apply, List.flatten_append, List.length_append] at hflatten
    rw [Buffer.size_ofList, ← hall, List.length_append]
    omega
  have hcut := cutValues_ends hroom
  rw [Buffer.toList_ofList, List.drop_zero, ← take_ends] at hcut
  have hparts : (((s.values.take n).map List.length).splitLengths contents).length =
      (s.flags.take n).length := by
    rw [List.length_splitLengths, List.length_map, hvalues, hflags]
  have hrows : ¬ 8 * bitmapSize m < n := by
    rw [bitmapSize]
    omega
  have hshort : ¬ ((ends 0 s.values).flatMap (LittleEndian.encode 4) ++
      s.values.flatten).length < n * 4 := by
    rw [List.length_append, length_flatMap_offsets]
    omega
  rw [decodeBytes_append h hm, if_neg hrows, if_neg hshort, hhead, hcontents, hread,
    Outcome.ok_bind, hcut, Outcome.ok_bind, List.take_append_of_le_length (h.length_flags ▸ hle),
    ofParts, if_pos hparts, readAs, hall]

/-- **Slots of byte strings are read back.** -/
theorem decodeBytes_encodeBytes {s : Slots Bytes} {n : Nat} (h : s.Uniform n) (hn : n < wordLimit)
    {data : Bytes} (hdata : s.encodeBytes = .ok data) : decodeBytes (.ofList data) n = .ok s := by
  rw [decodeBytes_of_le h hn n.le_refl hdata, readAs_self h]

end Slots

end Columnar
