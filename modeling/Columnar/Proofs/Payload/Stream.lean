import Columnar.Payload
import Columnar.Proofs.Action

/-!
# Reading back what a stream holds

A value that is written in front of other bytes is read back, and those bytes are left
(`read_write_append`). Lengths must fit the 32 bits of their field (`StreamValue.Fits`).

**Readers** (`StreamValue.Reader`). A reader looks no further than it takes: what it takes off the
front of an input it also takes if more follows. And it fails in one way only, with a decoding
error. Taking bytes is such a reader, and so is whatever takes several times in a row
(`Reader.bind`), hence the reader of every kind of value (`reader_read`).

**Cuts** (`Reader.cut`). If a reader could do with less than all the bytes of a value, then with all
of them it would leave some. So it fails wherever the bytes of a value are cut.
-/

namespace Columnar

/-- Values of fixed width are determined by their bytes. -/
class LawfulFixedWidth (α : Type) [FixedWidth α] : Prop where
  length_encode (v : α) : (FixedWidth.encode v).length = FixedWidth.width α
  decode_encode (v : α) : FixedWidth.decode (FixedWidth.encode v) = v

instance : LawfulFixedWidth Int32 where
  length_encode v := LittleEndian.length_encode 4 v.toUInt32.toNat
  decode_encode v := by
    have h : v.toUInt32.toNat < LittleEndian.limit 4 := v.toUInt32.toNat_lt
    simp [FixedWidth.encode, FixedWidth.decode, LittleEndian.decode_encode h]

instance : LawfulFixedWidth Int64 where
  length_encode v := LittleEndian.length_encode 8 v.toUInt64.toNat
  decode_encode v := by
    have h : v.toUInt64.toNat < LittleEndian.limit 8 := v.toUInt64.toNat_lt
    simp [FixedWidth.encode, FixedWidth.decode, LittleEndian.decode_encode h]

instance : LawfulFixedWidth Double where
  length_encode v := LittleEndian.length_encode 8 v.bits.toNat
  decode_encode v := by
    have h : v.bits.toNat < LittleEndian.limit 8 := v.bits.toNat_lt
    simp [FixedWidth.encode, FixedWidth.decode, LittleEndian.decode_encode h]

instance : LawfulFixedWidth Bool where
  length_encode _ := rfl
  decode_encode v := by cases v <;> rfl

namespace StreamValue

/-- The length of a byte string or a text fits in 32 bits. -/
def Fits : StreamValue → Prop
  | bytes v => v.length < wordLimit
  | text v => (Utf8.encode v).length < wordLimit
  | _ => True

theorem take_append {n : Nat} {a : Bytes} (h : a.length = n) (b : Bytes) :
    take n (a ++ b) = (.ok a, b) := by
  subst h
  simp [take]

theorem readLength_append (width : Nat) {n : Nat} (h : n < LittleEndian.limit width)
    (rest : Bytes) :
    readLength width (LittleEndian.encode width n ++ rest) = (.ok n, rest) := by
  have ht := take_append (LittleEndian.length_encode width n) rest
  simp [readLength, Action.bind_apply, ht, LittleEndian.decode_encode h]

theorem readFixed_append {α : Type} [FixedWidth α] [LawfulFixedWidth α] (v : α) (rest : Bytes) :
    readFixed α (FixedWidth.encode v ++ rest) = (.ok v, rest) := by
  have ht := take_append (LawfulFixedWidth.length_encode v) rest
  simp [readFixed, Action.bind_apply, ht, LawfulFixedWidth.decode_encode]

theorem readU8_cons (b : UInt8) (rest : Bytes) : readU8 (b :: rest) = (.ok b, rest) := by
  have ht := take_append (n := 1) (a := [b]) rfl rest
  simp only [List.cons_append, List.nil_append] at ht
  simp [readU8, readLength, Action.bind_apply, ht, LittleEndian.decode]

theorem readBytes_append {v : Bytes} (h : v.length < wordLimit) (rest : Bytes) :
    readBytes (writeBytes v ++ rest) = (.ok v, rest) := by
  have hn := readLength_append 4 h (v ++ rest)
  simp [readBytes, writeBytes, Action.bind_apply, hn, take_append]

/-- The bytes of a text behind its length, whichever framing announces the length. -/
theorem readText_append {v : String} (h : (Utf8.encode v).length < wordLimit) (rest : Bytes) :
    readText (writeText v ++ rest) = (.ok v, rest) := by
  have ht := take_append (a := Utf8.encode v) rfl rest
  unfold writeText
  by_cases hs : (Utf8.encode v).length < longText
  · have hn := readLength_append 2 (Nat.lt_trans hs (by decide : longText < LittleEndian.limit 2))
      (Utf8.encode v ++ rest)
    simp only [if_pos hs, List.append_assoc, readText, Action.bind_apply, hn,
      if_neg (Nat.ne_of_lt hs), Action.pure_apply, ht, Utf8.decode_encode]
  · have hl := readLength_append 2 (by decide : longText < LittleEndian.limit 2)
      (LittleEndian.encode 4 (Utf8.encode v).length ++ (Utf8.encode v ++ rest))
    have hn := readLength_append 4 h (Utf8.encode v ++ rest)
    simp only [if_neg hs, List.append_assoc, readText, Action.bind_apply, hl, if_true, hn, ht,
      Utf8.decode_encode, Action.pure_apply]

/-- **Reading is the inverse of writing**, whatever follows. -/
theorem read_write_append (v : StreamValue) (h : v.Fits) (rest : Bytes) :
    read v.kind (v.write ++ rest) = (.ok v, rest) := by
  cases v with
  | u8 b => simp [read, kind, write, Action.bind_apply, readU8_cons]
  | i8 b => simp [read, kind, write, Action.bind_apply, readU8_cons]
  | bool b => simp [read, kind, write, Action.bind_apply, readFixed_append]
  | i32 n => simp [read, kind, write, Action.bind_apply, readFixed_append]
  | i64 n => simp [read, kind, write, Action.bind_apply, readFixed_append]
  | f64 d => simp [read, kind, write, Action.bind_apply, readFixed_append]
  | bytes bs => simp [read, kind, write, Action.bind_apply, readBytes_append h]
  | text s => simp [read, kind, write, Action.bind_apply, readText_append h]

/-! ## Readers -/

variable {α β : Type} {m : Action Bytes α} {part w : Bytes} {a : α}

/-- What is taken off the front does not depend on what follows, and all that can fail is decoding.
-/
structure Reader (m : Action Bytes α) : Prop where
  no_lookahead : ∀ {input rest : Bytes} {a : α}, m input = (.ok a, rest) →
    ∀ more, m (input ++ more) = (.ok a, rest ++ more)
  refuses : ∀ {input rest : Bytes} {e : Failure}, m input = (.error e, rest) →
    ∃ fault, e = .error (.decode fault)

theorem reader_pure (a : α) : Reader (pure a) where
  no_lookahead h more := by
    cases h
    rfl
  refuses h := nomatch h

theorem reader_fail (fault : DecodeFault) : Reader (Action.fail (.decode fault) : Action Bytes α)
    where
  no_lookahead h := nomatch h
  refuses h := by
    cases h
    exact ⟨fault, rfl⟩

theorem reader_take (n : Nat) : Reader (take n) where
  no_lookahead {input rest bs} h more := by
    unfold take at h
    dsimp only at h
    split at h
    · rename_i hlength
      cases h
      have hle : n ≤ input.length := by
        rw [List.length_take] at hlength
        omega
      have hhead : (input ++ more).take n = input.take n := List.take_append_of_le_length hle
      have htail : (input ++ more).drop n = input.drop n ++ more :=
        List.drop_append_of_le_length hle
      rw [take, hhead, htail]
      exact if_pos hlength
    · cases h
  refuses h := by
    unfold take at h
    dsimp only at h
    split at h
    · cases h
    · cases h
      exact ⟨_, rfl⟩

theorem Reader.bind {f : α → Action Bytes β} (hm : Reader m) (hf : ∀ a, Reader (f a)) :
    Reader (m >>= f) where
  no_lookahead {input rest b} h more := by
    obtain ⟨a, rest', hrun, h⟩ := Action.bind_eq_ok h
    rw [Action.bind_ok (hm.no_lookahead hrun more)]
    exact (hf a).no_lookahead h more
  refuses {input rest e} h := by
    rw [Action.bind_apply] at h
    rcases hrun : m input with ⟨e' | a, rest'⟩
    · rw [hrun] at h
      cases h
      exact hm.refuses hrun
    · rw [hrun] at h
      exact (hf a).refuses h

theorem reader_readLength (width : Nat) : Reader (readLength width) :=
  (reader_take width).bind fun _ => reader_pure _

theorem reader_readFixed (α : Type) [FixedWidth α] : Reader (readFixed α) :=
  (reader_take _).bind fun _ => reader_pure _

theorem reader_readU8 : Reader readU8 := (reader_readLength 1).bind fun _ => reader_pure _

theorem reader_readBytes : Reader readBytes := (reader_readLength 4).bind reader_take

theorem reader_readText : Reader readText := by
  refine (reader_readLength 2).bind fun short => ?_
  split
  · refine (reader_readLength 4).bind fun long => (reader_take long).bind fun bs => ?_
    cases Utf8.decode bs with
    | ok s => exact reader_pure s
    | error fault => exact reader_fail _
  · refine (reader_take short).bind fun bs => ?_
    cases Utf8.decode bs with
    | ok s => exact reader_pure s
    | error fault => exact reader_fail _

/-- **Every kind of value has a reader.** -/
theorem reader_read (kind : StreamKind) : Reader (read kind) := by
  cases kind with
  | u8 | i8 => exact reader_readU8.bind fun _ => reader_pure _
  | bool | i32 | i64 | f64 => exact (reader_readFixed _).bind fun _ => reader_pure _
  | bytes => exact reader_readBytes.bind fun _ => reader_pure _
  | text => exact reader_readText.bind fun _ => reader_pure _

/-- Any bytes are taken or refused. -/
theorem Reader.returns (hm : Reader m) : m.Returns := by
  intro input
  rcases hrun : m input with ⟨e | a, rest⟩
  · obtain ⟨fault, rfl⟩ := hm.refuses hrun
    trivial
  · trivial

/-- **A reader refuses less than it would take.** -/
theorem Reader.cut (hm : Reader m) (hwhole : m w = (.ok a, [])) (hstart : part <+: w)
    (hne : part ≠ w) : ∃ fault rest, m part = (Outcome.fail (.decode fault), rest) := by
  obtain ⟨more, rfl⟩ := hstart
  rcases hrun : m part with ⟨e | a', rest⟩
  · obtain ⟨fault, rfl⟩ := hm.refuses hrun
    exact ⟨fault, rest, rfl⟩
  · -- the bytes that are missing from the part would be left over
    have hleft := hm.no_lookahead hrun more
    rw [hwhole] at hleft
    have hnil : rest ++ more = [] := (Prod.mk.inj hleft).2.symm
    rw [(List.append_eq_nil_iff.mp hnil).2, List.append_nil] at hne
    exact absurd rfl hne

end StreamValue

end Columnar
