import Columnar.Proofs.Payload.Stream

/-!
# Streams of values, whole and cut short

Values that are written one after the other are read back one after the other, as long as all their
bytes are there (`readEach_append`). A stream that stops short does so within one of them
(`exists_cut`), be it in a length, in the marker of a long text, or in the contents. As no reader
does with less than all bytes of a value (`Reader.cut`), reading fails there.

Main result: `readEach_writeAll`, for whole streams with anything behind them and for all that stop
short.
-/

namespace Columnar.StreamValue

/-- The bytes of values, one after the other. -/
def writeAll (values : List StreamValue) : Bytes := values.flatMap write

/-- What comes of reading values of these kinds one after the other, whatever came of those before,
and the input that is left. -/
def readEach : List StreamKind → Bytes → List (Outcome StreamValue) × Bytes
  | [], input => ([], input)
  | kind :: kinds, input =>
    let (o, input) := read kind input
    let (os, input) := readEach kinds input
    (o :: os, input)

variable {values : List StreamValue} {part : Bytes}

/-! ## Streams -/

theorem writeAll_append (values values' : List StreamValue) :
    writeAll (values ++ values') = writeAll values ++ writeAll values' := List.flatMap_append

theorem length_readEach (kinds : List StreamKind) (input : Bytes) :
    (readEach kinds input).1.length = kinds.length := by
  induction kinds generalizing input with
  | nil => rfl
  | cons kind kinds ih => exact congrArg Nat.succ (ih (read kind input).2)

theorem readEach_append (h : ∀ v ∈ values, v.Fits) (kinds : List StreamKind) (rest : Bytes) :
    readEach (values.map kind ++ kinds) (writeAll values ++ rest) =
      (values.map .ok ++ (readEach kinds rest).1, (readEach kinds rest).2) := by
  induction values with
  | nil => rfl
  | cons v values ih =>
    have hv := read_write_append v (h v List.mem_cons_self) (writeAll values ++ rest)
    have ih := ih fun v' hv' => h v' (List.mem_cons_of_mem v hv')
    simp only [writeAll, List.flatMap_cons, List.append_assoc] at hv ih ⊢
    simp only [List.map_cons, List.cons_append, readEach, hv, ih]

/-- A stream that stops short does so within the bytes of one of its values. -/
theorem exists_cut (hstart : part <+: writeAll values) (hne : part ≠ writeAll values) :
    ∃ before v after piece, values = before ++ v :: after ∧ part = writeAll before ++ piece ∧
      piece <+: v.write ∧ piece ≠ v.write := by
  induction values generalizing part with
  | nil => exact absurd (List.prefix_nil.mp hstart) hne
  | cons v values ih =>
    have hcons : writeAll (v :: values) = v.write ++ writeAll values := List.flatMap_cons
    rw [hcons] at hstart hne
    by_cases hfirst : v.write <+: part
    · obtain ⟨part', rfl⟩ := hfirst
      obtain ⟨before, v', after, piece, rfl, rfl, hpiece⟩ :=
        ih ((List.prefix_append_right_inj _).mp hstart) fun heq => hne (congrArg _ heq)
      refine ⟨v :: before, v', after, piece, rfl, ?_, hpiece⟩
      rw [← List.append_assoc]
      rfl
    · -- the cut is in the first value
      have hpart : part <+: v.write :=
        (List.prefix_or_prefix_of_prefix hstart (List.prefix_append _ _)).resolve_right hfirst
      refine ⟨[], v, values, part, rfl, rfl, hpart, ?_⟩
      rintro rfl
      exact hfirst (List.prefix_refl _)

/-- **Values are read back in the order in which they were written**, whatever follows them. If the
bytes stop short, then there is a first value that is not there in full: those before it are read
back, and reading it fails with a decoding error. -/
theorem readEach_writeAll (values : List StreamValue) (h : ∀ v ∈ values, v.Fits) :
    (∀ extra, readEach (values.map kind) (writeAll values ++ extra) = (values.map .ok, extra)) ∧
    ∀ part, part <+: writeAll values → part ≠ writeAll values →
      ∃ before v after fault others, values = before ++ v :: after ∧
        writeAll before <+: part ∧ part.length < (writeAll (before ++ [v])).length ∧
        (readEach (values.map kind) part).1 =
          before.map .ok ++ Outcome.fail (.decode fault) :: others := by
  constructor
  · intro extra
    have hread := readEach_append h [] extra
    rwa [List.append_nil, readEach, List.append_nil] at hread
  · intro part hstart hne
    obtain ⟨before, v, after, piece, rfl, rfl, hpiece, hpiece_ne⟩ := exists_cut hstart hne
    have hwhole : read v.kind v.write = (.ok v, []) := by
      have hread := read_write_append v (h v (by simp)) []
      rwa [List.append_nil] at hread
    obtain ⟨fault, rest, hcut⟩ := (reader_read v.kind).cut hwhole hpiece hpiece_ne
    have hread := readEach_append (fun v' hv' => h v' (List.mem_append_left _ hv'))
      (kind v :: after.map kind) piece
    refine ⟨before, v, after, fault, (readEach (after.map kind) rest).1, rfl,
      List.prefix_append _ _, ?_, ?_⟩
    · have hlt : piece.length < v.write.length :=
        Nat.lt_of_le_of_ne hpiece.length_le fun heq => hpiece_ne (hpiece.eq_of_length heq)
      rw [writeAll_append, List.length_append, List.length_append]
      simpa [writeAll] using hlt
    · rw [List.map_append, List.map_cons, hread]
      simp only [readEach, hcut]

theorem exists_text (n : Nat) : ∃ s : String, (Utf8.encode s).length = n := by
  have hencode : Utf8.encode (String.ofList (List.replicate n 'a')) =
      (List.replicate n 'a').flatMap String.utf8EncodeChar := by
    simp [Utf8.encode, String.toByteArray_ofList, List.utf8Encode]
  have hone : (String.utf8EncodeChar 'a').length = 1 := by decide
  refine ⟨String.ofList (List.replicate n 'a'), ?_⟩
  rw [hencode, List.flatMap_replicate, List.length_flatten, List.map_replicate, hone,
    List.sum_replicate_nat, Nat.mul_one]

/-- A byte and two texts. -/
def sampleStream (short long : String) : List StreamValue := [.u8 7, .text short, .text long]

/-- The stream up to the length of the second text, of which only one byte is there. -/
def sampleCut (short : String) : Bytes := writeAll [.u8 7, .text short] ++ [0xFF, 0xFF, 0xFF]

/-- The longest of the short texts and the shortest of the long ones. -/
theorem readEach_writeAll_sample : ∃ short long : String,
    (Utf8.encode short).length = 65534 ∧ (Utf8.encode long).length = 65535 ∧
      readEach [.u8, .text, .text] (writeAll (sampleStream short long) ++ [1, 2]) =
        ([.ok (.u8 7), .ok (.text short), .ok (.text long)], [1, 2]) ∧
      sampleCut short <+: writeAll (sampleStream short long) ∧
      ∃ fault, (readEach [.u8, .text, .text] (sampleCut short)).1 =
        [.ok (.u8 7), .ok (.text short), Outcome.fail (.decode fault)] := by
  obtain ⟨short, hshort⟩ := exists_text 65534
  obtain ⟨long, hlong⟩ := exists_text 65535
  have hfits : ∀ v ∈ sampleStream short long, v.Fits := by
    simp [sampleStream, Fits, hshort, hlong, wordLimit]
  have hstart : sampleCut short <+: writeAll (sampleStream short long) := by
    refine ⟨[0xFF, 0, 0] ++ Utf8.encode long, ?_⟩
    simp [sampleCut, sampleStream, writeAll, write, writeText, hlong, longText,
      LittleEndian.encode]
  have hne : sampleCut short ≠ writeAll (sampleStream short long) := by
    refine fun heq => absurd (congrArg List.length heq) ?_
    simp [sampleCut, sampleStream, writeAll, write, writeText, hshort, hlong, longText]
  obtain ⟨hwhole, hcut⟩ := readEach_writeAll (sampleStream short long) hfits
  refine ⟨short, long, hshort, hlong, hwhole [1, 2], hstart, ?_⟩
  obtain ⟨before, v, after, fault, others, hvalues, -, hlt, hread⟩ :=
    hcut (sampleCut short) hstart hne
  refine ⟨fault, ?_⟩
  -- it is the third value that is cut
  rcases before with _ | ⟨v₁, _ | ⟨v₂, _ | ⟨v₃, before⟩⟩⟩
  · cases hvalues
    simp [sampleCut, writeAll, write] at hlt
  · cases hvalues
    simp [sampleCut, writeAll, write, writeText, hshort, longText] at hlt
  · cases hvalues
    have hlength := congrArg List.length hread
    have hothers : others.length = 0 := by
      simp only [length_readEach, List.length_append, List.length_map, List.length_cons,
        sampleStream, List.length_nil] at hlength
      omega
    rw [List.eq_nil_of_length_eq_zero hothers] at hread
    exact hread
  · simp [sampleStream] at hvalues

end Columnar.StreamValue
