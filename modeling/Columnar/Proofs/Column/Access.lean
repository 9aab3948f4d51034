import Columnar.Column.Access
import Columnar.Proofs.Chunk.Uniform
import Columnar.Proofs.Payload.ClassTags

/-!
# Cells in physical columns

**Stored cells** (`PhysicalColumn.Holds`). A slot of a physical column holds what reading it gives:
a cell, or the reason why serialized bytes cannot be decoded. For a data column the two missing
flags tell how: there is one constructor of `DataSlots` for every line of the table of encodings.
What a slot holds is what is read from it (`Holds.readCell`), also after more tags have been handed
out (`Holds.mono`) and in every chunk that has the slot (`Holds.of_sameSlot`).

**Writing** (`DataWrite`, `WriteTarget.Wrote`). There is one constructor of `DataWrite` for every way
that writing a data cell goes (`writeData_cases`). Writing a cell keeps the shape of the chunk and
the tags valid, whether it succeeds or not, and it never aborts. If it succeeds the slot holds what
the column makes of the cell (`PhysicalColumn.recovered`), which is the cell itself unless lengths
in its serialized bytes do not fit their fields (`writeCell_wrote`).

**Writing again** (`PhysicalColumn.Settled`). A cell that was written once gives the same slot when
it is written with later tags, and hands out no more of them (`writeCell_again`).
-/

namespace Columnar

/-- How the slots of a data column hold a cell. -/
inductive DataSlots (p : Primitive) (tags : ClassTags) :
    Slot p.kind.Value → Slot Bytes → Outcome Cell → Prop
  /-- The value itself. -/
  | native (cell : Cell) (h : p.matches? cell) :
    DataSlots p tags ⟨p.project cell, false⟩ ⟨[], true⟩ (.ok cell)
  /-- A projection, with the cell serialized in the supplement. -/
  | foreign (v : p.kind.Value) (bytes : Bytes) (o : Outcome Cell) (h : tags.Decodes bytes o) :
    DataSlots p tags ⟨v, false⟩ ⟨bytes, false⟩ o
  /-- Missing, with the cause in the supplement. -/
  | cause (cause : String) :
    DataSlots p tags ⟨p.kind.default, true⟩ ⟨Utf8.encode cause, false⟩ (.ok (.missing (some cause)))
  | missing : DataSlots p tags ⟨p.kind.default, true⟩ ⟨[], true⟩ (.ok (.missing none))

/-- What writing a cell to slot `i` of a data column comes to. -/
inductive DataWrite (p : Primitive) (i : Nat) (s : Slots p.kind.Value) (t : Slots Bytes)
    (tags : ClassTags) : Cell → Outcome Unit × WriteTarget → Prop
  | native {cell : Cell} (hclass : cell.className?.isSome) (h : p.matches? cell) :
    DataWrite p i s t tags cell (.ok (),
      ⟨.paired (.plain p.kind (s.replace i ⟨p.project cell, false⟩)) (t.replace i ⟨[], true⟩),
        tags⟩)
  | foreign {cell : Cell} (hclass : cell.className?.isSome) (h : ¬ p.matches? cell) {bytes : Bytes}
    {tags' : ClassTags} (hwrite : ClassTags.writeCell cell tags = (.ok bytes, tags')) :
    DataWrite p i s t tags cell (.ok (),
      ⟨.paired (.plain p.kind (s.replace i ⟨p.project cell, false⟩)) (t.replace i ⟨bytes, false⟩),
        tags'⟩)
  /-- The projection stays in the slot if the cell is refused. -/
  | refused {cell : Cell} (hclass : cell.className?.isSome) (h : ¬ p.matches? cell) {e : Failure}
    {tags' : ClassTags} (hwrite : ClassTags.writeCell cell tags = (.error e, tags')) :
    DataWrite p i s t tags cell (.error e,
      ⟨.paired (.plain p.kind (s.replace i ⟨p.project cell, false⟩)) t, tags'⟩)
  | cause (cause : String) :
    DataWrite p i s t tags (.missing (some cause)) (.ok (),
      ⟨.paired (.plain p.kind (s.replace i ⟨p.kind.default, true⟩))
        (t.replace i ⟨Utf8.encode cause, false⟩), tags⟩)
  | missing :
    DataWrite p i s t tags (.missing none) (.ok (),
      ⟨.paired (.plain p.kind (s.replace i ⟨p.kind.default, true⟩)) (t.replace i ⟨[], true⟩), tags⟩)
  | unmaterialized :
    DataWrite p i s t tags .unmaterialized
      (Outcome.fail (.illegalState .unmaterializedCell), ⟨.paired (.plain p.kind s) t, tags⟩)

namespace PhysicalColumn

/-- Reading slot `i` of a chunk of the column gives the outcome. -/
inductive Holds (tags : ClassTags) (i : Nat) : PhysicalColumn → Chunk → Outcome Cell → Prop
  | key {s : Slots Bytes} (key : String) (missing : Bool)
    (h : s.slots[i]? = some ⟨Utf8.encode key, missing⟩) :
    Holds tags i .rowKey (.plain .rowKey s) (.ok (.string key))
  | data {p : Primitive} {s : Slots p.kind.Value} {t : Slots Bytes} {a : Slot p.kind.Value}
    {b : Slot Bytes} {o : Outcome Cell} (hs : s.slots[i]? = some a) (ht : t.slots[i]? = some b)
    (h : DataSlots p tags a b o) :
    Holds tags i (.data p) (.paired (.plain p.kind s) t) o

/-- What is put into the column comes back as it is: a row key, or a cell whose lengths fit. -/
def Keeps (column : PhysicalColumn) (cell : Cell) : Prop := column = .rowKey ∨ cell.Fits

/-- What is read of a cell that was put into the column. -/
def recovered (column : PhysicalColumn) (serializers : SerializerRegistry) (cell : Cell) :
    Outcome Cell :=
  match column with
  | rowKey => .ok cell
  | data p =>
    if cell.className?.isNone || p.matches? cell then .ok cell else serializers.recode cell

/-- Writing the cell into a fresh slot gives the chunk and hands out no tag. -/
def Settled (column : PhysicalColumn) (tags : ClassTags) (cell : Cell) (c : Chunk) : Prop :=
  column.writeCell 0 cell ⟨column.spec.fresh 1, tags⟩ = (.ok (), ⟨c, tags⟩)

end PhysicalColumn

/-! ## Reading -/

theorem Chunk.getText_of_slot {c : Chunk} {s : Slots Bytes} {i : Nat} {text : String}
    {missing : Bool} (hc : c.primary.byteSlots? = some s)
    (hi : s.slots[i]? = some ⟨Utf8.encode text, missing⟩) : c.getText i = .ok text := by
  have hv := Slots.value_of_getElem? hi
  simp [getText, getBytes, hc, hv]
  rfl

/-- A native value is loaded as the cell it was projected from. -/
theorem Primitive.load_project {p : Primitive} {cell : Cell} (h : p.matches? cell)
    {s : Slots p.kind.Value} (t : Slots Bytes) {i : Nat} {missing : Bool}
    (hi : s.slots[i]? = some ⟨p.project cell, missing⟩) :
    p.load (.paired (.plain p.kind s) t) i = .ok cell := by
  have hv := Slots.value_of_getElem? hi
  cases p with
  | string =>
    cases cell with
    | string v =>
      rw [load, Chunk.getText_of_slot rfl hi]
      rfl
    | _ => cases h
  | int | long | double | boolean =>
    cases cell with
    | int v | long v | double v | boolean v =>
      first
      | cases h; done
      | rw [load]; simp only [Chunk.get, Chunk.primary]; erw [hv]; rfl
    | _ => cases h

theorem DataSlots.mono {p : Primitive} {tags tags' : ClassTags} {a : Slot p.kind.Value}
    {b : Slot Bytes} {o : Outcome Cell} (h : DataSlots p tags a b o) (ht : tags.Extends tags') :
    DataSlots p tags' a b o := by
  cases h with
  | native cell h => exact .native cell h
  | foreign v bytes o h => exact .foreign v bytes o (h.mono ht)
  | cause cause => exact .cause cause
  | missing => exact .missing

namespace PhysicalColumn

variable {tags tags' : ClassTags} {i : Nat} {column : PhysicalColumn} {c : Chunk}
  {o : Outcome Cell}

/-- Handing out more tags changes no cell. -/
theorem Holds.mono (h : column.Holds tags i c o) (ht : tags.Extends tags') :
    column.Holds tags' i c o := by
  cases h with
  | key key missing h => exact .key key missing h
  | data hs hb h => exact .data hs hb (h.mono ht)

/-- **What a slot holds is what is read from it.** -/
theorem Holds.readCell (h : column.Holds tags i c o) : column.readCell tags c i = o := by
  cases h with
  | key key missing h =>
    rw [PhysicalColumn.readCell, Chunk.getText_of_slot rfl h]
    rfl
  | @data p s t a b o hs hb h =>
    have ha := Slots.isMissing_of_getElem? hs
    have hm := Slots.isMissing_of_getElem? hb
    have hv := Slots.value_of_getElem? hb
    simp only [PhysicalColumn.readCell, readData, Chunk.supplement, Chunk.isMissing,
      Outcome.ok_bind, ha, hm, hv]
    cases h with
    | native cell h => exact Primitive.load_project h t hs
    | foreign v bytes o h => exact h.readCell
    | cause cause =>
      simp only [Utf8.decodeLossy_encode]
      rfl
    | missing => rfl

/-- **A slot holds the same in every chunk that has it.** -/
theorem Holds.of_sameSlot {j : Nat} {d : Chunk} (hs : c.SameSlot i j d)
    (h : column.Holds tags j d o) : column.Holds tags i c o := by
  cases h with
  | key key missing h =>
    cases hs with
    | plain hs => exact .key key missing (hs.trans h)
  | data ha hb h =>
    cases hs with
    | paired hs ht =>
      cases hs with
      | plain hs => exact .data (hs.trans ha) (ht.trans hb) h

theorem Holds.getText {key : String} (h : rowKey.Holds tags i c (.ok (.string key))) :
    c.getText i = .ok key := by
  cases h with
  | key key missing h => exact Chunk.getText_of_slot rfl h

end PhysicalColumn

/-! ## Writing -/

theorem Primitive.store_pair (p : Primitive) (cell : Cell) {s : Slots p.kind.Value}
    (t : Slots Bytes) {i : Nat} (hi : i < s.slots.size) :
    p.store (.paired (.plain p.kind s) t) i cell =
      .ok (.paired (.plain p.kind (s.replace i ⟨p.project cell, false⟩)) t) := by
  have hput := Slots.put_eq hi ⟨p.project cell, false⟩
  cases p <;>
    simp only [store, Chunk.setBytes, Chunk.set, Chunk.modifyPrimary, Slots.set, kind] at * <;>
    simp [hput]

namespace WriteTarget

/-- The chunk is one of the column with `n` slots, and the class tags are valid. -/
structure Valid (column : PhysicalColumn) (n : Nat) (t : WriteTarget) : Prop where
  spec_eq : t.chunk.spec = column.spec
  uniform : t.chunk.Uniform n
  tags_valid : t.tags.Valid

/-- What holds after a cell was written to slot `i` of the target `t`, successfully or not. -/
structure Wrote (column : PhysicalColumn) (n i : Nat) (cell : Cell) (t : WriteTarget)
    (r : Outcome Unit × WriteTarget) : Prop where
  returns : r.1.Returns
  valid : r.2.Valid column n
  tags_extends : t.tags.Extends r.2.tags
  tags_unique : t.tags.Unique → r.2.tags.Unique
  holds : r.1 = .ok () →
    column.Holds r.2.tags i r.2.chunk (column.recovered r.2.tags.serializers cell) ∧
      (column.Keeps cell → column.recovered r.2.tags.serializers cell = .ok cell)

theorem wrote_fail {column : PhysicalColumn} {n : Nat} {t : WriteTarget} (ht : t.Valid column n)
    (i : Nat) (cell : Cell) (e : Error) : Wrote column n i cell t (Outcome.fail e, t) where
  returns := trivial
  valid := ht
  tags_extends := .refl _
  tags_unique := id
  holds h := by cases h

end WriteTarget

namespace PhysicalColumn

theorem changeChunk_of_ok {f : Chunk → Outcome Chunk} {t : WriteTarget} {c : Chunk}
    (h : f t.chunk = .ok c) : changeChunk f t = (.ok (), ⟨c, t.tags⟩) := by
  simp [changeChunk, Action.bind_apply, h]

/-- The cells with a class are all written in one of two ways. -/
theorem writeData_value (p : Primitive) (i : Nat) {cell : Cell} (h : cell.className?.isSome) :
    writeData p i cell =
      (if p.matches? cell then do
        changeChunk (p.store · i cell)
        changeChunk (·.modifySupplement (·.clear [] i))
      else do
        changeChunk (p.store · i cell)
        let bytes ← (ClassTags.writeCell cell).on WriteTarget.tags fun tags t =>
          { t with tags := tags }
        changeChunk (·.modifySupplement (·.set i bytes))) := by
  cases cell with
  | missing cause => cases h
  | unmaterialized => cases h
  | _ => rfl

section Pair

variable {p : Primitive} {i : Nat} {tags : ClassTags} {s : Slots p.kind.Value} {t : Slots Bytes}

theorem changeChunk_store (hi : i < s.slots.size) (cell : Cell) :
    changeChunk (p.store · i cell) ⟨.paired (.plain p.kind s) t, tags⟩ =
      (.ok (), ⟨.paired (.plain p.kind (s.replace i ⟨p.project cell, false⟩)) t, tags⟩) :=
  changeChunk_of_ok (p.store_pair cell t hi)

theorem changeChunk_setMissing (hi : i < s.slots.size) :
    changeChunk (·.setMissing i) ⟨.paired (.plain p.kind s) t, tags⟩ =
      (.ok (), ⟨.paired (.plain p.kind (s.replace i ⟨p.kind.default, true⟩)) t, tags⟩) := by
  apply changeChunk_of_ok
  simp [Chunk.setMissing, Slots.clear, Slots.put_eq hi]

theorem changeChunk_set (s : Slots p.kind.Value) (tags : ClassTags) (hi : i < t.slots.size)
    (bytes : Bytes) :
    changeChunk (·.modifySupplement (·.set i bytes)) ⟨.paired (.plain p.kind s) t, tags⟩ =
      (.ok (), ⟨.paired (.plain p.kind s) (t.replace i ⟨bytes, false⟩), tags⟩) := by
  apply changeChunk_of_ok
  simp [Chunk.modifySupplement, Slots.set, Slots.put_eq hi]

theorem changeChunk_clear (s : Slots p.kind.Value) (tags : ClassTags) (hi : i < t.slots.size) :
    changeChunk (·.modifySupplement (·.clear [] i)) ⟨.paired (.plain p.kind s) t, tags⟩ =
      (.ok (), ⟨.paired (.plain p.kind s) (t.replace i ⟨[], true⟩), tags⟩) := by
  apply changeChunk_of_ok
  simp [Chunk.modifySupplement, Slots.clear, Slots.put_eq hi]

/-- **The ways a write goes.** -/
theorem writeData_cases (his : i < s.slots.size) (hit : i < t.slots.size) (tags : ClassTags)
    (cell : Cell) :
    DataWrite p i s t tags cell (writeData p i cell ⟨.paired (.plain p.kind s) t, tags⟩) := by
  -- all cells with a class are written in one of two ways
  have hvalue : cell.className?.isSome →
      DataWrite p i s t tags cell (writeData p i cell ⟨.paired (.plain p.kind s) t, tags⟩) := by
    intro hclass
    rw [writeData_value p i hclass]
    by_cases hm : p.matches? cell
    · rw [if_pos hm, Action.bind_ok (changeChunk_store his cell), changeChunk_clear _ _ hit]
      exact .native hclass hm
    · rw [if_neg hm, Action.bind_ok (changeChunk_store his cell), Action.bind_apply,
        Action.on_apply]
      rcases hwrite : ClassTags.writeCell cell tags with ⟨e | bytes, tags'⟩
      · exact .refused hclass hm hwrite
      · simp only [changeChunk_set _ tags' hit bytes]
        exact .foreign hclass hm hwrite
  cases cell with
  | missing cause =>
    cases cause with
    | none =>
      rw [writeData, Action.bind_ok (changeChunk_setMissing his), changeChunk_clear _ _ hit]
      exact .missing
    | some cause =>
      rw [writeData, Action.bind_ok (changeChunk_setMissing his), changeChunk_set _ _ hit]
      exact .cause cause
  | unmaterialized => exact .unmaterialized
  | _ => exact hvalue rfl

end Pair

end PhysicalColumn

namespace DataWrite

variable {p : Primitive} {i : Nat} {s : Slots p.kind.Value} {t : Slots Bytes} {tags : ClassTags}
  {cell : Cell} {r : Outcome Unit × WriteTarget}

theorem returns (h : DataWrite p i s t tags cell r) : r.1.Returns := by
  cases h with
  | @refused _ _ _ e tags' hwrite =>
    have hreturns := ClassTags.writeCell_returns cell tags
    rw [hwrite] at hreturns
    exact hreturns.error
  | _ => trivial

/-- Only the slot is written to. -/
theorem exists_replace (h : DataWrite p i s t tags cell r) (his : i < s.slots.size)
    (hit : i < t.slots.size) :
    ∃ a b, r.2.chunk = .paired (.plain p.kind (s.replace i a)) (t.replace i b) := by
  cases h with
  | native | foreign | cause | missing => exact ⟨_, _, rfl⟩
  | refused => exact ⟨_, t.slots[i], by rw [t.replace_getElem hit]⟩
  | unmaterialized =>
    exact ⟨s.slots[i], t.slots[i], by rw [s.replace_getElem his, t.replace_getElem hit]⟩

theorem tags_eq (h : DataWrite p i s t tags cell r) :
    r.2.tags = tags ∨ r.2.tags = (ClassTags.writeCell cell tags).2 := by
  cases h with
  | foreign _ _ hwrite | refused _ _ hwrite => exact .inr (congrArg Prod.snd hwrite).symm
  | _ => exact .inl rfl

theorem tags_extends (h : DataWrite p i s t tags cell r) : tags.Extends r.2.tags := by
  obtain heq | heq := h.tags_eq
  · exact heq ▸ .refl tags
  · exact heq ▸ ClassTags.extends_writeCell cell tags

/-- **A cell that was written is held by its slot.** -/
theorem holds (h : DataWrite p i s t tags cell r) (his : i < s.slots.size) (hit : i < t.slots.size)
    (htags : tags.Valid) (hok : r.1 = .ok ()) :
    (PhysicalColumn.data p).Holds r.2.tags i r.2.chunk
        ((PhysicalColumn.data p).recovered r.2.tags.serializers cell) ∧
      (cell.Fits → (PhysicalColumn.data p).recovered r.2.tags.serializers cell = .ok cell) := by
  have hserializers := h.tags_extends.serializers_eq
  have hs := Slots.getElem?_replace_self his
  have ht := Slots.getElem?_replace_self hit
  cases h with
  | native hclass hm =>
    have hrecovered : (PhysicalColumn.data p).recovered tags.serializers cell = .ok cell := by
      simp [PhysicalColumn.recovered, hm]
    exact ⟨hrecovered ▸ .data (hs _) (ht _) (.native cell hm), fun _ => hrecovered⟩
  | foreign hclass hm hwrite =>
    have hnone : cell.className?.isNone = false := by simpa using hclass
    rw [hserializers]
    have hrecovered : (PhysicalColumn.data p).recovered tags.serializers cell =
        tags.serializers.recode cell := by
      simp [PhysicalColumn.recovered, hm, hnone]
    rw [hrecovered]
    exact ⟨.data (hs _) (ht _)
        (.foreign _ _ _ (ClassTags.decodes_of_writeCell htags.length_le hwrite)),
      ClassTags.recode_of_fits hwrite⟩
  | refused | unmaterialized => cases hok
  | cause cause => exact ⟨.data (hs _) (ht _) (.cause cause), fun _ => rfl⟩
  | missing => exact ⟨.data (hs _) (ht _) .missing, fun _ => rfl⟩

theorem wrote {n : Nat} (h : DataWrite p i s t tags cell r) (hs : s.Uniform n) (ht : t.Uniform n)
    (htags : tags.Valid) (hi : i < n) :
    WriteTarget.Wrote (.data p) n i cell ⟨.paired (.plain p.kind s) t, tags⟩ r where
  returns := h.returns
  valid := by
    obtain ⟨a, b, hchunk⟩ := h.exists_replace (hs.size_eq ▸ hi) (ht.size_eq ▸ hi)
    refine ⟨by rw [hchunk]; rfl, hchunk ▸ ⟨hs.replace i a, ht.replace i b⟩, ?_⟩
    obtain heq | heq := h.tags_eq
    · exact heq ▸ htags
    · exact heq ▸ htags.writeCell cell
  tags_extends := h.tags_extends
  tags_unique := by
    intro hunique
    obtain heq | heq := h.tags_eq
    · exact heq ▸ hunique
    · exact heq ▸ ClassTags.Unique.writeCell hunique cell
  holds := by
    intro hok
    obtain ⟨hholds, hfits⟩ := h.holds (hs.size_eq ▸ hi) (ht.size_eq ▸ hi) htags hok
    exact ⟨hholds, fun hkeeps => hfits (hkeeps.resolve_left nofun)⟩

end DataWrite

namespace PhysicalColumn

theorem setText_rowKey {c : Chunk} {n i : Nat} (hspec : c.spec = rowKey.spec) (huni : c.Uniform n)
    (hi : i < n) (key : String) :
    ∃ s : Slots Bytes, s.Uniform n ∧ s.slots[i]? = some ⟨Utf8.encode key, false⟩ ∧
      c.setText i key = .ok (.plain .rowKey s) := by
  obtain ⟨s, rfl⟩ := Chunk.exists_of_spec_plain hspec
  have his : i < s.slots.size := by rwa [Slots.Uniform.size_eq huni]
  refine ⟨s.replace i ⟨Utf8.encode key, false⟩, Slots.Uniform.replace huni i _,
    Slots.getElem?_replace_self his _, ?_⟩
  simp [Chunk.setText, Chunk.setBytes, Chunk.modifyPrimary, Slots.set, Slots.put_eq his]

/-- **Writing a cell** keeps the target valid, and if it succeeds the slot holds the cell. -/
theorem writeCell_wrote {column : PhysicalColumn} {n i : Nat} {t : WriteTarget}
    (ht : t.Valid column n) (hi : i < n) (cell : Cell) :
    t.Wrote column n i cell (column.writeCell i cell t) := by
  obtain ⟨c, tags⟩ := t
  obtain ⟨hspec, huni, htags⟩ := ht
  cases column with
  | rowKey =>
    cases cell with
    | string key =>
      obtain ⟨s, hs, hkey, hput⟩ := setText_rowKey hspec huni hi key
      have hrun : rowKey.writeCell i (.string key) ⟨c, tags⟩ = (.ok (), ⟨.plain .rowKey s, tags⟩) :=
        changeChunk_of_ok (f := (·.setText i key)) hput
      rw [hrun]
      exact ⟨trivial, ⟨rfl, hs, htags⟩, .refl _, id, fun _ => ⟨.key key false hkey, fun _ => rfl⟩⟩
    | _ => exact WriteTarget.wrote_fail ⟨hspec, huni, htags⟩ i _ _
  | data p =>
    obtain ⟨inner, s', rfl, hinner⟩ := Chunk.exists_of_spec_paired hspec
    obtain ⟨s, rfl⟩ := Chunk.exists_of_spec_plain hinner
    have hs : s.Uniform n := huni.1
    have ht : s'.Uniform n := huni.2
    exact (writeData_cases (hs.size_eq ▸ hi) (ht.size_eq ▸ hi) tags cell).wrote hs ht htags hi

/-! ## Writing again -/

theorem changeChunk_eq_ok {f : Chunk → Outcome Chunk} {chunk c : Chunk} {tags tags' : ClassTags} :
    changeChunk f ⟨chunk, tags⟩ = (.ok (), ⟨c, tags'⟩) ↔ f chunk = .ok c ∧ tags' = tags := by
  simp only [changeChunk, Action.bind_apply, Action.get_apply, Action.liftM_apply]
  cases f chunk with
  | error e => simp
  | ok d => simp [eq_comm]

theorem changeChunk_bind_eq_ok {f : Chunk → Outcome Chunk} {m : Unit → Action WriteTarget Unit}
    {chunk : Chunk} {tags : ClassTags} {t : WriteTarget} :
    (changeChunk f >>= m) ⟨chunk, tags⟩ = (.ok (), t) ↔
      ∃ c, f chunk = .ok c ∧ m () ⟨c, tags⟩ = (.ok (), t) := by
  simp only [changeChunk, Action.bind_apply, Action.get_apply, Action.liftM_apply]
  cases f chunk <;> simp

variable {column : PhysicalColumn} {i : Nat} {cell : Cell} {chunk c : Chunk}
  {tags tags' tags'' : ClassTags}

theorem exists_putSupplement {bytes : Bytes}
    (h : chunk.modifySupplement (·.set i bytes) = .ok c) :
    ∃ (inner : Chunk) (s : Slots Bytes), c = .paired inner (s.replace i ⟨bytes, false⟩) ∧
      ∀ bytes', chunk.modifySupplement (·.set i bytes') =
        .ok (.paired inner (s.replace i ⟨bytes', false⟩)) := by
  cases chunk with
  | plain k s => cases h
  | paired inner s =>
    by_cases hi : i < s.slots.size
    · have hput : ∀ bytes', (Chunk.paired inner s).modifySupplement (·.set i bytes') =
          .ok (.paired inner (s.replace i ⟨bytes', false⟩)) := by
        intro bytes'
        simp [Chunk.modifySupplement, Slots.set, Slots.put_eq hi]
      exact ⟨inner, s, Except.ok.inj (h.symm.trans (hput bytes)), hput⟩
    · simp only [Chunk.modifySupplement, Slots.set, Slots.put, hi, dif_neg, not_false_iff] at h
      cases h

/-- The write does not look at the tags, or it puts what they make of the cell into the slot. -/
def TagsInvolved (column : PhysicalColumn) (i : Nat) (cell : Cell) (chunk : Chunk)
    (tags tags' : ClassTags) (c : Chunk) : Prop :=
  (tags' = tags ∧ ∀ t, column.writeCell i cell ⟨chunk, t⟩ = (.ok (), ⟨c, t⟩)) ∨
    ∃ (bytes : Bytes) (inner : Chunk) (s : Slots Bytes),
      ClassTags.writeCell cell tags = (.ok bytes, tags') ∧
      c = .paired inner (s.replace i ⟨bytes, false⟩) ∧ ∀ {t t' : ClassTags} {bytes' : Bytes},
        ClassTags.writeCell cell t = (.ok bytes', t') → column.writeCell i cell ⟨chunk, t⟩ =
          (.ok (), ⟨.paired inner (s.replace i ⟨bytes', false⟩), t'⟩)

theorem writeData_involves {p : Primitive}
    (h : writeData p i cell ⟨chunk, tags⟩ = (.ok (), ⟨c, tags'⟩)) :
    (data p).TagsInvolved i cell chunk tags tags' c := by
  -- two changes of the chunk
  have hchanges : ∀ {f g : Chunk → Outcome Chunk},
      (∀ t, writeData p i cell ⟨chunk, t⟩ =
        (changeChunk f >>= fun _ => changeChunk g) ⟨chunk, t⟩) →
      (data p).TagsInvolved i cell chunk tags tags' c := by
    intro f g hrun
    obtain ⟨c₁, h₁, h₂⟩ := changeChunk_bind_eq_ok.mp ((hrun tags).symm.trans h)
    obtain ⟨hg, rfl⟩ := changeChunk_eq_ok.mp h₂
    refine .inl ⟨rfl, fun t => (hrun t).trans ?_⟩
    exact changeChunk_bind_eq_ok.mpr ⟨c₁, h₁, changeChunk_eq_ok.mpr ⟨hg, rfl⟩⟩
  by_cases hclass : cell.className?.isSome
  · by_cases hm : p.matches? cell
    · exact hchanges fun t => by rw [writeData_value p i hclass, if_pos hm]
    · rw [writeData_value p i hclass, if_neg hm, changeChunk_bind_eq_ok] at h
      obtain ⟨c₁, h₁, h⟩ := h
      rw [Action.bind_apply, Action.on_apply] at h
      cases hw : ClassTags.writeCell cell tags with
      | mk o tags₁ =>
        cases o with
        | error e =>
          rw [hw] at h
          cases h
        | ok bytes =>
          simp only [hw] at h
          obtain ⟨hset, rfl⟩ := changeChunk_eq_ok.mp h
          obtain ⟨inner, s, hput, hall⟩ := exists_putSupplement hset
          refine .inr ⟨bytes, inner, s, hw, hput, fun {t t' bytes'} hw' => ?_⟩
          show writeData p i cell ⟨chunk, t⟩ = _
          rw [writeData_value p i hclass, if_neg hm, changeChunk_bind_eq_ok]
          refine ⟨c₁, h₁, ?_⟩
          rw [Action.bind_apply, Action.on_apply]
          simp only [hw']
          exact changeChunk_eq_ok.mpr ⟨hall bytes', rfl⟩
  · cases cell with
    | missing cause => exact hchanges fun t => rfl
    | unmaterialized => cases h
    | _ => exact absurd rfl hclass

/-- **How the tags are involved** in a write that succeeds. -/
theorem writeCell_involves
    (h : column.writeCell i cell ⟨chunk, tags⟩ = (.ok (), ⟨c, tags'⟩)) :
    column.TagsInvolved i cell chunk tags tags' c := by
  cases column with
  | rowKey =>
    cases cell with
    | string key =>
      obtain ⟨hset, rfl⟩ := changeChunk_eq_ok.mp h
      exact .inl ⟨rfl, fun t => changeChunk_eq_ok.mpr ⟨hset, rfl⟩⟩
    | _ => cases h
  | data p => exact writeData_involves h

/-- **A cell that was written is written again to the same slot**, after any more tags. -/
theorem writeCell_again (h : column.writeCell i cell ⟨chunk, tags⟩ = (.ok (), ⟨c, tags'⟩))
    (hext : tags'.Extends tags'') (hnodup : tags''.classes.Nodup) :
    column.writeCell i cell ⟨chunk, tags''⟩ = (.ok (), ⟨c, tags''⟩) := by
  obtain ⟨-, hsame⟩ | ⟨bytes, inner, s, hw, rfl, hput⟩ := writeCell_involves h
  · exact hsame tags''
  · exact hput (ClassTags.writeCell_again hw hext hnodup)

theorem Settled.mono (h : column.Settled tags cell c) (hext : tags.Extends tags')
    (hnodup : tags'.classes.Nodup) : column.Settled tags' cell c :=
  writeCell_again h hext hnodup

/-- **What a settled slot holds.** -/
theorem Settled.holds (h : column.Settled tags cell c) (htags : tags.Valid) :
    column.Holds tags 0 c (column.recovered tags.serializers cell) ∧
      (column.Keeps cell → column.recovered tags.serializers cell = .ok cell) := by
  have hwrote := writeCell_wrote (i := 0) (t := ⟨column.spec.fresh 1, tags⟩)
    ⟨column.spec.spec_fresh 1, column.spec.uniform_fresh 1, htags⟩ Nat.one_pos cell
  rw [h] at hwrote
  exact hwrote.holds rfl

end PhysicalColumn

end Columnar
