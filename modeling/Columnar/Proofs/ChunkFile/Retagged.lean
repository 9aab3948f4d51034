import Columnar.ChunkFile
import Columnar.Proofs.Block.Basic
import Columnar.Proofs.Cursor.Stored

/-!
# Batches with other tags

Two tables may have the same cells and other tags for their classes. What they store differs in
those tags and nowhere else.

**From a cell to batches.** The relation is that of serialized cells (`ClassTags.Retagged`), which
is lifted to slots, chunks and batches. A cell that settles a slot under both tags leaves slots that
are related (`Settled.retagged`), so rows of the same cells are (`Settles.retagged`), and so are the
batches they make up (`Batch.retagged_ofRows`).

**In a chunk file.** A tag is one byte long wherever it stands. So related batches are encoded with
the same success, to files of the same length in which every block lies in the same place
(`ChunkFile.encode_retagged`). Files that end early are of the same length as well
(`ChunkFile.written_retagged`).
-/

namespace Columnar

/-! ## Cells, slots and chunks -/

/-- The same payload behind the tags that a class has in the one table and in the other. -/
inductive ClassTags.Retagged (t t' : ClassTags) : Bytes → Bytes → Prop
  | intro {name : String} {i j : Nat} (hi : t.find? name = some i) (hj : t'.find? name = some j)
    (payload : Bytes) :
    Retagged t t' ((StreamValue.i8 (tagAt i)).write ++ payload)
      ((StreamValue.i8 (tagAt j)).write ++ payload)

/-- The same slot but for the tag of a serialized cell. -/
structure Slot.Retagged (t t' : ClassTags) (a b : Slot Bytes) : Prop where
  missing_eq : b.missing = a.missing
  value : b.value = a.value ∨ t.Retagged t' a.value b.value

/-- The same chunk but for the tags of the cells in its supplement. -/
inductive Chunk.Retagged (t t' : ClassTags) : Chunk → Chunk → Prop
  | same (c : Chunk) : Retagged t t' c c
  | supplement (inner : Chunk) {s s' : Slots Bytes}
    (hslots : List.Forall₂ (Slot.Retagged t t') s.slots.toList s'.slots.toList)
    (hpadding : s'.padding = s.padding) : Retagged t t' (.paired inner s) (.paired inner s')

/-- The same batch but for the tags of its cells. -/
structure Batch.Retagged (t t' : ClassTags) (b b' : Batch) : Prop where
  rowCount_eq : b'.rowCount = b.rowCount
  chunks : List.Forall₂ (Chunk.Retagged t t') b.chunks b'.chunks

variable {t t' : ClassTags}

/-- **A cell that both tables can write** is written with the tag of its class in each. -/
theorem ClassTags.retagged_of_writeCell {cell : Cell} {bs bs' : Bytes}
    (hserializers : t'.serializers = t.serializers) (h : writeCell cell t = (.ok bs, t))
    (h' : writeCell cell t' = (.ok bs', t')) : t.Retagged t' bs bs' := by
  obtain ⟨name, s, i, payload, hname, hs, hi, -, hp, rfl⟩ := writeCell_eq_ok h
  obtain ⟨name', s', j, payload', hname', hs', hj, -, hp', rfl⟩ := writeCell_eq_ok h'
  rw [hname] at hname'
  cases hname'
  rw [hserializers, hs] at hs'
  cases hs'
  rw [hp] at hp'
  cases hp'
  exact .intro hi hj payload

theorem ClassTags.Retagged.length_eq {bs bs' : Bytes} (h : t.Retagged t' bs bs') :
    bs'.length = bs.length := by
  cases h
  simp [StreamValue.write]

theorem Slot.Retagged.refl (a : Slot Bytes) : a.Retagged t t' a := ⟨rfl, .inl rfl⟩

theorem Slot.Retagged.length_eq {a b : Slot Bytes} (h : a.Retagged t t' b) :
    b.value.length = a.value.length := by
  obtain heq | hvalue := h.value
  · rw [heq]
  · exact hvalue.length_eq

section

variable {α β γ : Type} {R : α → β → Prop} {l : List α} {m : List β}

theorem forall₂_set (h : List.Forall₂ R l m) (i : Nat) {a : α} {b : β} (hab : R a b) :
    List.Forall₂ R (l.set i a) (m.set i b) := by
  induction h generalizing i with
  | nil => exact .nil
  | cons hhead htail ih =>
    cases i with
    | zero => exact .cons hab htail
    | succ i => exact .cons hhead (ih i)

theorem rel_getElem? (h : List.Forall₂ R l m) (i : Nat) : Option.Rel R l[i]? m[i]? := by
  induction h generalizing i with
  | nil => exact .none
  | cons hhead _ ih =>
    cases i with
    | zero => exact .some hhead
    | succ i => exact ih i

theorem map_eq_of_forall₂ {f : α → γ} {g : β → γ} (h : List.Forall₂ R l m)
    (hfg : ∀ {a b}, R a b → g b = f a) : m.map g = l.map f := by
  induction h with
  | nil => rfl
  | cons hhead _ ih => rw [List.map_cons, List.map_cons, hfg hhead, ih]

end

theorem Slot.retagged_refl (slots : List (Slot Bytes)) :
    List.Forall₂ (Slot.Retagged t t') slots slots :=
  List.forall₂_same.mpr fun a _ => .refl a

/-- **The slots that a cell settles** under the tags of both tables. -/
theorem PhysicalColumn.Settled.retagged {column : PhysicalColumn} {cell : Cell} {c c' : Chunk}
    (hserializers : t'.serializers = t.serializers) (h : column.Settled t cell c)
    (h' : column.Settled t' cell c') : c.Retagged t t' c' := by
  obtain ⟨-, hsame⟩ | ⟨bytes, inner, s, hw, rfl, hput⟩ := writeCell_involves h
  · rw [Settled, hsame t'] at h'
    cases h'
    exact .same c
  · obtain ⟨-, hsame⟩ | ⟨bytes', inner', s', hw', -, -⟩ := writeCell_involves h'
    · have heq := (hsame t).symm.trans h
      cases heq
      exact .same _
    · have heq := (hput hw').symm.trans h'
      cases heq
      have hvalue := ClassTags.retagged_of_writeCell hserializers hw hw'
      refine .supplement inner ?_ rfl
      simp only [Slots.replace, Array.toList_setIfInBounds]
      exact forall₂_set (Slot.retagged_refl _) 0 ⟨rfl, .inr hvalue⟩

/-! ## Rows and batches -/

/-- **Rows of the same cells.** -/
theorem Schema.Settles.retagged {schema : Schema} {cells : RowOutcomes} {row row' : List Chunk}
    (hserializers : t'.serializers = t.serializers) (h : schema.Settles t row cells)
    (h' : schema.Settles t' row' cells) : List.Forall₂ (Chunk.Retagged t t') row row' :=
  h.forall₂ h' fun hsettled hsettled' => hsettled.retagged hserializers hsettled'

namespace Chunk.Retagged

variable {c c' : Chunk}

theorem primary_eq (h : c.Retagged t t' c') : c'.primary = c.primary := by
  cases h <;> rfl

theorem slotsOf_eq (h : c.Retagged t t' c') (k : Kind) : c'.slotsOf k = c.slotsOf k := by
  cases h <;> rfl

theorem supplementSlots (h : c.Retagged t t' c') :
    List.Forall₂ (Slot.Retagged t t') c.supplementSlots c'.supplementSlots := by
  cases h with
  | same c => exact Slot.retagged_refl _
  | supplement inner hslots hpadding => exact hslots

/-- **Chunks that are joined.** -/
theorem join (spec : ChunkSpec) {cs cs' : List Chunk}
    (h : List.Forall₂ (Chunk.Retagged t t') cs cs') :
    (spec.join cs).Retagged t t' (spec.join cs') := by
  cases spec with
  | plain k =>
    have hslots : cs'.flatMap (·.slotsOf k) = cs.flatMap (·.slotsOf k) := by
      rw [List.flatMap_def, List.flatMap_def, map_eq_of_forall₂ h fun hc => hc.slotsOf_eq k]
    rw [ChunkSpec.join, ChunkSpec.join, hslots]
    exact .same _
  | paired inner =>
    have hprimary : cs'.map Chunk.primary = cs.map Chunk.primary :=
      map_eq_of_forall₂ h fun hc => hc.primary_eq
    have hslots : List.Forall₂ (Slot.Retagged t t') (cs.flatMap Chunk.supplementSlots)
        (cs'.flatMap Chunk.supplementSlots) :=
      List.rel_flatMap h fun _ _ hc => hc.supplementSlots
    rw [ChunkSpec.join, ChunkSpec.join, hprimary]
    refine .supplement _ hslots ?_
    rw [Slots.ofList, Slots.ofList, hslots.length_eq]

end Chunk.Retagged

/-- **Batches of rows** that are related row by row. -/
theorem Batch.retagged_ofRows (specs : List ChunkSpec) {rows rows' : List (List Chunk)}
    (h : List.Forall₂ (List.Forall₂ (Chunk.Retagged t t')) rows rows') :
    (Batch.ofRows specs rows).Retagged t t' (Batch.ofRows specs rows') where
  rowCount_eq := h.length_eq.symm
  chunks := by
    have hcolumn : ∀ j : Nat, List.Forall₂ (Chunk.Retagged t t') (rows.filterMap (·[j]?))
        (rows'.filterMap (·[j]?)) :=
      fun j => List.rel_filterMap (fun _ _ hrow => rel_getElem? hrow j) h
    refine List.forall₂_iff_get.mpr ⟨by simp [Batch.ofRows], fun j hj hj' => ?_⟩
    simp only [Batch.ofRows, List.get_eq_getElem, List.getElem_mapIdx]
    exact .join _ (hcolumn j)

/-! ## Chunk files -/

/-- The byte strings are of the same length. -/
def Bytes.SameLength (bs bs' : Bytes) : Prop := bs'.length = bs.length

theorem Bytes.SameLength.eq {bs bs' : Bytes} (h : bs.SameLength bs') : bs'.length = bs.length := h

namespace Slots

theorem endOffsets_congr {values values' : List Bytes}
    (h : List.Forall₂ Bytes.SameLength values values') (start : Nat) :
    endOffsets start values' = endOffsets start values := by
  induction h generalizing start with
  | nil => rfl
  | cons hv _ ih => rw [endOffsets, endOffsets, hv, ih]

theorem length_flatten_congr {values values' : List Bytes}
    (h : List.Forall₂ Bytes.SameLength values values') :
    values'.flatten.length = values.flatten.length := by
  induction h with
  | nil => rfl
  | cons hv _ ih => rw [List.flatten_cons, List.flatten_cons, List.length_append,
      List.length_append, hv, ih]

/-- **Byte strings of the same lengths** with the same flags. -/
theorem encodeBytes_sameLength {s s' : Slots Bytes}
    (h : List.Forall₂ (Slot.Retagged t t') s.slots.toList s'.slots.toList)
    (hpadding : s'.padding = s.padding) :
    Outcome.Related Bytes.SameLength s.encodeBytes s'.encodeBytes := by
  have hvalues : List.Forall₂ Bytes.SameLength s.values s'.values := by
    rw [values, values, List.forall₂_map_left_iff, List.forall₂_map_right_iff]
    exact h.imp fun _ _ hslot => hslot.length_eq
  have hflags : s'.encodeFlags = s.encodeFlags := by
    have hmissing : s'.flags = s.flags := map_eq_of_forall₂ h fun hslot => hslot.missing_eq
    rw [encodeFlags, encodeFlags, hmissing, hpadding]
  rw [encodeBytes, encodeBytes, endOffsets_congr hvalues]
  refine Outcome.related_same_bind _ fun offsets => .ok ?_
  simp only [Bytes.SameLength, List.length_append, length_flatten_congr hvalues, hflags]

end Slots

namespace Chunk.Retagged

variable {c c' : Chunk}

theorem encodeData (h : c.Retagged t t' c') :
    Outcome.Related Bytes.SameLength c.encodeData c'.encodeData := by
  cases h with
  | same c => exact Outcome.related_refl (R := Bytes.SameLength) (fun _ => rfl) c.encodeData
  | @supplement inner s s' hslots hpadding =>
    rw [Chunk.encodeData, Chunk.encodeData]
    refine Outcome.related_same_bind _ fun data => ?_
    split
    · refine (Slots.encodeBytes_sameLength hslots hpadding).bind fun {bs bs'} hbs => .ok ?_
      simp only [Bytes.SameLength, List.length_append, hbs.eq]
    · exact .error _

/-- **Blocks of the same length.** -/
theorem encodeBlock (h : c.Retagged t t' c') (type : ChecksumType) :
    Outcome.Related Bytes.SameLength (c.encodeBlock type) (c'.encodeBlock type) := by
  rw [Chunk.encodeBlock, Chunk.encodeBlock]
  refine h.encodeData.bind fun {data data'} hdata => .ok ?_
  simp only [Bytes.SameLength, List.length_append, Chunk.length_encodeTrailer, hdata.eq]

end Chunk.Retagged

namespace ChunkFile

/-- As many bytes, and the same entries of the index. -/
def SameLayout {α : Type} (p p' : Bytes × List α) : Prop :=
  p.1.SameLength p'.1 ∧ p'.2 = p.2

theorem layOutChunks_retagged (type : ChecksumType) {cs cs' : List Chunk}
    (h : List.Forall₂ (Chunk.Retagged t t') cs cs') (offset : Nat) :
    Outcome.Related SameLayout (layOutChunks type offset cs) (layOutChunks type offset cs') := by
  induction h generalizing offset with
  | nil => exact .ok ⟨rfl, rfl⟩
  | cons hc _ ih =>
    rw [layOutChunks, layOutChunks]
    refine (hc.encodeBlock type).bind fun {block block'} hblock => ?_
    rw [hblock.eq]
    refine (ih _).bind fun {p p'} hp => .ok ⟨?_, ?_⟩
    · simp only [Bytes.SameLength, List.length_append, hblock.eq, hp.1.eq]
    · simp only [hp.2]

theorem layOut_retagged (type : ChecksumType) {bs bs' : List Batch}
    (h : List.Forall₂ (Batch.Retagged t t') bs bs') (offset : Nat) :
    Outcome.Related SameLayout (layOut type offset bs) (layOut type offset bs') := by
  induction h generalizing offset with
  | nil => exact .ok ⟨rfl, rfl⟩
  | cons hb _ ih =>
    rw [layOut, layOut]
    refine (layOutChunks_retagged type hb.chunks offset).bind fun {p p'} hp => ?_
    obtain ⟨blocks, ranges⟩ := p
    obtain ⟨blocks', ranges'⟩ := p'
    obtain ⟨hblocks, rfl⟩ := hp
    simp only [hblocks.eq, hb.rowCount_eq]
    refine (ih _).bind fun {q q'} hq => .ok ⟨?_, ?_⟩
    · simp only [Bytes.SameLength, List.length_append, hblocks.eq, hq.1.eq]
    · simp only [hq.2]

/-- **Batches that differ in tags** are encoded with the same success, to as many bytes. -/
theorem encode_retagged (specs : List ChunkSpec) (type : ChecksumType) {bs bs' : List Batch}
    (h : List.Forall₂ (Batch.Retagged t t') bs bs') :
    Outcome.Related Bytes.SameLength (encode specs type bs) (encode specs type bs') := by
  rw [encode, encode]
  refine (layOut_retagged type h headerSize).bind fun {p p'} hp => .ok ?_
  obtain ⟨blocks, index⟩ := p
  obtain ⟨blocks', index'⟩ := p'
  obtain ⟨hblocks, rfl⟩ := hp
  simp only [Bytes.SameLength, List.length_append, hblocks.eq]

theorem blocksBefore_retagged (type : ChecksumType) {cs cs' : List Chunk}
    (h : List.Forall₂ (Chunk.Retagged t t') cs cs') :
    (blocksBefore type cs).SameLength (blocksBefore type cs') := by
  induction h with
  | nil => rfl
  | @cons c c' cs cs' hc _ ih =>
    have hblock := hc.encodeBlock type
    rw [blocksBefore, blocksBefore]
    generalize c.encodeBlock type = o at hblock
    generalize c'.encodeBlock type = o' at hblock
    cases hblock with
    | error e => rfl
    | ok hlength => simp only [Bytes.SameLength, List.length_append, hlength.eq, ih.eq]

/-- **What is written of batches that differ in tags** is of the same length, all of it or not. -/
theorem written_retagged (specs : List ChunkSpec) (type : ChecksumType) {bs bs' : List Batch}
    (h : List.Forall₂ (Batch.Retagged t t') bs bs') :
    (written specs type bs).SameLength (written specs type bs') := by
  have hdata := encode_retagged specs type h
  rw [written, written]
  generalize encode specs type bs = o at hdata
  generalize encode specs type bs' = o' at hdata
  cases hdata with
  | ok hlength => exact hlength
  | error e =>
    have hblocks := blocksBefore_retagged type (List.rel_flatMap h fun _ _ hb => hb.chunks)
    simp only [Bytes.SameLength, List.length_append, hblocks.eq]

end ChunkFile

end Columnar
