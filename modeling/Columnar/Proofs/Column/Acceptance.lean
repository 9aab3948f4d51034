import Mathlib.Data.Finset.Card
import Columnar.Proofs.Column.Access

/-!
# Which cells are stored

**Foreign cells** (`Primitive.foreignClass?`). A cell that is not of the class of its column is
serialized. For this its class needs a serializer that accepts the cell
(`SerializerRegistry.Accepts`), and a tag.

**Room** (`ClassTags.HasRoom`). The classes with a tag and those that are still to come are no more
than there are tags. Writing a cell takes up the room of its class, whatever comes after it
(`PhysicalColumn.Weighed`), so it can be said beforehand of the cells of a row whether the tags
suffice.

Main result: `PhysicalColumn.writeData_fresh`, what it takes to write a cell into a new slot.
-/

namespace Columnar

/-- The registry has a serializer for the class of the cell, and it accepts the cell. -/
def SerializerRegistry.Accepts (r : SerializerRegistry) (cell : Cell) : Prop :=
  ∃ name s, cell.className? = some name ∧ r.find? name = some s ∧ s.Accepts cell

/-! ## Tags -/

namespace ClassTags

variable {t t' : ClassTags} {cell : Cell} {names : List String}

/-- There are enough tags for the classes of the table and these. -/
def HasRoom (t : ClassTags) (names : List String) : Prop :=
  (t.classes ++ names).dedup.length ≤ limit

instance : Decidable (t.HasRoom names) := inferInstanceAs (Decidable (_ ≤ _))

theorem hasRoom_iff : t.HasRoom names ↔ (t.classes.toFinset ∪ names.toFinset).card ≤ limit := by
  rw [HasRoom, ← List.card_toFinset, List.toFinset_append]

theorem Unique.card_classes (ht : t.Unique) : t.classes.toFinset.card = t.classes.length :=
  List.toFinset_card_of_nodup ht.nodup

theorem Unique.hasRoom_nil (ht : t.Unique) : t.HasRoom [] := by
  rw [hasRoom_iff, List.toFinset_nil, Finset.union_empty, ht.card_classes]
  exact ht.length_le

theorem HasRoom.of_append {more : List String} (h : t.HasRoom (names ++ more)) :
    t.HasRoom names := by
  rw [hasRoom_iff] at h ⊢
  refine (Finset.card_le_card ?_).trans h
  rw [List.toFinset_append]
  exact Finset.union_subset_union_right Finset.subset_union_left

/-- There is room for a class that has a tag, and for another if a tag is left. -/
theorem Unique.hasRoom_singleton (ht : t.Unique) (name : String) :
    t.HasRoom [name] ↔ name ∈ t.classes ∨ t.classes.length ≠ limit := by
  have hle := ht.length_le
  by_cases hmem : name ∈ t.classes
  · have hsub : [name].toFinset ⊆ t.classes.toFinset := by simpa using hmem
    rw [hasRoom_iff, Finset.union_eq_left.mpr hsub, ht.card_classes]
    exact ⟨fun _ => .inl hmem, fun _ => hle⟩
  · have hnodup : (t.classes ++ [name]).Nodup :=
      List.nodup_append.mpr ⟨ht.nodup, List.nodup_singleton name, fun a ha b hb hab =>
        hmem (List.mem_singleton.mp hb ▸ hab ▸ ha)⟩
    rw [HasRoom, hnodup.dedup, List.length_append, List.length_singleton]
    exact ⟨fun h => .inr (by omega), fun h => by have := h.resolve_left hmem; omega⟩

/-- **A cell that is accepted is serialized** if there is room for its class, which has a tag from
then on. -/
theorem writeCell_of_accepts (ht : t.Unique) (haccepts : t.serializers.Accepts cell)
    (hroom : t.HasRoom cell.className?.toList) :
    ∃ bs t', writeCell cell t = (.ok bs, t') ∧
      t'.classes.toFinset = t.classes.toFinset ∪ cell.className?.toList.toFinset := by
  obtain ⟨name, s, hname, hs, haccepts⟩ := haccepts
  obtain ⟨payload, hp⟩ := Serializer.serialize_of_accepts haccepts
  rw [hname, Option.toList_some] at hroom ⊢
  by_cases hmem : name ∈ t.classes
  · obtain ⟨i, hi⟩ := List.getElem?_of_mem hmem
    refine ⟨_, t, writeCell_of_find? hname hs (find?_of_nodup ht.nodup hi) hp, ?_⟩
    rw [Finset.union_eq_left.mpr (by simpa using hmem)]
  · have hlen := ((ht.hasRoom_singleton name).mp hroom).resolve_left hmem
    have hwrite := writeCell_apply cell t
    simp only [serializerFor_of_not_mem hname hs hmem hlen, hp, Outcome.map_ok] at hwrite
    exact ⟨_, _, hwrite, by rw [ClassTags.withClass, List.toFinset_append]⟩

/-- **A cell that is serialized is accepted**, and there was room for its class. -/
theorem accepts_of_writeCell (ht : t.Unique) {bs : Bytes}
    (h : writeCell cell t = (.ok bs, t')) :
    t.serializers.Accepts cell ∧ t.HasRoom cell.className?.toList := by
  have hunique := ht.writeCell cell
  have hext := extends_writeCell cell t
  rw [h] at hunique hext
  obtain ⟨name, s, i, payload, hname, hs, hi, -, hp, -⟩ := writeCell_eq_ok h
  refine ⟨⟨name, s, hname, hs, Serializer.accepts_of_serialize hp⟩, ?_⟩
  -- all these classes have tags in the end
  rw [hname, Option.toList_some, hasRoom_iff]
  refine (Finset.card_le_card (Finset.union_subset ?_ ?_)).trans
    (hunique.card_classes.le.trans hunique.length_le)
  · exact fun n hn => List.mem_toFinset.mpr (hext.isPrefix.subset (List.mem_toFinset.mp hn))
  · simpa using List.mem_of_getElem? (getElem?_of_find? hi)

end ClassTags

/-! ## Columns -/

namespace Primitive

/-- The class that a cell is serialized under, none if it is stored without. -/
def foreignClass? (p : Primitive) (cell : Cell) : Option String :=
  if p.matches? cell then none else cell.className?

/-- Whether a column can store a cell, but for the tags: it must have been materialized, and if it
is foreign its class needs a serializer that accepts it. -/
structure Takes (p : Primitive) (r : SerializerRegistry) (cell : Cell) : Prop where
  materialized : cell ≠ .unmaterialized
  accepted : (p.foreignClass? cell).isSome → r.Accepts cell

theorem takes_of_eq_none {p : Primitive} {cell : Cell} (hcell : cell ≠ .unmaterialized)
    (h : p.foreignClass? cell = none) (r : SerializerRegistry) : p.Takes r cell :=
  ⟨hcell, fun hsome => by rw [h] at hsome; cases hsome⟩

end Primitive

namespace PhysicalColumn

/-- What writing a cell of a row comes to, and how much room it takes up. -/
structure Weighed (p : Primitive) (tags : ClassTags) (cell : Cell)
    (r : Outcome Unit × WriteTarget) : Prop where
  ok_iff : r.1 = .ok () ↔
    p.Takes tags.serializers cell ∧ tags.HasRoom (p.foreignClass? cell).toList
  room : r.1 = .ok () → ∀ names,
    r.2.tags.HasRoom names ↔ tags.HasRoom ((p.foreignClass? cell).toList ++ names)

theorem weighed_of_eq_none {p : Primitive} {tags : ClassTags} (ht : tags.Unique) {cell : Cell}
    (hcell : cell ≠ .unmaterialized) (h : p.foreignClass? cell = none) (chunk : Chunk) :
    Weighed p tags cell (.ok (), ⟨chunk, tags⟩) where
  ok_iff := by
    rw [h, Option.toList_none]
    exact ⟨fun _ => ⟨Primitive.takes_of_eq_none hcell h _, ht.hasRoom_nil⟩, fun _ => rfl⟩
  room _ names := by rw [h, Option.toList_none, List.nil_append]

end PhysicalColumn

theorem DataWrite.weighed {p : Primitive} {i : Nat} {s : Slots p.kind.Value} {t : Slots Bytes}
    {tags : ClassTags} {cell : Cell} {r : Outcome Unit × WriteTarget} (ht : tags.Unique)
    (h : DataWrite p i s t tags cell r) : PhysicalColumn.Weighed p tags cell r := by
  cases h with
  | native hclass hm =>
    refine PhysicalColumn.weighed_of_eq_none ht ?_ (if_pos hm) _
    rintro rfl
    cases hclass
  | @foreign _ hclass hm bytes tags' hwrite =>
    have hforeign : p.foreignClass? cell = cell.className? := if_neg hm
    -- what was serialized was accepted, and would be so again
    obtain ⟨haccepts, hroom⟩ := ClassTags.accepts_of_writeCell ht hwrite
    obtain ⟨bs, t', hwrite', hclasses⟩ := ClassTags.writeCell_of_accepts ht haccepts hroom
    rw [hwrite] at hwrite'
    cases hwrite'
    refine ⟨?_, fun _ names => ?_⟩
    · rw [hforeign]
      refine ⟨fun _ => ⟨⟨?_, fun _ => haccepts⟩, hroom⟩, fun _ => rfl⟩
      rintro rfl
      cases hclass
    · rw [hforeign, ClassTags.hasRoom_iff, ClassTags.hasRoom_iff, hclasses, List.toFinset_append,
        Finset.union_assoc]
  | @refused _ hclass hm e tags' hwrite =>
    have hforeign : p.foreignClass? cell = cell.className? := if_neg hm
    refine ⟨⟨fun h => (by cases h), ?_⟩, fun h => by cases h⟩
    rintro ⟨htakes, hroom⟩
    rw [hforeign] at hroom
    obtain ⟨bs, t', hwrite', -⟩ :=
      ClassTags.writeCell_of_accepts ht (htakes.accepted (hforeign ▸ hclass)) hroom
    rw [hwrite] at hwrite'
    cases hwrite'
  | cause cause => exact PhysicalColumn.weighed_of_eq_none ht (by nofun) (by cases p <;> rfl) _
  | missing => exact PhysicalColumn.weighed_of_eq_none ht (by nofun) (by cases p <;> rfl) _
  | unmaterialized =>
    exact ⟨⟨fun h => (by cases h), fun h => absurd rfl h.1.materialized⟩, fun h => by cases h⟩

/-- **What it takes to write a cell into a new slot** of a data column. -/
theorem PhysicalColumn.writeData_fresh (p : Primitive) {tags : ClassTags} (ht : tags.Unique)
    (cell : Cell) :
    Weighed p tags cell ((data p).writeCell 0 cell ⟨(data p).spec.fresh 1, tags⟩) := by
  have hs : 0 < (Slots.fresh p.kind.default 1).slots.size :=
    (Slots.uniform_fresh p.kind.default 1).size_eq ▸ Nat.one_pos
  have hb : 0 < (Slots.fresh ([] : Bytes) 1).slots.size :=
    (Slots.uniform_fresh ([] : Bytes) 1).size_eq ▸ Nat.one_pos
  exact (writeData_cases hs hb tags cell).weighed ht

end Columnar
