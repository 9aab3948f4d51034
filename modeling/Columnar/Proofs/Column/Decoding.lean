import Columnar.Column.Access
import Columnar.Proofs.Action
import Columnar.Proofs.Chunk.Uniform
import Columnar.Proofs.Payload.Stream

/-!
# Reading any cell

Of the slots of a uniform chunk everything can be asked, of whatever spec the chunk is: what does
not fit its spec is an error. Serialized bytes are taken apart with a look at how many are left, so
any bytes lead to a cell or to an error (`ClassTags.readCell_returns`).

Main result: `PhysicalColumn.readCell_returns`. In a column of any kind every slot of a uniform
chunk is read as a cell or as an error, whatever the slots hold.
-/

namespace Columnar

open Outcome (Returns)

/-! ## Payloads -/

theorem Serializer.deserialize_returns (s : Serializer) : s.deserialize.Returns := by
  cases s with
  | builtin p =>
    cases p with
    | int | long | double | boolean =>
      exact (StreamValue.reader_readFixed _).returns.bind fun _ => Action.returns_pure _
    | string => exact StreamValue.reader_readText.returns.bind fun _ => Action.returns_pure _
  | extension name =>
    have hrest : ∀ numeric, Action.Returns (do
        let payload ← StreamValue.readBytes
        return Cell.extension ⟨name, numeric, payload⟩) := fun numeric =>
      StreamValue.reader_readBytes.returns.bind fun _ => Action.returns_pure _
    refine (StreamValue.reader_readFixed Bool).returns.bind fun hasNumeric => ?_
    split
    · exact ((StreamValue.reader_readFixed Double).returns.map some).bind hrest
    · exact hrest none

namespace ClassTags

theorem serializerOf_returns (t : ClassTags) (tag : Int8) : (t.serializerOf tag).Returns :=
  (Outcome.returns_ofOption _ _).bind fun _ => Outcome.returns_ofOption _ _

/-- **Any bytes** are decoded into a cell or into an error. -/
theorem readCell_returns (t : ClassTags) (bs : Bytes) : (t.readCell bs).Returns := by
  have haction : Action.Returns (do
      let tag ← StreamValue.readU8
      (← t.serializerOf tag.toInt8).deserialize) := by
    refine StreamValue.reader_readU8.returns.bind fun tag => ?_
    exact Action.Returns.bind (fun _ => t.serializerOf_returns _) Serializer.deserialize_returns
  exact haction bs

end ClassTags

/-! ## Slots -/

namespace Slots

variable {α : Type} {s : Slots α} {n i : Nat}

theorem Uniform.value_returns (h : s.Uniform n) (hi : i < n) : (s.value i).Returns := by
  rw [value_of_getElem? (Array.getElem?_eq_getElem (h.size_eq.symm ▸ hi))]
  trivial

theorem Uniform.isMissing_returns (h : s.Uniform n) (hi : i < n) : (s.isMissing i).Returns := by
  rw [isMissing_of_getElem? (Array.getElem?_eq_getElem (h.size_eq.symm ▸ hi))]
  trivial

end Slots

namespace Chunk

variable {c : Chunk} {n i : Nat}

theorem Uniform.primary (h : c.Uniform n) : c.primary.Uniform n := by
  cases c with
  | plain k s => exact h
  | paired inner s => exact h.1

theorem Uniform.supplement (h : c.Uniform n) : c.supplement.Meets (Slots.Uniform n) := by
  cases c with
  | plain k s => trivial
  | paired inner s => exact h.2

theorem Uniform.isMissing_returns (h : c.Uniform n) (hi : i < n) : (c.isMissing i).Returns := by
  induction c with
  | plain k s => exact Slots.Uniform.isMissing_returns h hi
  | paired inner s ih => exact ih h.1

theorem Uniform.get_returns (h : c.Uniform n) (hi : i < n) (k : Kind) : (c.get k i).Returns := by
  have hprimary := h.primary
  unfold get
  cases hc : c.primary with
  | paired inner s => trivial
  | plain k' s =>
    rw [hc] at hprimary
    dsimp only
    split
    · rename_i hk
      subst hk
      exact Slots.Uniform.value_returns hprimary hi
    · trivial

theorem Uniform.byteSlots? (h : c.Uniform n) {s : Slots Bytes} (hs : c.byteSlots? = some s) :
    s.Uniform n := by
  cases c with
  | paired inner t => cases hs
  | plain k t =>
    cases k with
    | int | long | double | boolean => cases hs
    | string | rowKey | binary =>
      cases hs
      exact h

theorem Uniform.getText_returns (h : c.Uniform n) (hi : i < n) : (c.getText i).Returns := by
  have hbytes : (c.getBytes i).Returns := by
    unfold getBytes
    cases hs : c.primary.byteSlots? with
    | none => trivial
    | some s => exact (h.primary.byteSlots? hs).value_returns hi
  refine hbytes.bind fun bs => ?_
  cases Utf8.decode bs <;> trivial

end Chunk

theorem Primitive.load_returns (p : Primitive) {c : Chunk} {n i : Nat} (h : c.Uniform n)
    (hi : i < n) : (p.load c i).Returns := by
  cases p with
  | int | long | double | boolean => exact (h.get_returns hi _).bind fun _ => trivial
  | string => exact (h.getText_returns hi).bind fun _ => trivial

namespace PhysicalColumn

/-- **Every slot of a uniform chunk** is read as a cell or as an error. -/
theorem readCell_returns (column : PhysicalColumn) (tags : ClassTags) {c : Chunk} {n i : Nat}
    (h : c.Uniform n) (hi : i < n) : (column.readCell tags c i).Returns := by
  cases column with
  | rowKey => exact (h.getText_returns hi).bind fun _ => trivial
  | data p =>
    refine h.supplement.returns_bind fun s hs => ?_
    refine (h.isMissing_returns hi).bind fun missing => ?_
    refine (hs.isMissing_returns hi).bind fun nothing => ?_
    -- the value, the serialized cell, the cause, or nothing
    cases missing <;> cases nothing
    · exact (hs.value_returns hi).bind fun bs => tags.readCell_returns bs
    · exact p.load_returns h hi
    · exact (hs.value_returns hi).bind fun _ => trivial
    · trivial

end PhysicalColumn

end Columnar
