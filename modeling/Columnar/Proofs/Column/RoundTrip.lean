import Columnar.Proofs.Column.Access
import Columnar.Proofs.Table.TagRuns

/-!
# A cell is written and read back

Main result: `readCell_of_writeCell`. Whatever a slot of a data column held before, a cell that is
written there is read back, at once and after any later calls on the class tags, and the missing
flag of the inner chunk and its value are what they have to be. No other slot is touched, however
the write ends.
-/

namespace Columnar

theorem Chunk.get_pair (k : Kind) (s : Slots k.Value) (t : Slots Bytes) (i : Nat) :
    (paired (plain k s) t).get k i = s.value i := by
  simp [get, primary]

namespace DataWrite

variable {p : Primitive} {i : Nat} {s : Slots p.kind.Value} {t : Slots Bytes} {tags : ClassTags}
  {cell : Cell} {r : Outcome Unit × WriteTarget}

/-- A write fails only on a cell that has no value, or one that cannot be serialized. -/
theorem fst_eq_ok_iff (h : DataWrite p i s t tags cell r) :
    r.1 = .ok () ↔ cell ≠ .unmaterialized ∧ (cell.className?.isSome → ¬ p.matches? cell →
      ∃ bytes tags', ClassTags.writeCell cell tags = (.ok bytes, tags')) := by
  have hvalue : cell.className?.isSome → cell ≠ .unmaterialized := by
    rintro hclass rfl
    cases hclass
  cases h with
  | native hclass hm =>
    exact iff_of_true rfl ⟨hvalue hclass, fun _ hforeign => absurd hm hforeign⟩
  | foreign hclass hm hwrite =>
    exact iff_of_true rfl ⟨hvalue hclass, fun _ _ => ⟨_, _, hwrite⟩⟩
  | refused hclass hm hwrite =>
    refine iff_of_false nofun fun ⟨_, hserialized⟩ => ?_
    obtain ⟨bytes, tags', hok⟩ := hserialized hclass hm
    rw [hwrite] at hok
    cases hok
  | cause | missing => exact iff_of_true rfl ⟨nofun, nofun⟩
  | unmaterialized => exact iff_of_false nofun fun h => h.1 rfl

theorem isMissing (h : DataWrite p i s t tags cell r) (his : i < s.slots.size)
    (hok : r.1 = .ok ()) : r.2.chunk.isMissing i = .ok cell.isMissing := by
  have hs : ∀ a, (s.replace i a).isMissing i = .ok a.missing := fun a =>
    Slots.isMissing_of_getElem? (Slots.getElem?_replace_self his a)
  cases h with
  | native hclass | foreign hclass =>
    have hvalue : cell.isMissing = false := by
      cases cell with
      | missing cause => cases hclass
      | _ => rfl
    rw [hvalue]
    exact hs _
  | cause | missing => exact hs _
  | refused | unmaterialized => cases hok

/-- The value of the slot is the projection of the cell, if it has one. -/
theorem get (h : DataWrite p i s t tags cell r) (his : i < s.slots.size) (hok : r.1 = .ok ())
    (hclass : cell.className?.isSome) : r.2.chunk.get p.kind i = .ok (p.project cell) := by
  cases h with
  | native | foreign =>
    rw [Chunk.get_pair]
    exact Slots.value_of_getElem? (Slots.getElem?_replace_self his _)
  | cause | missing => cases hclass
  | refused | unmaterialized => cases hok

end DataWrite

namespace PhysicalColumn

/-- **A cell is written and read back.** Let the slot be one of a chunk of the data column with any
contents, and the class tags be those after some calls.

- Writing returns. It fails only on an unmaterialized cell, which changes nothing, and on a cell of
  another class that the class tags do not serialize.
- If it succeeds and the lengths in the cell fit, the cell is read, now and after later calls.
- If it succeeds, the inner chunk misses the slot just if the cell is missing. It has the projection
  of any other cell.
- However it ends, no other slot has changed, nor the padding. -/
theorem readCell_of_writeCell {registry : SerializerRegistry} {start : ClassTags}
    (hstart : ClassTags.Start registry start) (calls : List ClassTags.Call) {p : Primitive}
    {s : Slots p.kind.Value} {t : Slots Bytes} {i : Nat} (his : i < s.slots.size)
    (hit : i < t.slots.size) {cell : Cell} {o : Outcome Unit} {target : WriteTarget}
    (hwrite : (data p).writeCell i cell ⟨.paired (.plain p.kind s) t, start.after calls⟩ =
      (o, target)) :
    o.Returns ∧
    (o = .ok () ↔ cell ≠ .unmaterialized ∧ (cell.className?.isSome → ¬ p.matches? cell →
      ∃ bytes tags, ClassTags.writeCell cell (start.after calls) = (.ok bytes, tags))) ∧
    (cell = .unmaterialized → target = ⟨.paired (.plain p.kind s) t, start.after calls⟩) ∧
    (o = .ok () →
      (cell.Fits → ∀ later,
        (data p).readCell (target.tags.after later) target.chunk i = .ok cell) ∧
      target.chunk.isMissing i = .ok cell.isMissing ∧
      (cell.className?.isSome → target.chunk.get p.kind i = .ok (p.project cell))) ∧
    (∃ a b, target.chunk = .paired (.plain p.kind (s.replace i a)) (t.replace i b)) ∧
    ∀ j, j ≠ i → target.chunk.SameSlot j j (.paired (.plain p.kind s) t) := by
  have hcases := writeData_cases his hit (start.after calls) cell
  rw [show writeData p i cell _ = (o, target) from hwrite] at hcases
  have hvalid := hstart.valid.1.after calls
  obtain ⟨a, b, hchunk⟩ := hcases.exists_replace his hit
  refine ⟨hcases.returns, hcases.fst_eq_ok_iff, ?_, fun hok => ⟨fun hfits later => ?_,
    hcases.isMissing his hok, hcases.get his hok⟩, ⟨a, b, hchunk⟩, fun j hj => ?_⟩
  · rintro rfl
    cases hwrite
    rfl
  · obtain ⟨hholds, hrecovered⟩ := hcases.holds his hit hvalid hok
    rw [hrecovered hfits] at hholds
    exact (hholds.mono (ClassTags.extends_after _ later)).readCell
  · rw [hchunk]
    exact .paired (.plain (s.getElem?_replace_of_ne hj a)) (t.getElem?_replace_of_ne hj b)

/-- An integer, and a missing value. -/
def sampleIntegers : Slots Int32 := .ofList [⟨5, false⟩, ⟨0, true⟩]

/-- What goes with them: nothing, and a cause. -/
def sampleCauses : Slots Bytes := .ofList [⟨[], true⟩, ⟨Utf8.encode "late", false⟩]

/-- A point takes the place of the missing value. -/
theorem readCell_of_writeCell_sample :
    let registry := SerializerRegistry.builtin.registerExtension "point"
    let point : Cell := .extension ⟨"point", none, [7]⟩
    let calls : List ClassTags.Call := [.writeCell (.double .zero)]
    let chunk : Chunk := .paired (.plain .int sampleIntegers) sampleCauses
    1 < sampleIntegers.slots.size ∧ 1 < sampleCauses.slots.size ∧
    ∃ target, (data .int).writeCell 1 point ⟨chunk, (ClassTags.empty registry).after calls⟩ =
        (.ok (), target) ∧
      (data .int).readCell (target.tags.after [.writeCell (.boolean true)]) target.chunk 1 =
        .ok point ∧
      target.chunk.SameSlot 0 0 chunk := by
  intro registry point calls chunk
  have hs : 1 < sampleIntegers.slots.size := by decide
  have ht : 1 < sampleCauses.slots.size := by decide
  obtain ⟨target, htarget⟩ : ∃ target,
      (data .int).writeCell 1 point ⟨chunk, (ClassTags.empty registry).after calls⟩ =
        (.ok (), target) := ⟨_, rfl⟩
  have hstart : ClassTags.Start registry (ClassTags.empty registry) := .fresh
  obtain ⟨-, -, -, hread, -, hframe⟩ :=
    readCell_of_writeCell (p := .int) hstart calls hs ht htarget
  exact ⟨hs, ht, target, htarget, (hread rfl).1 (show 1 < wordLimit by decide) _,
    hframe 0 (by decide)⟩

end PhysicalColumn

end Columnar
