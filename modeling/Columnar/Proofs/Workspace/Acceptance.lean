import Columnar.Proofs.Table.Acceptance
import Columnar.Proofs.Workspace.Containers

/-!
# Rows offered to a container

**Containers in use** (`Offered`). A container is made for a spec, and rows are offered to it. These
may be taken, refused or aborted, and between them anything else may go on in the workspace, as long
as the store of the container is left alone. Through all of this it is ready for the next row
(`Offered.ready`).

Main result: `addRow_ok_iff`, which rows a container in use takes.
-/

namespace Columnar.Workspace

/-- The containers that are open in a workspace: one that was made, and one that rows were offered
to, whatever became of them. -/
inductive Offered (e : Environment) (spec : TableSpec) (hasKeys : Bool) :
    OpenContainer → Workspace → Prop
  | created {id : Int64} {c : OpenContainer} {w w' : Workspace}
    (hcreate : createContainer e id spec hasKeys w = (.ok c, w')) : Offered e spec hasKeys c w'
  | offered {c c' : OpenContainer} {w w' : Workspace} {row : Row} {o : Outcome Unit}
    (h : Offered e spec hasKeys c w) (hadd : addRow row (c, w) = (o, (c', w'))) :
    Offered e spec hasKeys c' w'
  | elsewhere {c : OpenContainer} {w w' : Workspace} (h : Offered e spec hasKeys c w)
    (hstore : w'.stores[c.store.index]? = w.stores[c.store.index]?) : Offered e spec hasKeys c w'

/-- The container is open for rows of the spec, into a store of the workspace. -/
structure ContainerReady (e : Environment) (spec : TableSpec) (hasKeys : Bool) (c : OpenContainer)
    (w : Workspace) : Prop where
  spec_eq : c.container.spec = spec
  hasKeys_eq : c.container.mapping.hasKeys = hasKeys
  serializers_eq : c.container.mapping.tags.serializers = e.serializers
  stored : ∃ s, w.stores[c.store.index]? = some (.memory s) ∧
    c.container.Ready e.options.chunkSize s

/-- The columns of a batch are no longer than a sequence can be. A table without row keys and data
columns has none. -/
def BatchesStorable (e : Environment) (spec : TableSpec) (hasKeys : Bool) : Prop :=
  hasKeys = true ∨ spec.size ≠ 0 → e.options.chunkSize < 0x400000000000000

variable {e : Environment} {spec : TableSpec} {hasKeys : Bool} {c : OpenContainer} {w : Workspace}

theorem containerReady_create {id : Int64} {w' : Workspace}
    (h : createContainer e id spec hasKeys w = (.ok c, w')) :
    ContainerReady e spec hasKeys c w' := by
  obtain ⟨hdefault, hsize, hspec⟩ := createContainer_eq_ok h
  obtain ⟨c', w'', hcreate, htook, -, -, hspec', hkeys, htags⟩ :=
    createContainer_took w hdefault hsize id hspec hasKeys
  rw [h] at hcreate
  cases hcreate
  obtain ⟨s, hs, htook⟩ := htook.stored
  exact ⟨hspec', hkeys, congrArg ClassTags.serializers htags, s, hs, htook.ready⟩

/-- **One row**, whatever becomes of it, leaves the container open. -/
theorem ContainerReady.addRow (h : ContainerReady e spec hasKeys c w) {row : Row}
    {o : Outcome Unit} {c' : OpenContainer} {w' : Workspace}
    (hadd : addRow row (c, w) = (o, (c', w'))) : ContainerReady e spec hasKeys c' w' := by
  obtain ⟨s, hs, hready⟩ := h.stored
  obtain ⟨o', k, s', hrun, hready', hfollows⟩ := hready.add row
  rw [Workspace.addRow, onContainer_apply hs, hrun] at hadd
  cases hadd
  exact ⟨hfollows.spec_eq.trans h.spec_eq, hfollows.hasKeys_eq.trans h.hasKeys_eq,
    hfollows.tags_extends.serializers_eq.trans h.serializers_eq, s', getElem?_setStore_self hs _,
    hready'⟩

/-- **A container in use** is open for the next row. -/
theorem Offered.ready (h : Offered e spec hasKeys c w) : ContainerReady e spec hasKeys c w := by
  induction h with
  | created hcreate => exact containerReady_create hcreate
  | offered _ hadd ih => exact ih.addRow hadd
  | elsewhere _ hstore ih =>
    obtain ⟨s, hs, hready⟩ := ih.stored
    exact ⟨ih.spec_eq, ih.hasKeys_eq, ih.serializers_eq, s, hstore.trans hs, hready⟩

theorem ContainerReady.batchesStorable_iff (h : ContainerReady e spec hasKeys c w) :
    BatchesStorable e spec hasKeys ↔
      (c.container.mapping.schema ≠ [] → e.options.chunkSize < 0x400000000000000) := by
  obtain ⟨s, -, hready⟩ := h.stored
  rw [c.container.mapping.schema_ne_nil_iff, hready.maps.length_eq, h.hasKeys_eq, h.spec_eq]
  rfl

/-- **Which rows are taken.** A container in use takes a row if it accepts it, and otherwise refuses
it with an error. Where no batch can be stored, it aborts each row that suits the table. -/
theorem addRow_ok_iff (h : Offered e spec hasKeys c w) (key? : Option String) (cells : List Cell) :
    c.container.spec = spec ∧ c.container.mapping.hasKeys = hasKeys ∧
      c.container.mapping.primitives = spec.columns.filterMap (·.type.primitive?) ∧
      c.container.mapping.tags.serializers = e.serializers ∧
      (BatchesStorable e spec hasKeys →
        (addRow (.ofCells key? cells) (c, w)).1.Returns ∧
        ((addRow (.ofCells key? cells) (c, w)).1 = .ok () ↔ c.container.Accepts key? cells)) ∧
      (¬ BatchesStorable e spec hasKeys → cells.length = spec.size →
        (hasKeys = true → key?.isSome = true) →
        (addRow (.ofCells key? cells) (c, w)).1 = Outcome.abort .capacity) := by
  have hready := h.ready
  obtain ⟨s, hs, hopen⟩ := hready.stored
  have hrun := congrArg Prod.fst (onContainer_apply hs (Container.add (.ofCells key? cells)))
  refine ⟨hready.spec_eq, hready.hasKeys_eq, hready.spec_eq ▸ hopen.maps.primitives_eq,
    hready.serializers_eq, fun hstorable => ?_, fun hnot hwidth hkey => ?_⟩
  · rw [addRow, hrun]
    exact hopen.add_ofCells (hready.batchesStorable_iff.mp hstorable)
  · rw [addRow, hrun]
    refine (hopen.add_of_suits (Container.suits_ofCells.mpr ⟨?_, ?_⟩)).2
      (hready.batchesStorable_iff.not.mp hnot)
    · rw [hwidth, hready.spec_eq]
    · rw [hready.hasKeys_eq]
      exact hkey

/-- A row that was refused after its first cell has given a class its tag. -/
theorem offered_sample : ∃ c w, Offered sampleEnvironment sampleSpec true c w ∧
    c.container.mapping.tags.classes = [Primitive.boolean.className] := by
  have hcreate : ∃ c w, createContainer sampleEnvironment 5 sampleSpec true .empty = (.ok c, w) ∧
      (addRow (.ofCells (some "a") [.boolean true, .unmaterialized])
        (c, w)).2.1.container.mapping.tags.classes = [Primitive.boolean.className] :=
    ⟨_, _, rfl, by decide⟩
  obtain ⟨c, w, hcreate, hclasses⟩ := hcreate
  exact ⟨_, _, .offered (.created hcreate) rfl, hclasses⟩

/-- A row with a class that has no tag yet, and one with a class that has no serializer. -/
theorem addRow_ok_iff_sample :
    ∃ c w, Offered sampleEnvironment sampleSpec true c w ∧
      c.container.mapping.tags.classes = [Primitive.boolean.className] ∧
      (addRow (.ofCells (some "b") [.double Double.zero, .int 3]) (c, w)).1 = .ok () ∧
      (addRow (.ofCells (some "b") [.int 1, .extension ⟨"complex", none, []⟩])
        (c, w)).1 ≠ .ok () := by
  obtain ⟨c, w, h, hclasses⟩ := offered_sample
  have hstorable : BatchesStorable sampleEnvironment sampleSpec true := fun _ => by decide
  refine ⟨c, w, h, hclasses, ?_, ?_⟩
  · obtain ⟨hspec, -, hprimitives, hserializers, hiff, -⟩ :=
      addRow_ok_iff h (some "b") [.double Double.zero, .int 3]
    refine (hiff hstorable).2.mpr ⟨hspec ▸ rfl, fun _ => rfl, ?_, ?_⟩
    · rw [hprimitives, hserializers]
      exact .cons ⟨nofun, fun _ => ⟨_, _, rfl, rfl, .double _⟩⟩
        (.cons ⟨nofun, fun _ => ⟨_, _, rfl, rfl, .int _⟩⟩ .nil)
    · rw [ClassTags.HasRoom, hclasses, hprimitives]
      decide
  · obtain ⟨-, -, hprimitives, hserializers, hiff, -⟩ :=
      addRow_ok_iff h (some "b") [.int 1, .extension ⟨"complex", none, []⟩]
    intro hok
    have htaken := ((hiff hstorable).2.mp hok).taken
    rw [hprimitives, hserializers] at htaken
    obtain ⟨-, hrest⟩ := List.forall₂_cons.mp htaken
    obtain ⟨hcell, -⟩ := List.forall₂_cons.mp hrest
    obtain ⟨name, s, hname, hs, -⟩ := hcell.accepted rfl
    cases hname
    cases hs

/-- A batch of this many rows cannot be stored, and the first row of a table is aborted. -/
theorem acceptable_row_aborted :
    ∃ c w, createContainer { sampleEnvironment with options.chunkSize := 0xFFFFFFFFFFFFFFFF } 5
        ⟨[⟨"count", .primitive .int⟩]⟩ true .empty = (.ok c, w) ∧
      c.container.Accepts (some "a") [.int 1] ∧
      (addRow (.ofCells (some "a") [.int 1]) (c, w)).1 = Outcome.abort .capacity := by
  refine ⟨_, _, rfl, ⟨rfl, fun _ => rfl, ?_, ?_⟩, rfl⟩
  · exact .cons ⟨nofun, fun h => by cases h⟩ .nil
  · decide

end Columnar.Workspace
