import Columnar.Proofs.Payload.ClassTags
import Columnar.Proofs.Settings.Text
import Columnar.Proofs.Table.Rows
import Columnar.Table.Record

/-!
# Records read back

A record says all that is to be known about a table but its rows. Types go through their names
(`ColumnType.ofKey_key`), class tags through the classes in tag order (`loadTags_save`), and the
rest through entries of its own, so that loading the record of a table gives the table
(`context_describe`, `load_describe`). The tree of a record can be read back from its text
(`readable_describe`).

A record is laid over a tree that may have entries of its own. It is found there before them
(`find?_describe`), changes nothing if it is there already (`describe_eq_self_iff`), and so may be
laid over the tree twice (`describe_describe`).
-/

namespace Columnar

/-! ## Specs -/

theorem dropStart?_append (start rest : String) : dropStart? start (start ++ rest) = some rest := by
  have htake : (start.toList ++ rest.toList).take start.length = start.toList :=
    List.take_left' String.length_toList
  have hdrop : (start.toList ++ rest.toList).drop start.length = rest.toList :=
    List.drop_left' String.length_toList
  rw [dropStart?, String.toList_append, htake, hdrop, if_pos rfl, String.ofList_toList]

/-- **The name of a type leads back to it**, unless it is an extension without a name. -/
theorem ColumnType.ofKey_key {type : ColumnType} (h : type ≠ .extension "") :
    ofKey type.key = .ok type := by
  cases type with
  | primitive p =>
    have hfind : Primitive.all.find? (·.className == p.className) = some p := by
      cases p <;> decide
    rw [key, ofKey, hfind]
  | extension name =>
    have hprimitive : Primitive.all.find? (·.className == "extension:" ++ name) = none := by
      refine List.find?_eq_none.mpr fun p _ heq => ?_
      have hstart := congrArg (fun s : String => s.toList.head?) (eq_of_beq heq)
      cases p <;> simp [Primitive.className] at hstart
    have hname : name ≠ "" := fun heq => h (congrArg ColumnType.extension heq)
    rw [key, ofKey, hprimitive, dropStart?_append]
    exact if_neg hname

namespace TableSpec

theorem columnsOf_map {columns : List Column} (h : ∀ c ∈ columns, c.type ≠ .extension "") :
    columnsOf (columns.map Column.name) (columns.map (·.type.key)) = .ok columns := by
  induction columns with
  | nil => rfl
  | cons c columns ih =>
    simp only [List.map_cons, columnsOf, ColumnType.ofKey_key (h c List.mem_cons_self),
      ih fun c' hc' => h c' (List.mem_cons_of_mem c hc'), Outcome.ok_bind]
    rfl

/-- **A table spec is loaded from its description.** -/
theorem load_save {spec : TableSpec} (h : ∀ c ∈ spec.columns, c.type ≠ .extension "")
    (s : Settings) : load (spec.save s) = .ok spec := by
  have hnames : (spec.save s).getStrings namesKey = .ok (spec.columns.map Column.name) := by
    simp [save, Settings.getStrings, Settings.addStrings, Settings.getAs_insert, namesKey, typesKey,
      Outcome.ofOption]
  have htypes : (spec.save s).getStrings typesKey = .ok (spec.columns.map (·.type.key)) := by
    simp [save, Settings.getStrings, Settings.addStrings, Settings.getAs_insert, Outcome.ofOption]
  simp only [load, hnames, htypes, Outcome.ok_bind, List.length_map, ne_eq, not_true, if_false,
    columnsOf_map h]
  rfl

theorem type_ne_of_supported {spec : TableSpec} (h : spec.isSupported = true) :
    ∀ c ∈ spec.columns, c.type ≠ .extension "" := by
  intro c hc heq
  have hsome := List.find?_eq_none.mp (Option.isNone_iff_eq_none.mp h) c hc
  simp [heq, ColumnType.primitive?] at hsome

end TableSpec

/-! ## Mappings -/

namespace SchemaMapping

theorem loadClasses_eq (serializers : SerializerRegistry) (before classes : List String)
    (hlength : (before ++ classes).length ≤ ClassTags.limit)
    (hregistered : ∀ name ∈ classes, ∃ s, serializers.find? name = some s) :
    loadClasses ⟨serializers, before⟩ classes = .ok ⟨serializers, before ++ classes⟩ := by
  induction classes generalizing before with
  | nil => rw [List.append_nil, loadClasses]; rfl
  | cons c classes ih =>
    obtain ⟨s, hs⟩ := hregistered c List.mem_cons_self
    have hget : serializers.get c = .ok s := by
      simp [SerializerRegistry.get, hs, Outcome.ofOption]
    have hroom : before.length ≠ ClassTags.limit := by
      simp only [List.length_append, List.length_cons] at hlength
      omega
    have ih := ih (before ++ [c]) (by simpa using hlength)
      fun name hname => hregistered name (List.mem_cons_of_mem c hname)
    rw [List.append_assoc, List.singleton_append] at ih
    simp only [loadClasses, hget, Outcome.ok_bind, ClassTags.insert, hroom, if_false, ih]

/-- A tree that lists the classes of some tags gives back the tags, if every class has a
serializer. -/
theorem loadTags_eq {tags : ClassTags} {s : Settings}
    (hclasses : s.getStrings classesKey = .ok tags.classes)
    (hlength : tags.classes.length ≤ ClassTags.limit)
    (hregistered : ∀ name ∈ tags.classes, ∃ s, tags.serializers.find? name = some s) :
    loadTags tags.serializers s = .ok tags := by
  rw [loadTags, hclasses, Outcome.ok_bind, ClassTags.empty,
    loadClasses_eq _ [] tags.classes hlength hregistered]
  rfl

/-- **Class tags are loaded from their description.** -/
theorem loadTags_save {m : SchemaMapping} (h : m.tags.Valid) (s : Settings) :
    loadTags m.tags.serializers (m.save s) = .ok m.tags := by
  refine loadTags_eq ?_ h.length_le h.registered
  simp [save, saveTags, Settings.getStrings, Settings.addStrings, Settings.addBool,
    Settings.getAs_insert, classesKey, keysKey, Outcome.ofOption]

/-- **A mapping is loaded from its description.** -/
theorem load_save {m : SchemaMapping} {spec : TableSpec} (htags : m.tags.Valid)
    (hmaps : spec.MapsTo m.primitives) (s : Settings) :
    load spec m.tags.serializers (m.save s) = .ok m := by
  have hkeys : (m.save s).getBool keysKey = .ok m.hasKeys := by
    simp [save, Settings.getBool, Settings.addBool, Settings.getAs_insert, Outcome.ofOption]
  rw [load, hkeys, Outcome.ok_bind, loadTags_save htags, Outcome.ok_bind,
    ofTags_of_supported hmaps.supported, ← hmaps.primitives_eq]

end SchemaMapping

/-! ## Tables -/

namespace Record

theorem rowCount_ofNat {n : Nat} (h : n < longLimit) : rowCount (Int64.ofNat n) = .ok n := by
  have hint : (Int64.ofNat n).toInt = n := Int64.toInt_ofNat_of_lt h
  have hneg : ¬ Int64.ofNat n < 0 := by
    rw [Int64.lt_iff_toInt_lt, hint]
    show ¬ (n : Int) < 0
    omega
  rw [rowCount, if_neg hneg, hint, Int.toNat_natCast]

variable {t : TableInfo} {factory : String}

/-- **The record of a table gives its spec and what is needed to load it**, under whatever id. -/
theorem context_describe (h : t.spec.isSupported = true) (s : Settings) (path : String)
    (id : Int64) :
    context (describe t factory s) path id = .ok ⟨id, t.spec, derived t factory, path⟩ := by
  have hkind : (describe t factory s).getString kindKey = .ok lazyKind := by
    simp [describe, Settings.getString, Settings.addString, Settings.addLong, Settings.addTree,
      Settings.getAs_insert, kindKey, idKey, specKey, derivedKey, Outcome.ofOption]
  have hspec : (describe t factory s).getTree specKey = .ok (t.spec.save .empty) := by
    simp [describe, Settings.getTree, Settings.addTree, Settings.getAs_insert, specKey, derivedKey,
      Outcome.ofOption]
  have hderived : (describe t factory s).getTree derivedKey = .ok (derived t factory) := by
    simp [describe, Settings.getTree, Settings.addTree, Settings.getAs_insert, Outcome.ofOption]
  simp only [context, hkind, hspec, hderived, Outcome.ok_bind, ne_eq, not_true, if_false,
    TableSpec.load_save (TableSpec.type_ne_of_supported h)]
  rfl

theorem getLong_describe (t : TableInfo) (factory : String) (s : Settings) :
    (describe t factory s).getLong idKey = .ok t.id := by
  simp [describe, Settings.getLong, Settings.addString, Settings.addLong, Settings.addTree,
    Settings.getAs_insert, idKey, specKey, derivedKey, Outcome.ofOption]

/-- **A table is loaded from its record**: all but its rows, and the name of its factory. -/
theorem load_describe (htags : t.mapping.tags.Valid) (hmaps : t.spec.MapsTo t.mapping.primitives)
    (hsize : t.size < longLimit) (path : String) (id : Int64) :
    load ⟨id, t.spec, derived t factory, path⟩ t.mapping.tags.serializers =
      .ok (⟨id, t.spec, t.mapping, t.size⟩, factory) := by
  have hlong : (derived t factory).getLong sizeKey = .ok (Int64.ofNat t.size) := by
    simp [derived, Settings.getLong, Settings.addString, Settings.addLong, Settings.addTree,
      Settings.getAs_insert, sizeKey, mappingKey, schemaKey, Outcome.ofOption]
  have hname : (derived t factory).getString mappingKey = .ok SchemaMapping.name := by
    simp [derived, Settings.getString, Settings.addString, Settings.addTree,
      Settings.getAs_insert, mappingKey, schemaKey, Outcome.ofOption]
  have htree : (derived t factory).getTree schemaKey = .ok (t.mapping.save .empty) := by
    simp [derived, Settings.getTree, Settings.addTree, Settings.getAs_insert, Outcome.ofOption]
  have hfactory : (derived t factory).getString factoryKey = .ok factory := by
    simp [derived, Settings.getString, Settings.addString, Settings.addLong, Settings.addTree,
      Settings.getAs_insert, factoryKey, sizeKey, mappingKey, schemaKey, Outcome.ofOption]
  simp only [load, hlong, hname, htree, hfactory, rowCount_ofNat hsize, Outcome.ok_bind,
    loadMapping, if_true, SchemaMapping.load_save htags hmaps]
  rfl

theorem ofTags_of_load {c : LoadContext} {serializers : SerializerRegistry}
    (h : load c serializers = .ok (t, factory)) :
    ∃ hasKeys tags, SchemaMapping.ofTags t.spec hasKeys tags = .ok t.mapping := by
  obtain ⟨_, -, h⟩ := Outcome.bind_eq_ok h
  obtain ⟨_, -, h⟩ := Outcome.bind_eq_ok h
  obtain ⟨name, -, h⟩ := Outcome.bind_eq_ok h
  obtain ⟨tree, -, h⟩ := Outcome.bind_eq_ok h
  obtain ⟨mapping, hmapping, h⟩ := Outcome.bind_eq_ok h
  obtain ⟨_, -, h⟩ := Outcome.bind_eq_ok h
  cases h
  by_cases hname : name = SchemaMapping.name
  · rw [loadMapping, if_pos hname] at hmapping
    obtain ⟨hasKeys, -, hmapping⟩ := Outcome.bind_eq_ok hmapping
    obtain ⟨tags, -, hmapping⟩ := Outcome.bind_eq_ok hmapping
    exact ⟨hasKeys, tags, hmapping⟩
  · rw [loadMapping, if_neg hname] at hmapping
    cases hmapping

/-- **The tree of a record can be read back** from its text. -/
theorem readable_describe (t : TableInfo) (factory : String) {s : Settings} {n : Nat}
    (hs : s.Readable n) (hn : 7 ≤ n) : (describe t factory s).Readable n := by
  have hspec : (t.spec.save .empty).Readable 3 :=
    ((Settings.Readable.empty (by decide)).addStrings (by decide) _ _).addStrings (by decide) _ _
  have hmapping : (t.mapping.save .empty).Readable 3 :=
    ((Settings.Readable.empty (by decide)).addStrings (by decide) _ _).addBool (by decide) _ _
  have hderived : (derived t factory).Readable 5 :=
    ((((Settings.Readable.empty (by decide)).addString (by decide) _ _).addLong (by decide) _ _
      ).addString (by decide) _ _).addTree hmapping (by decide) _
  exact (((hs.addString (by omega) _ _).addLong (by omega) _ _).addTree hspec (by omega) _
    ).addTree hderived hn _

/-! ## Records over trees -/

/-- **A record is laid over a tree.** Its entries come before those of the tree. -/
theorem find?_describe (t : TableInfo) (factory : String) (s : Settings) (key : String) :
    (describe t factory s).find? key =
      ((describe t factory .empty).find? key).or (s.find? key) := by
  simp only [describe, Settings.addString, Settings.addLong, Settings.addTree,
    Settings.find?_insert, Settings.find?]
  split_ifs <;> rfl

theorem find?_kindKey (t : TableInfo) (factory : String) (s : Settings) :
    (describe t factory s).find? kindKey = some (.scalar (.string lazyKind)) := by
  simp [describe, Settings.addString, Settings.addLong, Settings.addTree, Settings.find?_insert,
    kindKey, idKey, specKey, derivedKey]

theorem includes_describe (t : TableInfo) (factory : String) (s : Settings) :
    (describe t factory s).Includes (describe t factory .empty) := fun key v h => by
  rw [find?_describe, h, Option.some_or]

/-- A tree with the record of a table in it is not changed by describing the table. -/
theorem describe_of_includes {s : Settings} (hs : s.Ordered)
    (h : s.Includes (describe t factory .empty)) : describe t factory s = s := by
  have hadd : ∀ key v, (describe t factory .empty).find? key = some v → s.insert key v = s :=
    fun key v hv => hs.insert_of_find? (h key v hv)
  simp only [describe, Settings.addString, Settings.addLong, Settings.addTree,
    Settings.find?_insert] at hadd ⊢
  rw [hadd kindKey _ (by simp [kindKey, idKey, specKey, derivedKey]),
    hadd idKey _ (by simp [idKey, specKey, derivedKey]),
    hadd specKey _ (by simp [specKey, derivedKey]), hadd derivedKey _ (by simp)]

theorem describe_eq_self_iff {s : Settings} (hs : s.Ordered) :
    describe t factory s = s ↔ s.Includes (describe t factory .empty) :=
  ⟨fun h => h ▸ includes_describe t factory s, describe_of_includes hs⟩

theorem ordered_describe (t : TableInfo) (factory : String) {s : Settings} (hs : s.Ordered) :
    (describe t factory s).Ordered :=
  (readable_describe t factory ⟨hs, Nat.le_max_right 7 s.nesting⟩ (Nat.le_max_left 7 _)).ordered

/-- **Describing a table twice is as describing it once.** -/
theorem describe_describe {s : Settings} (hs : s.Ordered) :
    describe t factory (describe t factory s) = describe t factory s :=
  describe_of_includes (ordered_describe t factory hs) (includes_describe t factory s)

end Record

end Columnar
