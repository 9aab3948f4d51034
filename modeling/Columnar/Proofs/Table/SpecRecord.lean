import Columnar.Proofs.Table.Record

/-!
# Table specs and their records

A table spec is described by two lists of texts, the names of its columns and the names of their
types.

**Names of types** (`IsTypeName`). A text is the name of a type if it is one of five, or a name that
is not empty behind `extension:`. Reading the name of a type is the inverse of writing it
(`ColumnType.ofKey_eq_ok_iff`): what comes behind `extension:` is taken as it is, whether it is the
name of a built-in type or has an `extension:` of its own.

**Records** (`load_eq_ok_iff`). A tree describes a spec exactly if it has the two lists that are
written for the spec, and no extension type of the spec is without a name. A tree that describes no
spec is refused as invalid settings (`load_cases`).

Main result: `load_inverse_save`.
-/

namespace Columnar

/-! ## Names of types -/

/-- The names of the built-in types, and of all extension types but one without a name. -/
def IsTypeName (key : String) : Prop :=
  key ∈ ["int", "long", "double", "boolean", "string"] ∨
    ∃ name, name ≠ "" ∧ key = "extension:" ++ name

theorem dropStart?_eq_some {start s rest : String} (h : dropStart? start s = some rest) :
    s = start ++ rest := by
  unfold dropStart? at h
  split at h
  · rename_i htake
    cases h
    apply String.toList_inj.mp
    rw [String.toList_append, String.toList_ofList, ← htake, List.take_append_drop]
  · cases h

namespace ColumnType

/-- **Reading the name of a type** is the inverse of writing it. -/
theorem ofKey_eq_ok_iff {key : String} {type : ColumnType} :
    ofKey key = .ok type ↔ type ≠ .extension "" ∧ key = type.key := by
  constructor
  · intro h
    unfold ofKey at h
    split at h
    · rename_i p hfind
      cases h
      exact ⟨nofun, (eq_of_beq (List.find?_some hfind :)).symm⟩
    split at h
    · rename_i name hdrop
      split at h
      · cases h
      · rename_i hname
        cases h
        exact ⟨fun heq => hname (ColumnType.extension.inj heq), dropStart?_eq_some hdrop⟩
    · cases h
  · rintro ⟨hne, rfl⟩
    exact ofKey_key hne

theorem ofKey_cases (key : String) : (∃ type, ofKey key = .ok type) ∨
    ofKey key = Outcome.fail (.invalidSettings (.columnType key)) := by
  unfold ofKey
  split
  · exact .inl ⟨_, rfl⟩
  split
  · split
    · exact .inr rfl
    · exact .inl ⟨_, rfl⟩
  · exact .inr rfl

theorem ofKey_nameless : ofKey (extension "").key =
    Outcome.fail (.invalidSettings (.columnType "extension:")) := by
  cbv

theorem isTypeName_key {type : ColumnType} (h : type ≠ .extension "") : IsTypeName type.key := by
  cases type with
  | primitive p => exact .inl (by cases p <;> decide)
  | extension name => exact .inr ⟨name, fun hname => h (congrArg _ hname), rfl⟩

theorem isTypeName_iff {key : String} : IsTypeName key ↔ ∃ type, ofKey key = .ok type := by
  constructor
  · rintro (hbuiltin | ⟨name, hname, rfl⟩)
    · have hprimitive : ∃ p : Primitive, key = p.className := by
        simp only [List.mem_cons, List.not_mem_nil, or_false] at hbuiltin
        rcases hbuiltin with rfl | rfl | rfl | rfl | rfl
        exacts [⟨.int, rfl⟩, ⟨.long, rfl⟩, ⟨.double, rfl⟩, ⟨.boolean, rfl⟩, ⟨.string, rfl⟩]
      obtain ⟨p, rfl⟩ := hprimitive
      exact ⟨.primitive p, ofKey_eq_ok_iff.mpr ⟨nofun, rfl⟩⟩
    · have hne : ColumnType.extension name ≠ .extension "" := fun h => hname (extension.inj h)
      exact ⟨.extension name, ofKey_eq_ok_iff.mpr ⟨hne, rfl⟩⟩
  · rintro ⟨type, h⟩
    obtain ⟨hne, rfl⟩ := ofKey_eq_ok_iff.mp h
    exact isTypeName_key hne

end ColumnType

namespace Settings

/-! ## Lists of texts -/

theorem getStrings_eq_ok {s : Settings} {key : String} {v : List String} :
    s.getStrings key = .ok v ↔ s.find? key = some (.scalar (.strings v)) := by
  unfold getStrings getAs
  cases s.find? key with
  | none => exact ⟨nofun, nofun⟩
  | some w =>
    rcases w with (_ | _ | _ | _ | strings) | _ <;> simp [Outcome.ofOption, Outcome.fail]

/-- A list of texts that is not there, or something else in its place, makes invalid settings. -/
theorem getStrings_cases (s : Settings) (key : String) :
    (∃ v, s.getStrings key = .ok v) ∨
      ∃ fault, s.getStrings key = Outcome.fail (.invalidSettings fault) := by
  unfold getStrings getAs
  cases s.find? key with
  | none => exact .inr ⟨_, rfl⟩
  | some w =>
    rcases w with (_ | _ | _ | _ | strings) | _
    case scalar.strings => exact .inl ⟨strings, rfl⟩
    all_goals exact .inr ⟨_, rfl⟩

end Settings

namespace TableSpec

variable {s : Settings} {spec : TableSpec}

/-! ## Columns -/

/-- **Columns are read from equally many names and types**, and only if they lead back to them. -/
theorem columnsOf_eq_ok_iff {names keys : List String} {columns : List Column}
    (hlength : names.length = keys.length) : columnsOf names keys = .ok columns ↔
      (∀ c ∈ columns, c.type ≠ .extension "") ∧ names = columns.map Column.name ∧
        keys = columns.map (·.type.key) := by
  constructor
  · intro h
    induction names generalizing keys columns with
    | nil =>
      obtain rfl := List.eq_nil_of_length_eq_zero hlength.symm
      cases h
      exact ⟨nofun, rfl, rfl⟩
    | cons name names ih =>
      obtain ⟨key, keys, rfl⟩ := List.exists_cons_of_length_eq_add_one hlength.symm
      obtain ⟨type, htype, h⟩ := Outcome.bind_eq_ok h
      obtain ⟨columns', hcolumns, h⟩ := Outcome.bind_eq_ok h
      cases h
      obtain ⟨hne, rfl⟩ := ColumnType.ofKey_eq_ok_iff.mp htype
      obtain ⟨hall, rfl, rfl⟩ := ih (Nat.succ.inj hlength) hcolumns
      exact ⟨List.forall_mem_cons.mpr ⟨hne, hall⟩, rfl, rfl⟩
  · rintro ⟨hall, rfl, rfl⟩
    exact columnsOf_map hall

/-- Columns are read if all their types have names, and otherwise one that has none is refused. -/
theorem columnsOf_cases {names keys : List String} (hlength : names.length = keys.length) :
    (∃ columns, columnsOf names keys = .ok columns) ∨
      ∃ key ∈ keys, ¬ IsTypeName key ∧
        columnsOf names keys = Outcome.fail (.invalidSettings (.columnType key)) := by
  induction names generalizing keys with
  | nil => exact .inl ⟨[], rfl⟩
  | cons name names ih =>
    obtain ⟨key, keys, rfl⟩ := List.exists_cons_of_length_eq_add_one hlength.symm
    obtain ⟨type, htype⟩ | htype := ColumnType.ofKey_cases key
    · simp only [columnsOf, htype, Outcome.ok_bind]
      obtain ⟨columns, hcolumns⟩ | ⟨key', hmem, hnot, hfail⟩ := ih (Nat.succ.inj hlength)
      · rw [hcolumns]
        exact .inl ⟨_, rfl⟩
      · rw [hfail]
        exact .inr ⟨key', List.mem_cons_of_mem key hmem, hnot, rfl⟩
    · have hnot : ¬ IsTypeName key := fun h => by
        obtain ⟨type, hok⟩ := ColumnType.isTypeName_iff.mp h
        rw [htype] at hok
        cases hok
      refine .inr ⟨key, List.mem_cons_self, hnot, ?_⟩
      rw [columnsOf, htype]
      rfl

/-! ## Records -/

/-- The two lists that a spec is read from. -/
structure Listed (s : Settings) (names keys : List String) : Prop where
  names_eq : s.find? namesKey = some (.scalar (.strings names))
  keys_eq : s.find? typesKey = some (.scalar (.strings keys))

theorem listed_save (spec : TableSpec) (s : Settings) :
    Listed (spec.save s) (spec.columns.map Column.name) (spec.columns.map (·.type.key)) where
  names_eq := by
    simp [save, Settings.addStrings, Settings.find?_insert, namesKey, typesKey]
  keys_eq := by simp [save, Settings.addStrings, Settings.find?_insert]

theorem Listed.load_eq {names keys : List String} (h : Listed s names keys) :
    load s = if names.length ≠ keys.length then
        Outcome.fail (.invalidSettings (.columnCounts names.length keys.length))
      else return ⟨← columnsOf names keys⟩ := by
  simp only [load, Settings.getStrings_eq_ok.mpr h.names_eq,
    Settings.getStrings_eq_ok.mpr h.keys_eq, Outcome.ok_bind]

/-- **A spec is loaded from what is written for it**, and from nothing else. -/
theorem load_eq_ok_iff : load s = .ok spec ↔ (∀ c ∈ spec.columns, c.type ≠ .extension "") ∧
    Listed s (spec.columns.map Column.name) (spec.columns.map (·.type.key)) := by
  constructor
  · intro h
    obtain ⟨names, hnames, h'⟩ := Outcome.bind_eq_ok h
    obtain ⟨keys, hkeys, -⟩ := Outcome.bind_eq_ok h'
    have hlisted : Listed s names keys :=
      ⟨Settings.getStrings_eq_ok.mp hnames, Settings.getStrings_eq_ok.mp hkeys⟩
    rw [hlisted.load_eq] at h
    obtain ⟨hlength, h⟩ := Outcome.guard_eq_ok h
    obtain ⟨columns, hcolumns, h⟩ := Outcome.bind_eq_ok h
    cases h
    obtain ⟨hall, rfl, rfl⟩ :=
      (columnsOf_eq_ok_iff (Decidable.not_not.mp hlength)).mp hcolumns
    exact ⟨hall, hlisted⟩
  · rintro ⟨hall, hlisted⟩
    rw [hlisted.load_eq, List.length_map, List.length_map, if_neg (not_not_intro rfl),
      columnsOf_map hall]
    rfl

/-- **A spec is loaded** if the two lists are there, fit each other, and name types. -/
theorem load_isOk_iff : (∃ spec, load s = .ok spec) ↔ ∃ names keys, Listed s names keys ∧
    names.length = keys.length ∧ ∀ key ∈ keys, IsTypeName key := by
  constructor
  · rintro ⟨spec, h⟩
    obtain ⟨hall, hlisted⟩ := load_eq_ok_iff.mp h
    refine ⟨_, _, hlisted, by rw [List.length_map, List.length_map], fun key hkey => ?_⟩
    obtain ⟨c, hc, rfl⟩ := List.mem_map.mp hkey
    exact ColumnType.isTypeName_key (hall c hc)
  · rintro ⟨names, keys, hlisted, hlength, hall⟩
    obtain ⟨columns, hcolumns⟩ | ⟨key, hmem, hnot, -⟩ := columnsOf_cases hlength
    · refine ⟨⟨columns⟩, ?_⟩
      rw [hlisted.load_eq, if_neg (not_not_intro hlength), hcolumns]
      rfl
    · exact absurd (hall key hmem) hnot

/-- **What is not loaded makes invalid settings.** -/
theorem load_cases (s : Settings) :
    (∃ spec, load s = .ok spec) ∨ ∃ fault, load s = Outcome.fail (.invalidSettings fault) := by
  obtain ⟨names, hnames⟩ | ⟨fault, hnames⟩ := s.getStrings_cases namesKey
  · obtain ⟨keys, hkeys⟩ | ⟨fault, hkeys⟩ := s.getStrings_cases typesKey
    · have hlisted : Listed s names keys :=
        ⟨Settings.getStrings_eq_ok.mp hnames, Settings.getStrings_eq_ok.mp hkeys⟩
      rw [hlisted.load_eq]
      by_cases hlength : names.length = keys.length
      · rw [if_neg (not_not_intro hlength)]
        obtain ⟨columns, hcolumns⟩ | ⟨key, -, -, hfail⟩ := columnsOf_cases hlength
        · rw [hcolumns]
          exact .inl ⟨_, rfl⟩
        · rw [hfail]
          exact .inr ⟨_, rfl⟩
      · rw [if_pos hlength]
        exact .inr ⟨_, rfl⟩
    · rw [load, hnames, Outcome.ok_bind, hkeys]
      exact .inr ⟨fault, rfl⟩
  · rw [load, hnames]
    exact .inr ⟨fault, rfl⟩

/-- A spec with an extension type without a name is written, but not read back. -/
theorem load_save_nameless (h : ∃ c ∈ spec.columns, c.type = .extension "") (s : Settings) :
    ∃ fault, load (spec.save s) = Outcome.fail (.invalidSettings fault) := by
  obtain ⟨c, hc, htype⟩ := h
  refine (load_cases (spec.save s)).resolve_left fun hload => ?_
  obtain ⟨names, keys, hlisted, -, hall⟩ := load_isOk_iff.mp hload
  have hkeys := hlisted.keys_eq.symm.trans (listed_save spec s).keys_eq
  cases hkeys
  obtain ⟨type, hok⟩ := ColumnType.isTypeName_iff.mp (hall _ (List.mem_map_of_mem hc))
  rw [htype, ColumnType.ofKey_nameless] at hok
  cases hok

/-- **Table specs and their descriptions lead back to each other.**

A spec is loaded from every tree it was written to, and if it has an extension type without a name
the settings are invalid. A tree from which a spec is loaded has the two lists that are written for
this spec, and writing it there changes nothing; no other lists are loaded as the same spec. A spec
is loaded just from those trees that have both lists, equally long, the second one of names of
types; all other settings are invalid. -/
theorem load_inverse_save :
    (∀ (spec : TableSpec) (s : Settings),
      ((∀ c ∈ spec.columns, c.type ≠ .extension "") → load (spec.save s) = .ok spec) ∧
      ((∃ c ∈ spec.columns, c.type = .extension "") →
        ∃ fault, load (spec.save s) = Outcome.fail (.invalidSettings fault))) ∧
    (∀ (s : Settings) (spec : TableSpec), load s = .ok spec →
      (∃ names keys, Listed s names keys ∧
        ∀ t, spec.save t = (t.addStrings namesKey names).addStrings typesKey keys) ∧
      (s.Ordered → spec.save s = s) ∧
      ∀ s', load s' = .ok spec → ∀ names keys, Listed s names keys ↔ Listed s' names keys) ∧
    ∀ s : Settings,
      ((∃ spec, load s = .ok spec) ↔ ∃ names keys, Listed s names keys ∧
        names.length = keys.length ∧ ∀ key ∈ keys, IsTypeName key) ∧
      ((∃ spec, load s = .ok spec) ∨ ∃ fault, load s = Outcome.fail (.invalidSettings fault)) := by
  refine ⟨fun spec s => ⟨fun h => load_save h s, fun h => load_save_nameless h s⟩, ?_,
    fun s => ⟨load_isOk_iff, load_cases s⟩⟩
  intro s spec h
  obtain ⟨-, hlisted⟩ := load_eq_ok_iff.mp h
  refine ⟨⟨_, _, hlisted, fun t => rfl⟩, fun hs => ?_, fun s' h' names keys => ?_⟩
  · have hnames : s.addStrings namesKey (spec.columns.map Column.name) = s :=
      hs.insert_of_find? hlisted.names_eq
    rw [save, hnames]
    exact hs.insert_of_find? hlisted.keys_eq
  · obtain ⟨-, hlisted'⟩ := load_eq_ok_iff.mp h'
    have hnames := hlisted.names_eq.trans hlisted'.names_eq.symm
    have hkeys := hlisted.keys_eq.trans hlisted'.keys_eq.symm
    exact ⟨fun hl => ⟨hnames ▸ hl.names_eq, hkeys ▸ hl.keys_eq⟩,
      fun hl => ⟨hnames ▸ hl.names_eq, hkeys ▸ hl.keys_eq⟩⟩

/-- Extension types that are named like a built-in type, or have the beginning of their own name
once more. -/
def sampleSpec : TableSpec :=
  ⟨[⟨"a", .extension "int"⟩, ⟨"a", .extension "extension:"⟩, ⟨"", .primitive .int⟩]⟩

def sampleNameless : TableSpec := ⟨[⟨"a", .primitive .long⟩, ⟨"b", .extension ""⟩]⟩

theorem load_inverse_save_sample :
    load (sampleSpec.save .empty) = .ok sampleSpec ∧
      (∃ fault, load (sampleNameless.save .empty) =
        Outcome.fail (.invalidSettings fault)) ∧
      (∃ names keys, Listed (sampleSpec.save .empty) names keys ∧
        ∀ t, sampleSpec.save t = (t.addStrings namesKey names).addStrings typesKey keys) ∧
      sampleSpec.save (sampleSpec.save .empty) = sampleSpec.save .empty := by
  obtain ⟨hsave, hload, -⟩ := load_inverse_save
  have hsample := (hsave sampleSpec .empty).1 (by decide)
  obtain ⟨hwritten, hagain, -⟩ := hload _ _ hsample
  have hordered : (sampleSpec.save .empty).Ordered :=
    Settings.Ordered.insert (Settings.Ordered.insert trivial trivial) trivial
  exact ⟨hsample, (hsave sampleNameless .empty).2 (by decide), hwritten, hagain hordered⟩

end TableSpec

end Columnar
