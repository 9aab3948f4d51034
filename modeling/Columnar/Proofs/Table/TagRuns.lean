import Columnar.Proofs.Table.Record

/-!
# Class tags over a run of calls

Class tags begin empty, or as a settings tree lists them (`ClassTags.Start`); such a list may name a
class twice. Then serializers are asked for and cells are written, in any order (`ClassTags.Call`,
`ClassTags.after`).

**Loading** (`Valid.loadTags_saveTags`). Tags are valid just if they can be described and loaded
again. They start valid, and every call keeps them so.

**Tags** (`ClassTags.tag?`). A call may give the next tag to a class that has none, and changes no
other (`tag?_serializerFor`). If it fails for want of a serializer or of a tag, it changes none at
all (`Call.run_error`).

Main result: `tags_stable`.
-/

namespace Columnar

namespace ClassTags

open SchemaMapping (loadClasses loadTags saveTags)

/-- The class tags a table begins with: none, or those described in a settings tree. -/
inductive Start (registry : SerializerRegistry) : ClassTags → Prop
  | fresh : Start registry (empty registry)
  | loaded {s : Settings} {t : ClassTags} (h : loadTags registry s = .ok t) : Start registry t

/-- A call that may hand out a tag. -/
inductive Call
  | serializerFor (c : Cell)
  | writeCell (c : Cell)

def Call.run : Call → Action ClassTags Unit
  | serializerFor c => (fun _ => ()) <$> ClassTags.serializerFor c
  | writeCell c => (fun _ => ()) <$> ClassTags.writeCell c

/-- The class tags after some calls, however these end. -/
def after (t : ClassTags) (calls : List Call) : ClassTags :=
  calls.foldl (fun t call => (call.run t).2) t

/-- The tag of a class. -/
def tag? (t : ClassTags) (name : String) : Option Int8 := (t.find? name).map tagAt

variable {registry : SerializerRegistry} {t t' : ClassTags}

/-! ## Tags of classes -/

theorem getElem?_of_tag? (hlimit : t.classes.length ≤ limit) {name : String} {tag : Int8}
    (h : t.tag? name = some tag) : t.classes[position tag]? = some name := by
  obtain ⟨i, hi, rfl⟩ := Option.map_eq_some_iff.mp h
  have hclass := getElem?_of_find? hi
  have hlt := (List.getElem?_eq_some_iff.mp hclass).1
  rw [position_tagAt (by simp only [limit] at hlimit; omega), hclass]

theorem find?_withClass_of_ne {name new : String} (h : new ≠ name) :
    (t.withClass new).find? name = t.find? name := by
  have hne : (new == name) = false := beq_false_of_ne h
  simp only [find?, ClassTags.withClass, List.reverse_append, List.reverse_singleton,
    List.singleton_append, List.idxOf?_cons, hne, Bool.false_eq_true, if_false, Option.map_map,
    List.length_append, List.length_singleton]
  congr 1
  funext i
  simp only [Function.comp]
  omega

/-- **The tag that is handed out** is the tag of the cell's class. -/
theorem tag?_of_serializerFor {c : Cell} {tag : Int8} {s : Serializer}
    (h : serializerFor c t = (.ok (tag, s), t')) :
    ∃ name, c.className? = some name ∧ t.serializers.get name = .ok s ∧
      t'.tag? name = some tag := by
  obtain ⟨name, i, hname, hs, hi, -, rfl⟩ := serializerFor_eq_ok h
  exact ⟨name, hname, Outcome.ofOption_eq_ok.mpr hs, by rw [tag?, hi]; rfl⟩

/-! ## One call -/

theorem tag?_serializerFor (c : Cell) {name : String} {tag : Int8}
    (htag : t.tag? name = some tag) : (serializerFor c t).2.tag? name = some tag := by
  obtain ⟨e, h⟩ | ⟨_, _, _, _, _, _, h⟩ | ⟨new, s, _, -, hnew, -, h⟩ := serializerFor_cases c t
  · rw [h]; exact htag
  · rw [h]; exact htag
  · obtain ⟨i, hi, -⟩ := Option.map_eq_some_iff.mp htag
    have hmem : name ∈ t.classes := List.mem_of_getElem? (getElem?_of_find? hi)
    have hne : new ≠ name := fun heq => hnew (heq ▸ hmem)
    rw [h, tag?, find?_withClass_of_ne hne]
    exact htag

theorem Call.snd_run (call : Call) (t : ClassTags) :
    ∃ c, (call.run t).2 = (ClassTags.serializerFor c t).2 := by
  cases call with
  | serializerFor c => exact ⟨c, by rw [run, Action.map_apply]⟩
  | writeCell c => exact ⟨c, by rw [run, Action.map_apply, snd_writeCell]⟩

theorem serializerFor_error {c : Cell} {e : Failure} (h : serializerFor c t = (.error e, t')) :
    t' = t := by
  obtain ⟨_, h'⟩ | ⟨_, _, _, _, _, _, h'⟩ | ⟨_, _, _, _, _, _, h'⟩ := serializerFor_cases c t <;>
    rw [h] at h' <;> cases h'
  rfl

/-- Only the refusal of a serializer leaves a new tag behind. -/
theorem writeCell_error {c : Cell} {e : Failure} (h : writeCell c t = (.error e, t')) :
    t' = t ∨ ∃ name, e = .error (.illegalState (.serializerRefuses name c)) := by
  rw [writeCell_apply] at h
  split at h
  · rename_i tag s t₁ hs
    by_cases ha : s.Accepts c
    · obtain ⟨payload, hp⟩ := Serializer.serialize_of_accepts ha
      rw [hp] at h
      cases h
    · rw [Serializer.serialize_of_not_accepts ha] at h
      cases h
      exact .inr ⟨s.className, rfl⟩
  · rename_i hs
    cases h
    exact .inl (serializerFor_error hs)

theorem Call.run_error {call : Call} {e : Failure} (h : call.run t = (.error e, t')) :
    t' = t ∨ ∃ name c, e = .error (.illegalState (.serializerRefuses name c)) := by
  cases call with
  | serializerFor c =>
    rw [run, Action.map_apply] at h
    rcases hs : ClassTags.serializerFor c t with ⟨_ | _, t₁⟩ <;> rw [hs] at h <;> cases h
    exact .inl (serializerFor_error hs)
  | writeCell c =>
    rw [run, Action.map_apply] at h
    rcases hw : ClassTags.writeCell c t with ⟨_ | _, t₁⟩ <;> rw [hw] at h <;> cases h
    exact (writeCell_error hw).imp_right fun ⟨name, he⟩ => ⟨name, c, he⟩

/-! ## All calls -/

/-- What a call does to the tags is done by asking for a serializer. -/
theorem after_induction {P : ClassTags → Prop} (ht : P t)
    (hstep : ∀ t c, P t → P (serializerFor c t).2) (calls : List Call) : P (t.after calls) := by
  induction calls generalizing t with
  | nil => exact ht
  | cons call calls ih =>
    obtain ⟨c, hc⟩ := call.snd_run t
    have hnext : P (call.run t).2 := hc ▸ hstep t c ht
    exact ih hnext

theorem extends_after (t : ClassTags) (calls : List Call) : t.Extends (t.after calls) :=
  after_induction (.refl t) (fun t' c h => h.trans (extends_serializerFor c t')) calls

theorem tag?_after {name : String} {tag : Int8} (h : t.tag? name = some tag) (calls : List Call) :
    (t.after calls).tag? name = some tag :=
  after_induction (P := (·.tag? name = some tag)) h (fun _ c h => tag?_serializerFor c h) calls

theorem Valid.after (h : t.Valid) (calls : List Call) : (t.after calls).Valid :=
  after_induction h (fun _ c h => h.serializerFor c) calls

/-! ## Loading -/

theorem valid_of_loadClasses {classes : List String} (ht : t.Valid)
    (h : loadClasses t classes = .ok t') : t'.Valid ∧ t'.serializers = t.serializers := by
  induction classes generalizing t with
  | nil =>
    cases h
    exact ⟨ht, rfl⟩
  | cons name classes ih =>
    cases hs : t.serializers.find? name with
    | none =>
      simp only [loadClasses, SerializerRegistry.get, hs, Outcome.ofOption, Outcome.fail_bind] at h
      cases h
    | some s =>
      simp only [loadClasses, SerializerRegistry.get, hs, Outcome.ofOption, Outcome.ok_bind,
        insert] at h
      split at h
      · cases h
      · rename_i hroom
        exact ih (t := t.withClass name) (ht.withClass hroom hs) h

theorem Start.valid (h : Start registry t) : t.Valid ∧ t.serializers = registry := by
  cases h with
  | fresh => exact ⟨valid_empty registry, rfl⟩
  | @loaded s _ h =>
    cases hlist : s.getStrings SchemaMapping.classesKey with
    | error e =>
      rw [loadTags, hlist] at h
      cases h
    | ok classes =>
      rw [loadTags, hlist, Outcome.ok_bind] at h
      exact valid_of_loadClasses (valid_empty registry) h

/-- **Valid tags are loaded from their description.** -/
theorem Valid.loadTags_saveTags (h : t.Valid) (s : Settings) :
    loadTags t.serializers (saveTags t s) = .ok t := by
  refine SchemaMapping.loadTags_eq ?_ h.length_le h.registered
  simp [saveTags, Settings.getStrings, Settings.addStrings, Settings.getAs_insert,
    Outcome.ofOption]

/-! ## The result -/

/-- **Tags are stable**, from whatever start and after whatever calls.

- There are at most 127 tags. The tag of a class leads back to the class and its serializer, now and
  after more calls, and no other class has it. What a call hands out is the tag of the cell's class.
- A call that finds no serializer, or no tag left, leaves the tags alone.
- Describing the tags and loading them gives the same tags.
- The bytes of a cell are read as the cell after any more calls, and under the tags that are loaded
  from a description made then, and after any calls on those. -/
theorem tags_stable {start : ClassTags} (hstart : Start registry start) (calls : List Call) :
    let t := start.after calls
    t.classes.length ≤ 127 ∧
    (∀ name tag, t.tag? name = some tag →
      t.classes[position tag]? = some name ∧ t.serializerOf tag = registry.get name ∧
      ∀ later, (t.after later).tag? name = some tag) ∧
    (∀ a b tag, t.tag? a = some tag → t.tag? b = some tag → a = b) ∧
    (∀ c tag s t', serializerFor c t = (.ok (tag, s), t') →
      ∃ name, c.className? = some name ∧ registry.get name = .ok s ∧ t'.tag? name = some tag) ∧
    (∀ (call : Call) t', (∃ what name, call.run t = (Outcome.fail (.notFound what name), t')) ∨
      (∃ n, call.run t = (Outcome.fail (.tooManyClasses n), t')) → t' = t) ∧
    (∀ s, loadTags registry (saveTags t s) = .ok t) ∧
    ∀ c bytes t', writeCell c t = (.ok bytes, t') → c.Fits → ∀ later,
      (t'.after later).readCell bytes = .ok c ∧
      ∀ s, ∃ loaded, loadTags registry (saveTags (t'.after later) s) = .ok loaded ∧
        loaded.classes = (t'.after later).classes ∧
        ∀ more, (loaded.after more).readCell bytes = .ok c := by
  intro t
  obtain ⟨hvalid, rfl⟩ := hstart.valid
  have ht : t.Valid := hvalid.after calls
  have hregistry : t.serializers = start.serializers := (extends_after start calls).serializers_eq
  refine ⟨ht.length_le, ?_, ?_, ?_, ?_, fun s => hregistry ▸ ht.loadTags_saveTags s, ?_⟩
  · intro name tag htag
    have hclass := getElem?_of_tag? ht.length_le htag
    refine ⟨hclass, ?_, tag?_after htag⟩
    rw [serializerOf, hclass, hregistry]
    rfl
  · intro a b tag ha hb
    have h := getElem?_of_tag? ht.length_le ha
    rw [getElem?_of_tag? ht.length_le hb] at h
    exact (Option.some.inj h).symm
  · intro c tag s t' h
    obtain ⟨name, hname, hs, htag⟩ := tag?_of_serializerFor h
    exact ⟨name, hname, hregistry ▸ hs, htag⟩
  · rintro call t' (⟨what, name, h⟩ | ⟨n, h⟩)
    all_goals
      obtain heq | ⟨s, c, he⟩ := Call.run_error h
      · exact heq
      · cases he
  · intro c bytes t' hwrite hc later
    -- what was written is read under the tags right after it, and tags are only added
    have hdecodes : t'.Decodes bytes (.ok c) :=
      recode_of_fits hwrite hc ▸ decodes_of_writeCell ht.length_le hwrite
    have hwrote : t'.Valid ∧ t.Extends t' := by
      have hvalid' := ht.writeCell c
      have hextends' := extends_writeCell c t
      rw [hwrite] at hvalid' hextends'
      exact ⟨hvalid', hextends'⟩
    have hextends : t'.Extends (t'.after later) := extends_after t' later
    refine ⟨hdecodes hextends, fun s => ⟨t'.after later, ?_, rfl, ?_⟩⟩
    · rw [← hregistry, ← hwrote.2.serializers_eq, ← hextends.serializers_eq]
      exact (hwrote.1.after later).loadTags_saveTags s
    · exact fun more => hdecodes (hextends.trans (extends_after _ more))

/-- The name of a built-in class is an alias of an extension class. -/
def aliasedSerializers : SerializerRegistry :=
  (SerializerRegistry.builtin.registerExtension "point").register "long" (.extension "point")

/-- A list of classes that names one of them twice. -/
def repeatedClasses : Settings := saveTags ⟨aliasedSerializers, ["int", "point", "int"]⟩ .empty

/-- A long cell gets a tag before the serializer of its alias refuses it. The point keeps its own.
-/
theorem tags_stable_sample :
    let start : ClassTags := ⟨aliasedSerializers, ["int", "point", "int"]⟩
    let point : Cell := .extension ⟨"point", none, [7]⟩
    let calls : List Call := [.writeCell (.long 1), .serializerFor (.extension ⟨"line", none, []⟩)]
    loadTags aliasedSerializers repeatedClasses = .ok start ∧
    writeCell point (start.after calls) =
      (.ok [129, 0, 1, 0, 0, 0, 7], ⟨aliasedSerializers, ["int", "point", "int", "long"]⟩) ∧
    (start.after (calls ++ [.writeCell point, .writeCell (.double .zero)])).readCell
      [129, 0, 1, 0, 0, 0, 7] = .ok point := by
  intro start point calls
  have hstart : loadTags aliasedSerializers repeatedClasses = .ok start := by decide +kernel
  have hwrite : writeCell point (start.after calls) =
      (.ok [129, 0, 1, 0, 0, 0, 7], ⟨aliasedSerializers, ["int", "point", "int", "long"]⟩) := by
    decide +kernel
  obtain ⟨-, -, -, -, -, -, hread⟩ := tags_stable (.loaded hstart) calls
  have hlater := (hread point _ _ hwrite (by show 1 < wordLimit; decide)
    [.writeCell (.double .zero)]).1
  refine ⟨hstart, hwrite, ?_⟩
  have hrun : start.after (calls ++ [.writeCell point, .writeCell (.double .zero)]) =
      ClassTags.after ⟨aliasedSerializers, ["int", "point", "int", "long"]⟩
        [.writeCell (.double .zero)] := by decide +kernel
  rw [hrun]
  exact hlater

end ClassTags

end Columnar
