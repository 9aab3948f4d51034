import Columnar.Payload
import Columnar.Proofs.Payload.Stream

/-!
# Class tags over time

**Serializers.** A serializer of a built-in class accepts the cells of the class, that of an extension
class the extension cells of its name (`Serializer.Accepts`). It writes exactly what it accepts, and
reads back what it wrote (`deserialize_append`).

**Growth** (`ClassTags.Extends`). Writing cells hands out new tags and changes none, so a later
state has the classes of an earlier one at the front. Whatever can be read in a state can be read in
every state that extends it.

**Validity** (`ClassTags.Valid`). The classes fit the tags, and every class has a serializer. A
table starts with no classes, and writing keeps its tags valid.

**Repetition** (`writeCell_again`). If no class has two tags (`ClassTags.Unique`), a cell that was
written is written to the same bytes ever after, and hands out no more tags.

Main result: `decodes_of_writeCell`, what was written for a cell goes on being decoded into the same
outcome, which is the cell if its lengths fit (`recode_of_fits`).
-/

namespace Columnar

/-! ## Serializers -/

/-- The length of a text or a payload in the cell fits in 32 bits. -/
def Cell.Fits : Cell → Prop
  | .string v => (Utf8.encode v).length < wordLimit
  | .extension e => e.payload.length < wordLimit
  | _ => True

namespace Serializer

/-- The cells a serializer can write. -/
inductive Accepts : Serializer → Cell → Prop
  | int (v : Int32) : Accepts (builtin .int) (.int v)
  | long (v : Int64) : Accepts (builtin .long) (.long v)
  | double (v : Double) : Accepts (builtin .double) (.double v)
  | boolean (v : Bool) : Accepts (builtin .boolean) (.boolean v)
  | string (v : String) : Accepts (builtin .string) (.string v)
  | extension (e : ExtensionCell) : Accepts (extension e.className) (.extension e)

theorem serialize_of_accepts {s : Serializer} {c : Cell} (h : s.Accepts c) :
    ∃ payload, s.serialize c = .ok payload := by
  cases h with
  | extension e => exact ⟨_, by rw [serialize, if_pos rfl]⟩
  | _ => exact ⟨_, rfl⟩

theorem serialize_of_not_accepts {s : Serializer} {c : Cell} (h : ¬ s.Accepts c) :
    s.serialize c = Outcome.fail (.illegalState (.serializerRefuses s.className c)) := by
  cases s with
  | builtin p => cases p <;> cases c <;> first | rfl | exact absurd (by constructor) h
  | extension name =>
    cases c with
    | extension e =>
      have hname : ¬ e.className = name := fun hn => h (hn ▸ .extension e)
      rw [serialize, if_neg hname]
      rfl
    | _ => rfl

theorem accepts_of_serialize {s : Serializer} {c : Cell} {payload : Bytes}
    (h : s.serialize c = .ok payload) : s.Accepts c := by
  by_cases ha : s.Accepts c
  · exact ha
  · rw [serialize_of_not_accepts ha] at h
    cases h

theorem serialize_returns (s : Serializer) (c : Cell) : (s.serialize c).Returns := by
  by_cases h : s.Accepts c
  · obtain ⟨payload, hp⟩ := serialize_of_accepts h
    rw [hp]
    trivial
  · rw [serialize_of_not_accepts h]
    trivial

/-- **A serializer reads back what it wrote**, whatever follows. -/
theorem deserialize_append {s : Serializer} {c : Cell} {payload : Bytes}
    (h : s.serialize c = .ok payload) (hc : c.Fits) (rest : Bytes) :
    s.deserialize (payload ++ rest) = (.ok c, rest) := by
  cases accepts_of_serialize h with
  | int v | long v | double v | boolean v =>
    cases h
    simp [deserialize, StreamValue.write, Action.bind_apply, StreamValue.readFixed_append]
  | string v =>
    cases h
    simp [deserialize, StreamValue.write, Action.bind_apply, StreamValue.readText_append hc]
  | extension e =>
    obtain ⟨name, numeric, bytes⟩ := e
    have hb := StreamValue.readBytes_append (v := bytes) hc rest
    rw [serialize, if_pos rfl] at h
    cases h
    cases numeric <;>
      simp [deserialize, StreamValue.write, Action.bind_apply, StreamValue.readFixed_append,
        Action.map_apply, hb]

end Serializer

/-! ## Tags -/

namespace ClassTags

/-- The state `t'` has the serializers of `t`, and its classes at the front. -/
structure Extends (t t' : ClassTags) : Prop where
  serializers_eq : t'.serializers = t.serializers
  isPrefix : t.classes <+: t'.classes

/-- The classes fit the tags and have serializers. -/
structure Valid (t : ClassTags) : Prop where
  length_le : t.classes.length ≤ limit
  registered : ∀ name ∈ t.classes, ∃ s, t.serializers.find? name = some s

/-- The tags are valid, and no class has two of them. -/
structure Unique (t : ClassTags) : Prop extends t.Valid where
  nodup : t.classes.Nodup

theorem Extends.refl (t : ClassTags) : t.Extends t := ⟨rfl, List.prefix_refl _⟩

theorem Extends.trans {t₁ t₂ t₃ : ClassTags} (h₁ : t₁.Extends t₂) (h₂ : t₂.Extends t₃) :
    t₁.Extends t₃ :=
  ⟨h₂.serializers_eq.trans h₁.serializers_eq, h₁.isPrefix.trans h₂.isPrefix⟩

theorem Extends.getElem? {t t' : ClassTags} (h : t.Extends t') {i : Nat} {name : String}
    (hi : t.classes[i]? = some name) : t'.classes[i]? = some name := by
  obtain ⟨more, hm⟩ := h.isPrefix
  have hlt : i < t.classes.length := by
    obtain ⟨hlt, -⟩ := List.getElem?_eq_some_iff.mp hi
    exact hlt
  rw [← hm, List.getElem?_append_left hlt, hi]

theorem valid_empty (serializers : SerializerRegistry) : (empty serializers).Valid :=
  ⟨Nat.zero_le _, fun _ h => absurd h List.not_mem_nil⟩

theorem unique_empty (serializers : SerializerRegistry) : (empty serializers).Unique :=
  ⟨valid_empty serializers, List.nodup_nil⟩

/-! ## Tags and positions -/

theorem position_tagAt {i : Nat} (h : i < 256) : position (tagAt i) = i := by
  have hb : ((i : Int) - 128).bmod Int8.size = (i : Int) - 128 := by
    apply Int.bmod_eq_of_le <;> simp only [Int8.size] <;> omega
  rw [position, tagAt, Int8.toInt_ofInt, hb]
  omega

theorem getElem?_of_find? {t : ClassTags} {name : String} {i : Nat} (h : t.find? name = some i) :
    t.classes[i]? = some name := by
  obtain ⟨j, hj, rfl⟩ := Option.map_eq_some_iff.mp h
  obtain ⟨hlt, hname, -⟩ := List.idxOf?_eq_some_iff.mp hj
  rw [← List.getElem?_reverse (List.length_reverse ▸ hlt), List.getElem?_eq_getElem hlt, hname]

theorem find?_eq_none_iff {t : ClassTags} {name : String} :
    t.find? name = none ↔ name ∉ t.classes := by
  simp [find?]

theorem find?_of_nodup {t : ClassTags} (hnodup : t.classes.Nodup) {name : String} {i : Nat}
    (h : t.classes[i]? = some name) : t.find? name = some i := by
  cases hfind : t.find? name with
  | none => exact absurd (List.mem_of_getElem? h) (find?_eq_none_iff.mp hfind)
  | some j =>
    have hj := getElem?_of_find? hfind
    have hlt := (List.getElem?_eq_some_iff.mp hj).1
    rw [(List.getElem?_inj hlt hnodup).mp (hj.trans h.symm)]

/-! ## Handing out tags -/

/-- The state after a class without a tag got the next one. -/
def withClass (t : ClassTags) (name : String) : ClassTags :=
  { t with classes := t.classes ++ [name] }

theorem extends_withClass (t : ClassTags) (name : String) : t.Extends (t.withClass name) :=
  ⟨rfl, List.prefix_append _ _⟩

theorem find?_withClass_self (t : ClassTags) (name : String) :
    (t.withClass name).find? name = some t.classes.length := by
  simp [find?, ClassTags.withClass, List.idxOf?_cons]

theorem Valid.withClass {t : ClassTags} (h : t.Valid) {name : String} {s : Serializer}
    (hlen : t.classes.length ≠ limit) (hs : t.serializers.find? name = some s) :
    (t.withClass name).Valid where
  length_le := by
    have := h.length_le
    simp only [ClassTags.withClass, List.length_append, List.length_singleton]
    omega
  registered := by
    intro n hn
    rcases List.mem_append.mp hn with hn | hn
    · exact h.registered n hn
    · rw [List.mem_singleton.mp hn]
      exact ⟨s, hs⟩

theorem serializerFor_of_find? {c : Cell} {t : ClassTags} {name : String} {s : Serializer} {i : Nat}
    (hname : c.className? = some name) (hs : t.serializers.find? name = some s)
    (hi : t.find? name = some i) : serializerFor c t = (.ok (tagAt i, s), t) := by
  simp [serializerFor, Action.bind_apply, hname, SerializerRegistry.get, hs, Outcome.ofOption, hi]

theorem serializerFor_of_not_mem {c : Cell} {t : ClassTags} {name : String} {s : Serializer}
    (hname : c.className? = some name) (hs : t.serializers.find? name = some s)
    (hnew : name ∉ t.classes) (hlen : t.classes.length ≠ limit) :
    serializerFor c t = (.ok (tagAt t.classes.length, s), t.withClass name) := by
  simp [serializerFor, Action.bind_apply, hname, SerializerRegistry.get, hs, Outcome.ofOption,
    find?_eq_none_iff.mpr hnew, insert, hlen, ClassTags.withClass]

/-- What asking for the serializer of a cell can do: fail and change nothing, find a tag, or hand
out the next one. -/
theorem serializerFor_cases (c : Cell) (t : ClassTags) :
    (∃ e, serializerFor c t = (Outcome.fail e, t)) ∨
    (∃ name s i, c.className? = some name ∧ t.serializers.find? name = some s ∧
      t.find? name = some i ∧ serializerFor c t = (.ok (tagAt i, s), t)) ∨
    (∃ name s, c.className? = some name ∧ t.serializers.find? name = some s ∧
      name ∉ t.classes ∧ t.classes.length ≠ limit ∧
      serializerFor c t = (.ok (tagAt t.classes.length, s), t.withClass name)) := by
  cases hc : c.className? with
  | none =>
    refine .inl ⟨.illegalState (.noSerializer c), ?_⟩
    simp [serializerFor, Action.bind_apply, hc]
  | some name =>
    cases hs : t.serializers.find? name with
    | none =>
      refine .inl ⟨.notFound .cellSerializer name, ?_⟩
      simp [serializerFor, Action.bind_apply, hc, SerializerRegistry.get, hs, Outcome.ofOption,
        Outcome.fail]
    | some s =>
      cases hi : t.find? name with
      | some i =>
        exact .inr (.inl ⟨name, s, i, rfl, hs, hi, serializerFor_of_find? hc hs hi⟩)
      | none =>
        have hnew := find?_eq_none_iff.mp hi
        by_cases hlen : t.classes.length = limit
        · refine .inl ⟨.tooManyClasses limit, ?_⟩
          simp [serializerFor, Action.bind_apply, hc, SerializerRegistry.get, hs, Outcome.ofOption,
            hi, insert, hlen, Outcome.fail]
        · exact .inr (.inr ⟨name, s, rfl, hs, hnew, hlen, serializerFor_of_not_mem hc hs hnew hlen⟩)

theorem extends_serializerFor (c : Cell) (t : ClassTags) :
    t.Extends (serializerFor c t).2 := by
  obtain ⟨e, h⟩ | ⟨_, _, _, _, _, _, h⟩ | ⟨name, _, _, _, _, _, h⟩ := serializerFor_cases c t
  · rw [h]; exact .refl t
  · rw [h]; exact .refl t
  · rw [h]; exact extends_withClass t name

theorem Valid.serializerFor {t : ClassTags} (ht : t.Valid) (c : Cell) :
    (serializerFor c t).2.Valid := by
  obtain ⟨e, h⟩ | ⟨_, _, _, _, _, _, h⟩ | ⟨name, s, _, hs, -, hlen, h⟩ :=
    serializerFor_cases c t
  · rw [h]; exact ht
  · rw [h]; exact ht
  · rw [h]; exact ht.withClass hlen hs

theorem serializerFor_returns (c : Cell) (t : ClassTags) : (serializerFor c t).1.Returns := by
  obtain ⟨e, h⟩ | ⟨_, _, _, _, _, _, h⟩ | ⟨_, _, _, _, _, _, h⟩ := serializerFor_cases c t <;>
    rw [h] <;> trivial

theorem Unique.serializerFor {t : ClassTags} (ht : t.Unique) (c : Cell) :
    (serializerFor c t).2.Unique := by
  refine ⟨ht.toValid.serializerFor c, ?_⟩
  obtain ⟨e, h⟩ | ⟨_, _, _, _, _, _, h⟩ | ⟨name, _, _, _, hnew, _, h⟩ := serializerFor_cases c t
  · rw [h]; exact ht.nodup
  · rw [h]; exact ht.nodup
  · rw [h, ClassTags.withClass, List.nodup_append]
    refine ⟨ht.nodup, by simp, fun a ha b hb hab => ?_⟩
    rw [List.mem_singleton] at hb
    exact hnew (hb ▸ hab ▸ ha)

theorem serializerFor_eq_ok {c : Cell} {t t' : ClassTags} {tag : Int8} {s : Serializer}
    (h : serializerFor c t = (.ok (tag, s), t')) :
    ∃ name i, c.className? = some name ∧ t.serializers.find? name = some s ∧
      t'.find? name = some i ∧ i ≤ t.classes.length ∧ tag = tagAt i := by
  obtain ⟨e, h'⟩ | ⟨name, s', i, hname, hs, hi, h'⟩ | ⟨name, s', hname, hs, -, -, h'⟩ :=
    serializerFor_cases c t
  · rw [h] at h'
    cases h'
  · rw [h] at h'
    cases h'
    have hlt := (List.getElem?_eq_some_iff.mp (getElem?_of_find? hi)).1
    exact ⟨name, i, hname, hs, hi, Nat.le_of_lt hlt, rfl⟩
  · rw [h] at h'
    cases h'
    exact ⟨name, t.classes.length, hname, hs, find?_withClass_self t name, Nat.le_refl _, rfl⟩

theorem serializerOf_tagAt {t : ClassTags} {name : String} {s : Serializer} {i : Nat}
    (hi : t.find? name = some i) (hlt : i < 256) (hs : t.serializers.find? name = some s) :
    t.serializerOf (tagAt i) = .ok s := by
  simp [serializerOf, position_tagAt hlt, getElem?_of_find? hi, Outcome.ofOption,
    SerializerRegistry.get, hs]

theorem serializerOf_mono {t t' : ClassTags} (h : t.Extends t') {tag : Int8} {s : Serializer}
    (hs : t.serializerOf tag = .ok s) : t'.serializerOf tag = .ok s := by
  cases hn : t.classes[position tag]? with
  | none =>
    rw [serializerOf, hn] at hs
    cases hs
  | some name =>
    rw [serializerOf, h.getElem? hn, h.serializers_eq]
    rw [serializerOf, hn] at hs
    exact hs

/-! ## Cells -/

theorem writeCell_apply (c : Cell) (t : ClassTags) :
    writeCell c t = match serializerFor c t with
      | (.ok (tag, s), t') =>
        ((fun payload => (StreamValue.i8 tag).write ++ payload) <$> s.serialize c, t')
      | (.error e, t') => (.error e, t') := by
  rw [writeCell, Action.bind_apply]
  rcases serializerFor c t with ⟨_ | ⟨tag, s⟩, t'⟩
  · rfl
  · simp only [Action.bind_apply, Action.liftM_apply]
    cases s.serialize c <;> rfl

theorem extends_writeCell (c : Cell) (t : ClassTags) : t.Extends (writeCell c t).2 := by
  have h := extends_serializerFor c t
  rw [writeCell_apply]
  split <;> rename_i hs <;> rw [hs] at h <;> exact h

theorem Valid.writeCell {t : ClassTags} (ht : t.Valid) (c : Cell) : (writeCell c t).2.Valid := by
  have h := ht.serializerFor c
  rw [writeCell_apply]
  split <;> rename_i hs <;> rw [hs] at h <;> exact h

theorem writeCell_returns (c : Cell) (t : ClassTags) : (writeCell c t).1.Returns := by
  have h := serializerFor_returns c t
  rw [writeCell_apply]
  split <;> rename_i hs <;> rw [hs] at h
  · rename_i tag s t'
    exact (Serializer.serialize_returns s c).map _
  · exact h.error

/-- Reading the bytes gives this outcome, now and after any more tags were handed out. -/
def Decodes (t : ClassTags) (bs : Bytes) (o : Outcome Cell) : Prop :=
  ∀ {t' : ClassTags}, t.Extends t' → t'.readCell bs = o

theorem Decodes.mono {t t' : ClassTags} {bs : Bytes} {o : Outcome Cell} (h : t.Decodes bs o)
    (ht : t.Extends t') : t'.Decodes bs o := fun ht' => h (ht.trans ht')

theorem Decodes.readCell {t : ClassTags} {bs : Bytes} {o : Outcome Cell} (h : t.Decodes bs o) :
    t.readCell bs = o := h (.refl t)

theorem readCell_of_serializerOf {t : ClassTags} {tag : Int8} {s : Serializer}
    (h : t.serializerOf tag = .ok s) (payload : Bytes) :
    t.readCell ((StreamValue.i8 tag).write ++ payload) = (s.deserialize payload).1 := by
  simp [readCell, StreamValue.write, Action.bind_apply, StreamValue.readU8_cons, h]

/-- What a cell is serialized to does not matter for the tags. -/
theorem snd_writeCell (c : Cell) (t : ClassTags) : (writeCell c t).2 = (serializerFor c t).2 := by
  rw [writeCell_apply]
  split <;> rename_i h <;> rw [h]

theorem Unique.writeCell {t : ClassTags} (ht : t.Unique) (c : Cell) : (writeCell c t).2.Unique :=
  snd_writeCell c t ▸ ht.serializerFor c

/-- What a cell was written to: the tag of its class and what the serializer makes of it. -/
theorem writeCell_eq_ok {t t' : ClassTags} {c : Cell} {bs : Bytes}
    (h : writeCell c t = (.ok bs, t')) :
    ∃ name s i payload, c.className? = some name ∧ t.serializers.find? name = some s ∧
      t'.find? name = some i ∧ i ≤ t.classes.length ∧ s.serialize c = .ok payload ∧
      bs = (StreamValue.i8 (tagAt i)).write ++ payload := by
  rw [writeCell_apply] at h
  split at h
  · rename_i tag s t₁ hs
    obtain ⟨name, i, hname, hfind, hi, hle, rfl⟩ := serializerFor_eq_ok hs
    cases hp : s.serialize c with
    | error e =>
      rw [hp] at h
      cases h
    | ok payload =>
      rw [hp] at h
      cases h
      exact ⟨name, s, i, payload, hname, hfind, hi, hle, hp, rfl⟩
  · cases h

theorem writeCell_of_find? {t : ClassTags} {c : Cell} {name : String} {s : Serializer} {i : Nat}
    {payload : Bytes} (hname : c.className? = some name) (hs : t.serializers.find? name = some s)
    (hi : t.find? name = some i) (hp : s.serialize c = .ok payload) :
    writeCell c t = (.ok ((StreamValue.i8 (tagAt i)).write ++ payload), t) := by
  simp only [writeCell_apply, serializerFor_of_find? hname hs hi, hp]
  rfl

/-- **A cell that was written is written again to the same bytes**, after any more tags. -/
theorem writeCell_again {t t' t'' : ClassTags} {c : Cell} {bs : Bytes}
    (h : writeCell c t = (.ok bs, t')) (hext : t'.Extends t'') (hnodup : t''.classes.Nodup) :
    writeCell c t'' = (.ok bs, t'') := by
  obtain ⟨name, s, i, payload, hname, hs, hi, -, hp, rfl⟩ := writeCell_eq_ok h
  have hserializers : t''.serializers = t.serializers := by
    have hwrite := extends_writeCell c t
    rw [h] at hwrite
    exact hext.serializers_eq.trans hwrite.serializers_eq
  have hfind := find?_of_nodup hnodup (hext.getElem? (getElem?_of_find? hi))
  exact writeCell_of_find? hname (hserializers ▸ hs) hfind hp

end ClassTags

/-- What is read when a cell was serialized. -/
def SerializerRegistry.recode (r : SerializerRegistry) (c : Cell) : Outcome Cell := do
  let name ← Outcome.ofOption (.illegalState (.noSerializer c)) c.className?
  let s ← r.get name
  let payload ← s.serialize c
  (s.deserialize payload).1

namespace ClassTags

variable {t t' : ClassTags} {c : Cell} {bs : Bytes}

theorem recode_eq {name : String} {s : Serializer} {payload : Bytes}
    (hname : c.className? = some name) (hs : t.serializers.find? name = some s)
    (hp : s.serialize c = .ok payload) :
    t.serializers.recode c = (s.deserialize payload).1 := by
  simp [SerializerRegistry.recode, hname, SerializerRegistry.get, hs, Outcome.ofOption, hp]

/-- **What was written is decoded**, now and after any more tags were handed out. -/
theorem decodes_of_writeCell (hlimit : t.classes.length ≤ limit)
    (h : writeCell c t = (.ok bs, t')) : t'.Decodes bs (t.serializers.recode c) := by
  obtain ⟨name, s, i, payload, hname, hs, hi, hle, hp, rfl⟩ := writeCell_eq_ok h
  have hserializers : t'.serializers = t.serializers := by
    have hwrite := extends_writeCell c t
    rw [h] at hwrite
    exact hwrite.serializers_eq
  have hof : t'.serializerOf (tagAt i) = .ok s :=
    serializerOf_tagAt hi (by simp only [limit] at hlimit; omega) (hserializers ▸ hs)
  rw [recode_eq hname hs hp]
  intro t'' hext
  exact readCell_of_serializerOf (serializerOf_mono hext hof) payload

/-- **Serializing keeps a cell** whose lengths fit. -/
theorem recode_of_fits (h : writeCell c t = (.ok bs, t')) (hc : c.Fits) :
    t.serializers.recode c = .ok c := by
  obtain ⟨name, s, i, payload, hname, hs, -, -, hp, -⟩ := writeCell_eq_ok h
  have hd := Serializer.deserialize_append hp hc []
  rw [List.append_nil] at hd
  rw [recode_eq hname hs hp, hd]

end ClassTags

end Columnar
