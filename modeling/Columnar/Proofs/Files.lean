import Columnar.Files

/-!
# What writing a file does

`write_eq_ok` gives the bytes of a file that was written, and `openFile_of_read?` the file that is
opened under a name. Bytes that lie in a file are read by `readRange_of_eq`.
-/

namespace Columnar.Files

theorem read_setContents_self (fs : Files) {id : FileId} (h : id.index < fs.contents.size)
    (data : Bytes) : (fs.setContents id data).read id = data := by
  simp [setContents, setBuffer, read, buffer, h]

theorem read_add (fs : Files) {id : FileId} (h : id.index < fs.contents.size) (name : String)
    (data : Bytes) : (fs.add name data).read id = fs.read id := by
  simp [add, read, buffer, Array.getElem?_push_lt h, h]

theorem mem_of_lookup {α β : Type} [BEq α] [LawfulBEq α] {l : List (α × β)} {a : α} {b : β}
    (h : l.lookup a = some b) : (a, b) ∈ l := by
  induction l with
  | nil => cases h
  | cons p l ih =>
    obtain ⟨k, v⟩ := p
    by_cases hk : a = k
    · subst hk
      simp only [List.lookup_cons, beq_self_eq_true, Option.some.injEq] at h
      rw [h]
      exact List.mem_cons_self
    · have hne : (a == k) = false := beq_eq_false_iff_ne.mpr hk
      rw [List.lookup_cons, hne] at h
      exact List.mem_cons_of_mem _ (ih h)

theorem index_lt_of_find? {fs : Files} {path : String} {id : FileId} (h : fs.find? path = some id) :
    id.index < fs.contents.size := by
  obtain ⟨name, -, hlookup⟩ := Option.bind_eq_some_iff.mp h
  exact fs.index_lt _ (mem_of_lookup hlookup)

/-- **A file that was written has the bytes written.** -/
theorem read?_of_write {fs fs' : Files} {path : String} {data : Bytes}
    (h : fs.write path data = .ok fs') : fs'.read? path = some data := by
  unfold write at h
  cases hfind : fs.find? path with
  | some id =>
    rw [hfind] at h
    cases h
    have hfind' : (fs.setContents id data).find? path = some id := hfind
    rw [read?, hfind', Option.map_some, read_setContents_self fs (index_lt_of_find? hfind)]
  | none =>
    rw [hfind] at h
    cases hname : nameOf? path with
    | none =>
      rw [hname] at h
      cases h
    | some name =>
      rw [hname] at h
      -- a new file goes into the directory itself, and not into one below
      by_cases hslash : name.contains '/' = true
      · simp only [hslash, if_true] at h
        cases h
      · simp only [hslash, Bool.false_eq_true, if_false] at h
        cases h
        have hfind' : (fs.add name data).find? path = some ⟨fs.contents.size⟩ := by
          simp [find?, hname, add]
        rw [read?, hfind', Option.map_some]
        simp [add, read, buffer]

/-- Whether a file can be written is not a matter of its bytes. -/
theorem write_cases (fs : Files) (path : String) :
    (∃ e, ∀ data, fs.write path data = .error e) ∨ ∀ data, ∃ fs', fs.write path data = .ok fs' := by
  unfold write
  cases fs.find? path with
  | some id => exact .inr fun data => ⟨_, rfl⟩
  | none =>
    cases nameOf? path with
    | none => exact .inl ⟨_, fun _ => rfl⟩
    | some name =>
      cases hslash : name.contains '/' with
      | true => exact .inl ⟨_, fun data => by simp only [hslash, if_true]; rfl⟩
      | false =>
        exact .inr fun data =>
          ⟨fs.add name data, by simp only [hslash, Bool.false_eq_true, if_false]⟩

theorem write_eq_error {fs : Files} {path : String} {data : Bytes} {e : Failure}
    (h : fs.write path data = .error e) (data' : Bytes) : fs.write path data' = .error e := by
  obtain ⟨e', herror⟩ | hok := fs.write_cases path
  · rw [herror] at h ⊢
    exact h
  · obtain ⟨fs', hwrite⟩ := hok data
    rw [hwrite] at h
    cases h

theorem write_of_name (fs : Files) {path name : String} (hname : nameOf? path = some name)
    (hslash : name.contains '/' = false) (data : Bytes) : ∃ fs', fs.write path data = .ok fs' := by
  unfold write
  cases hfind : fs.find? path with
  | some id => exact ⟨_, rfl⟩
  | none => exact ⟨fs.add name data, by simp only [hname, hslash, Bool.false_eq_true, if_false]⟩

/-- A file that can be read can be opened. -/
theorem openFile_of_read? {fs : Files} {path : String} {data : Bytes}
    (h : fs.read? path = some data) :
    ∃ id, fs.openFile path = .ok id ∧ fs.read id = data := by
  obtain ⟨id, hfind, hread⟩ := Option.map_eq_some_iff.mp h
  exact ⟨id, by rw [openFile, hfind]; rfl, hread⟩

theorem readRange_of_append {fs : Files} {id : FileId} (front part rest : Bytes)
    (h : fs.read id = front ++ (part ++ rest)) :
    fs.readRange id front.length part.length = .ok (.ofList part) := by
  have hpart : ((fs.read id).drop front.length).take part.length = part := by
    rw [h, List.drop_left, List.take_left]
  rw [readRange_eq, hpart, if_pos rfl]

end Columnar.Files
