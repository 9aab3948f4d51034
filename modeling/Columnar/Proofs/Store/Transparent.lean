import Mathlib
import Columnar.Proofs.Files
import Columnar.Proofs.Store.Opened

/-!
# The cache of a chunk store cannot be seen

A chunk store keeps what it has read, and may drop any of it at any time. As long as its file stays
as it was, this makes no difference to what is read.

**Events** (`DiskStore.Event`). Chunks are read, by however many cursors and in whatever order,
chunks are dropped from the cache, other files change, and the store is closed.

**While the store is open** (`Faithful`). The file and its index are those that were opened, and
every chunk in the cache is what its own block decodes to. Every event but closing keeps this
(`Faithful.perform`): a chunk is only ever kept under the key of its own block, and an error is not
kept at all.

**Once it is closed** it has no file any more, and nothing gives it one (`perform_closed`).

Main result: `readChunk_after`.
-/

namespace Columnar.DiskStore

/-- What happens to a chunk store. -/
inductive Event
  | read (batch column : Nat)
  /-- The cache drops what is not to be kept. -/
  | evict (keep : Nat × Nat → Bool)
  /-- The files become these. -/
  | change (fs : Files)
  | close

/-- What an event makes of the store and the files. -/
def perform : Event → DiskStore × Files → DiskStore × Files
  | .read batch column, s => (readChunk batch column s).2
  | .evict keep, (d, fs) => (d.evict keep, fs)
  | .change fs, (d, _) => (d, fs)
  | .close, (d, fs) => (d.close, fs)

/-- What events make of the store and the files, one after the other. -/
def performAll : List Event → DiskStore × Files → DiskStore × Files
  | [], s => s
  | e :: events, s => performAll events (perform e s)

variable {d : DiskStore} {fs fs' : Files} {file : FileId} {path : String} {specs : List ChunkSpec}
  {s : DiskStore × Files} {e : Event} {events : List Event}

/-! ## While the store is open -/

/-- The store reads the file that was opened, and has in its cache what is read from it. -/
structure Faithful (d : DiskStore) (fs : Files) (file : FileId) (s : DiskStore × Files) : Prop where
  open_file : s.1.file? = some file
  path_eq : s.1.path = d.path
  specs_eq : s.1.specs = d.specs
  index_eq : s.1.index = d.index
  read_eq : s.2.read file = fs.read file
  cached : ∀ {i j : Nat} {c : Chunk}, s.1.cache.find? i j = some c → d.loadChunk fs i j = .ok c

/-- What a block holds depends on the bytes of its file alone. -/
theorem loadBlock_congr (h : fs'.read file = fs.read file) (spec : ChunkSpec) (rows : Nat)
    (r : BlockRange) :
    loadBlock path fs' file spec rows r = loadBlock path fs file spec rows r := by
  rw [loadBlock, loadBlock, Files.readRange_eq, Files.readRange_eq, h]

theorem Faithful.locate_eq (h : Faithful d fs file s) (hd : d.file? = some file) (i j : Nat) :
    s.1.locate i j = d.locate i j := by
  rw [locate, locate, h.open_file, hd, h.index_eq]

theorem Faithful.loadChunk_eq (h : Faithful d fs file s) (hd : d.file? = some file) (i j : Nat) :
    s.1.loadChunk s.2 i j = d.loadChunk fs i j := by
  rw [loadChunk, loadChunk, h.locate_eq hd, h.specs_eq, h.path_eq]
  cases hlocate : d.locate i j with
  | error e => rfl
  | ok p =>
    obtain ⟨file', rows, r⟩ := p
    have hfile := (locate_eq_ok.mp hlocate).1
    rw [hd] at hfile
    cases hfile
    simp only [Outcome.ok_bind, loadBlock_congr h.read_eq]

/-- **Reading a chunk** gives what its block holds, and the store stays as faithful as it was. -/
theorem Faithful.readChunk (h : Faithful d fs file s) (hd : d.file? = some file) (i j : Nat) :
    (DiskStore.readChunk i j s).1 = d.loadChunk fs i j ∧
      Faithful d fs file (DiskStore.readChunk i j s).2 := by
  have hload := h.loadChunk_eq hd i j
  obtain ⟨d', fs'⟩ := s
  have hreads := readChunk_reads d' fs' i j
  generalize DiskStore.readChunk i j (d', fs') = result at hreads
  cases hreads with
  | refused hlocate =>
    rw [loadChunk_of_locate hlocate] at hload
    exact ⟨hload, h⟩
  | cached hlocate hfind => exact ⟨(h.cached hfind).symm, h⟩
  | failed hlocate hfind he => exact ⟨he.symm.trans hload, h⟩
  | @loaded p c hlocate hfind hc =>
    rw [hc] at hload
    refine ⟨hload, h.open_file, h.path_eq, h.specs_eq, h.index_eq, h.read_eq, ?_⟩
    intro i' j' c' hfind'
    rw [ChunkCache.find?_insert] at hfind'
    split at hfind'
    · rename_i hkey
      cases hfind'
      rw [hkey.1, hkey.2]
      exact hload.symm
    · exact h.cached hfind'

/-- **Whatever happens but closing**, the store stays faithful if its file stays as it is. -/
theorem Faithful.perform (h : Faithful d fs file s) (hd : d.file? = some file) (he : e ≠ .close)
    (hstill : ∀ fs', e = .change fs' → fs'.read file = fs.read file) :
    Faithful d fs file (perform e s) := by
  obtain ⟨d', fs'⟩ := s
  cases e with
  | read batch column => exact (h.readChunk hd batch column).2
  | evict keep =>
    refine ⟨h.open_file, h.path_eq, h.specs_eq, h.index_eq, h.read_eq, ?_⟩
    intro i j c hfind
    simp only [DiskStore.perform, evict, ChunkCache.find?_evict] at hfind
    split at hfind
    · exact h.cached hfind
    · cases hfind
  | change fs'' =>
    exact ⟨h.open_file, h.path_eq, h.specs_eq, h.index_eq, hstill fs'' rfl, h.cached⟩
  | close => exact absurd rfl he

theorem Faithful.performAll (h : Faithful d fs file s) (hd : d.file? = some file)
    (hopen : Event.close ∉ events)
    (hstill : ∀ fs', Event.change fs' ∈ events → fs'.read file = fs.read file) :
    Faithful d fs file (performAll events s) := by
  induction events generalizing s with
  | nil => exact h
  | cons e events ih =>
    obtain ⟨hne, hopen⟩ := List.ne_and_not_mem_of_not_mem_cons hopen
    refine ih (h.perform hd hne.symm ?_) hopen ?_
    · rintro fs' rfl
      exact hstill fs' List.mem_cons_self
    · intro fs' hmem
      exact hstill fs' (List.mem_cons_of_mem e hmem)

theorem faithful_of_openFile (hopen : openFile fs path specs = .ok d)
    (hfile : fs.find? path = some file) :
    d.file? = some file ∧ Faithful d fs file (d, fs) := by
  obtain ⟨file', tail, index, hnumbered, hfind, -, rfl⟩ := openFile_eq_ok hopen
  rw [hfile] at hfind
  cases hfind
  refine ⟨rfl, rfl, rfl, rfl, rfl, rfl, ?_⟩
  intro i j c hcached
  rw [ChunkCache.find?_empty] at hcached
  cases hcached

/-! ## Once the store is closed -/

theorem readChunk_closed (h : s.1.file? = none) (i j : Nat) :
    readChunk i j s = (Outcome.fail (.closed .chunkStore), s) := by
  obtain ⟨d, fs⟩ := s
  have hlocate : d.locate i j = Outcome.fail (.closed .chunkStore) := by
    rw [locate, show d.file? = none from h]
  simp only [readChunk, hlocate]
  rfl

/-- **A store that is closed stays closed.** -/
theorem perform_closed (h : s.1.file? = none) (e : Event) : (perform e s).1.file? = none := by
  obtain ⟨d, fs⟩ := s
  cases e with
  | read batch column =>
    rw [perform, readChunk_closed h]
    exact h
  | evict keep => exact h
  | change fs' => exact h
  | close => rfl

theorem performAll_closed (h : s.1.file? = none) (events : List Event) :
    (performAll events s).1.file? = none := by
  induction events generalizing s with
  | nil => exact h
  | cons e events ih => exact ih (perform_closed h e)

theorem closed_of_mem (h : Event.close ∈ events) (s : DiskStore × Files) :
    (performAll events s).1.file? = none := by
  induction events generalizing s with
  | nil => cases h
  | cons e events ih =>
    rcases List.mem_cons.mp h with rfl | h
    · exact performAll_closed (by rfl) events
    · exact ih h (perform e s)

/-! ## What is read -/

/-- **The cache of a chunk store cannot be seen.**

Let a store be opened on a file that stays as it is, and let anything happen to it after that. If it
has not been closed, reading a chunk gives what reading past the cache gave at first. For a batch
and a column of the index that is their own block, read and decoded: the same chunk, or the same
error, which is nested once. If the store has been closed, nothing is read any more. -/
theorem readChunk_after (hopen : openFile fs path specs = .ok d)
    (hfile : fs.find? path = some file)
    (hstill : ∀ fs', Event.change fs' ∈ events → fs'.read file = fs.read file) :
    (Event.close ∉ events →
      (∀ i j, (readChunk i j (performAll events (d, fs))).1 = d.loadChunk fs i j) ∧
      ∀ {i j : Nat} {b : BatchIndex} {r : BlockRange}, d.index[i]? = some b →
        b.blocks[j]? = some r → ∃ spec, specs[j]? = some spec ∧
          (readChunk i j (performAll events (d, fs))).1 =
            Outcome.mapError .nested (loadBlock path fs file spec b.rows r)) ∧
    (Event.close ∈ events → ∀ i j,
      (readChunk i j (performAll events (d, fs))).1 = Outcome.fail (.closed .chunkStore)) := by
  obtain ⟨hd, hstart⟩ := faithful_of_openFile hopen hfile
  constructor
  · intro hclose
    have hafter := hstart.performAll hd hclose hstill
    have hread : ∀ i j, (readChunk i j (performAll events (d, fs))).1 = d.loadChunk fs i j := by
      intro i j
      exact (hafter.readChunk hd i j).1
    refine ⟨hread, ?_⟩
    intro i j b r hb hr
    obtain ⟨_, tail, index, hnumbered, -, hindexed, rfl⟩ := openFile_eq_ok hopen
    have hmem : b ∈ index := List.mem_of_getElem? (by simpa using hb)
    have hlt : j < specs.length := by
      rw [← hindexed.widths_eq b hmem]
      exact (List.getElem?_eq_some_iff.mp hr).1
    have hspec := List.getElem?_eq_getElem hlt
    refine ⟨specs[j], hspec, ?_⟩
    have hlocate : locate ⟨path, specs, index.toArray, _, .empty, hnumbered⟩ i j =
        .ok (file, b.rows, r) := locate_eq_ok.mpr ⟨hd, b, hb, rfl, hr⟩
    rw [hread, loadChunk, hlocate]
    simp only [Outcome.ok_bind, hspec, Outcome.ofIndex]
  · intro hclose i j
    rw [readChunk_closed (closed_of_mem hclose (d, fs))]

/-- A chunk file with one batch of one row and two columns of row keys. The second block is empty.
-/
def sampleHalved : Files :=
  Files.empty.add "t" <| ChunkFile.header ++ [1, 0, 0, 0, 0x61, 0xFE, 1, 0, 0, 0] ++
    Chunk.encodeTrailer .varLength .none 0 ++ BatchIndex.encode ⟨1, [⟨8, 26⟩, ⟨34, 0⟩]⟩ ++
    [.plain .rowKey, .plain .rowKey].flatMap ChunkSpec.encode ++ FileTail.encode ⟨2, 1, 34⟩

/-- Both chunks are asked for, everything is dropped from the cache, and another file is added. -/
def sampleEvents : List Event :=
  [.read 0 0, .read 0 1, .evict fun _ => false, .read 0 0, .change (sampleHalved.add "u" [])]

theorem readChunk_after_sample :
    ∃ d, openFile sampleHalved "t" [.plain .rowKey, .plain .rowKey] = .ok d ∧
      (readChunk 0 0 (performAll sampleEvents (d, sampleHalved))).1 =
        .ok (.plain .rowKey (.ofList [⟨[0x61], false⟩])) ∧
      (readChunk 0 1 (performAll sampleEvents (d, sampleHalved))).1 =
        Outcome.fail (.nested (.atPath "t" (.decode .blockWithoutTrailer))) ∧
      (readChunk 0 0 (performAll (sampleEvents ++ [.close]) (d, sampleHalved))).1 =
        Outcome.fail (.closed .chunkStore) := by
  have hfile : sampleHalved.find? "t" = some ⟨0⟩ := by cbv
  have hindex : readIndex sampleHalved ⟨0⟩ [.plain .rowKey, .plain .rowKey] =
      .ok [⟨1, [⟨8, 26⟩, ⟨34, 0⟩]⟩] := by cbv
  have hopen := openFile_of_readIndex (Outcome.ofOption_eq_ok.mpr hfile) hindex
  have hstill : ∀ fs', Event.change fs' ∈ sampleEvents →
      fs'.read ⟨0⟩ = sampleHalved.read ⟨0⟩ := by
    intro fs' hmem
    simp only [sampleEvents, List.mem_cons, reduceCtorEq, Event.change.injEq, List.not_mem_nil,
      or_false, false_or] at hmem
    subst hmem
    exact sampleHalved.read_add Nat.one_pos "u" []
  have hclose : Event.close ∉ sampleEvents := by simp [sampleEvents]
  obtain ⟨-, hread⟩ := (readChunk_after hopen hfile hstill).1 hclose
  obtain ⟨_, ⟨⟩, hfirst⟩ := hread (i := 0) (j := 0) rfl rfl
  obtain ⟨_, ⟨⟩, hsecond⟩ := hread (i := 0) (j := 1) rfl rfl
  refine ⟨_, hopen, hfirst.trans (by cbv), hsecond.trans (by cbv), ?_⟩
  refine (readChunk_after hopen hfile ?_).2 (by simp) 0 0
  intro fs' hmem
  exact hstill fs' (by simpa using hmem)

end Columnar.DiskStore
