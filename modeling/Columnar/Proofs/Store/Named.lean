import Columnar.Proofs.Store.Transparent

/-!
# Errors that name the file

What a chunk store reads may have changed since the file was opened, so reading a chunk can fail
after all. Whether the error says in which file depends on where it comes from.

**Naming** (`Error.Names`). An error names a file if it is wrapped in the path, at whatever depth.

**What stays** (`perform_eq`). While a store is not closed only its cache changes: path, specs,
index and file are those that were opened, whatever is read and whatever becomes of the files.

**Where an error comes from** (`BlockRange.Within`, `loadBlock_cases`). While the file still has all
bytes of a block, they are read, and only decoding them can fail; this error is wrapped in the path.
If the file has become too short, reading itself fails, and this error is not.

Main result: `readChunk_names`.
-/

namespace Columnar

/-- The error is wrapped in this path somewhere around its cause. -/
def Error.Names (path : String) : Error → Prop
  | .atPath p cause => p = path ∨ cause.Names path
  | .nested cause => cause.Names path
  | _ => False

/-- A file of this size has all bytes of the block. -/
def BlockRange.Within (r : BlockRange) (size : Nat) : Prop :=
  r.length = 0 ∨ r.offset + r.length ≤ size

instance (r : BlockRange) (size : Nat) : Decidable (r.Within size) :=
  inferInstanceAs (Decidable (_ ∨ _))

namespace DiskStore

variable {d : DiskStore} {fs : Files} {file : FileId} {path : String} {specs : List ChunkSpec}
  {s : DiskStore × Files} {e : Event} {events : List Event} {r : BlockRange}

/-! ## What stays -/

/-- **Only the cache changes** while a store is open. -/
theorem perform_eq (he : e ≠ .close) : (perform e s).1 = { s.1 with cache := (perform e s).1.cache }
    := by
  obtain ⟨d, fs⟩ := s
  cases e with
  | read batch column =>
    have hreads := readChunk_reads d fs batch column
    rw [perform]
    generalize readChunk batch column (d, fs) = result at hreads
    cases hreads <;> rfl
  | evict keep => rfl
  | change fs' => rfl
  | close => exact absurd rfl he

theorem performAll_eq (hopen : Event.close ∉ events) :
    (performAll events s).1 = { s.1 with cache := (performAll events s).1.cache } := by
  induction events generalizing s with
  | nil => rfl
  | cons e events ih =>
    obtain ⟨hne, hopen⟩ := List.ne_and_not_mem_of_not_mem_cons hopen
    rw [performAll, ih hopen, perform_eq hne.symm]

/-! ## Where an error comes from -/

/-- The bytes of a block are read exactly if the file has all of them. -/
theorem readRange_cases (fs : Files) (file : FileId) (r : BlockRange) :
    (r.Within (fs.size file) ∧ ∃ block, fs.readRange file r.offset r.length = .ok block) ∨
      ¬ r.Within (fs.size file) ∧ fs.readRange file r.offset r.length = Outcome.fail .io := by
  have hsize : ((fs.buffer file).slice r.offset (r.offset + r.length)).size =
      min (r.offset + r.length) (fs.size file) - r.offset := Buffer.size_slice _ _ _
  by_cases h : r.Within (fs.size file)
  · refine .inl ⟨h, _, if_pos ?_⟩
    rw [hsize]
    unfold BlockRange.Within at h
    omega
  · refine .inr ⟨h, if_neg ?_⟩
    rw [hsize]
    unfold BlockRange.Within at h
    omega

/-- **Reading and decoding a block**: an error that names the file, unless the file has become too
short. -/
theorem loadBlock_cases (path : String) (fs : Files) (file : FileId) (spec : ChunkSpec) (rows : Nat)
    (r : BlockRange) :
    (r.Within (fs.size file) ∧ ((∃ c, loadBlock path fs file spec rows r = .ok c) ∨
        ∃ cause, loadBlock path fs file spec rows r = Outcome.fail (.atPath path cause))) ∨
      ¬ r.Within (fs.size file) ∧ loadBlock path fs file spec rows r = Outcome.fail .io := by
  obtain ⟨hwithin, block, hblock⟩ | ⟨hshort, hio⟩ := readRange_cases fs file r
  · refine .inl ⟨hwithin, ?_⟩
    rw [loadBlock, hblock, Outcome.ok_bind]
    obtain ⟨c, hc, -⟩ | ⟨cause, hcause⟩ := (Chunk.decodeBlock_meets spec rows block).ok_or_fail
    · rw [hc]
      exact .inl ⟨c, rfl⟩
    · rw [hcause]
      exact .inr ⟨cause, rfl⟩
  · refine .inr ⟨hshort, ?_⟩
    rw [loadBlock, hio]
    rfl

theorem readChunk_fresh {i j rows : Nat} {spec : ChunkSpec}
    (hlocate : d.locate i j = .ok (file, rows, r)) (hspec : d.specs[j]? = some spec)
    (hfresh : d.cache.find? i j = none) :
    (readChunk i j (d, fs)).1 =
      Outcome.mapError .nested (loadBlock d.path fs file spec rows r) := by
  have hload : d.loadChunk fs i j =
      Outcome.mapError .nested (loadBlock d.path fs file spec rows r) := by
    simp only [loadChunk, hlocate, Outcome.ok_bind, hspec, Outcome.ofIndex]
  have hreads := readChunk_reads d fs i j
  generalize readChunk i j (d, fs) = result at hreads
  cases hreads with
  | refused he =>
    rw [hlocate] at he
    cases he
  | cached _ hfind =>
    rw [hfresh] at hfind
    cases hfind
  | loaded _ _ hc => exact hc.symm.trans hload
  | failed _ _ he => exact he.symm.trans hload

/-! ## What is read -/

/-- **A chunk of the index that is not in the cache is read from the file as it has become**, unless
the store has been closed. -/
theorem readChunk_after_events (hopen : openFile fs path specs = .ok d)
    (hfile : fs.find? path = some file) (hclose : Event.close ∉ events) {i j : Nat} {b : BatchIndex}
    (hb : d.index[i]? = some b) (hr : b.blocks[j]? = some r)
    (hfresh : (performAll events (d, fs)).1.cache.find? i j = none) :
    ∃ spec, specs[j]? = some spec ∧ (readChunk i j (performAll events (d, fs))).1 =
      Outcome.mapError .nested
        (loadBlock path (performAll events (d, fs)).2 file spec b.rows r) := by
  have hafter : (performAll events (d, fs)).1 = { d with cache := _ } := performAll_eq hclose
  generalize performAll events (d, fs) = s at hafter hfresh ⊢
  obtain ⟨d', fs'⟩ := s
  replace hafter : d' = { d with cache := d'.cache } := hafter
  obtain ⟨_, tail, index, hnumbered, hfind, hindexed, rfl⟩ := openFile_eq_ok hopen
  rw [hfile] at hfind
  cases hfind
  have hlocate : d'.locate i j = .ok (file, b.rows, r) := by
    rw [hafter]
    exact locate_eq_ok.mpr ⟨rfl, b, hb, rfl, hr⟩
  have hlt : j < specs.length := by
    rw [← hindexed.widths_eq b (List.mem_of_getElem? (by simpa using hb))]
    exact (List.getElem?_eq_some_iff.mp hr).1
  have hspec : d'.specs[j]? = some specs[j] := by
    rw [hafter]
    exact List.getElem?_eq_getElem hlt
  have hpath : d'.path = path := by rw [hafter]
  refine ⟨specs[j], List.getElem?_eq_getElem hlt, ?_⟩
  rw [readChunk_fresh hlocate hspec hfresh, hpath]

/-- **Reading a chunk fails with an error that names the file, as long as the file has all bytes of
its block.**

Let a store be opened on a file, and let anything happen to the file and to the store but that it is
closed. A chunk of the index that is not in the cache is then read from the file as it has become.
If this has all bytes of the block, the chunk is read or the error names the file, whatever the
bytes are. If the file is too short by now, the chunk is not read, and the error is an I/O error
that names no file at all. -/
theorem readChunk_names (hopen : openFile fs path specs = .ok d)
    (hfile : fs.find? path = some file) (hclose : Event.close ∉ events) {i j : Nat} {b : BatchIndex}
    (hb : d.index[i]? = some b) (hr : b.blocks[j]? = some r)
    (hfresh : (performAll events (d, fs)).1.cache.find? i j = none) :
    (r.Within ((performAll events (d, fs)).2.size file) →
      (∃ c, (readChunk i j (performAll events (d, fs))).1 = .ok c) ∨
        ∃ e, (readChunk i j (performAll events (d, fs))).1 = Outcome.fail e ∧ e.Names path) ∧
    (¬ r.Within ((performAll events (d, fs)).2.size file) →
      ∃ e, (readChunk i j (performAll events (d, fs))).1 = Outcome.fail e ∧
        ∀ path', ¬ e.Names path') := by
  obtain ⟨spec, -, hread⟩ := readChunk_after_events hopen hfile hclose hb hr hfresh
  rw [hread]
  obtain ⟨hwithin, ⟨c, hc⟩ | ⟨cause, hcause⟩⟩ | ⟨hshort, hio⟩ :=
    loadBlock_cases path (performAll events (d, fs)).2 file spec b.rows r
  · rw [hc]
    exact ⟨fun _ => .inl ⟨c, rfl⟩, fun hshort => absurd hwithin hshort⟩
  · rw [hcause]
    exact ⟨fun _ => .inr ⟨_, rfl, .inl rfl⟩, fun hshort => absurd hwithin hshort⟩
  · rw [hio]
    exact ⟨fun hwithin => absurd hwithin hshort, fun _ => ⟨_, rfl, fun _ => id⟩⟩

/-- The trailer of the first block is overwritten: there is no such layout. -/
def sampleOverwritten : Files := sampleHalved.patch ⟨0⟩ 18 [9]

/-- The file is cut off within the first block. -/
def sampleTruncated : Files := sampleHalved.resize ⟨0⟩ 20

theorem openFile_sampleHalved : ∃ d,
    openFile sampleHalved "t" [.plain .rowKey, .plain .rowKey] = .ok d ∧
      d.index[0]? = some ⟨1, [⟨8, 26⟩, ⟨34, 0⟩]⟩ ∧ d.cache.find? 0 0 = none := by
  have hfile : sampleHalved.find? "t" = some ⟨0⟩ := by cbv
  have hindex : readIndex sampleHalved ⟨0⟩ [.plain .rowKey, .plain .rowKey] =
      .ok [⟨1, [⟨8, 26⟩, ⟨34, 0⟩]⟩] := by cbv
  exact ⟨_, openFile_of_readIndex (Outcome.ofOption_eq_ok.mpr hfile) hindex, rfl,
    ChunkCache.find?_empty 0 0⟩

theorem readChunk_names_sample :
    ∃ d, openFile sampleHalved "t" [.plain .rowKey, .plain .rowKey] = .ok d ∧
      (∃ e, (readChunk 0 0 (performAll [.change sampleOverwritten] (d, sampleHalved))).1 =
        Outcome.fail e ∧ e.Names "t") ∧
      ∃ e, (readChunk 0 0 (performAll [.change sampleTruncated] (d, sampleHalved))).1 =
        Outcome.fail e ∧ ∀ path, ¬ e.Names path := by
  obtain ⟨d, hopen, hb, hfresh⟩ := openFile_sampleHalved
  have hfile : sampleHalved.find? "t" = some ⟨0⟩ := by cbv
  have hclose : ∀ fs', Event.close ∉ [Event.change fs'] := by simp
  have hwithin : BlockRange.Within ⟨8, 26⟩ (sampleOverwritten.size ⟨0⟩) := by decide +kernel
  have hshort : ¬ BlockRange.Within ⟨8, 26⟩ (sampleTruncated.size ⟨0⟩) := by decide +kernel
  refine ⟨d, hopen, ?_, (readChunk_names hopen hfile (hclose _) hb rfl hfresh).2 hshort⟩
  refine ((readChunk_names hopen hfile (hclose sampleOverwritten) hb rfl hfresh).1
    hwithin).resolve_left ?_
  rintro ⟨c, hc⟩
  obtain ⟨spec, hspec, hread⟩ :=
    readChunk_after_events hopen hfile (hclose sampleOverwritten) hb rfl hfresh
  cases hspec
  have hdecode : (Outcome.mapError .nested
      (loadBlock "t" sampleOverwritten ⟨0⟩ (.plain .rowKey) 1 ⟨8, 26⟩)).isOk = false := by
    decide +kernel
  cases hdecode.symm.trans (congrArg Except.isOk (hread.symm.trans hc))

/-- A block that is cut off is refused without a word about the file. -/
theorem truncated_block_names_nothing :
    ∃ d, openFile sampleHalved "t" [.plain .rowKey, .plain .rowKey] = .ok d ∧
      (readChunk 0 0 (performAll [.change sampleTruncated] (d, sampleHalved))).1 =
        Outcome.fail (.nested .io) ∧
      ¬ (Error.nested .io).Names "t" := by
  obtain ⟨d, hopen, hb, hfresh⟩ := openFile_sampleHalved
  have hfile : sampleHalved.find? "t" = some ⟨0⟩ := by cbv
  have hclose : Event.close ∉ [Event.change sampleTruncated] := by simp
  obtain ⟨spec, hspec, hread⟩ := readChunk_after_events hopen hfile hclose hb rfl hfresh
  cases hspec
  exact ⟨d, hopen, hread.trans (by cbv), id⟩

end DiskStore

end Columnar
