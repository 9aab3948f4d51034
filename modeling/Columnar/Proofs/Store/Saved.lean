import Mathlib
import Columnar.Proofs.Store.ChunkFile

/-!
# Saved stores

**Writing** (`MemoryStore.Written`). A memory store is reached by writing batches of uniform chunks,
some of which it may refuse. Its batches are all of its columns (`Written.wellFormed`).

**Reading** (`DiskStore.Reached`). An open chunk file goes on by reading chunks, wherever they are,
and by dropping chunks from its cache.

Main results: `saved_store_agrees`, the disk store of a saved memory store cannot be told from it by
reading, and `saved_store_otherSpecs`.
-/

namespace Columnar

namespace MemoryStore

theorem save_apply {s : MemoryStore} (hopen : s.closed = false) (path : String) (fs : Files) :
    s.save path fs =
      match fs.write path (ChunkFile.written s.specs s.checksum s.batches.toList) with
      | .error e => (Outcome.mapError (.atPath path) (.error e), fs)
      | .ok fs' => (Outcome.mapError (.atPath path)
          ((ChunkFile.encode s.specs s.checksum s.batches.toList).map fun _ => ()), fs') := by
  simp only [save, hopen, Bool.false_eq_true, if_false, Action.mapError_apply, Action.bind_apply,
    Action.get_apply, Action.liftM_apply]
  cases fs.write path (ChunkFile.written s.specs s.checksum s.batches.toList) with
  | error e => rfl
  | ok fs' =>
    simp only [Action.set_apply]
    cases ChunkFile.encode s.specs s.checksum s.batches.toList <;> rfl

/-- A store that was saved is a chunk file of its batches. -/
theorem read?_of_save {s : MemoryStore} {path : String} {fs fs' : Files}
    (h : s.save path fs = (.ok (), fs')) :
    s.closed = false ∧ ∃ data, ChunkFile.encode s.specs s.checksum s.batches.toList = .ok data ∧
      fs'.read? path = some data := by
  cases hclosed : s.closed with
  | true =>
    simp only [save, hclosed, if_true] at h
    cases h
  | false =>
    rw [save_apply hclosed] at h
    rcases hdata : ChunkFile.encode s.specs s.checksum s.batches.toList with e | data
    · -- the file ends early, and so does saving
      rw [hdata] at h
      split at h
      · exact absurd (Prod.mk.inj h).1 (by rename_i e' _; cases e' <;> exact nofun)
      · exact absurd (Prod.mk.inj h).1 (by cases e <;> exact nofun)
    · rw [hdata, ChunkFile.written, hdata] at h
      rcases hwrite : fs.write path data with e | fs₁ <;> simp only [hwrite] at h
      · cases e <;> cases h
      cases h
      exact ⟨rfl, data, rfl, Files.read?_of_write hwrite⟩

/-- A store is not saved because it is closed, or with an error that names the path. -/
theorem save_raises (s : MemoryStore) (path : String) (fs : Files) :
    (s.save path fs).1.Raises fun e =>
      e = .closed .chunkStore ∨ ∃ cause, e = .atPath path cause := by
  unfold save
  split
  · exact .inl rfl
  · exact Outcome.raises_mapError fun e => .inr ⟨e, rfl⟩

theorem save_of_encode {s : MemoryStore} (hopen : s.closed = false) {path name : String}
    (hname : Files.nameOf? path = some name) (hslash : name.contains '/' = false) {data : Bytes}
    (hdata : ChunkFile.encode s.specs s.checksum s.batches.toList = .ok data) (fs : Files) :
    ∃ fs', s.save path fs = (.ok (), fs') := by
  obtain ⟨fs', hwrite⟩ := fs.write_of_name hname hslash data
  refine ⟨fs', ?_⟩
  rw [save_apply hopen, ChunkFile.written, hdata]
  simp only [hwrite]
  rfl

/-- The stores that are reached by writing batches of uniform chunks. -/
inductive Written (specs : List ChunkSpec) (checksum : ChecksumType) : MemoryStore → Prop
  | empty : Written specs checksum (.empty specs checksum)
  | write {s : MemoryStore} (h : Written specs checksum s) (b : Batch)
    (hb : ∀ c ∈ b.chunks, c.Uniform b.rowCount) : Written specs checksum (MemoryStore.write b s).2

variable {specs : List ChunkSpec} {checksum : ChecksumType} {s : MemoryStore}

theorem specs_of_mismatch? {cs : List Chunk} {specs : List ChunkSpec}
    (hlen : cs.length = specs.length) (h : mismatch? cs specs = none) :
    cs.map Chunk.spec = specs := by
  induction cs generalizing specs with
  | nil => exact (List.eq_nil_of_length_eq_zero hlen.symm).symm
  | cons c cs ih =>
    cases specs with
    | nil => cases hlen
    | cons spec specs =>
      rw [mismatch?] at h
      split at h
      · rename_i hspec
        rw [List.map_cons, hspec, ih (Nat.succ.inj hlen) h]
      · cases h

theorem append_eq_ok {s s' : MemoryStore} {b : Batch} (h : s.append b = .ok s') :
    b.chunks.map Chunk.spec = s.specs ∧ s' = { s with batches := s.batches.push b } := by
  unfold append at h
  by_cases hlen : b.chunks.length = s.specs.length
  · simp only [hlen, ne_eq, not_true, if_false] at h
    cases hm : mismatch? b.chunks s.specs with
    | some p =>
      rw [hm] at h
      cases h
    | none =>
      cases hclosed : s.closed with
      | true =>
        simp only [hm, hclosed, if_true] at h
        cases h
      | false =>
        simp only [hm, hclosed, Bool.false_eq_true, if_false] at h
        cases h
        exact ⟨specs_of_mismatch? hlen hm, rfl⟩
  · simp only [ne_eq, hlen, not_false_iff, if_true] at h
    cases h

/-- **The batches of a written store are well formed.** -/
theorem Written.wellFormed (h : Written specs checksum s) :
    s.specs = specs ∧ s.checksum = checksum ∧ s.closed = false ∧
      ∀ b ∈ s.batches.toList, b.WellFormed specs := by
  induction h with
  | empty => exact ⟨rfl, rfl, rfl, fun b hb => absurd hb List.not_mem_nil⟩
  | @write s h b hb ih =>
    obtain ⟨hspecs, hchecksum, hopen, hwell⟩ := ih
    unfold MemoryStore.write
    cases happend : s.append b with
    | error e => exact ⟨hspecs, hchecksum, hopen, hwell⟩
    | ok s' =>
      obtain ⟨hb', rfl⟩ := append_eq_ok happend
      refine ⟨hspecs, hchecksum, hopen, ?_⟩
      intro b' hmem
      rw [AppendLog.toList_push] at hmem
      rcases List.mem_append.mp hmem with hmem | hmem
      · exact hwell b' hmem
      · rw [List.mem_singleton.mp hmem]
        exact ⟨hb'.trans hspecs, hb⟩

end MemoryStore

namespace DiskStore

/-- The stores that an open chunk file goes through while it is read. -/
inductive Reached (fs : Files) (d : DiskStore) : DiskStore → Prop
  | refl : Reached fs d d
  | read {d' : DiskStore} (h : Reached fs d d') (batch column : Nat) :
    Reached fs d (DiskStore.readChunk batch column (d', fs)).2.1
  | evict {d' : DiskStore} (h : Reached fs d d') (keep : Nat × Nat → Bool) :
    Reached fs d (d'.evict keep)

theorem Reached.mirrors {fs : Files} {bs : List Batch} {d d' : DiskStore} (hd : d.Mirrors fs bs)
    (h : Reached fs d d') : d'.Mirrors fs bs := by
  induction h with
  | refl => exact hd
  | read h i j ih =>
    obtain ⟨d'', hread, hd''⟩ := ih.readChunk i j
    rw [hread]
    exact hd''
  | evict h keep ih => exact ih.evict keep

end DiskStore

/-! ## Disk against memory -/

theorem countRows_congr {σ τ : Type} {r : ChunkReader σ} {r' : ChunkReader τ} {s : σ} {t : τ}
    (hbatches : r.batchCount s = r'.batchCount t) (hrows : ∀ i, r.rowCount s i = r'.rowCount t i) :
    r.countRows s = r'.countRows t := by
  simp only [ChunkReader.countRows, ChunkReader.totalRows, hbatches, hrows]

/-- **A saved store is read as if it were still in memory.** The file that a memory store was saved
as opens for the specs of the store, and in whatever state it gets, reading it gives the batches of
the store and the same errors for all others. For any other specs it does not open. -/
theorem saved_store_agrees {specs : List ChunkSpec} {checksum : ChecksumType} {s : MemoryStore}
    (hs : s.Written specs checksum) (hflat : ∀ spec ∈ specs, spec.IsFlat)
    (hcolumns : specs.length < wordLimit) (hbatches : s.batches.size < wordLimit)
    (hrows : ∀ b ∈ s.batches.toList, b.rowCount < wordLimit) {path : String} {fs fs' : Files}
    (hsave : s.save path fs = (.ok (), fs'))
    (hsize : ∀ data, fs'.read? path = some data → data.length < longLimit) :
    (∃ d, DiskStore.openFile fs' path specs = .ok d ∧ ∀ d', DiskStore.Reached fs' d d' →
      DiskStore.reader.batchCount (d', fs') = MemoryStore.reader.batchCount s ∧
      (∀ i, DiskStore.reader.rowCount (d', fs') i = MemoryStore.reader.rowCount s i) ∧
      DiskStore.reader.countRows (d', fs') = MemoryStore.reader.countRows s ∧
      ∀ i j, (DiskStore.reader.readChunk i j (d', fs')).1 =
        (MemoryStore.reader.readChunk i j s).1) ∧
    ∀ specs', specs' ≠ specs → DiskStore.openFile fs' path specs' =
      Outcome.fail (.atPath path (.decode (.fileSpecs specs specs'))) := by
  obtain ⟨hspecs, -, hopen, hwell⟩ := hs.wellFormed
  obtain ⟨-, data, hdata, hread⟩ := MemoryStore.read?_of_save hsave
  rw [hspecs] at hdata
  have hsavable : Savable specs s.batches.toList :=
    ⟨hwell, hflat, hcolumns, s.batches.size_eq ▸ hbatches, hrows⟩
  refine ⟨?_, fun specs' hne =>
    DiskStore.openFile_otherSpecs hsavable hdata hread (hsize data hread) hne⟩
  obtain ⟨d, hd, hmirrors⟩ := DiskStore.openFile_mirrors hsavable hdata hread (hsize data hread)
  refine ⟨d, hd, ?_⟩
  intro d' hreached
  have hd' := hreached.mirrors hmirrors
  have hcount : DiskStore.reader.batchCount (d', fs') = MemoryStore.reader.batchCount s :=
    hd'.batchCount_eq.trans s.batches.size_eq.symm
  have hrowCount : ∀ i, DiskStore.reader.rowCount (d', fs') i = MemoryStore.reader.rowCount s i :=
    fun i => (hd'.rowCount_eq i).trans (s.rowCount_eq i).symm
  refine ⟨hcount, hrowCount, countRows_congr hcount hrowCount, ?_⟩
  intro i j
  obtain ⟨d'', hreadChunk, -⟩ := hd'.readChunk i j
  show (DiskStore.readChunk i j (d', fs')).1 = s.readChunk i j
  rw [hreadChunk, MemoryStore.readChunk_eq hopen]

/-- Doubles with a supplement, and texts. -/
def sampleSpecs : List ChunkSpec := [.paired (.plain .double), .plain .string]

/-- A batch whose values are a NaN, a missing value and a negative zero. -/
def sampleBatch : Batch :=
  ⟨3, [.paired (.plain .double (.ofList [⟨⟨0x7FF8000000000001⟩, false⟩, ⟨.zero, true⟩,
      ⟨⟨0x8000000000000000⟩, false⟩]))
      (.ofList [⟨[], true⟩, ⟨[0x78, 0x79], false⟩, ⟨[0x80], false⟩]),
    .plain .string (.ofList [⟨[0x61], false⟩, ⟨[], true⟩, ⟨[0x62, 0x63], false⟩])]⟩

/-- A store that took a batch and one without rows, and refused one without columns. -/
def sampleStore : MemoryStore :=
  (MemoryStore.write ⟨0, sampleSpecs.map (·.fresh 0)⟩ (MemoryStore.write ⟨4, []⟩
    (MemoryStore.write sampleBatch (.empty sampleSpecs .none)).2).2).2

theorem sampleStore_written : sampleStore.Written sampleSpecs .none := by
  refine .write (.write (.write .empty sampleBatch ?_) ⟨4, []⟩ ?_) _ ?_
  · intro c hc
    simp only [sampleBatch, List.mem_cons, List.not_mem_nil, or_false] at hc
    rcases hc with rfl | rfl
    · exact ⟨⟨rfl, rfl⟩, ⟨rfl, rfl⟩⟩
    · exact ⟨rfl, rfl⟩
  · exact fun c hc => absurd hc List.not_mem_nil
  · intro c hc
    obtain ⟨spec, -, rfl⟩ := List.mem_map.mp hc
    exact spec.uniform_fresh 0

theorem saved_store_agrees_sample :
    ∃ fs d, sampleStore.save "t" .empty = (.ok (), fs) ∧
      DiskStore.openFile fs "t" sampleSpecs = .ok d ∧ ∀ d', DiskStore.Reached fs d d' →
        DiskStore.reader.batchCount (d', fs) = 2 ∧
        (DiskStore.reader.readChunk 0 1 (d', fs)).1 =
          .ok (.plain .string (.ofList [⟨[0x61], false⟩, ⟨[], true⟩, ⟨[0x62, 0x63], false⟩])) ∧
        (DiskStore.reader.readChunk 2 0 (d', fs)).1 = Outcome.fail (.notFound .batch "2") := by
  have hencode : (ChunkFile.encode sampleStore.specs sampleStore.checksum
      sampleStore.batches.toList).toOption.map List.length = some 256 := by decide +kernel
  cases hdata : ChunkFile.encode sampleStore.specs sampleStore.checksum
      sampleStore.batches.toList with
  | error e =>
    rw [hdata] at hencode
    cases hencode
  | ok data =>
    rw [hdata] at hencode
    have hlength : data.length = 256 := Option.some.inj hencode
    obtain ⟨fs, hsave⟩ := MemoryStore.save_of_encode (s := sampleStore) rfl
      (show Files.nameOf? "t" = some "t" by cbv) (by cbv) hdata .empty
    obtain ⟨-, data', hdata', hread⟩ := MemoryStore.read?_of_save hsave
    obtain rfl : data = data' := Except.ok.inj (hdata.symm.trans hdata')
    obtain ⟨⟨d, hopen, hagrees⟩, -⟩ := saved_store_agrees sampleStore_written
      (by decide) (by decide) (by decide) (by decide) hsave
      (fun data' h => by
        obtain rfl : data = data' := Option.some.inj (hread.symm.trans h)
        rw [hlength]
        decide)
    refine ⟨fs, d, hsave, hopen, ?_⟩
    intro d' hd'
    obtain ⟨hcount, -, -, hchunks⟩ := hagrees d' hd'
    exact ⟨hcount, hchunks 0 1, hchunks 2 0⟩

end Columnar
