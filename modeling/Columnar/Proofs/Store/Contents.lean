import Columnar.Proofs.Action
import Columnar.Proofs.Chunk.Uniform
import Columnar.Proofs.Cursor.Moves
import Columnar.Store.Disk
import Columnar.Store.Memory

/-!
# The contents of stores

**Reading a chunk file.** A cache key has the lower 32 bits of a batch and of a column. A chunk file
counts both in 32 bits, so for all that is in its index these are the numbers themselves, and no two
blocks share a key (`narrow_of_locate`). A chunk that can be located comes from the cache, or else
from the file, and then it is kept in the cache; otherwise nothing changes (`Reads`).

**Contents.** A store is known by the batches it shows: their number, their row counts, and what
reading a chunk of them gives (`chunkAt`), which is an error for a batch or a column that is not
there.

**Memory stores** show the batches they were given (`MemoryStore.readChunk_eq`). If these are
uniform, so is every chunk that can be read (`MemoryStore.Uniform.readChunk`).

**Disk stores** (`DiskStore.Mirrors`). An open chunk file mirrors some batches if its index has
their shape, every block decodes to its chunk, and so does everything in the cache. Reading a chunk
gives what the batches say and fills the cache with it (`Mirrors.readChunk`); dropping chunks from
the cache changes nothing (`Mirrors.evict`).

**Both are steady** (`MemoryStore.steady_reader`, `DiskStore.steady_reader`). A memory store does not
change when it is read. A chunk file is left alone, and what has been read from it is kept.
-/

namespace Columnar.DiskStore

variable {d : DiskStore} {fs : Files} {i j : Nat} {p : FileId × Nat × BlockRange}

/-! ## Keys -/

theorem narrow_eq {n : Nat} (h : n < wordLimit) : narrow n = n := Nat.mod_eq_of_lt h

theorem locate_eq_ok : d.locate i j = .ok p ↔ d.file? = some p.1 ∧
    ∃ b, d.index[i]? = some b ∧ b.rows = p.2.1 ∧ b.blocks[j]? = some p.2.2 := by
  obtain ⟨file, rows, r⟩ := p
  unfold locate
  cases d.file? with
  | none => simp [Outcome.fail]
  | some file' =>
    cases d.index[i]? with
    | none => simp [Outcome.fail]
    | some b =>
      cases hr : b.blocks[j]? with
      | none => simp [Outcome.fail, hr]
      | some r' => simp [hr]

/-- **What can be located is its own key.** -/
theorem narrow_of_locate (h : d.locate i j = .ok p) : narrow i = i ∧ narrow j = j := by
  obtain ⟨-, b, hb, -, hr⟩ := locate_eq_ok.mp h
  obtain ⟨hi, hget⟩ := Array.getElem?_eq_some_iff.mp hb
  have hj := (List.getElem?_eq_some_iff.mp hr).1
  have hmem : b ∈ d.index.toList := by
    rw [← hget]
    exact Array.mem_toList_iff.mpr (Array.getElem_mem hi)
  exact ⟨narrow_eq (Nat.lt_trans hi d.numbered.batches_lt),
    narrow_eq (Nat.lt_trans hj (d.numbered.columns_lt b hmem))⟩

/-! ## Reading -/

theorem loadChunk_of_locate {e : Failure} (h : d.locate i j = .error e) :
    d.loadChunk fs i j = .error e := by
  rw [loadChunk, h]
  rfl

/-- Everything that reading a chunk can do. -/
inductive Reads (d : DiskStore) (fs : Files) (i j : Nat) :
    Outcome Chunk × (DiskStore × Files) → Prop
  | refused {e : Failure} (hlocate : d.locate i j = .error e) : Reads d fs i j (.error e, (d, fs))
  | cached {p : FileId × Nat × BlockRange} {c : Chunk} (hlocate : d.locate i j = .ok p)
    (hfind : d.cache.find? i j = some c) : Reads d fs i j (.ok c, (d, fs))
  /-- The chunk was not in the cache, but it is now. -/
  | loaded {p : FileId × Nat × BlockRange} {c : Chunk} (hlocate : d.locate i j = .ok p)
    (hfind : d.cache.find? i j = none) (hload : d.loadChunk fs i j = .ok c) :
    Reads d fs i j (.ok c, ({ d with cache := d.cache.insert i j c }, fs))
  | failed {p : FileId × Nat × BlockRange} {e : Failure} (hlocate : d.locate i j = .ok p)
    (hfind : d.cache.find? i j = none) (hload : d.loadChunk fs i j = .error e) :
    Reads d fs i j (.error e, (d, fs))

theorem readChunk_reads (d : DiskStore) (fs : Files) (i j : Nat) :
    Reads d fs i j (readChunk i j (d, fs)) := by
  cases hlocate : d.locate i j with
  | error e =>
    simp only [readChunk, hlocate]
    exact .refused hlocate
  | ok p =>
    obtain ⟨hi, hj⟩ := narrow_of_locate hlocate
    cases hfind : d.cache.find? i j with
    | some c =>
      simp only [readChunk, hlocate, hi, hj, hfind]
      exact .cached hlocate hfind
    | none =>
      cases hload : d.loadChunk fs i j with
      | error e =>
        simp only [readChunk, hlocate, hi, hj, hfind, hload]
        exact .failed hlocate hfind hload
      | ok c =>
        simp only [readChunk, hlocate, hi, hj, hfind, hload]
        exact .loaded hlocate hfind hload

theorem readChunk_disk (d : DiskStore) (fs : Files) (i j : Nat) :
    (readChunk i j (d, fs)).2.2 = fs := by
  have hreads := readChunk_reads d fs i j
  generalize readChunk i j (d, fs) = result at hreads
  cases hreads <;> rfl

end Columnar.DiskStore

namespace Columnar

/-! ## Contents -/

/-- What reading a chunk of some batches gives. -/
def chunkAt (bs : List Batch) (batch column : Nat) : Outcome Chunk :=
  match bs[batch]? with
  | none => Outcome.fail (.notFound .batch (toString batch))
  | some b => Outcome.ofOption (.invalidColumn column) b.chunks[column]?

/-- The row count of a batch, zero if there is no such batch. -/
def rowCountAt (bs : List Batch) (batch : Nat) : Nat := (bs[batch]?.map Batch.rowCount).getD 0

theorem chunkAt_eq_ok {bs : List Batch} {i j : Nat} {c : Chunk} :
    chunkAt bs i j = .ok c ↔ ∃ b, bs[i]? = some b ∧ b.chunks[j]? = some c := by
  unfold chunkAt
  cases bs[i]? with
  | none => simp [Outcome.fail]
  | some b => simp [Outcome.ofOption_eq_ok]

namespace MemoryStore

theorem rowCount_eq (s : MemoryStore) (i : Nat) : s.rowCount i = rowCountAt s.batches.toList i := by
  rw [rowCount, AppendLog.get?_eq, rowCountAt]

theorem readChunk_eq {s : MemoryStore} (hopen : s.closed = false) (i j : Nat) :
    s.readChunk i j = chunkAt s.batches.toList i j := by
  simp only [readChunk, hopen, Bool.false_eq_true, if_false, AppendLog.get?_eq]
  rfl

/-- The chunks of every batch have as many slots as the batch has rows. -/
def Uniform (s : MemoryStore) : Prop :=
  ∀ b ∈ s.batches.toList, ∀ c ∈ b.chunks, c.Uniform b.rowCount

theorem uniform_close (s : MemoryStore) : s.close.Uniform := fun _ h => absurd h List.not_mem_nil

theorem Uniform.readChunk {s : MemoryStore} (h : s.Uniform) (i j : Nat) :
    (s.readChunk i j).Meets (Chunk.Uniform (s.rowCount i)) := by
  unfold MemoryStore.readChunk
  split
  · trivial
  · rw [rowCount_eq, rowCountAt, AppendLog.get?_eq]
    cases hb : s.batches.toList[i]? with
    | none => trivial
    | some b =>
      dsimp only
      cases hc : b.chunks[j]? with
      | none => trivial
      | some c => exact h b (List.mem_of_getElem? hb) c (List.mem_of_getElem? hc)

end MemoryStore

namespace DiskStore

/-- The chunk file that is open as the store has the contents of the batches. -/
structure Mirrors (d : DiskStore) (fs : Files) (bs : List Batch) : Prop where
  open_file : ∃ file, d.file? = some file
  rows_eq : d.index.toList.map BatchIndex.rows = bs.map Batch.rowCount
  widths_eq : d.index.toList.map (·.blocks.length) = bs.map (·.chunks.length)
  load : ∀ {i j : Nat} {c : Chunk}, chunkAt bs i j = .ok c → d.loadChunk fs i j = .ok c
  cached : ∀ {i j : Nat} {c : Chunk}, d.cache.find? i j = some c → chunkAt bs i j = .ok c

variable {d : DiskStore} {fs : Files} {bs : List Batch}

theorem Mirrors.batchCount_eq (h : d.Mirrors fs bs) : d.index.size = bs.length := by
  have hlen := congrArg List.length h.rows_eq
  simpa using hlen

theorem Mirrors.rowCount_eq (h : d.Mirrors fs bs) (i : Nat) : d.rowCount i = rowCountAt bs i := by
  have hi := congrArg (·[i]?) h.rows_eq
  simp only [List.getElem?_map, Array.getElem?_toList] at hi
  rw [rowCount, hi, rowCountAt]

/-- Reading past the cache gives what the batches say, the errors included. -/
theorem Mirrors.loadChunk_eq (h : d.Mirrors fs bs) (i j : Nat) :
    d.loadChunk fs i j = chunkAt bs i j := by
  obtain ⟨file, hfile⟩ := h.open_file
  cases hb : bs[i]? with
  | none =>
    have hnone : d.index[i]? = none := by
      rw [Array.getElem?_eq_none_iff, h.batchCount_eq]
      exact List.getElem?_eq_none_iff.mp hb
    simp only [loadChunk, locate, hfile, hnone, chunkAt, hb, Outcome.fail_bind]
  | some b =>
    cases hc : b.chunks[j]? with
    | some c =>
      have hat : chunkAt bs i j = .ok c := chunkAt_eq_ok.mpr ⟨b, hb, hc⟩
      rw [hat, h.load hat]
    | none =>
      have hwidth := congrArg (·[i]?) h.widths_eq
      simp only [List.getElem?_map, Array.getElem?_toList, hb, Option.map_some] at hwidth
      obtain ⟨e, he, hlen⟩ := Option.map_eq_some_iff.mp hwidth
      have hnone : e.blocks[j]? = none := by
        rw [List.getElem?_eq_none_iff, hlen]
        exact List.getElem?_eq_none_iff.mp hc
      simp only [loadChunk, locate, hfile, he, hnone, chunkAt, hb, hc]
      rfl

/-- **Reading a chunk** gives what the batches say, and the store goes on mirroring them. -/
theorem Mirrors.readChunk (h : d.Mirrors fs bs) (i j : Nat) :
    ∃ d', DiskStore.readChunk i j (d, fs) = (chunkAt bs i j, (d', fs)) ∧ d'.Mirrors fs bs := by
  have hload := h.loadChunk_eq i j
  have hreads := readChunk_reads d fs i j
  generalize DiskStore.readChunk i j (d, fs) = result at hreads
  cases hreads with
  | refused hlocate => exact ⟨d, by rw [← hload, loadChunk_of_locate hlocate], h⟩
  | cached hlocate hfind => exact ⟨d, by rw [h.cached hfind], h⟩
  | failed hlocate hfind he => exact ⟨d, by rw [← hload, he], h⟩
  | @loaded p c hlocate hfind hc =>
    rw [hload] at hc
    refine ⟨{ d with cache := d.cache.insert i j c }, by rw [hc], h.open_file, h.rows_eq,
      h.widths_eq, h.load, fun {b k c'} hfind => ?_⟩
    rw [ChunkCache.find?_insert] at hfind
    split at hfind
    · rename_i hbk
      cases hfind
      rw [hbk.1, hbk.2, hc]
    · exact h.cached hfind

theorem Mirrors.evict (h : d.Mirrors fs bs) (keep : Nat × Nat → Bool) :
    (d.evict keep).Mirrors fs bs where
  open_file := h.open_file
  rows_eq := h.rows_eq
  widths_eq := h.widths_eq
  load := h.load
  cached hfind := by
    rw [DiskStore.evict, ChunkCache.find?_evict] at hfind
    split at hfind
    · exact h.cached hfind
    · cases hfind

end DiskStore

/-! ## Steadiness -/

theorem MemoryStore.steady_reader : MemoryStore.reader.Steady := fun _ _ _ _ h => h

namespace DiskStore

variable {d d' : DiskStore} {fs fs' : Files}

/-- What is read comes from the cache, or else from the file. -/
theorem readChunk_fst (i j : Nat) (d : DiskStore) (fs : Files) :
    (readChunk i j (d, fs)).1 = (d.locate i j >>= fun _ =>
      match d.cache.find? i j with
      | some c => .ok c
      | none => d.loadChunk fs i j) := by
  have hreads := readChunk_reads d fs i j
  generalize readChunk i j (d, fs) = result at hreads
  cases hreads with
  | refused hlocate => rw [hlocate]; rfl
  | cached hlocate hfind => rw [hlocate, Outcome.ok_bind, hfind]
  | loaded hlocate hfind hload => rw [hlocate, Outcome.ok_bind, hfind, hload]
  | failed hlocate hfind hload => rw [hlocate, Outcome.ok_bind, hfind, hload]

/-- **What a chunk store reads does not depend on what it has read before.** -/
theorem same_readChunk (i j : Nat) (d : DiskStore) (fs : Files) :
    reader.Same (d, fs) (readChunk i j (d, fs)).2 := by
  have hreads := readChunk_reads d fs i j
  generalize readChunk i j (d, fs) = result at hreads
  cases hreads with
  | refused _ => exact .refl reader (d, fs)
  | cached _ _ => exact .refl reader (d, fs)
  | failed _ _ _ => exact .refl reader (d, fs)
  | @loaded p c hlocate hfind hload =>
    refine ⟨rfl, rfl, fun b k => ?_⟩
    show (readChunk b k ({ d with cache := d.cache.insert i j c }, fs)).1 =
      (readChunk b k (d, fs)).1
    rw [readChunk_fst, readChunk_fst]
    show (d.locate b k >>= fun _ => match (d.cache.insert i j c).find? b k with
      | some c => .ok c
      | none => d.loadChunk fs b k) = _
    rw [ChunkCache.find?_insert]
    by_cases hbk : b = i ∧ k = j
    · -- the chunk that was loaded now comes from the cache
      obtain ⟨rfl, rfl⟩ := hbk
      simp only [and_self, if_true, hfind, hload]
    · rw [if_neg hbk]

theorem steady_reader : reader.Steady :=
  fun _ i j s h => h.trans (same_readChunk i j s.1 s.2)

end DiskStore

end Columnar
