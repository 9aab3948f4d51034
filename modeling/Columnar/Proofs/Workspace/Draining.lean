import Columnar.Proofs.Table.Draining
import Columnar.Proofs.Workspace.Sessions

/-!
# Draining the iterators of a workspace

**Reading is steady** (`Workspace.readerOf_steady`), as it is for every store of the workspace. What
an iterator of a session reads from delivers uniform chunks (`readerOf_drainable`), so no call of it
aborts.

Main result: `draining_settles`, the iterator of a table comes to an end if and only if every chunk
can be read that it needs.
-/

namespace Columnar

namespace Workspace

variable {w w' : Workspace} {id : StoreId}

theorem reader_same_readChunk (id : StoreId) (i j : Nat) (w : Workspace) :
    (reader id).Same w (readChunk id i j w).2 := by
  cases h : w.stores[id.index]? with
  | none => exact (readChunk_none h i j) ▸ .refl (reader id) w
  | some st =>
    cases st with
    | memory s => exact (readChunk_memory h i j) ▸ .refl (reader id) w
    | disk d =>
      have hsame := DiskStore.same_readChunk i j d w.files
      rw [readChunk_diskStore h]
      rcases hread : DiskStore.readChunk i j (d, w.files) with ⟨o, d', fs'⟩
      rw [hread] at hsame
      have hself : ({ w.setStore id (.disk d') with files := fs' } : Workspace).stores[id.index]? =
          some (.disk d') := getElem?_setStore_self h _
      refine ⟨?_, ?_, fun b k => ?_⟩
      · simp only [reader, hself, h, Option.map_some, Option.getD_some]
        exact hsame.batchCount
      · funext b
        simp only [reader, hself, h, Option.map_some, Option.getD_some]
        exact congrFun hsame.rowCount b
      · show (readChunk id b k _).1 = (readChunk id b k w).1
        rw [readChunk_diskStore hself, readChunk_diskStore h]
        exact hsame.readChunk b k

/-- **Reading is steady**, whatever kind of store it is from. -/
theorem readerOf_steady (store? : Option StoreId) : (readerOf store?).Steady := by
  intro w i j w' h
  cases store? with
  | none => exact h
  | some id => exact h.trans (reader_same_readChunk id i j w')

theorem readerOf_bounded (store? : Option StoreId) : (readerOf store?).Bounded := by
  intro w b h
  cases store? with
  | none => rfl
  | some id =>
    simp only [readerOf, reader] at h ⊢
    cases hst : w.stores[id.index]? with
    | none => rfl
    | some st =>
      rw [hst] at h
      simp only [Option.map_some, Option.getD_some] at h ⊢
      cases st with
      | memory s =>
        have hle : s.batches.toList.length ≤ b := s.batches.size_eq ▸ h
        show s.rowCount b = 0
        rw [MemoryStore.rowCount_eq, rowCountAt, List.getElem?_eq_none hle]
        rfl
      | disk d =>
        show d.rowCount b = 0
        rw [DiskStore.rowCount, Array.getElem?_eq_none h]
        rfl

/-- There is a sound store to read from, if any is read from, and its batches have these row
counts. -/
structure Readable (store? : Option StoreId) (rows : Nat → Nat) (w : Workspace) : Prop where
  rowCount_eq : (readerOf store?).rowCount w = rows
  sound : ∀ id, store? = some id → ∃ st, w.stores[id.index]? = some st ∧ st.Sound

/-- Reading a chunk of a sound store gives a uniform one or an error, and leaves it sound. -/
theorem Readable.readChunk {store? : Option StoreId} {rows : Nat → Nat}
    (h : Readable store? rows w) (i j : Nat) :
    ((readerOf store?).readChunk i j w).1.Meets (Chunk.Uniform (rows i)) ∧
      Readable store? rows ((readerOf store?).readChunk i j w).2 := by
  cases store? with
  | none => exact ⟨trivial, h⟩
  | some id =>
    obtain ⟨st, hst, hsound⟩ := h.sound id rfl
    have hsame := reader_same_readChunk id i j w
    have hrows : rows = st.rowCount := by
      rw [← h.rowCount_eq]
      funext b
      simp only [readerOf, reader, hst, Option.map_some, Option.getD_some]
    rw [show (readerOf (some id)).readChunk i j w = Workspace.readChunk id i j w from rfl]
    have hrowCount := hsame.rowCount.trans h.rowCount_eq
    cases st with
    | memory s =>
      rw [readChunk_memory hst] at hrowCount ⊢
      exact ⟨hrows ▸ MemoryStore.Uniform.readChunk hsound i j, h⟩
    | disk d =>
      obtain ⟨hmeets, hsound'⟩ := DiskStore.Sound.readChunk hsound w.files i j
      rw [readChunk_diskStore hst] at hrowCount ⊢
      refine ⟨hrows ▸ hmeets, hrowCount, fun id' hid => ?_⟩
      cases hid
      refine ⟨_, getElem?_setStore_self hst _, ?_⟩
      rw [Store.Sound, hsound'.rowCount_eq]
      exact hsound'

/-- **What an iterator reads from** can be drained. -/
theorem readerOf_drainable (store? : Option StoreId) (rows : Nat → Nat) :
    (readerOf store?).Drainable (Readable store? rows) rows where
  rowCount h := h.rowCount_eq
  readChunk h i j := (h.readChunk i j).1
  keeps i j _ h := (h.readChunk i j).2
  steady := readerOf_steady store?
  bounded := readerOf_bounded store?

/-! ## Asking for rows -/

theorem after_nextRow (it : OpenIterator) (w : Workspace) (n : Nat) :
    nextRow.after n (it, w) =
      ({ it with rows := ((RowIterator.next (readerOf it.store?)).after n (it.rows, w)).1 },
        ((RowIterator.next (readerOf it.store?)).after n (it.rows, w)).2) := by
  induction n generalizing it w with
  | zero => rfl
  | succ n ih =>
    show nextRow.after n (nextRow (it, w)).2 = _
    exact ih _ _

theorem nth_nextRow (it : OpenIterator) (w : Workspace) (n : Nat) :
    nextRow.nth n (it, w) = (RowIterator.next (readerOf it.store?)).nth n (it.rows, w) := by
  rw [Action.nth, after_nextRow]
  rfl

theorem settlesOn_nextRow {it : OpenIterator} {count : Nat} {last : Outcome (Option Row)}
    (h : (RowIterator.next (readerOf it.store?)).SettlesOn (it.rows, w) count last) :
    nextRow.SettlesOn (it, w) count last :=
  ⟨fun n hn => nth_nextRow it w n ▸ h.before n hn, fun n hn => nth_nextRow it w n ▸ h.later n hn⟩

variable {table : TableId} {f : ColumnFilter} {it : OpenIterator}

/-- What draining an iterator comes to that was created in a session. -/
theorem outlook_of_iterate {cs : List OpenContainer} (hw : Session w cs)
    (h : iterate table f w = (.ok it, w')) :
    RowIterator.Outlook (readerOf it.store?) it.rows w' := by
  obtain ⟨t, -, -, hfilter, -⟩ := iterate_eq_ok h
  obtain ⟨hsound, hstore⟩ := hw.sound.iterate_store h
  have hreadable : Readable it.store? ((readerOf it.store?).rowCount w') w' := by
    refine ⟨rfl, fun id hid => ?_⟩
    obtain ⟨st, hst⟩ := hstore id hid
    exact ⟨st, hst, hsound.stores hst⟩
  exact RowIterator.outlook_ofFilter hfilter (readerOf_drainable it.store? _) hreadable

/-- **Draining the iterator of a table**, whatever the table is: filled by a container or loaded
from a file of any content. It comes to an end if and only if no batch with rows has a chunk that the
iterator needs and that cannot be read. Then it ends after as many answers as there are rows, each of
which is a row or an error. Otherwise it answers so once for every row before the first such batch,
and from then on with the error of the first such chunk. -/
theorem draining_settles {cs : List OpenContainer} (hw : Session w cs)
    (h : iterate table f w = (.ok it, w')) :
    ((∃ n, nextRow.nth n (it, w') = .ok none) ↔
      (readerOf it.store?).Passable w' it.rows.physicalColumns) ∧
    (((readerOf it.store?).Passable w' it.rows.physicalColumns ∧
        nextRow.SettlesOn (it, w') (it.rows.atMost (readerOf it.store?) w') (.ok none)) ∨
      ∃ batch e, (readerOf it.store?).Obstacle w' it.rows.physicalColumns batch (.error e) ∧
        nextRow.SettlesOn (it, w') ((readerOf it.store?).rowsBefore w' batch)
          (Outcome.fail e)) := by
  cases outlook_of_iterate hw h with
  | ends hpassable hsettles =>
    have hsettles := settlesOn_nextRow hsettles
    exact ⟨⟨fun _ => hpassable, fun _ => ⟨_, hsettles.later _ (Nat.le_refl _)⟩⟩,
      .inl ⟨hpassable, hsettles⟩⟩
  | @stuck batch e hobstacle hsettles =>
    have hsettles := settlesOn_nextRow hsettles
    refine ⟨⟨fun ⟨n, hn⟩ => absurd hn (hsettles.ne_none nofun n), fun hpassable => ?_⟩,
      .inr ⟨batch, e, hobstacle, hsettles⟩⟩
    have hnone := hpassable batch hobstacle.rows
    rw [hobstacle.failure] at hnone
    cases hnone

/-- A chunk file of row keys with two batches of one row each. The second block is empty. -/
def sampleTruncated : Bytes :=
  ChunkFile.header ++ [1, 0, 0, 0, 0x61, 0xFE, 1, 0, 0, 0] ++
    Chunk.encodeTrailer .varLength .none 0 ++
    [⟨1, [⟨8, 26⟩]⟩, ⟨1, [⟨34, 0⟩]⟩].flatMap BatchIndex.encode ++
    ChunkSpec.encode (.plain .rowKey) ++ FileTail.encode ⟨1, 2, 34⟩

/-- A table of row keys that was loaded and is not open yet, over this file. -/
def sampleLoaded : Workspace where
  files := Files.empty.add "t" sampleTruncated
  stores := #[]
  tags := #[]
  factories := #[.columnarFile]
  tables := #[⟨⟨1, ⟨[]⟩, ⟨true, [], .empty .builtin⟩, 2⟩,
    .saved ⟨⟨0⟩, [.plain .rowKey], "t"⟩ .unopened, false⟩]
  repository := .empty

/-- Why the second block cannot be read. -/
def sampleError : Error := .nested (.atPath "t" (.decode .blockWithoutTrailer))

/-- The iterator over the table needs its only column, and can read one batch of one row. -/
def sampleIsBlocked : Bool :=
  match iterate ⟨0⟩ .all sampleLoaded with
  | (.ok it, w) =>
    let r := readerOf it.store?
    it.rows.physicalColumns == [0] && r.rowCount w 0 == 1 && r.rowCount w 1 == 1 &&
      r.failure? w [0] 0 == none && r.failure? w [0] 1 == some (.error sampleError)
  | _ => false

theorem sampleIsBlocked_eq : sampleIsBlocked = true := by
  have hopen : sampleLoaded.files.openFile "t" = .ok ⟨0⟩ := by cbv
  have hindex : DiskStore.readIndex sampleLoaded.files ⟨0⟩ [.plain .rowKey] =
      .ok [⟨1, [⟨8, 26⟩]⟩, ⟨1, [⟨34, 0⟩]⟩] := by cbv
  have hneeds : RowIterator.needsStore ⟨1, ⟨[]⟩, ⟨true, [], .empty .builtin⟩, 2⟩ .all = true := rfl
  have hrun : OpenTask.run createStore ⟨⟨0⟩, [.plain .rowKey], "t"⟩ sampleLoaded = _ :=
    run_createStore (f := .columnarFile) rfl
  rw [if_neg (by decide), DiskStore.openFile_of_readIndex hopen hindex] at hrun
  rw [sampleIsBlocked, iterate_apply (t := ⟨⟨1, ⟨[]⟩, ⟨true, [], .empty .builtin⟩, 2⟩, _, _⟩)
    rfl rfl rfl, if_pos hneeds, accessStore_unopened rfl, hrun]
  cbv

theorem exists_sampleIterator :
    ∃ it w, iterate ⟨0⟩ .all sampleLoaded = (.ok it, w) ∧ it.rows.physicalColumns = [0] ∧
      (readerOf it.store?).rowCount w 0 = 1 ∧ (readerOf it.store?).rowCount w 1 = 1 ∧
      (readerOf it.store?).failure? w [0] 0 = none ∧
      (readerOf it.store?).failure? w [0] 1 = some (.error sampleError) := by
  have h := sampleIsBlocked_eq
  unfold sampleIsBlocked at h
  split at h
  · rename_i it w hiterate
    simp only [Bool.and_eq_true, beq_iff_eq] at h
    obtain ⟨⟨⟨⟨hcolumns, hzero⟩, hone⟩, hfirst⟩, hsecond⟩ := h
    exact ⟨it, w, hiterate, hcolumns, hzero, hone, hfirst, hsecond⟩
  · cases h

theorem session_sampleLoaded : Session sampleLoaded [] := by
  refine .start rfl fun t ht => ?_
  obtain rfl := List.mem_singleton.mp (Array.mem_toList_iff.mpr ht)
  exact ⟨_, _, rfl⟩

theorem draining_settles_sample :
    ∃ it w, iterate ⟨0⟩ .all sampleLoaded = (.ok it, w) ∧
      (readerOf it.store?).Obstacle w it.rows.physicalColumns 1 (.error sampleError) ∧
      nextRow.SettlesOn (it, w) 1 (Outcome.fail sampleError) := by
  obtain ⟨it, w, h, hcolumns, hzero, hone, hfirst, hsecond⟩ := exists_sampleIterator
  obtain ⟨-, ⟨hpassable, -⟩ | ⟨b, e, hobstacle, hsettles⟩⟩ :=
    draining_settles session_sampleLoaded h
  · have hnone := hpassable 1 (Nat.lt_of_lt_of_eq Nat.one_pos hone.symm)
    rw [hcolumns, hsecond] at hnone
    cases hnone
  · have hbatch : b = 1 := by
      rcases Nat.lt_trichotomy b 1 with hlt | heq | hgt
      · have hfailure := hobstacle.failure
        rw [Nat.lt_one_iff.mp hlt, hcolumns, hfirst] at hfailure
        cases hfailure
      · exact heq
      · have hnone := hobstacle.first 1 hgt (Nat.lt_of_lt_of_eq Nat.one_pos hone.symm)
        rw [hcolumns, hsecond] at hnone
        cases hnone
    subst hbatch
    have hfailure := hobstacle.failure
    rw [hcolumns, hsecond] at hfailure
    cases hfailure
    have hbefore : (readerOf it.store?).rowsBefore w 1 = 1 := by
      simp [ChunkReader.rowsBefore, hzero]
    exact ⟨it, w, h, hobstacle, hbefore ▸ hsettles⟩

theorem same_after_nextRow (it : OpenIterator) (w : Workspace) (n : Nat) :
    (readerOf it.store?).Same w (nextRow.after n (it, w)).2 := by
  rw [after_nextRow]
  exact (RowIterator.keeps_next (readerOf_steady it.store? w)).after n (.refl _ w)

/-- **An iterator may never come to an end**: it has a chunk to read that cannot be read, and tries
again each time. -/
theorem draining_may_not_end :
    ∃ it w, iterate ⟨0⟩ .all sampleLoaded = (.ok it, w) ∧
      (∀ n, ((readerOf it.store?).readChunk 1 0 (nextRow.after n (it, w)).2).1 =
        Outcome.fail sampleError) ∧
      ∀ n, nextRow.nth n (it, w) ≠ .ok none := by
  obtain ⟨it, w, h, hcolumns, -, hone, -, hsecond⟩ := exists_sampleIterator
  refine ⟨it, w, h, fun n => ?_, fun n => ?_⟩
  · rw [(same_after_nextRow it w n).readChunk]
    rw [ChunkReader.failure?, List.findSome?_singleton] at hsecond
    cases hread : ((readerOf it.store?).readChunk 1 0 w).1 with
    | ok chunk =>
      rw [hread] at hsecond
      cases hsecond
    | error e =>
      rw [hread] at hsecond
      exact congrArg Except.error (Option.some.inj hsecond)
  · cases outlook_of_iterate session_sampleLoaded h with
    | ends hpassable _ =>
      have hnone := hpassable 1 (Nat.lt_of_lt_of_eq Nat.one_pos hone.symm)
      rw [hcolumns, hsecond] at hnone
      cases hnone
    | stuck _ hsettles => exact (settlesOn_nextRow hsettles).ne_none (fun h => by cases h) n

end Workspace

end Columnar
