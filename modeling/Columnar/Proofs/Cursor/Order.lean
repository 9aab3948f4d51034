import Columnar.Proofs.Cursor.Read
import Columnar.Proofs.Store.Saved

/-!
# The order of reading

**Positions** (`positions`). The pairs of a batch and a row in it, batch by batch. They are all
there are (`mem_positions`), in ascending order (`positions_ascending`), and a batch that is
appended puts its own behind them.

**A journey** (`ReadCursor.travel`). Batches are written to a memory store while a cursor moves over
it, in any order. A batch may be refused, and so may a move; the positions that are reached are the
result.

Main result: `travel_in_order`, the positions that are reached are the first of all there are, and
the cursor can move if and only if there are more.
-/

namespace Columnar

/-! ## Positions -/

/-- The positions in every batch. -/
def positionGroups (bs : List Batch) : List (List (Nat × Nat)) :=
  bs.mapIdx fun i b => (List.range b.rowCount).map (i, ·)

/-- The positions in some batches, batch by batch. -/
def positions (bs : List Batch) : List (Nat × Nat) := (positionGroups bs).flatten

/-- Batches come first, then rows. -/
def PositionLt (p q : Nat × Nat) : Prop := p.1 < q.1 ∨ p.1 = q.1 ∧ p.2 < q.2

theorem positionGroups_append (bs : List Batch) (b : Batch) :
    positionGroups (bs ++ [b]) =
      positionGroups bs ++ [(List.range b.rowCount).map (bs.length, ·)] :=
  List.mapIdx_concat

theorem positions_append (bs : List Batch) (b : Batch) :
    positions (bs ++ [b]) = positions bs ++ (List.range b.rowCount).map (bs.length, ·) := by
  rw [positions, positionGroups_append, List.flatten_append, List.flatten_singleton, positions]

theorem getElem?_positionGroups {bs : List Batch} {i : Nat} {rows : List (Nat × Nat)} :
    (positionGroups bs)[i]? = some rows ↔
      ∃ b, bs[i]? = some b ∧ (List.range b.rowCount).map (i, ·) = rows := by
  rw [positionGroups, List.getElem?_mapIdx, Option.map_eq_some_iff]

/-- **All positions with a row** are there. -/
theorem mem_positions {bs : List Batch} {p : Nat × Nat} :
    p ∈ positions bs ↔ p.2 < rowCountAt bs p.1 := by
  simp only [positions, List.mem_flatten, List.mem_iff_getElem? (l := positionGroups bs),
    getElem?_positionGroups]
  constructor
  · rintro ⟨rows, ⟨i, b, hb, rfl⟩, hp⟩
    obtain ⟨row, hrow, rfl⟩ := List.mem_map.mp hp
    rw [rowCountAt, hb]
    exact List.mem_range.mp hrow
  · intro hlt
    rw [rowCountAt] at hlt
    cases hb : bs[p.1]? with
    | none =>
      rw [hb] at hlt
      cases hlt
    | some b =>
      rw [hb] at hlt
      exact ⟨_, ⟨p.1, b, hb, rfl⟩, List.mem_map.mpr ⟨p.2, List.mem_range.mpr hlt, rfl⟩⟩

/-- **Positions ascend.** -/
theorem positions_ascending (bs : List Batch) : (positions bs).Pairwise PositionLt := by
  induction bs using List.reverseRecOn with
  | nil => exact .nil
  | append_singleton bs b ih =>
    rw [positions_append, List.pairwise_append]
    refine ⟨ih, ?_, ?_⟩
    · exact List.pairwise_map.mpr (List.pairwise_lt_range.imp fun h => .inr ⟨rfl, h⟩)
    · intro p hp q hq
      obtain ⟨row, -, rfl⟩ := List.mem_map.mp hq
      have hlt := mem_positions.mp hp
      left
      by_contra hge
      rw [rowCountAt, List.getElem?_eq_none (by simpa using hge)] at hlt
      cases hlt

namespace ReadCursor

/-- Where a row is its own position, the row at a position is the position. -/
theorem rowAt?_positionGroups {bs : List Batch} {p q : Nat × Nat}
    (h : rowAt? (positionGroups bs) p = some q) : p = q := by
  obtain ⟨rows, hrows, hq⟩ := rowAt?_eq_some.mp h
  obtain ⟨b, -, rfl⟩ := getElem?_positionGroups.mp hrows
  rw [List.getElem?_map, Option.map_eq_some_iff] at hq
  obtain ⟨row, hrow, rfl⟩ := hq
  obtain ⟨hlt, hrow⟩ := List.getElem?_eq_some_iff.mp hrow
  rw [List.getElem_range] at hrow
  exact Prod.ext rfl hrow

theorem count_positionGroups {width : Nat} {bs : List Batch}
    (h : ∀ b ∈ bs, b.chunks.length = width) : BatchesCount width bs (positionGroups bs) where
  length_eq := (List.length_mapIdx).symm
  batch {i b rows} hb hrows := by
    obtain ⟨b', hb', rfl⟩ := getElem?_positionGroups.mp hrows
    obtain rfl : b = b' := Option.some.inj (hb.symm.trans hb')
    exact ⟨by simp, h b (List.mem_of_getElem? hb)⟩

/-! ## Memory stores -/

theorem reader_shows_batches {s : MemoryStore} (hopen : s.closed = false) :
    MemoryStore.reader.Shows (· = s) s.batches.toList where
  batchCount := by
    rintro _ rfl
    exact AppendLog.size_eq _
  rowCount := by
    rintro _ rfl i
    exact MemoryStore.rowCount_eq _ i
  readChunk := by
    rintro s' rfl i j b c hb hc
    refine ⟨s', ?_, rfl⟩
    show (s'.readChunk i j, s') = _
    rw [MemoryStore.readChunk_eq hopen, chunkAt_eq_ok.mpr ⟨b, hb, hc⟩]

/-! ## Journeys -/

/-- What happens while a memory store is read. -/
inductive Event
  | write (b : Batch)
  | forward

/-- A cursor moves over a store while batches are written to it. The positions it reaches. -/
def travel : List Event → Action (ReadCursor × MemoryStore) (List (Nat × Nat))
  | [] => return []
  | .write b :: events => do
    let _ ← ((MemoryStore.write b).on Prod.snd fun s (c, _) => (c, s)).attempt
    travel events
  | .forward :: events => do
    match ← (forward MemoryStore.reader).attempt with
    | .ok () =>
      let (c, _) ← Action.get
      return c.position?.toList ++ (← travel events)
    | .error _ => travel events

/-- The selected columns give access to the store's chunks at a position. -/
def Accesses (schema : Schema) (selection : Selection) (c : ReadCursor) (s : MemoryStore)
    (p : Nat × Nat) : Prop :=
  ∀ j ∈ selection.columns, ∃ column chunk, schema[j]? = some column ∧
    s.readChunk p.1 j = .ok chunk ∧ c.get j = .ok (⟨column, chunk⟩, p.2)

/-- The cursor reads the selected columns of an open store with `width` columns. It has visited
these positions, and the others of the store are behind it. -/
structure Visited (schema : Schema) (selection : Selection) (width : Nat)
    (visited : List (Nat × Nat)) (c : ReadCursor) (s : MemoryStore) : Prop where
  open_store : s.closed = false
  specs_length : s.specs.length = width
  widths : ∀ b ∈ s.batches.toList, b.chunks.length = width
  before : ∃ rest, c.Before schema selection s.batches.toList (positionGroups s.batches.toList)
    rest ∧ visited ++ rest = positions s.batches.toList
  position_eq : c.position? = visited.getLast?

variable {schema : Schema} {selection : Selection} {width : Nat} {visited : List (Nat × Nat)}
  {c : ReadCursor} {s : MemoryStore}

/-- The positions of a new batch are behind the cursor. -/
theorem Visited.push (h : Visited schema selection width visited c s) {b : Batch}
    (hb : b.chunks.length = width) :
    Visited schema selection width visited c { s with batches := s.batches.push b } := by
  obtain ⟨rest, hc, hrest⟩ := h.before
  have hin : ∀ p, c.position? = some p →
      p.1 < (positionGroups s.batches.toList).length := by
    rintro ⟨i, row⟩ hp
    obtain ⟨batch, hbatch, -⟩ := hc.loaded hp
    rw [positionGroups, List.length_mapIdx]
    exact (List.getElem?_eq_some_iff.mp hbatch).1
  refine ⟨h.open_store, h.specs_length, ?_,
    ⟨rest ++ (List.range b.rowCount).map (s.batches.toList.length, ·), ?_, ?_⟩, h.position_eq⟩
  · intro b' hb'
    rw [AppendLog.toList_push] at hb'
    rcases List.mem_append.mp hb' with hb' | hb'
    · exact h.widths b' hb'
    · rw [List.mem_singleton.mp hb', hb]
  · refine ⟨hc.schema_eq, hc.selection_eq, hc.open_eq, ?_, fun {i row} hp => ?_⟩
    · rw [AppendLog.toList_push, positionGroups_append, remaining_append hin, hc.rest_eq]
    · obtain ⟨batch, hbatch, hloaded⟩ := hc.loaded hp
      refine ⟨batch, ?_, hloaded⟩
      rw [AppendLog.toList_push,
        List.getElem?_append_left (List.getElem?_eq_some_iff.mp hbatch).1, hbatch]
  · rw [AppendLog.toList_push, positions_append, ← hrest, List.append_assoc]

theorem Visited.write (h : Visited schema selection width visited c s) (b : Batch) :
    Visited schema selection width visited c (MemoryStore.write b s).2 := by
  unfold MemoryStore.write
  cases happend : s.append b with
  | error e => exact h
  | ok s' =>
    obtain ⟨hspecs, rfl⟩ := MemoryStore.append_eq_ok happend
    refine h.push ?_
    rw [← h.specs_length, ← hspecs, List.length_map]

/-- **A move goes to the next position**, and fails where there is none. -/
theorem Visited.forward (h : Visited schema selection width visited c s)
    (hsel : ∀ j ∈ selection.columns, j < width) :
    (visited = positions s.batches.toList ∧ c.canForward MemoryStore.reader s = false ∧
      ReadCursor.forward MemoryStore.reader (c, s) =
        (Outcome.fail (.illegalState .pastLastRow), (c, s))) ∨
    ∃ p rest c', visited ++ p :: rest = positions s.batches.toList ∧
      c.canForward MemoryStore.reader s = true ∧
      ReadCursor.forward MemoryStore.reader (c, s) = (.ok (), (c', s)) ∧ c'.position? = some p ∧
      Visited schema selection width (visited ++ [p]) c' s := by
  obtain ⟨rest, hc, hrest⟩ := h.before
  have hr := reader_shows_batches h.open_store
  have hb := count_positionGroups h.widths
  cases rest with
  | nil =>
    rw [List.append_nil] at hrest
    have hcounts := hr.counts hb rfl
    exact .inl ⟨hrest, canForward_nil hcounts hc.rest_eq,
      forward_nil hcounts hc.open_eq hc.rest_eq⟩
  | cons p rest =>
    obtain ⟨c', s', hforward, rfl, hc', q, hq, hrow⟩ := forward_spec hr hb hsel rfl hc
    obtain rfl := rowAt?_positionGroups hrow
    have hcan := canForward_cons (hr.counts hb rfl) hc.open_eq hc.rest_eq
    refine .inr ⟨q, rest, c', hrest, hcan, hforward, hq, h.open_store, h.specs_length, h.widths,
      ⟨rest, hc', ?_⟩, ?_⟩
    · rw [List.append_assoc, List.singleton_append, hrest]
    · rw [hq, List.getLast?_concat]

/-- **The selected columns give the chunks** of the position the cursor is at. -/
theorem Visited.accesses (h : Visited schema selection width visited c s)
    (hschema : ∀ j ∈ selection.columns, j < schema.length)
    (hsel : ∀ j ∈ selection.columns, j < width) {p : Nat × Nat} (hp : c.position? = some p) :
    Accesses schema selection c s p := by
  intro j hj
  obtain ⟨rest, hc, -⟩ := h.before
  obtain ⟨batch, hbatch, -⟩ := hc.loaded hp
  have hwidth := h.widths batch (List.mem_of_getElem? hbatch)
  have hchunk := List.getElem?_eq_getElem (hwidth.symm ▸ hsel j hj)
  have hcolumn := List.getElem?_eq_getElem (hschema j hj)
  refine ⟨_, _, hcolumn, ?_, get_eq hc hp hbatch hj hcolumn hchunk⟩
  rw [MemoryStore.readChunk_eq h.open_store, chunkAt_eq_ok.mpr ⟨batch, hbatch, hchunk⟩]

/-- **A journey** goes on from the positions visited before. -/
theorem Visited.travel (h : Visited schema selection width visited c s)
    (hsel : ∀ j ∈ selection.columns, j < width) (events : List Event) :
    ∃ more c' s', ReadCursor.travel events (c, s) = (.ok more, (c', s')) ∧
      Visited schema selection width (visited ++ more) c' s' := by
  induction events generalizing visited c s with
  | nil => exact ⟨[], c, s, rfl, (List.append_nil visited).symm ▸ h⟩
  | cons event events ih =>
    cases event with
    | write b =>
      obtain ⟨more, c', s', hrun, h'⟩ := ih (h.write b)
      refine ⟨more, c', s', ?_, h'⟩
      simp only [ReadCursor.travel, Action.bind_apply, Action.attempt_apply, Action.on_apply, hrun]
    | forward =>
      obtain ⟨-, -, hforward⟩ | ⟨p, rest, c₁, -, -, hforward, hp, h₁⟩ := h.forward hsel
      · obtain ⟨more, c', s', hrun, h'⟩ := ih h
        refine ⟨more, c', s', ?_, h'⟩
        simp only [ReadCursor.travel, Action.bind_apply, Action.attempt_apply, hforward,
          Outcome.fail, hrun]
      · obtain ⟨more, c', s', hrun, h'⟩ := ih h₁
        refine ⟨p :: more, c', s', ?_, by simpa using h'⟩
        simp only [ReadCursor.travel, Action.bind_apply, Action.attempt_apply, hforward,
          Action.get_apply, hrun, hp]
        rfl

theorem within_of_create (h : create schema selection = .ok c) :
    ∀ j ∈ selection.columns, j < schema.length := by
  intro j hj
  unfold create at h
  cases hout : selection.outside? schema.length with
  | some column =>
    rw [hout] at h
    cases h
  | none => simpa using List.find?_eq_none.mp hout j hj

theorem visited_create {specs : List ChunkSpec} {checksum : ChecksumType}
    (hs : s.Written specs checksum) (hcreate : create schema selection = .ok c) :
    Visited schema selection specs.length [] c s := by
  obtain ⟨hspecs, -, hopen, hwell⟩ := hs.wellFormed
  obtain ⟨c', hcreate', hc⟩ := create_before (within_of_create hcreate) s.batches.toList
    (positionGroups s.batches.toList)
  obtain rfl : c = c' := Except.ok.inj (hcreate.symm.trans hcreate')
  refine ⟨hopen, congrArg List.length hspecs, fun b hb => ?_, ⟨_, hc, rfl⟩, ?_⟩
  · rw [← (hwell b hb).1, List.length_map]
  · unfold create at hcreate
    split at hcreate <;> cases hcreate
    rfl

/-- **A cursor visits every row once, in order**, also rows of batches that are written on the way.

- The positions visited are the first of all there are, which are the pairs of a batch and a row in
  it, in ascending order. The cursor is at the last one visited, where its columns give access to
  the chunks of the store.
- If there is a next position, the cursor can move, and moves there. If there is none it cannot, and
  stays where it is. -/
theorem travel_in_order {specs : List ChunkSpec} {checksum : ChecksumType} {s₀ : MemoryStore}
    (hs : s₀.Written specs checksum) {c₀ : ReadCursor} (hcreate : create schema selection = .ok c₀)
    (hcolumns : ∀ j ∈ selection.columns, j < specs.length) (events : List Event) :
    ∃ visited c s, travel events (c₀, s₀) = (.ok visited, (c, s)) ∧
      (∀ p, p ∈ positions s.batches.toList ↔ p.2 < s.rowCount p.1) ∧
      (positions s.batches.toList).Pairwise PositionLt ∧
      visited <+: positions s.batches.toList ∧ c.position? = visited.getLast? ∧
      (∀ p, c.position? = some p → Accesses schema selection c s p) ∧
      (∀ p, (positions s.batches.toList)[visited.length]? = some p →
        c.canForward MemoryStore.reader s = true ∧
        ∃ c', forward MemoryStore.reader (c, s) = (.ok (), (c', s)) ∧ c'.position? = some p ∧
          Accesses schema selection c' s p) ∧
      ((positions s.batches.toList)[visited.length]? = none →
        c.canForward MemoryStore.reader s = false ∧
        forward MemoryStore.reader (c, s) =
          (Outcome.fail (.illegalState .pastLastRow), (c, s))) := by
  have hschema := within_of_create hcreate
  obtain ⟨visited, c, s, hrun, h⟩ := (visited_create hs hcreate).travel hcolumns events
  rw [List.nil_append] at h
  refine ⟨visited, c, s, hrun, ?_, positions_ascending _, ?_, h.position_eq,
    fun p hp => h.accesses hschema hcolumns hp, ?_, ?_⟩
  · intro p
    rw [mem_positions, MemoryStore.rowCount_eq]
  · obtain ⟨rest, -, hrest⟩ := h.before
    exact ⟨rest, hrest⟩
  · intro p hp
    obtain ⟨hall, -⟩ | ⟨q, rest, c', hrest, hcan, hforward, hq, h'⟩ := h.forward hcolumns
    · rw [← hall, List.getElem?_eq_none (Nat.le_refl _)] at hp
      cases hp
    · obtain rfl : q = p := by
        rw [← hrest, List.getElem?_append_right (Nat.le_refl _), Nat.sub_self] at hp
        exact Option.some.inj hp
      exact ⟨hcan, c', hforward, hq, h'.accesses hschema hcolumns hq⟩
  · intro hnone
    obtain ⟨-, hcan, hforward⟩ | ⟨q, rest, -, hrest, -⟩ := h.forward hcolumns
    · exact ⟨hcan, hforward⟩
    · rw [← hrest, List.getElem?_append_right (Nat.le_refl _), Nat.sub_self] at hnone
      cases hnone

/-- A batch of row keys. -/
def keyBatch (keys : List Bytes) : Batch :=
  ⟨keys.length, [.plain .rowKey (.ofList (keys.map (⟨·, false⟩)))]⟩

theorem uniform_keyBatch (keys : List Bytes) :
    ∀ c ∈ (keyBatch keys).chunks, c.Uniform (keyBatch keys).rowCount := by
  intro c hc
  have huni := Slots.uniform_ofList (keys.map fun v => (⟨v, false⟩ : Slot Bytes))
  rw [List.length_map] at huni
  obtain rfl := List.mem_singleton.mp hc
  exact huni

/-- A store with one batch of three rows. -/
def sampleKeys : MemoryStore :=
  (MemoryStore.write (keyBatch [[0x61], [0x62], [0x63]]) (.empty [.plain .rowKey] .none)).2

/-- The cursor passes an empty batch and waits at the end for a batch that is written later; a batch
without columns is refused. -/
def sampleJourney : List Event :=
  [.forward, .forward, .write (keyBatch []), .write ⟨3, []⟩, .forward, .forward,
    .write (keyBatch [[0x64], [0x65]]), .forward]

theorem travel_in_order_sample :
    ∃ c₀ c s chunk, create [.rowKey] (.all 1) = .ok c₀ ∧
      travel sampleJourney (c₀, sampleKeys) = (.ok [(0, 0), (0, 1), (0, 2), (2, 0)], (c, s)) ∧
      s.readChunk 2 0 = .ok chunk ∧ c.get 0 = .ok (⟨.rowKey, chunk⟩, 0) ∧
      c.canForward MemoryStore.reader s = true := by
  have hstore : sampleKeys.Written [.plain .rowKey] .none := .write .empty _ (uniform_keyBatch _)
  have hcreate : create [.rowKey] (.all 1) = .ok ⟨[.rowKey], .all 1, [], none, false⟩ := rfl
  obtain ⟨visited, c, s, hrun, -, -, -, hlast, haccess, hnext, -⟩ :=
    travel_in_order hstore hcreate (by decide) sampleJourney
  have hvisited : (travel sampleJourney (⟨[.rowKey], .all 1, [], none, false⟩, sampleKeys)
      ).1.toOption = some [(0, 0), (0, 1), (0, 2), (2, 0)] := by decide +kernel
  have hall : positions (travel sampleJourney (⟨[.rowKey], .all 1, [], none, false⟩, sampleKeys)
      ).2.2.batches.toList = [(0, 0), (0, 1), (0, 2), (2, 0), (2, 1)] := by decide +kernel
  rw [hrun] at hvisited hall
  cases hvisited
  obtain ⟨column, chunk, hcolumn, hread, hget⟩ := haccess (2, 0) hlast 0 (by decide)
  cases hcolumn
  exact ⟨_, c, s, chunk, rfl, hrun, hread, hget, (hnext (2, 1) (by rw [hall]; rfl)).1⟩

end ReadCursor

end Columnar
