import Columnar.Proofs.Column.Decoding
import Columnar.Proofs.Cursor.Uniform
import Columnar.Proofs.Store.Contents
import Columnar.Proofs.Table.Iterator
import Mathlib

/-!
# Draining iterators

An iterator is asked for its next row again and again, whatever it answers.

**Delivery.** An iterator over a reader that delivers uniform chunks stays fit (`RowIterator.Fit`),
whatever it answers. Asked for a row it answers that there is none, or with a row that can be read
cell by cell, or with an error (`next_delivers`). Nothing is said of what the chunks hold.

**Obstacles** (`ChunkReader.Obstacle`). A batch with rows cannot be entered if a selected chunk of
it cannot be read. The failure of the move is that of the first such chunk (`failure?`). The cursor
stays in front of the batch, and the next move tries the same again. If the reader is steady, a chunk
that cannot be read now cannot be read later either. If it delivers uniform chunks nothing aborts.

Main result: `outlook_ofFilter`. If there is no obstacle an iterator answers once for every row, be it
with a row or with an error, and then ends. Otherwise it answers once for every row before the
obstacle, and then with the error, each time.
-/

namespace Columnar.RowIterator

open ReadCursor (AtRow)

variable {σ : Type} {r : ChunkReader σ} {I : σ → Prop} {rows : Nat → Nat} {s : σ}
  {it : RowIterator} {c : ReadCursor} {wrap : ReadCursor → RowIterator}
  {read : ReadCursor → Outcome Row}

/-! ## Delivered rows -/

theorem readKey_returns (h : c.AtRow rows) : (readKey c).Returns :=
  (ReadCursor.get_meets h 0).returns_bind fun _ ⟨_, hc, hlt⟩ => hc.getText_returns hlt

theorem readCells_meets (h : c.AtRow rows) (tags : ClassTags) (columns : List (Option Nat)) :
    (readCells c tags columns).Meets fun cells => ∀ o ∈ cells, o.Returns := by
  induction columns with
  | nil => exact fun _ h => absurd h List.not_mem_nil
  | cons column columns ih =>
    cases column with
    | none => exact ih.bind fun cells hcells => List.forall_mem_cons.mpr ⟨trivial, hcells⟩
    | some j =>
      refine (ReadCursor.get_meets h j).bind fun ⟨source, row⟩ ⟨n, hc, hlt⟩ => ?_
      refine ih.bind fun cells hcells => List.forall_mem_cons.mpr ⟨?_, hcells⟩
      exact source.column.readCell_returns tags hc hlt

theorem Moves.read_meets (hm : Moves wrap read) (h : c.AtRow rows) :
    (read c).Meets Row.Returns := by
  cases hm with
  | cells complete l =>
    have hkey : (if l.hasKeys then some <$> readKey c else pure none).Returns := by
      split
      · exact (readKey_returns h).map some
      · trivial
    rw [readRow_eq]
    exact hkey.meets.bind fun _ _ => (readCells_meets h l.tags l.columns).bind fun _ h => h
  | keys width =>
    refine (readKey_returns h).meets.bind fun key _ => ?_
    intro o ho
    rw [(List.mem_replicate.mp ho).2]
    trivial

/-! ## Iterators that deliver -/

/-- The cursor that the iterator moves is fit, if there is one. -/
inductive Fit (rows : Nat → Nat) : RowIterator → Prop
  | moves {wrap : ReadCursor → RowIterator} {read : ReadCursor → Outcome Row} {c : ReadCursor}
    (hm : Moves wrap read) (hc : c.Fit rows) : Fit rows (wrap c)
  | blank (remaining width : Nat) : Fit rows (blank remaining width)

/-- **The next row** is none, a row that can be read cell by cell, or an error. -/
theorem next_delivers (hr : r.Delivers I rows) (hit : it.Fit rows) (hs : I s) :
    (next r (it, s)).1.Meets (fun row? => ∀ row ∈ row?, row.Returns) ∧
      (next r (it, s)).2.1.Fit rows := by
  have hnone : ∀ row ∈ (none : Option Row), row.Returns := fun _ h => nomatch h
  cases hit with
  | blank remaining width =>
    cases remaining with
    | zero => exact ⟨hnone, .blank 0 width⟩
    | succ n =>
      refine ⟨fun row hrow o ho => ?_, .blank n width⟩
      cases hrow
      rw [(List.mem_replicate.mp ho).2]
      trivial
  | @moves wrap read c hm hc =>
    cases hcan : c.canForward r s with
    | false =>
      rw [next_of_end hm hcan]
      exact ⟨hnone, .moves hm hc⟩
    -- a move ends at a row whose chunks are at hand, or in an error
    | true =>
      obtain ⟨hreturns, hfit, hrow⟩ := ReadCursor.forward_delivers hr hc hs
      rcases hrun : ReadCursor.forward r (c, s) with ⟨o, c', s'⟩
      rw [hrun] at hreturns hfit hrow
      rw [next_of_forward hm hcan hrun]
      refine ⟨?_, .moves hm hfit⟩
      cases o with
      | error e => exact hreturns.meets_error
      | ok _ =>
        refine (hm.read_meets (hrow rfl)).bind fun row hreturns => ?_
        rintro _ ⟨⟩
        exact hreturns

end Columnar.RowIterator

namespace Columnar

/-! ## Runs of an action -/

variable {σ : Type} {r : ChunkReader σ} {s s' s₀ : σ} {columns : List Nat} {batch : Nat}
  {e : Failure} {I : σ → Prop} {rows : Nat → Nat}

/-- The first `count` runs of the action end in some value or in an error, and all others end in
`last`. -/
structure Action.SettlesOn {α : Type} (m : Action σ (Option α)) (s : σ) (count : Nat)
    (last : Outcome (Option α)) : Prop where
  before : ∀ n < count, (∃ a, m.nth n s = .ok (some a)) ∨ ∃ e, m.nth n s = Outcome.fail e
  later : ∀ n, count ≤ n → m.nth n s = last

theorem Action.SettlesOn.ne_none {α : Type} {m : Action σ (Option α)} {count : Nat}
    {last : Outcome (Option α)} (h : m.SettlesOn s count last) (hlast : last ≠ .ok none) (n : Nat) :
    m.nth n s ≠ .ok none := by
  by_cases hlt : n < count
  · obtain ⟨a, ha⟩ | ⟨e, he⟩ := h.before n hlt
    · rw [ha]
      exact nofun
    · rw [he]
      exact nofun
  · rwa [h.later n (Nat.le_of_not_lt hlt)]

theorem Action.SettlesOn.succ {α : Type} {m : Action σ (Option α)} {count : Nat}
    {last o : Outcome (Option α)} (h : m.SettlesOn s' count last) (hrun : m s = (o, s'))
    (ho : (∃ a, o = .ok (some a)) ∨ ∃ e, o = Outcome.fail e) : m.SettlesOn s (count + 1) last where
  before n hn := by
    cases n with
    | zero => rwa [nth_zero hrun]
    | succ n =>
      rw [nth_succ hrun]
      exact h.before n (Nat.lt_of_succ_lt_succ hn)
  later n hn := by
    cases n with
    | zero => cases hn
    | succ n =>
      rw [nth_succ hrun]
      exact h.later n (Nat.le_of_succ_le_succ hn)

namespace ChunkReader

/-! ## Columns that cannot be read -/

/-- The failure of the first of some columns of a batch that cannot be read. -/
def failure? (r : ChunkReader σ) (s : σ) (columns : List Nat) (batch : Nat) : Option Failure :=
  columns.findSome? fun column =>
    match (r.readChunk batch column s).1 with
    | .ok _ => none
    | .error e => some e

theorem Same.failure?_eq (h : r.Same s s') (columns : List Nat) (batch : Nat) :
    r.failure? s' columns batch = r.failure? s columns batch := by
  simp only [failure?, h.readChunk]

theorem failure?_cons_ok {column : Nat} {chunk : Chunk}
    (h : r.readChunk batch column s = (.ok chunk, s')) (columns : List Nat) :
    r.failure? s (column :: columns) batch = r.failure? s columns batch := by
  simp only [failure?, List.findSome?_cons, h]

theorem Steady.failure?_of_loads (hr : r.Steady) {chunks : List Chunk}
    (h : ReadCursor.Loads r batch columns chunks s s') :
    r.failure? s columns batch = none ∧ r.Same s s' := by
  induction h with
  | nil s => exact ⟨rfl, .refl r s⟩
  | cons hread _ ih =>
    have hsame := hr.same_of_readChunk hread
    exact ⟨by rw [failure?_cons_ok hread, ← hsame.failure?_eq, ih.1], hsame.trans ih.2⟩

/-- Where loading stops is the first column that cannot be read. -/
theorem Steady.failure?_of_stopsAt (hr : r.Steady) {before : List Nat} {column : Nat}
    {chunks : List Chunk} (h : ReadCursor.StopsAt r batch columns before column chunks e s s') :
    r.failure? s columns batch = some e ∧ r.Same s s' := by
  obtain ⟨after, rfl⟩ := h.split
  obtain ⟨s₁, hloads, hfail⟩ := h.failed
  obtain ⟨hnone, hsame⟩ := hr.failure?_of_loads hloads
  refine ⟨?_, hsame.trans (hr.same_of_readChunk hfail)⟩
  rw [failure?] at hnone ⊢
  rw [List.findSome?_append, hnone, Option.none_or, List.findSome?_cons]
  simp only [← hsame.readChunk batch column, hfail]

/-- A column that cannot be read is one that is refused with an error. -/
theorem Delivers.failure?_error (hr : r.Delivers I rows) (hs : I s)
    (h : r.failure? s columns batch = some e) : ∃ cause, e = .error cause := by
  obtain ⟨column, -, hcolumn⟩ := List.exists_of_findSome?_eq_some h
  have hreturns := (hr.readChunk hs batch column).returns
  split at hcolumn
  · cases hcolumn
  · rename_i hread
    cases hcolumn
    rw [hread] at hreturns
    cases e with
    | error cause => exact ⟨cause, rfl⟩
    | abort a => exact hreturns.elim

/-! ## Places -/

/-- There are no rows behind the last batch. -/
def Bounded (r : ChunkReader σ) : Prop := ∀ s b, r.batchCount s ≤ b → r.rowCount s b = 0

/-- What a reader needs to be drained: it is steady, has no rows behind the last batch, and delivers
uniform chunks. -/
structure Drainable (r : ChunkReader σ) (I : σ → Prop) (rows : Nat → Nat) : Prop
    extends r.Delivers I rows where
  steady : r.Steady
  bounded : r.Bounded

/-- The rows that the reader counts, as pairs of a batch and a row in it, batch by batch. -/
def places (r : ChunkReader σ) (s : σ) : List (List (Nat × Nat)) :=
  (List.range (r.batchCount s)).map fun b => (List.range (r.rowCount s b)).map (b, ·)

/-- The number of rows before a batch. -/
def rowsBefore (r : ChunkReader σ) (s : σ) (batch : Nat) : Nat :=
  ((List.range batch).map (r.rowCount s)).sum

theorem length_places (r : ChunkReader σ) (s : σ) : (r.places s).length = r.batchCount s := by
  rw [places, List.length_map, List.length_range]

theorem getElem?_places {b : Nat} (h : b < r.batchCount s) :
    (r.places s)[b]? = some ((List.range (r.rowCount s b)).map (b, ·)) := by
  rw [places, List.getElem?_map, List.getElem?_range h, Option.map_some]

theorem counts_places (hr : r.Bounded) (s : σ) : r.Counts s (r.places s) where
  batchCount := (length_places r s).symm
  rowCount b := by
    by_cases hlt : b < r.batchCount s
    · rw [getElem?_places hlt, Option.getD_some, List.length_map, List.length_range]
    · rw [hr s b (Nat.le_of_not_lt hlt),
        List.getElem?_eq_none (by rw [length_places]; exact Nat.le_of_not_lt hlt)]
      rfl

theorem rowAt?_places {p q : Nat × Nat} (h : ReadCursor.rowAt? (r.places s) p = some q) :
    p = q := by
  obtain ⟨rows, hrows, hq⟩ := ReadCursor.rowAt?_eq_some.mp h
  have hlt : p.1 < r.batchCount s := by
    rw [← length_places]
    exact (List.getElem?_eq_some_iff.mp hrows).1
  rw [getElem?_places hlt] at hrows
  cases hrows
  rw [List.getElem?_map, Option.map_eq_some_iff] at hq
  obtain ⟨row, hrow, rfl⟩ := hq
  obtain ⟨hlt', hrow⟩ := List.getElem?_eq_some_iff.mp hrow
  rw [List.getElem_range] at hrow
  exact Prod.ext rfl hrow

theorem Same.places_eq (h : r.Same s s') : r.places s' = r.places s := by
  rw [places, h.batchCount, h.rowCount, places]

theorem length_flatten_take_places (r : ChunkReader σ) (s : σ) {b : Nat}
    (h : b ≤ r.batchCount s) : ((r.places s).take b).flatten.length = r.rowsBefore s b := by
  rw [places, ← List.map_take, List.take_range, Nat.min_eq_left h, List.length_flatten,
    List.map_map, rowsBefore]
  congr 2
  funext b
  simp

theorem length_flatten_places (r : ChunkReader σ) (s : σ) :
    (r.places s).flatten.length = r.totalRows s := by
  have hfoldl : ∀ (l : List Nat) (n : Nat),
      l.foldl (fun n batch => n + r.rowCount s batch) n = n + (l.map (r.rowCount s)).sum := by
    intro l
    induction l with
    | nil => intro n; rfl
    | cons b l ih => intro n; rw [List.foldl_cons, ih, List.map_cons, List.sum_cons, Nat.add_assoc]
  rw [← List.take_length (l := r.places s), length_places,
    length_flatten_take_places r s (Nat.le_refl _), totalRows, hfoldl, Nat.zero_add, rowsBefore]

theorem flatten_drop_places {b : Nat} (h : b < r.batchCount s) (hrows : 0 < r.rowCount s b) :
    ∃ rest, ((r.places s).drop b).flatten = (b, 0) :: rest := by
  obtain ⟨n, hn⟩ := Nat.exists_eq_add_of_lt hrows
  have hlt : b < (r.places s).length := by rwa [length_places]
  have hb : (r.places s)[b] = (List.range (r.rowCount s b)).map (b, ·) :=
    (List.getElem?_eq_some_iff.mp (getElem?_places h)).2
  rw [List.drop_eq_getElem_cons hlt, List.flatten_cons, hb, hn, Nat.zero_add,
    List.range_succ_eq_map, List.map_cons, List.cons_append]
  exact ⟨_, rfl⟩

theorem mem_flatten_take_places {b : Nat} {p : Nat × Nat}
    (h : p ∈ ((r.places s).take b).flatten) : p.1 < b ∧ 0 < r.rowCount s p.1 := by
  obtain ⟨rows, hrows, hp⟩ := List.mem_flatten.mp h
  rw [places, ← List.map_take, List.take_range] at hrows
  obtain ⟨b', hb', rfl⟩ := List.mem_map.mp hrows
  obtain ⟨i, hi, rfl⟩ := List.mem_map.mp hp
  exact ⟨Nat.lt_of_lt_of_le (List.mem_range.mp hb') (Nat.min_le_left _ _),
    Nat.zero_lt_of_lt (List.mem_range.mp hi)⟩

/-! ## Obstacles -/

/-- The batch is the first with rows that cannot be entered. -/
structure Obstacle (r : ChunkReader σ) (s : σ) (columns : List Nat) (batch : Nat) (e : Failure) :
    Prop where
  rows : 0 < r.rowCount s batch
  failure : r.failure? s columns batch = some e
  first : ∀ b < batch, 0 < r.rowCount s b → r.failure? s columns b = none

/-- Every batch with rows can be entered. -/
def Passable (r : ChunkReader σ) (s : σ) (columns : List Nat) : Prop :=
  ∀ b, 0 < r.rowCount s b → r.failure? s columns b = none

theorem passable_or_obstacle (r : ChunkReader σ) (s : σ) (columns : List Nat) :
    r.Passable s columns ∨ ∃ b e, r.Obstacle s columns b e := by
  classical
  by_cases hex : ∃ b, 0 < r.rowCount s b ∧ r.failure? s columns b ≠ none
  · right
    obtain ⟨hrows, hfailure⟩ := Nat.find_spec hex
    obtain ⟨e, he⟩ := Option.ne_none_iff_exists'.mp hfailure
    refine ⟨Nat.find hex, e, hrows, he, fun b hb hrows' => ?_⟩
    by_contra hne
    exact Nat.find_min hex hb ⟨hrows', hne⟩
  · left
    intro b hrows
    by_contra hne
    exact hex ⟨b, hrows, hne⟩

end ChunkReader

namespace RowIterator

open ReadCursor

variable {wrap : ReadCursor → RowIterator} {read : ReadCursor → Outcome Row} {c : ReadCursor}
  {p : Nat × Nat} {front tail rest : List (Nat × Nat)}

/-! ## Asking for rows -/

/-- The cursor reads the columns, and `rest` are the rows behind it. There is the same to read as in
`s₀`, and the batch that the cursor is in could be entered. -/
structure Draining (r : ChunkReader σ) (I : σ → Prop) (rows : Nat → Nat) (s₀ : σ)
    (columns : List Nat) (rest : List (Nat × Nat)) (c : ReadCursor) (s : σ) : Prop where
  open_eq : c.closed = false
  columns_eq : c.selection.columns = columns
  same : r.Same s₀ s
  rest_eq : remaining (r.places s₀) c.position? = rest
  current : ∀ {b i : Nat}, c.position? = some (b, i) → r.failure? s₀ columns b = none
  fit : c.Fit rows
  kept : I s

theorem Draining.counts (h : Draining r I rows s₀ columns rest c s) (hr : r.Drainable I rows) :
    r.Counts s (r.places s₀) := h.same.places_eq ▸ ChunkReader.counts_places hr.bounded s

theorem Draining.next_nil (hm : Moves wrap read) (hr : r.Drainable I rows)
    (h : Draining r I rows s₀ columns [] c s) : next r (wrap c, s) = (.ok none, (wrap c, s)) :=
  next_of_end hm (canForward_nil (h.counts hr) h.rest_eq)

/-- An iterator passes the next row if the batch of it can be entered. -/
theorem Draining.next_passes (hm : Moves wrap read) (hr : r.Drainable I rows)
    (h : Draining r I rows s₀ columns (p :: rest) c s) (hp : r.failure? s₀ columns p.1 = none) :
    ∃ o c' s', next r (wrap c, s) = (o, (wrap c', s')) ∧
      ((∃ row, o = .ok (some row)) ∨ ∃ e, o = Outcome.fail e) ∧
      Draining r I rows s₀ columns rest c' s' := by
  have hcan := canForward_cons (h.counts hr) h.open_eq h.rest_eq
  have hmove := forward_advances (h.counts hr) h.open_eq h.rest_eq
  have hkept := keeps_forward hr.keeps (c, s) h.kept
  obtain ⟨-, hfit, -⟩ := forward_delivers hr.toDelivers h.fit h.kept
  obtain ⟨hreturns, -⟩ := next_delivers hr.toDelivers (.moves hm h.fit) h.kept
  have hanswer : ∀ c', (some <$> read c' : Outcome (Option Row)).Returns →
      (∃ row, (some <$> read c' : Outcome (Option Row)) = .ok (some row)) ∨
        ∃ e, (some <$> read c' : Outcome (Option Row)) = Outcome.fail e := by
    intro c' hread
    rcases hrow : read c' with (e | a) | row <;> rw [hrow] at hread
    · exact .inr ⟨e, rfl⟩
    · exact hread.elim
    · exact .inl ⟨row, rfl⟩
  rcases hforward : forward r (c, s) with ⟨o, c', s'⟩
  have hnext := next_of_forward hm hcan hforward
  rw [hforward] at hmove hkept hfit
  rw [hnext] at hreturns
  refine ⟨_, c', s', hnext, ?_⟩
  -- the next row is in the batch that the cursor is in, or it enters the next batch
  cases hmove with
  | within hpos hrow hrest =>
    exact ⟨hanswer _ hreturns.returns, h.open_eq, h.columns_eq, h.same, hrest,
      fun hpos' => by cases hpos'; exact h.current hpos, hfit, hkept⟩
  | entered hrow hrest hloads =>
    obtain rfl := ChunkReader.rowAt?_places hrow
    rw [h.columns_eq] at hloads
    obtain ⟨-, hsame⟩ := hr.steady.failure?_of_loads hloads
    exact ⟨hanswer _ hreturns.returns, h.open_eq, h.columns_eq, h.same.trans hsame, hrest,
      fun hpos' => by cases hpos'; exact hp, hfit, hkept⟩
  -- a batch that can be entered is not refused
  | refused _ _ hrow hstops =>
    obtain rfl := ChunkReader.rowAt?_places hrow
    rw [h.columns_eq] at hstops
    rw [← h.same.failure?_eq, (hr.steady.failure?_of_stopsAt hstops).1] at hp
    cases hp

/-- An iterator does not get past a row whose batch cannot be entered. -/
theorem Draining.next_stuck (hm : Moves wrap read) (hr : r.Drainable I rows)
    (h : Draining r I rows s₀ columns (p :: rest) c s)
    (hp : r.failure? s₀ columns p.1 = some e) :
    ∃ c' s', next r (wrap c, s) = (.error e, (wrap c', s')) ∧
      Draining r I rows s₀ columns (p :: rest) c' s' := by
  have hcan := canForward_cons (h.counts hr) h.open_eq h.rest_eq
  have hmove := forward_advances (h.counts hr) h.open_eq h.rest_eq
  have hkept := keeps_forward hr.keeps (c, s) h.kept
  obtain ⟨-, hfit, -⟩ := forward_delivers hr.toDelivers h.fit h.kept
  rcases hforward : forward r (c, s) with ⟨o, c', s'⟩
  refine ⟨c', s', ?_⟩
  rw [next_of_forward hm hcan hforward]
  rw [hforward] at hmove hkept hfit
  cases hmove with
  -- the batch that the cursor is in could be entered
  | within hpos hrow hrest =>
    obtain rfl := ChunkReader.rowAt?_places hrow
    rw [h.current hpos] at hp
    cases hp
  | entered hrow hrest hloads =>
    obtain rfl := ChunkReader.rowAt?_places hrow
    rw [h.columns_eq] at hloads
    rw [← h.same.failure?_eq, (hr.steady.failure?_of_loads hloads).1] at hp
    cases hp
  | refused _ _ hrow hstops =>
    obtain rfl := ChunkReader.rowAt?_places hrow
    rw [h.columns_eq] at hstops
    obtain ⟨hfailure, hsame⟩ := hr.steady.failure?_of_stopsAt hstops
    rw [← h.same.failure?_eq, hfailure] at hp
    cases hp
    exact ⟨rfl, h.open_eq, h.columns_eq, h.same.trans hsame, h.rest_eq, h.current, hfit, hkept⟩

/-! ## Asking again and again -/

theorem Draining.nth_stuck (hm : Moves wrap read) (hr : r.Drainable I rows)
    (h : Draining r I rows s₀ columns (p :: rest) c s)
    (hp : r.failure? s₀ columns p.1 = some e) (n : Nat) :
    (next r).nth n (wrap c, s) = .error e := by
  induction n generalizing c s with
  | zero =>
    obtain ⟨c', s', hnext, -⟩ := h.next_stuck hm hr hp
    exact Action.nth_zero hnext
  | succ n ih =>
    obtain ⟨c', s', hnext, h'⟩ := h.next_stuck hm hr hp
    rw [Action.nth_succ hnext]
    exact ih h'

/-- **An iterator passes all rows that it can**, one with every answer. What it answers then it goes
on answering. -/
theorem Draining.settles (hm : Moves wrap read) (hr : r.Drainable I rows)
    (h : Draining r I rows s₀ columns (front ++ tail) c s)
    (hfront : ∀ p ∈ front, r.failure? s₀ columns p.1 = none) {last : Outcome (Option Row)}
    (hlast : ∀ {c s}, Draining r I rows s₀ columns tail c s →
      ∀ n, (next r).nth n (wrap c, s) = last) :
    (next r).SettlesOn (wrap c, s) front.length last := by
  induction front generalizing c s with
  | nil => exact ⟨fun n hn => absurd hn (Nat.not_lt_zero n), fun n _ => hlast h n⟩
  | cons p front ih =>
    obtain ⟨o, c', s', hnext, ho, h'⟩ := h.next_passes hm hr (hfront p List.mem_cons_self)
    exact (ih h' fun q hq => hfront q (List.mem_cons_of_mem p hq)).succ hnext ho

theorem blank_settles (r : ChunkReader σ) (n width : Nat) (s : σ) :
    (next r).SettlesOn (blank n width, s) n (.ok none) := by
  induction n with
  | zero =>
    have hnext : next r (blank 0 width, s) = (.ok none, (blank 0 width, s)) := rfl
    exact ⟨fun n hn => absurd hn (Nat.not_lt_zero n), fun n _ => Action.nth_of_fixed hnext n⟩
  | succ n ih =>
    have hnext : next r (blank (n + 1) width, s) =
        (.ok (some (blankRow none width)), (blank n width, s)) := rfl
    exact ih.succ hnext (.inl ⟨_, rfl⟩)

/-- The physical columns that an iterator reads. -/
def physicalColumns : RowIterator → List Nat
  | cells _ c _ | keys c _ => c.selection.columns
  | blank _ _ => []

/-- What draining comes to: an end after all rows, or the error of the first obstacle. -/
inductive Outlook (r : ChunkReader σ) (it : RowIterator) (s : σ) : Prop
  | ends (h : r.Passable s it.physicalColumns)
    (hsettles : (next r).SettlesOn (it, s) (it.atMost r s) (.ok none))
  | stuck {batch : Nat} {e : Error} (h : r.Obstacle s it.physicalColumns batch (.error e))
    (hsettles : (next r).SettlesOn (it, s) (r.rowsBefore s batch) (Outcome.fail e))

theorem outlook_of_moves (hm : Moves wrap read) (hr : r.Drainable I rows) (hs : I s)
    (hstart : c.position? = none) (hopen : c.closed = false) : Outlook r (wrap c) s := by
  have hcolumns : (wrap c).physicalColumns = c.selection.columns := by cases hm <;> rfl
  have hmost : (wrap c).atMost r s = r.totalRows s := by cases hm <;> rfl
  have h : Draining r I rows s c.selection.columns (r.places s).flatten c s := by
    refine ⟨hopen, rfl, .refl r s, by rw [hstart]; rfl, fun hp => ?_, fun b i hp => ?_, hs⟩
    · rw [hstart] at hp
      cases hp
    · rw [hstart] at hp
      cases hp
  obtain hpassable | ⟨b, e, hobstacle⟩ := r.passable_or_obstacle s c.selection.columns
  · refine .ends (hcolumns ▸ hpassable) ?_
    rw [hmost, ← ChunkReader.length_flatten_places]
    rw [← List.append_nil (r.places s).flatten] at h
    refine h.settles hm hr (fun p hp => ?_) fun h' n => Action.nth_of_fixed (h'.next_nil hm hr) n
    rw [← List.take_length (l := r.places s)] at hp
    exact hpassable p.1 (ChunkReader.mem_flatten_take_places hp).2
  · obtain ⟨cause, rfl⟩ := hr.failure?_error hs hobstacle.failure
    refine .stuck (hcolumns ▸ hobstacle) ?_
    have hlt : b < r.batchCount s := by
      by_contra hge
      have hrows := hobstacle.rows
      rw [hr.bounded s b (Nat.le_of_not_lt hge)] at hrows
      exact Nat.lt_irrefl 0 hrows
    obtain ⟨rest, hrest⟩ := ChunkReader.flatten_drop_places hlt hobstacle.rows
    rw [← ChunkReader.length_flatten_take_places r s (Nat.le_of_lt hlt)]
    rw [← List.take_append_drop b (r.places s), List.flatten_append, hrest] at h
    refine h.settles hm hr (fun p hp => ?_) fun h' n => h'.nth_stuck hm hr hobstacle.failure n
    obtain ⟨hfirst, hrows⟩ := ChunkReader.mem_flatten_take_places hp
    exact hobstacle.first p.1 hfirst hrows

theorem outlook_blank (r : ChunkReader σ) (n width : Nat) (s : σ) : Outlook r (blank n width) s :=
  .ends (fun _ _ => rfl) (blank_settles r n width s)

/-- **The iterator of a filter** drains as its reader lets it. -/
theorem outlook_ofFilter {t : TableInfo} {f : ColumnFilter} {it : RowIterator}
    (h : ofFilter t f = .ok it) (hr : r.Drainable I rows) (hs : I s) : Outlook r it s := by
  obtain ⟨-, rfl⟩ | ⟨wrap, read, selection, hm, rfl⟩ := ofFilter_start h
  · exact outlook_blank r _ _ s
  · exact outlook_of_moves hm hr hs rfl rfl

end RowIterator

end Columnar
