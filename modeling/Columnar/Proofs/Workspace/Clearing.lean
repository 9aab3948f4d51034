import Columnar.Proofs.Table.Closed
import Columnar.Proofs.Workspace.Opened

/-!
# Iterators of a table that is cleared

An iterator may outlive the store it reads from: its table may be cleared between two rows.

**Turns** (`Workspace.turns`). The iterator is asked for rows and the table is cleared, in any
order.

**Stages** (`Workspace.Stage`). How far a table is gone for an iterator that has rows to give: they
are counted off, they can be read, or the chunk store was closed that they are read from. Where
there are no more, the iterator is over (`Workspace.Over`) and answers the same each time.

Main result: `answers_of_turns`. The answers are the first rows of the table, in order, and then the
same each time. If not all rows have been given by then, the table has been cleared, and the answer
is an error if the table was loaded. If it comes from a container, the iterator just ends.
-/

namespace Columnar.Workspace

variable {w w' : Workspace} {table : TableId} {id : StoreId} {bs : List Batch} {saved : Bool}
  {info : TableInfo} {rows : List Row}

/-! ## Clearing -/

/-- The table has been cleared. -/
def Cleared (w : Workspace) (table : TableId) : Prop :=
  ∃ t, w.tables[table.index]? = some t ∧ t.cleared = true

theorem Cleared.clearTable (h : w.Cleared table) : Workspace.clearTable table w = (.ok (), w) := by
  obtain ⟨t, ht, hcleared⟩ := h
  rw [Workspace.clearTable, onTable_apply ht, Table.clear_of_cleared hcleared, setTable_self ht]

/-- What reading from a closed chunk store gives. -/
def storeClosed : Failure := .error (.closed .chunkStore)

theorem closeStore_apply {st : Store} (h : w.stores[id.index]? = some st) :
    closeStore id w = (.ok (), w.setStore id st.close) := by
  simp [closeStore, Action.bind_apply, store, h, Outcome.ofIndex]

theorem setStore_self {st : Store} (h : w.stores[id.index]? = some st) : w.setStore id st = w := by
  rw [setStore, setIfInBounds_self h]

/-- Clearing a table closes the store that it is open on. -/
theorem clearTable_of_open {t : Table} (ht : w.tables[table.index]? = some t)
    (hcleared : t.cleared = false) (hid : t.store? = some id) {st : Store}
    (hst : w.stores[id.index]? = some st) :
    clearTable table w = (.ok (), (w.setTable table t.shut).setStore id st.close) := by
  have hclose := closeStore_apply hst
  rw [clearTable, onTable_apply ht, Table.clear_apply hcleared]
  simp only [hid, hclose]
  rfl

theorem Feeds.clear_finalized (h : w.Feeds table id bs false) :
    ∃ w', clearTable table w = (.ok (), w') ∧ w'.Cleared table ∧
      (reader id).Counts w' ([] : Groups) := by
  cases h with
  | @finalized info factory s ht hstore _ _ =>
    let cleared : Table := ⟨info, .finalized factory id, true⟩
    have hself := getElem?_setStore_self (w := w.setTable table cleared) hstore (.memory s.close)
    refine ⟨(w.setTable table cleared).setStore id (.memory s.close), ?_, ⟨cleared, ?_, rfl⟩,
      ?_, ?_⟩
    · exact clearTable_of_open ht rfl rfl hstore
    · exact Array.getElem?_setIfInBounds_self_of_lt (Array.getElem?_eq_some_iff.mp ht).1
    · simp only [reader, hself, Option.map_some, Option.getD_some, Store.batchCount]
      exact AppendLog.size_eq _
    · intro i
      simp only [reader, hself, Option.map_some, Option.getD_some, Store.rowCount,
        MemoryStore.rowCount_eq]
      rfl

theorem readChunk_disk_close (i j : Nat) (d : DiskStore) (fs : Files) :
    DiskStore.readChunk i j (d.close, fs) = (.error storeClosed, (d.close, fs)) := rfl

theorem Feeds.clear_loaded {α : Type} {width : Nat} {groups : List (List α)}
    (h : w.Feeds table id bs true) (hb : BatchesCount width bs groups) :
    ∃ w', clearTable table w = (.ok (), w') ∧ w'.Cleared table ∧ (reader id).Shut w' storeClosed ∧
      (reader id).Counts w' groups := by
  obtain ⟨hsize, hrows⟩ := (reader_shows_of_feeds table id bs true).counts hb h
  cases h with
  | @loaded info task d ht hstore hmirrors =>
    simp only [reader, hstore, Option.map_some, Option.getD_some] at hsize hrows
    let cleared : Table := ⟨info, .saved task .cleared, true⟩
    have hself := getElem?_setStore_self (w := w.setTable table cleared) hstore (.disk d.close)
    refine ⟨(w.setTable table cleared).setStore id (.disk d.close), ?_, ⟨cleared, ?_, rfl⟩, ?_,
      ⟨?_, ?_⟩⟩
    · exact clearTable_of_open ht rfl rfl hstore
    · exact Array.getElem?_setIfInBounds_self_of_lt (Array.getElem?_eq_some_iff.mp ht).1
    · intro i j
      show Workspace.readChunk id i j _ = _
      rw [readChunk_diskStore hself, readChunk_disk_close]
      exact congrArg (Prod.mk _) (setStore_self hself)
    · simp only [reader, hself, Option.map_some, Option.getD_some]
      exact hsize
    · simp only [reader, hself, Option.map_some, Option.getD_some]
      exact hrows

/-! ## Turns -/

/-- What happens while an iterator is in use: it is asked for a row, or its table is cleared. -/
inductive Turn
  | next
  | clear
deriving DecidableEq

/-- Take turns, and collect what the iterator answers. -/
def turns (table : TableId) :
    List Turn → Action (OpenIterator × Workspace) (List (Outcome (Option Row)))
  | [] => return []
  | .next :: ts => do
    let answer ← nextRow.attempt
    return answer :: (← turns table ts)
  | .clear :: ts => do
    let _ ← ((clearTable table).on Prod.snd fun w (it, _) => (it, w)).attempt
    turns table ts

variable {it it' : OpenIterator} {ts : List Turn} {answers : List (Outcome (Option Row))}
  {answer : Outcome (Option Row)} {st : OpenIterator × Workspace}

theorem turns_next (h : nextRow (it, w) = (answer, (it', w')))
    (hrest : turns table ts (it', w') = (.ok answers, st)) :
    turns table (.next :: ts) (it, w) = (.ok (answer :: answers), st) := by
  simp only [turns, Action.bind_apply, Action.attempt_apply, h, hrest]
  rfl

theorem turns_clear (table : TableId) (ts : List Turn) (it : OpenIterator) (w : Workspace) :
    turns table (.clear :: ts) (it, w) = turns table ts (it, (clearTable table w).2) := by
  simp only [turns, Action.bind_apply, Action.attempt_apply, Action.on_apply]

theorem nextRow_apply {rows rows' : RowIterator} {store? : Option StoreId}
    (h : RowIterator.next (readerOf store?) (rows, w) = (answer, (rows', w'))) :
    nextRow (⟨rows, store?⟩, w) = (answer, (⟨rows', store?⟩, w')) := by
  simp only [nextRow, onRows, Action.on_apply, h]

/-- An iterator of a table that was cleared, which gives no more rows. -/
inductive Over (table : TableId) : Bool → OpenIterator → Workspace → Outcome (Option Row) → Prop
  | ended {rows : RowIterator} {id : StoreId} {w : Workspace} (hcleared : w.Cleared table)
    (hit : rows.readsStore = true) (hcount : (reader id).Counts w ([] : Groups)) :
    Over table false ⟨rows, some id⟩ w (.ok none)
  | failed {rows : RowIterator} {id : StoreId} {w : Workspace} (hcleared : w.Cleared table)
    (hshut : (reader id).Shut w storeClosed) (hborder : rows.AtBorder (reader id) w) :
    Over table true ⟨rows, some id⟩ w (.error storeClosed)

theorem Over.cleared (h : Over table saved it w answer) : w.Cleared table := by
  cases h <;> assumption

theorem Over.next (h : Over table saved it w answer) :
    ∃ it', nextRow (it, w) = (answer, (it', w)) ∧ Over table saved it' w answer := by
  cases h with
  | ended hcleared hit hcount =>
    exact ⟨_, nextRow_apply (RowIterator.next_of_no_batches hit hcount), .ended hcleared hit hcount⟩
  | failed hcleared hshut hborder =>
    obtain ⟨rows', hnext, hborder'⟩ := hborder.next hshut
    exact ⟨_, nextRow_apply hnext, .failed hcleared hshut hborder'⟩

theorem Over.turns (h : Over table saved it w answer) (ts : List Turn) :
    ∃ n st, Workspace.turns table ts (it, w) = (.ok (List.replicate n answer), st) := by
  -- on the turns: an iterator that is over gives the same answer each time
  induction ts generalizing it with
  | nil => exact ⟨0, _, rfl⟩
  | cons t ts ih =>
    cases t with
    | next =>
      obtain ⟨it', hnext, h'⟩ := h.next
      obtain ⟨n, st, hrun⟩ := ih h'
      exact ⟨n + 1, st, turns_next hnext hrun⟩
    | clear =>
      obtain ⟨n, st, hrun⟩ := ih h
      exact ⟨n, st, by rw [turns_clear, h.cleared.clearTable, hrun]⟩

/-- How far a table is gone for an iterator that has rows to give: it counts them off, it can read
them, or the chunk store was closed that it reads them from. -/
inductive Stage (table : TableId) (saved : Bool) : Bool → OpenIterator → Workspace → List Row → Prop
  | counting {cleared : Bool} {w : Workspace} (n width : Nat) :
    Stage table saved cleared ⟨.blank n width, none⟩ w
      (List.replicate n (RowIterator.blankRow none width))
  | reading {rows : RowIterator} {id : StoreId} {w : Workspace} {left : List Row} {schema : Schema}
    {bs : List Batch} {groups : Groups} (hit : rows.readsStore = true)
    (hfeeds : w.Feeds table id bs saved) (hb : BatchesCount schema.length bs groups)
    (hawaits : rows.Awaits schema bs groups left) :
    Stage table saved false ⟨rows, some id⟩ w left
  | shut {rows : RowIterator} {id : StoreId} {w : Workspace} {left : List Row} {schema : Schema}
    {bs : List Batch} {groups : Groups} (hsaved : saved = true) (hcleared : w.Cleared table)
    (hshut : (reader id).Shut w storeClosed) (hcount : (reader id).Counts w groups)
    (hb : BatchesCount schema.length bs groups) (hawaits : rows.Awaits schema bs groups left) :
    Stage table saved true ⟨rows, some id⟩ w left

variable {cleared : Bool} {left : List Row} {row : Row}

theorem Stage.next_nil (h : Stage table saved cleared it w []) :
    nextRow (it, w) = (.ok none, (it, w)) := by
  generalize hleft : ([] : List Row) = left at h
  cases h with
  | counting n width =>
    cases n with
    | zero => rfl
    | succ n => cases hleft
  | reading _ hfeeds hb hawaits =>
    subst hleft
    exact nextRow_apply (hawaits.next_nil ((reader_shows_of_feeds _ _ _ _).counts hb hfeeds))
  | shut _ _ _ hcount _ hawaits =>
    subst hleft
    exact nextRow_apply (hawaits.next_nil hcount)

/-- **The next row is given**, or the store was closed and the iterator is over. -/
theorem Stage.next_cons (h : Stage table saved cleared it w (row :: left)) :
    (∃ it' w', nextRow (it, w) = (.ok (some row), (it', w')) ∧ it'.store? = it.store? ∧
      Stage table saved cleared it' w' left) ∨
    (saved = true ∧ cleared = true ∧ it.store?.isSome = true ∧
      ∃ it', nextRow (it, w) = (.error storeClosed, (it', w)) ∧
        Over table saved it' w (.error storeClosed)) := by
  generalize hleft : row :: left = all at h
  cases h with
  | counting n width =>
    cases n with
    | zero => cases hleft
    | succ n =>
      cases hleft
      exact .inl ⟨_, _, rfl, rfl, .counting n width⟩
  | @reading rows id _ _ schema bs groups hit hfeeds hb hawaits =>
    subst hleft
    obtain ⟨rows', w', hnext, hfeeds', hawaits'⟩ :=
      hawaits.next_cons (reader_shows_of_feeds table id bs saved) hb hfeeds
    have hit' : rows'.readsStore = true := by
      have hkind := RowIterator.readsStore_next (r := reader id) rows w
      rw [hnext] at hkind
      exact hkind.trans hit
    exact .inl ⟨_, w', nextRow_apply hnext, rfl, .reading hit' hfeeds' hb hawaits'⟩
  | shut hsaved hcleared hshut hcount hb hawaits =>
    subst hleft hsaved
    obtain ⟨rows', hnext, hawaits'⟩ | ⟨rows', hnext, hborder⟩ :=
      hawaits.next_shut hshut hcount hb
    · exact .inl ⟨_, w, nextRow_apply hnext, rfl, .shut rfl hcleared hshut hcount hb hawaits'⟩
    · exact .inr ⟨rfl, rfl, rfl, _, nextRow_apply hnext, .failed hcleared hshut hborder⟩

/-- **Clearing the table** ends the iterator if the rows are in memory. -/
theorem Stage.clear (h : Stage table saved cleared it w left) :
    Stage table saved true it (clearTable table w).2 left ∨
    (saved = false ∧ it.store?.isSome = true ∧
      Over table saved it (clearTable table w).2 (.ok none)) := by
  cases h with
  | counting n width => exact .inl (.counting n width)
  | reading hit hfeeds hb hawaits =>
    cases saved with
    | false =>
      obtain ⟨w', hclear, hcleared, hcount⟩ := hfeeds.clear_finalized
      rw [hclear]
      exact .inr ⟨rfl, rfl, .ended hcleared hit hcount⟩
    | true =>
      obtain ⟨w', hclear, hcleared, hshut, hcount⟩ := hfeeds.clear_loaded hb
      rw [hclear]
      exact .inl (.shut rfl hcleared hshut hcount hb hawaits)
  | shut hsaved hcleared hshut hcount hb hawaits =>
    rw [hcleared.clearTable]
    exact .inl (.shut hsaved hcleared hshut hcount hb hawaits)

/-- Only a chunk store has rows to give after the table was cleared. -/
theorem Stage.of_cleared (h : Stage table saved true it w left) :
    saved = true ∨ it.store? = none := by
  cases h with
  | counting => exact .inr rfl
  | shut hsaved => exact .inl hsaved

/-- What an iterator answers that gives no more rows, and why. -/
inductive Ending (saved : Bool) (cleared : Prop) : List Row → Outcome (Option Row) → Prop
  /-- All rows have been given. -/
  | complete : Ending saved cleared [] (.ok none)
  /-- Rows are left in a chunk file that has been closed. -/
  | reported {row : Row} {left : List Row} (hsaved : saved = true) (hcleared : cleared) :
    Ending saved cleared (row :: left) (.error storeClosed)
  /-- Rows were left in a memory store that has been emptied. -/
  | silent {row : Row} {left : List Row} (hsaved : saved = false) (hcleared : cleared) :
    Ending saved cleared (row :: left) (.ok none)

theorem Ending.mono {p q : Prop} (h : Ending saved p left answer) (hpq : p → q) :
    Ending saved q left answer := by
  cases h with
  | complete => exact .complete
  | reported hsaved hcleared => exact .reported hsaved (hpq hcleared)
  | silent hsaved hcleared => exact .silent hsaved (hpq hcleared)

/-- What an iterator answers in its turns: rows first, one after the other, and then the same each
time. If it reads from memory, no row is given after the table was cleared. -/
structure Replies (saved reads : Bool) (cleared : Prop) (ts : List Turn)
    (rows given left : List Row) (answers : List (Outcome (Option Row))) : Prop where
  rows_eq : rows = given ++ left
  answers_eq : ∃ n last, answers = given.map (.ok ∘ some) ++ List.replicate n last ∧
    (0 < n → Ending saved (reads = true ∧ (cleared ∨ .clear ∈ ts)) left last)
  prompt : saved = false → reads = true → ∀ before after, ts = before ++ .clear :: after →
    given.length ≤ before.count .next

section Replies

variable {reads : Bool} {p : Prop} {given : List Row}

/-- No rows are given if there was none in the first place, or if it is over. -/
theorem replies_replicate {n : Nat}
    (h : 0 < n → Ending saved (reads = true ∧ (p ∨ .clear ∈ ts)) rows answer) :
    Replies saved reads p ts rows [] rows (List.replicate n answer) :=
  ⟨rfl, ⟨n, answer, rfl, h⟩, fun _ _ _ _ _ => Nat.zero_le _⟩

theorem Replies.cons (h : Replies saved reads p ts rows given left answers) (row : Row) :
    Replies saved reads p (.next :: ts) (row :: rows) (row :: given) left
      (.ok (some row) :: answers) where
  rows_eq := by rw [h.rows_eq, List.cons_append]
  answers_eq := by
    obtain ⟨n, last, hanswers, hending⟩ := h.answers_eq
    refine ⟨n, last, by rw [hanswers]; rfl, fun hn => (hending hn).mono fun hp => ⟨hp.1, ?_⟩⟩
    exact hp.2.imp id (List.mem_cons_of_mem _)
  prompt hsaved hreads before after hsplit := by
    cases before with
    | nil => cases hsplit
    | cons t before =>
      cases hsplit
      rw [List.count_cons_self]
      exact Nat.succ_le_succ (h.prompt hsaved hreads before after rfl)

theorem Replies.nil (h : Replies saved reads p ts [] given left answers) :
    Replies saved reads p (.next :: ts) [] given left (.ok none :: answers) := by
  obtain ⟨rfl, rfl⟩ := List.append_eq_nil_iff.mp h.rows_eq.symm
  obtain ⟨n, last, rfl, hending⟩ := h.answers_eq
  have hlast : List.replicate n last = List.replicate n (.ok none) := by
    cases n with
    | zero => rfl
    | succ n => cases hending (Nat.succ_pos n); rfl
  rw [List.map_nil, List.nil_append, hlast, ← List.replicate_succ]
  exact replies_replicate fun _ => .complete

theorem Replies.clear {q : Prop} (h : Replies saved reads q ts rows given left answers)
    (hgiven : saved = false → reads = true → given = []) :
    Replies saved reads p (.clear :: ts) rows given left answers where
  rows_eq := h.rows_eq
  answers_eq := by
    obtain ⟨n, last, hanswers, hending⟩ := h.answers_eq
    exact ⟨n, last, hanswers, fun hn => (hending hn).mono fun hp => ⟨hp.1, .inr List.mem_cons_self⟩⟩
  prompt hsaved hreads _ _ _ := by
    rw [hgiven hsaved hreads]
    exact Nat.zero_le _

end Replies

/-- **All turns.** -/
theorem Stage.turns (h : Stage table saved cleared it w left) {p : Prop} (hp : cleared = true → p)
    (ts : List Turn) :
    ∃ given rest answers st, Workspace.turns table ts (it, w) = (.ok answers, st) ∧
      Replies saved it.store?.isSome p ts left given rest answers := by
  -- on the turns: `Stage` is kept by each until the rows are over or the table is cleared
  induction ts generalizing it w left cleared p with
  | nil =>
    refine ⟨[], left, [], _, rfl, rfl, ⟨0, .ok none, rfl, fun h => absurd h (Nat.lt_irrefl 0)⟩, ?_⟩
    intro _ _ before after h
    cases before <;> cases h
  | cons t ts ih =>
    cases t with
    | next =>
      cases left with
      | nil =>
        obtain ⟨given, rest, answers, st, hrun, hreplies⟩ := ih h hp
        exact ⟨given, rest, _, st, turns_next h.next_nil hrun, hreplies.nil⟩
      | cons row left =>
        obtain ⟨it', w', hnext, hstore, h'⟩ | ⟨hsaved, hcleared, hreads, it', hnext, hover⟩ :=
          h.next_cons
        · obtain ⟨given, rest, answers, st, hrun, hreplies⟩ := ih h' hp
          rw [hstore] at hreplies
          exact ⟨row :: given, rest, _, st, turns_next hnext hrun, hreplies.cons row⟩
        · obtain ⟨n, st, hrun⟩ := hover.turns ts
          refine ⟨[], row :: left, _, st, turns_next hnext hrun, ?_⟩
          rw [← List.replicate_succ]
          exact replies_replicate fun _ => .reported hsaved ⟨hreads, .inl (hp hcleared)⟩
    | clear =>
      rw [turns_clear]
      obtain h' | ⟨hsaved, hreads, hover⟩ := h.clear
      · obtain ⟨given, rest, answers, st, hrun, hreplies⟩ := ih h' (p := True) fun _ => trivial
        refine ⟨given, rest, answers, st, hrun, hreplies.clear fun hsaved hreads => ?_⟩
        rcases h'.of_cleared with hloaded | hstore
        · rw [hsaved] at hloaded
          cases hloaded
        · rw [hstore] at hreads
          cases hreads
      · obtain ⟨n, st, hrun⟩ := hover.turns ts
        refine ⟨[], left, _, st, hrun, replies_replicate fun _ => ?_⟩
        cases left with
        | nil => exact .complete
        | cons row left => exact .silent hsaved ⟨hreads, .inr List.mem_cons_self⟩

theorem length_turns (h : turns table ts (it, w) = (.ok answers, st)) :
    answers.length = ts.count .next := by
  induction ts generalizing it w answers with
  | nil =>
    cases h
    rfl
  | cons t ts ih =>
    cases t with
    | next =>
      obtain ⟨answer, ⟨it', w'⟩, -, h⟩ := Action.bind_eq_ok h
      obtain ⟨rest, st', hrest, h⟩ := Action.bind_eq_ok h
      cases h
      rw [List.length_cons, ih hrest, List.count_cons_self]
    | clear =>
      rw [turns_clear] at h
      rw [ih h]
      rfl

/-! ## The iterators of a table -/

variable {f : ColumnFilter}

/-- **The iterator of a table that was made** has the masked rows before it. -/
theorem stage_of_iterate {serializers : SerializerRegistry} (hmade : Made serializers w table)
    (h : iterate table f w = (.ok it, w')) :
    ∃ t rows, w'.tables[table.index]? = some t ∧ w'.Serves table t.info rows ∧
      rows.length = t.info.size ∧ Stage table t.isSaved false it w'
        (rows.map (·.masked t.info.mapping.hasKeys f.selects)) := by
  have hmade' := hmade.reads (.iterate .refl table f)
  have hkeeps := keeps_iterate table f w
  rw [h] at hmade' hkeeps
  obtain ⟨t₀, ht₀, hf, hfilter, haccess⟩ := iterate_eq_ok h
  obtain ⟨t, ht, hinfo, -⟩ := hkeeps.tables ht₀
  rw [← hinfo] at hf hfilter haccess
  obtain ⟨info, rows, hserves, -⟩ := hmade'.serves
  obtain ⟨t', bs, ht', rfl, hfrom⟩ := id hserves
  cases ht.symm.trans ht'
  have hholds := hfrom.holds
  refine ⟨t, rows, ht, hserves, hholds.size_eq.symm, ?_⟩
  obtain ⟨groups, hstored, hrows⟩ := hholds.stored
  obtain ⟨left, hfilter', hawaits⟩ := RowIterator.awaits_ofFilter hholds hstored hrows hf
  cases hfilter.symm.trans hfilter'
  obtain ⟨it, store?⟩ := it
  -- an iterator that needs no store counts the rows off
  cases hneeds : RowIterator.needsStore t.info f with
  | false =>
    rw [hneeds, if_neg Bool.false_ne_true] at haccess
    obtain ⟨rfl, -⟩ := haccess
    obtain ⟨hkeys, hselects, hblank⟩ := ofFilter_of_not_needsStore hneeds
    cases hfilter.symm.trans hblank
    rw [hselects, ← RowIterator.replicate_blankRow hholds hkeys]
    exact .counting _ _
  | true =>
    rw [hneeds, if_pos rfl] at haccess
    obtain ⟨id, rfl, haccess⟩ := haccess
    obtain ⟨t', ht', hid⟩ := accessStore_opens haccess
    cases ht.symm.trans ht'
    have hit : it.readsStore = true := by
      obtain ⟨hnot, -⟩ | ⟨wrap, read, selection, hm, heq⟩ := RowIterator.ofFilter_start hfilter
      · rw [hneeds] at hnot
        cases hnot
      · cases heq
        cases hm <;> rfl
    exact .reading hit (hfrom.feeds hmade'.openedOnDisk ht hid) hstored.count hawaits

/-- **Turns at a table that may be cleared.** -/
theorem answers_of_turns {serializers : SerializerRegistry} (hmade : Made serializers w table)
    (h : iterate table f w = (.ok it, w')) (ts : List Turn) :
    ∃ t rows given left answers n last st,
      w'.tables[table.index]? = some t ∧ w'.Serves table t.info rows ∧ rows.length = t.info.size ∧
      turns table ts (it, w') = (.ok answers, st) ∧ answers.length = ts.count .next ∧
      rows.map (·.masked t.info.mapping.hasKeys f.selects) = given ++ left ∧
      answers = given.map (.ok ∘ some) ++ List.replicate n last ∧
      (0 < n → Ending t.isSaved (it.store?.isSome = true ∧ .clear ∈ ts) left last) ∧
      (t.isSaved = false → it.store?.isSome = true → ∀ before after,
        ts = before ++ .clear :: after → given.length ≤ before.count .next) ∧
      ((t.isSaved = true ∨ it.store? = none ∨ .clear ∉ ts) → .ok none ∈ answers →
        given.length = t.info.size) := by
  obtain ⟨t, rows, ht, hserves, hsize, hstage⟩ := stage_of_iterate hmade h
  obtain ⟨given, left, answers, st, hrun, hrows, ⟨n, last, hanswers, hending⟩, hprompt⟩ :=
    hstage.turns (p := False) Bool.false_ne_true ts
  refine ⟨t, rows, given, left, answers, n, last, st, ht, hserves, hsize, hrun, length_turns hrun,
    hrows, hanswers, fun hn => (hending hn).mono fun hp => ⟨hp.1, hp.2.resolve_left id⟩, hprompt,
    ?_⟩
  intro hcase hnone
  have hnot : ∀ row, (Except.ok ∘ some) row ≠ (.ok none : Outcome (Option Row)) :=
    fun row h => by cases h
  rw [hanswers, List.mem_append, List.mem_map, List.mem_replicate] at hnone
  obtain ⟨row, -, hrow⟩ | ⟨hn, rfl⟩ := hnone
  · exact absurd hrow (hnot row)
  · rcases left with _ | ⟨row, left⟩
    · rw [List.append_nil] at hrows
      rw [← hrows, List.length_map, hsize]
    · cases hending (Nat.pos_of_ne_zero hn) with
      | silent hsaved hcleared =>
        obtain ⟨hreads, hclear⟩ := hcleared
        rcases hcase with hloaded | hstore | hclear'
        · rw [hsaved] at hloaded
          cases hloaded
        · rw [hstore] at hreads
          cases hreads
        · exact absurd (hclear.resolve_left id) hclear'

theorem exists_iterate_sampleMade :
    ∃ rows, iterate ⟨0⟩ .all sampleMade = (.ok ⟨rows, some ⟨0⟩⟩, sampleMade) := by
  have haccess : accessStore ⟨0⟩ sampleMade = (.ok ⟨0⟩, sampleMade) :=
    accessStore_finalized sampleMade_table
  have hrun := iterate_apply sampleMade_table (f := .all) rfl rfl
  rw [if_pos (show RowIterator.needsStore _ _ = true from rfl), haccess, Outcome.map_ok] at hrun
  dsimp only at hrun
  exact ⟨_, hrun⟩

/-- Once the table is cleared there are no more rows of it. -/
theorem answers_of_turns_sample :
    ∃ it n st, ∃ given : List Row, iterate ⟨0⟩ .all sampleMade = (.ok it, sampleMade) ∧
      turns ⟨0⟩ [.next, .clear, .next, .next] (it, sampleMade) =
        (.ok (given.map (.ok ∘ some) ++ List.replicate n (.ok none)), st) ∧
      given.length ≤ 1 ∧ given.length + n = 3 := by
  have hmade : Made .builtin sampleMade ⟨0⟩ := .container rfl sampleRows_return sampleMade_run
  obtain ⟨it, hiterate⟩ := exists_iterate_sampleMade
  obtain ⟨t, -, given, left, answers, n, last, st, ht, -, -, hrun, hlength, -, rfl, hending,
    hprompt, -⟩ := answers_of_turns hmade hiterate [.next, .clear, .next, .next]
  rw [sampleMade_table] at ht
  cases ht
  have hgiven : given.length ≤ 1 := hprompt rfl rfl [.next] [.next, .next] rfl
  rw [List.length_append, List.length_map, List.length_replicate] at hlength
  have hlength : given.length + n = 3 := hlength
  cases hending (by omega) with
  | complete => exact ⟨_, n, st, given, hiterate, hrun, hgiven, hlength⟩
  | reported hsaved => cases hsaved
  | silent => exact ⟨_, n, st, given, hiterate, hrun, hgiven, hlength⟩

/-- **An iterator may end before all rows have been given, without an error**, when its table is
cleared. -/
theorem cleared_table_ends_early :
    ∃ it row st, Made .builtin sampleMade ⟨0⟩ ∧
      sampleMade.tables[0]? = some ⟨sampleInfo, .finalized ⟨0⟩ ⟨0⟩, false⟩ ∧ sampleInfo.size = 3 ∧
      iterate ⟨0⟩ .all sampleMade = (.ok it, sampleMade) ∧
      turns ⟨0⟩ [.next, .clear, .next] (it, sampleMade) = (.ok [.ok (some row), .ok none], st) := by
  have hmade : Made .builtin sampleMade ⟨0⟩ := .container rfl sampleRows_return sampleMade_run
  obtain ⟨it, hiterate⟩ := exists_iterate_sampleMade
  obtain ⟨t, rows, ht, -, hsize, hstage⟩ := stage_of_iterate hmade hiterate
  rw [sampleMade_table] at ht
  cases ht
  rcases rows with _ | ⟨row, rows⟩
  · cases hsize
  rw [List.map_cons] at hstage
  obtain ⟨it', w', hnext, hstore, hstage'⟩ | ⟨hsaved, -⟩ := hstage.next_cons
  · obtain hstage'' | ⟨-, -, hover⟩ := hstage'.clear
    · rcases hstage''.of_cleared with hloaded | hnone
      · cases hloaded
      · rw [hstore] at hnone
        cases hnone
    · obtain ⟨it'', hlast, -⟩ := hover.next
      have hrest : turns ⟨0⟩ [.clear, .next] (it', w') =
          (.ok [.ok none], (it'', (clearTable ⟨0⟩ w').2)) := by
        rw [turns_clear]
        exact turns_next hlast rfl
      exact ⟨_, _, _, hmade, sampleMade_table, rfl, hiterate, turns_next hnext hrest⟩
  · cases hsaved

end Columnar.Workspace
