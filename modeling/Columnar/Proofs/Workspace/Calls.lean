import Columnar.Proofs.Table.Filling
import Columnar.Proofs.Workspace.Clearing

/-!
# Calls on a container

**Calls** (`OpenContainer.Call`). The user of a container adds rows, closes it, clears it and asks
for its size and its table, in any order, and goes on after a failure, also after an abort.

**The end of the filling** (`ending?`). The first call that closes or clears a container ends its
filling (`Ended`). A container that is closed first has a table from then on (`ClosedFirst`), one
that is cleared first never has one.

**Where a container stands** (`Stands`). It is being filled, or it is finished and shares its store
with its table, or it was dropped. A call that comes after the filling changes nothing, except that
the first one to clear the container closes the store.

Main result: `answers_of_calls`, what each call answers from the calls before it.
-/

namespace Columnar

namespace OpenContainer

open Workspace

/-! ## Calls -/

/-- What the user of a container asks for. -/
inductive Call
  | add (row : Row)
  | close
  | clear
  | size
  | table

/-- A call and what it answers. -/
inductive Turn
  | add (row : Row) (o : Outcome Unit)
  | close (o : Outcome Unit)
  | clear (o : Outcome Unit)
  | size (n : Nat)
  | table (o : Outcome TableId)

namespace Turn

def call : Turn → Call
  | .add row _ => .add row
  | .close _ => .close
  | .clear _ => .clear
  | .size _ => .size
  | .table _ => .table

/-- The row that was taken. -/
def row? : Turn → Option Row
  | .add row (.ok ()) => some row
  | _ => none

end Turn

/-- Perform a call. -/
def perform (call : Call) (x : OpenContainer × Workspace) : Turn × (OpenContainer × Workspace) :=
  match call with
  | .add row =>
    let (o, x) := addRow row x
    (.add row o, x)
  | .close =>
    let (o, x) := closeContainer x
    (.close o, x)
  | .clear =>
    let (o, x) := clearContainer x
    (.clear o, x)
  | .size => (.size x.1.container.size, x)
  | .table => (.table (tableOf x.1), x)

/-- Perform calls one after the other. -/
def performAll : List Call → OpenContainer × Workspace → List Turn × (OpenContainer × Workspace)
  | [], x => ([], x)
  | call :: calls, x =>
    let (turn, x) := perform call x
    let (turns, x) := performAll calls x
    (turn :: turns, x)

/-- The calls that were answered. -/
def callsOf (turns : List Turn) : List Call := turns.map Turn.call

/-- The rows that were taken. -/
def taken (turns : List Turn) : List Row := turns.filterMap Turn.row?

/-- The container was closed or cleared. -/
def Ended (turns : List Turn) : Prop := .close ∈ callsOf turns ∨ .clear ∈ callsOf turns

/-- The container was closed, and not cleared before. -/
def ClosedFirst (turns : List Turn) : Prop :=
  ∃ before after, callsOf turns = before ++ .close :: after ∧ .clear ∉ before

/-- The answer of a call after the turns before. -/
inductive Follows (table : TableId) (past : List Turn) : Turn → Prop
  | taken {row : Row} (hpast : ¬ Ended past) : Follows table past (.add row (.ok ()))
  | refused {row : Row} {e : Failure} (hpast : ¬ Ended past) :
    Follows table past (.add row (.error e))
  | late {row : Row} (hpast : Ended past) :
    Follows table past (.add row (Outcome.fail (.closed .rowContainer)))
  | close : Follows table past (.close (.ok ()))
  | clear : Follows table past (.clear (.ok ()))
  | size : Follows table past (.size (OpenContainer.taken past).length)
  | table (hpast : ClosedFirst past) : Follows table past (.table (.ok table))
  | noTable (hpast : ¬ ClosedFirst past) :
    Follows table past (.table (Outcome.fail (.illegalState .containerOpen)))

variable {id : StoreId} {table : TableId} {past turns : List Turn} {turn : Turn}
  {calls : List Call} {c c' : OpenContainer} {w w' w'' : Workspace}

theorem taken_append (past turns : List Turn) : taken (past ++ turns) = taken past ++ taken turns :=
  List.filterMap_append

theorem taken_concat (past : List Turn) (h : turn.row? = none) :
    taken (past ++ [turn]) = taken past := by
  rw [taken_append]
  simp [taken, h]

theorem mem_callsOf_concat {call : Call} :
    call ∈ callsOf (past ++ [turn]) ↔ call ∈ callsOf past ∨ call = turn.call := by
  rw [callsOf, List.map_append, List.mem_append, List.map_singleton, List.mem_singleton]
  rfl

/-! ## What ended the filling -/

def Call.ends : Call → Bool
  | .close | .clear => true
  | _ => false

/-- The first call that closes or clears the container. -/
def ending? (turns : List Turn) : Option Call := (callsOf turns).find? Call.ends

theorem ending?_append (past turns : List Turn) :
    ending? (past ++ turns) = (ending? past).or (ending? turns) := by
  rw [ending?, callsOf, List.map_append, List.find?_append]
  rfl

theorem Call.eq_of_ends {call : Call} (h : call.ends = true) : call = .close ∨ call = .clear := by
  cases call with
  | close => exact .inl rfl
  | clear => exact .inr rfl
  | add row => cases h
  | size => cases h
  | table => cases h

theorem ended_iff : Ended turns ↔ ending? turns ≠ none := by
  constructor
  · rintro (hclose | hclear) hnone
    · exact absurd rfl (List.find?_eq_none.mp hnone _ hclose)
    · exact absurd rfl (List.find?_eq_none.mp hnone _ hclear)
  · intro h
    obtain ⟨call, hcall⟩ := Option.ne_none_iff_exists'.mp h
    have hmem := List.mem_of_find?_eq_some hcall
    rcases Call.eq_of_ends (List.find?_some hcall) with rfl | rfl
    · exact .inl hmem
    · exact .inr hmem

theorem closedFirst_iff : ClosedFirst turns ↔ ending? turns = some .close := by
  constructor
  · rintro ⟨before, after, hcalls, hclear⟩
    rw [ending?, hcalls, List.find?_append]
    cases hfind : before.find? Call.ends with
    | none => rfl
    | some call =>
      rcases Call.eq_of_ends (List.find?_some hfind) with rfl | rfl
      · rfl
      · exact absurd (List.mem_of_find?_eq_some hfind) hclear
  · intro h
    obtain ⟨-, before, after, hcalls, hbefore⟩ := List.find?_eq_some_iff_append.mp h
    exact ⟨before, after, hcalls, fun hclear => by cases hbefore _ hclear⟩

/-- A turn that comes too late to end the filling, or that ends nothing. -/
theorem ending?_concat (h : ending? past ≠ none ∨ turn.call.ends = false) :
    ending? (past ++ [turn]) = ending? past := by
  rw [ending?_append]
  cases hpast : ending? past with
  | some call => rfl
  | none =>
    have hends := h.resolve_left (· hpast)
    simp [ending?, callsOf, hends]

theorem ending?_concat_of_ends (h : ending? past = none) (turn : Turn)
    (hends : turn.call.ends = true) :
    ending? (past ++ [turn]) = some turn.call := by
  rw [ending?_append, h]
  simp [ending?, callsOf, hends]

theorem not_cleared (h : ending? past = none) : .clear ∉ callsOf past := by
  intro hmem
  exact absurd rfl (List.find?_eq_none.mp h _ hmem)

/-! ## Clearing in a workspace -/

theorem clearContainer_of_none (h : c.table? = none) :
    clearContainer (c, w) = onContainer Container.clear (c, w) := by
  simp only [clearContainer, Action.bind_apply, Action.get_apply, h]

theorem clearContainer_of_some (h : c.table? = some table) :
    clearContainer (c, w) = ((clearTable table w).1, (c, (clearTable table w).2)) := by
  simp only [clearContainer, Action.bind_apply, Action.get_apply, h, Action.on_apply]

/-! ## Where a container stands -/

/-- Where the container stands after some turns: it is being filled, or it is finished and has a
table, or it was dropped before it had one. -/
inductive Stands (id : StoreId) (table : TableId) (past : List Turn) :
    OpenContainer → Workspace → Prop
  | filling {k : Container} {factory : FactoryId} {s : MemoryStore} {w : Workspace}
    (hpast : ending? past = none) (hfilling : k.Filling s) (hsize : k.size = (taken past).length)
    (hnext : table = ⟨w.tables.size⟩) (hstore : w.stores[id.index]? = some (.memory s)) :
    Stands id table past ⟨k, factory, id, none⟩ w
  | finished {k : Container} {factory : FactoryId} {info : TableInfo} {cleared : Bool}
    {s : MemoryStore} {w : Workspace} (hpast : ending? past = some .close)
    (hcursor : k.cursor? = none) (hsize : k.size = (taken past).length)
    (hinfo : info.size = (taken past).length)
    (htable : w.tables[table.index]? = some ⟨info, .finalized factory id, cleared⟩)
    (hstore : w.stores[id.index]? = some (.memory s))
    (hcleared : cleared = true ↔ .clear ∈ callsOf past)
    (hshut : cleared = true → s.close = s) :
    Stands id table past ⟨k, factory, id, some table⟩ w
  | dropped {k : Container} {factory : FactoryId} {s : MemoryStore} {w : Workspace}
    (hpast : ending? past = some .clear) (hcursor : k.cursor? = none)
    (hsize : k.size = (taken past).length)
    (hstore : w.stores[id.index]? = some (.memory s.close)) :
    Stands id table past ⟨k, factory, id, none⟩ w

/-- The store is as it was, or it was closed. -/
def StoreKept (id : StoreId) (w w' : Workspace) : Prop :=
  ∃ s, w.stores[id.index]? = some (.memory s) ∧
    (w'.stores[id.index]? = some (.memory s) ∨ w'.stores[id.index]? = some (.memory s.close))

theorem StoreKept.trans (h : StoreKept id w w') (h' : StoreKept id w' w'') :
    StoreKept id w w'' := by
  obtain ⟨s, hs, hkept⟩ := h
  obtain ⟨s', hs', hkept'⟩ := h'
  refine ⟨s, hs, ?_⟩
  rcases hkept with hsame | hclosed
  · rw [hsame] at hs'
    cases hs'
    exact hkept'
  · rw [hclosed] at hs'
    cases hs'
    exact .inr (hkept'.elim (·) (·))

namespace Stands

theorem size_eq (h : Stands id table past c w) : c.container.size = (taken past).length := by
  cases h <;> assumption

theorem store_eq (h : Stands id table past c w) : c.store = id := by
  cases h <;> rfl

theorem exists_store (h : Stands id table past c w) :
    ∃ s, w.stores[id.index]? = some (.memory s) := by
  cases h <;> exact ⟨_, by assumption⟩

theorem kept (h : Stands id table past c w) : StoreKept id w w := by
  obtain ⟨s, hs⟩ := h.exists_store
  exact ⟨s, hs, .inl hs⟩

theorem stays (h : Stands id table past c w) (hrow : turn.row? = none)
    (hend : ending? past ≠ none ∨ turn.call.ends = false)
    (hclear : turn.call = .clear → .clear ∈ callsOf past) :
    Stands id table (past ++ [turn]) c w := by
  have hpast' := ending?_concat hend
  have htaken := taken_concat past hrow
  have hmem : .clear ∈ callsOf (past ++ [turn]) ↔ .clear ∈ callsOf past := by
    rw [mem_callsOf_concat]
    exact ⟨fun h => h.elim (·) fun h => hclear h.symm, .inl⟩
  cases h with
  | filling hpast hfilling hsize hnext hstore =>
    exact .filling (hpast'.trans hpast) hfilling (htaken ▸ hsize) hnext hstore
  | finished hpast hcursor hsize hinfo htable hstore hcleared hshut =>
    exact .finished (hpast'.trans hpast) hcursor (htaken ▸ hsize) (htaken ▸ hinfo) htable hstore
      (hcleared.trans hmem.symm) hshut
  | dropped hpast hcursor hsize hstore =>
    exact .dropped (hpast'.trans hpast) hcursor (htaken ▸ hsize) hstore

/-! ## The filling -/

theorem filling_of (h : Stands id table past c w) (hpast : ending? past = none) :
    ∃ k factory s, c = ⟨k, factory, id, none⟩ ∧ k.Filling s ∧ k.size = (taken past).length ∧
      table = ⟨w.tables.size⟩ ∧ w.stores[id.index]? = some (.memory s) := by
  cases h with
  | filling _ hfilling hsize hnext hstore =>
    exact ⟨_, _, _, rfl, hfilling, hsize, hnext, hstore⟩
  | finished hended => cases hpast.symm.trans hended
  | dropped hended => cases hpast.symm.trans hended

theorem add (h : Stands id table past c w) (hpast : ending? past = none) (row : Row) :
    ∃ o c' w', addRow row (c, w) = (o, (c', w')) ∧
      Stands id table (past ++ [.add row o]) c' w' := by
  obtain ⟨k, factory, s, rfl, hfilling, hsize, hnext, hs⟩ := h.filling_of hpast
  obtain ⟨o, k', s', hadd, hfilling', hsize', -⟩ := hfilling.add row
  have htaken : (taken (past ++ [.add row o])).length =
      (taken past).length + if o.isOk then 1 else 0 := by
    rw [taken_append, List.length_append]
    cases o <;> rfl
  refine ⟨o, ⟨k', factory, id, none⟩, w.setStore id (.memory s'), ?_,
    .filling ((ending?_concat (.inr rfl)).trans hpast) hfilling' (by rw [hsize', hsize, htaken])
      hnext (getElem?_setStore_self hs _)⟩
  rw [addRow, onContainer_apply (c := ⟨k, factory, id, none⟩) hs, hadd]

/-- **Closed first**, a container has its table. -/
theorem close (h : Stands id table past c w) (hpast : ending? past = none) :
    ∃ c' w', closeContainer (c, w) = (.ok (), (c', w')) ∧
      Stands id table (past ++ [.close (.ok ())]) c' w' := by
  obtain ⟨k, factory, s, rfl, hfilling, hsize, rfl, hs⟩ := h.filling_of hpast
  obtain ⟨s', hclose, -⟩ := hfilling.close
  have hcursor : k.cursor?.isNone = false := by
    obtain ⟨cursor, -, -, hcursor, -⟩ := hfilling.written
    rw [hcursor, Option.isNone_some]
  have hnot : .clear ∉ callsOf (past ++ [.close (.ok ())]) := by
    rw [mem_callsOf_concat]
    exact fun h => h.elim (not_cleared hpast) fun h => by cases h
  let k' := k.update none k.mapping.tags
  have hsize' : k'.size = (taken (past ++ [.close (.ok ())])).length := by
    rw [taken_concat past rfl]
    exact hsize
  refine ⟨⟨k', factory, id, some ⟨w.tables.size⟩⟩, { w.setStore id (.memory s') with
    tables := w.tables.push ⟨k'.info, .finalized factory id, false⟩ }, ?_, ?_⟩
  · simp only [closeContainer, Action.bind_apply, Action.get_apply, hcursor, Bool.false_eq_true,
      if_false, onContainer_apply (c := ⟨k, factory, id, none⟩) hs, hclose, Action.on_apply,
      addTable]
    rfl
  · exact .finished (ending?_concat_of_ends hpast _ rfl) rfl hsize' hsize' Array.getElem?_push_size
      (getElem?_setStore_self hs (.memory s')) (iff_of_false Bool.false_ne_true hnot)
      fun h => absurd h Bool.false_ne_true

/-- **Cleared first**, it has none and its store is closed. -/
theorem clear (h : Stands id table past c w) (hpast : ending? past = none) :
    ∃ c' w', clearContainer (c, w) = (.ok (), (c', w')) ∧
      Stands id table (past ++ [.clear (.ok ())]) c' w' := by
  obtain ⟨k, factory, s, rfl, hfilling, hsize, -, hs⟩ := h.filling_of hpast
  obtain ⟨s', hclear⟩ := hfilling.clear
  have hsize' : (k.update none k.mapping.tags).size =
      (taken (past ++ [.clear (.ok ())])).length := by
    rw [taken_concat past rfl]
    exact hsize
  refine ⟨⟨k.update none k.mapping.tags, factory, id, none⟩, w.setStore id (.memory s'.close), ?_,
    .dropped (ending?_concat_of_ends hpast _ rfl) rfl hsize' (getElem?_setStore_self hs _)⟩
  rw [clearContainer_of_none rfl, onContainer_apply (c := ⟨k, factory, id, none⟩) hs, hclear]

/-! ## Afterwards -/

theorem cursor_eq (h : Stands id table past c w) (hended : ending? past ≠ none) :
    c.container.cursor? = none := by
  cases h with
  | filling hpast => exact absurd hpast hended
  | finished _ hcursor => exact hcursor
  | dropped _ hcursor => exact hcursor

theorem add_late (h : Stands id table past c w) (hended : ending? past ≠ none) (row : Row) :
    addRow row (c, w) = (Outcome.fail (.closed .rowContainer), (c, w)) := by
  obtain ⟨s, hs⟩ := h.exists_store
  rw [← h.store_eq] at hs
  rw [addRow, onContainer_apply hs, Container.add_closed (h.cursor_eq hended), setStore_self hs]

theorem close_late (h : Stands id table past c w) (hended : ending? past ≠ none) :
    closeContainer (c, w) = (.ok (), (c, w)) := by
  simp only [closeContainer, Action.bind_apply, Action.get_apply, h.cursor_eq hended,
    Option.isNone_none, if_true]
  rfl

/-- **Clearing it** closes the store of the table, or does nothing. -/
theorem clear_late (h : Stands id table past c w) (hended : ending? past ≠ none) :
    ∃ w', clearContainer (c, w) = (.ok (), (c, w')) ∧ StoreKept id w w' ∧
      Stands id table (past ++ [.clear (.ok ())]) c w' := by
  have hmem : .clear ∈ callsOf (past ++ [.clear (.ok ())]) := mem_callsOf_concat.mpr (.inr rfl)
  have hkept := h.kept
  cases h with
  | filling hpast => exact absurd hpast hended
  | @finished k factory info cleared s w hpast hcursor hsize hinfo htable hstore hcleared hshut =>
    rw [clearContainer_of_some rfl]
    -- the store is closed by the first `clear`, and there is nothing to do for the next
    cases cleared with
    | false =>
      rw [clearTable_of_open htable rfl rfl hstore]
      have hstore' := getElem?_setStore_self hstore (.memory s.close)
      refine ⟨_, rfl, ⟨s, hstore, .inr hstore'⟩,
        .finished ((ending?_concat (.inl hended)).trans hpast) hcursor ?_ ?_
          (Array.getElem?_setIfInBounds_self_of_lt (Array.getElem?_eq_some_iff.mp htable).1)
          hstore' ⟨fun _ => hmem, fun _ => rfl⟩ fun _ => rfl⟩
      · rwa [taken_concat past rfl]
      · rwa [taken_concat past rfl]
    | true =>
      rw [Cleared.clearTable ⟨_, htable, rfl⟩]
      exact ⟨w, rfl, hkept, stays (.finished hpast hcursor hsize hinfo htable hstore hcleared hshut)
        rfl (.inl hended) fun _ => hcleared.mp rfl⟩
  | @dropped k factory s w hpast hcursor hsize hstore =>
    refine ⟨w, ?_, hkept, stays (.dropped hpast hcursor hsize hstore) rfl (.inl hended) fun _ => ?_⟩
    · -- a dropped store is closed already, and `clear` changes nothing
      rw [clearContainer_of_none rfl, onContainer_apply (c := ⟨k, factory, id, none⟩) hstore,
        Container.clear_closed hcursor]
      exact congrArg (fun w => (_, (_, w))) (setStore_self hstore)
    · exact List.mem_of_find?_eq_some hpast

/-- What a container answers about its table. -/
theorem tableOf_follows (h : Stands id table past c w) :
    Follows table past (.table (tableOf c)) := by
  cases h with
  | filling hpast =>
    exact .noTable fun h => by cases (closedFirst_iff.mp h).symm.trans hpast
  | finished hpast => exact .table (closedFirst_iff.mpr hpast)
  | dropped hpast => exact .noTable fun h => by cases (closedFirst_iff.mp h).symm.trans hpast

theorem exists_table (h : Stands id table past c w) (hpast : ending? past = some .close) :
    ∃ t, w.tables[table.index]? = some t ∧ t.store? = some id ∧
      t.info.size = (taken past).length ∧ (t.cleared = true ↔ .clear ∈ callsOf past) := by
  cases h with
  | filling hopen => cases hopen.symm.trans hpast
  | finished _ _ _ hinfo htable _ hcleared => exact ⟨_, htable, rfl, hinfo, hcleared⟩
  | dropped hdropped => cases hdropped.symm.trans hpast

theorem closed_of_clear (h : Stands id table past c w) (hclear : .clear ∈ callsOf past)
    {s : MemoryStore} (hs : w.stores[id.index]? = some (.memory s)) : s.closed = true := by
  cases h with
  | filling hpast => exact absurd hclear (not_cleared hpast)
  | finished _ _ _ _ _ hstore hcleared hshut =>
    cases hs.symm.trans hstore
    rw [← hshut (hcleared.mpr hclear)]
    rfl
  | dropped _ _ _ hstore =>
    cases hs.symm.trans hstore
    rfl

/-- **One call** answers as it must, and leads on. Once the filling is ended, no row is added. -/
theorem perform (h : Stands id table past c w) (call : Call) :
    ∃ turn c' w', OpenContainer.perform call (c, w) = (turn, (c', w')) ∧ turn.call = call ∧
      Follows table past turn ∧ Stands id table (past ++ [turn]) c' w' ∧
      (ending? past ≠ none → StoreKept id w w') := by
  cases call with
  | add row =>
    by_cases hpast : ending? past = none
    · obtain ⟨o, c', w', hrun, h'⟩ := h.add hpast row
      refine ⟨.add row o, c', w', by simp only [OpenContainer.perform, hrun], rfl, ?_, h',
        (absurd hpast ·)⟩
      cases o with
      | ok => exact .taken fun hended => ended_iff.mp hended hpast
      | error => exact .refused fun hended => ended_iff.mp hended hpast
    · exact ⟨_, c, w, by simp only [OpenContainer.perform, h.add_late hpast], rfl,
        .late (ended_iff.mpr hpast), h.stays rfl (.inl hpast) nofun, fun _ => h.kept⟩
  | close =>
    by_cases hpast : ending? past = none
    · obtain ⟨c', w', hrun, h'⟩ := h.close hpast
      exact ⟨_, c', w', by simp only [OpenContainer.perform, hrun], rfl, .close, h',
        (absurd hpast ·)⟩
    · exact ⟨_, c, w, by simp only [OpenContainer.perform, h.close_late hpast], rfl, .close,
        h.stays rfl (.inl hpast) nofun, fun _ => h.kept⟩
  | clear =>
    by_cases hpast : ending? past = none
    · obtain ⟨c', w', hrun, h'⟩ := h.clear hpast
      exact ⟨_, c', w', by simp only [OpenContainer.perform, hrun], rfl, .clear, h',
        (absurd hpast ·)⟩
    · obtain ⟨w', hrun, hkept, h'⟩ := h.clear_late hpast
      exact ⟨_, c, w', by simp only [OpenContainer.perform, hrun], rfl, .clear, h', fun _ => hkept⟩
  -- the calls that only ask leave everything as it is
  | size =>
    have hfollows : Follows table past (.size c.container.size) := h.size_eq ▸ .size
    exact ⟨_, c, w, rfl, rfl, hfollows, h.stays rfl (.inr rfl) nofun, fun _ => h.kept⟩
  | table =>
    exact ⟨_, c, w, rfl, rfl, h.tableOf_follows, h.stays rfl (.inr rfl) nofun, fun _ => h.kept⟩

/-- **All calls**, one after the other. -/
theorem performAll (h : Stands id table past c w) (calls : List Call) :
    ∃ turns c' w', OpenContainer.performAll calls (c, w) = (turns, (c', w')) ∧
      callsOf turns = calls ∧ Stands id table (past ++ turns) c' w' ∧
      (∀ before turn after, turns = before ++ turn :: after →
        Follows table (past ++ before) turn) ∧
      (ending? past ≠ none → StoreKept id w w') := by
  -- on the calls: `Stands` carries the turns so far, and each call adds its own
  induction calls generalizing past c w with
  | nil =>
    refine ⟨[], c, w, rfl, rfl, (List.append_nil past).symm ▸ h, ?_, fun _ => h.kept⟩
    intro before turn after hsplit
    cases before <;> cases hsplit
  | cons call calls ih =>
    obtain ⟨turn, c₁, w₁, hturn, hcall, hfollows, h₁, hkept₁⟩ := h.perform call
    have hpast₁ : ending? (past ++ [turn]) = none → ending? past = none := by
      intro hnone
      rw [ending?_append, Option.or_eq_none_iff] at hnone
      exact hnone.1
    obtain ⟨turns, c₂, w₂, hturns, hcalls, h₂, hall, hkept₂⟩ := ih h₁
    rw [List.append_assoc, List.singleton_append] at h₂
    refine ⟨turn :: turns, c₂, w₂, ?_, ?_, h₂, ?_, ?_⟩
    · simp only [OpenContainer.performAll, hturn, hturns]
    · rw [callsOf, List.map_cons, hcall]
      exact congrArg (call :: ·) hcalls
    · intro before turn' after hsplit
      cases before with
      | nil =>
        cases hsplit
        rwa [List.append_nil]
      | cons first before =>
        cases hsplit
        have hrest := hall before turn' after rfl
        rwa [List.append_assoc, List.singleton_append] at hrest
    · intro hended
      exact (hkept₁ hended).trans (hkept₂ fun hnone => hended (hpast₁ hnone))

end Stands

/-! ## All calls -/

/-- **Using a container.** Take any calls on a new container.

- Each of them answers as the calls before it require (`Follows`), and the size of the container is
  the number of rows taken.
- If the container was closed before it was cleared, its table has that size and shares its store.
- Once it was cleared, nothing can be read from the store.
- Once it was closed or cleared, no calls add anything to the store: it stays as it is, or it is
  closed. -/
theorem answers_of_calls {e : Environment} {id : Int64} {spec : TableSpec} {hasKeys : Bool}
    {w₀ : Workspace} (hcreate : createContainer e id spec hasKeys w = (.ok c, w₀))
    (calls : List Call) :
    ∃ turns c' w' s, performAll calls (c, w₀) = (turns, (c', w')) ∧ callsOf turns = calls ∧
      (∀ before turn after, turns = before ++ turn :: after →
        Follows ⟨w₀.tables.size⟩ before turn) ∧
      c'.container.size = (taken turns).length ∧
      (ClosedFirst turns → ∃ t, w'.tables[w₀.tables.size]? = some t ∧ t.store? = some c.store ∧
        t.info.size = (taken turns).length ∧ (t.cleared = true ↔ .clear ∈ calls)) ∧
      w'.stores[c.store.index]? = some (.memory s) ∧
      (.clear ∈ calls → ∀ batch column,
        readChunk c.store batch column w' = (Outcome.fail (.closed .chunkStore), w')) ∧
      (Ended turns → ∀ more, ∃ turns' c'' w'',
        performAll more (c', w') = (turns', (c'', w'')) ∧
        (w''.stores[c.store.index]? = some (.memory s) ∨
          w''.stores[c.store.index]? = some (.memory s.close))) := by
  obtain ⟨hdefault, hsize, hspec⟩ := createContainer_eq_ok hcreate
  obtain ⟨c₀, w₁, hcreate', htook, -⟩ := createContainer_took w hdefault hsize id hspec hasKeys
  rw [hcreate] at hcreate'
  cases hcreate'
  obtain ⟨k, factory, store, table?⟩ := c
  obtain rfl : table? = none := htook.no_table
  obtain ⟨s₀, hs₀, htaken⟩ := htook.stored
  have hstart : Stands store ⟨w₀.tables.size⟩ [] ⟨k, factory, store, none⟩ w₀ :=
    .filling rfl htaken.filling htaken.size_eq rfl hs₀
  obtain ⟨turns, c', w', hrun, hcalls, h, hfollows, -⟩ := hstart.performAll calls
  obtain ⟨s, hs⟩ := h.exists_store
  refine ⟨turns, c', w', s, hrun, hcalls, hfollows, h.size_eq, fun hclosed => ?_, hs,
    fun hclear batch column => ?_, fun hended more => ?_⟩
  · rw [← hcalls]
    exact h.exists_table (closedFirst_iff.mp hclosed)
  · rw [readChunk_memory hs, MemoryStore.readChunk, if_pos (h.closed_of_clear (hcalls ▸ hclear) hs)]
  · have hended' := ended_iff.mp hended
    obtain ⟨turns', c'', w'', hrun', -, -, -, hkept⟩ := h.performAll more
    obtain ⟨s', hs', hlast⟩ := hkept hended'
    cases hs.symm.trans hs'
    exact ⟨turns', c'', w'', hrun', hlast⟩

/-- Rows before and after the container is closed, and a clear between two further closes. The
second row has too few cells, and a cell of the third aborts when it is read. -/
def sampleCalls : List Call :=
  [.table, .add (.ofCells (some "a") [.int 1, .string "x"]), .add (.ofCells none [.int 2]),
    .add ⟨some "b", [.ok (.int 3), Outcome.abort .outOfRange]⟩,
    .add (.ofCells (some "c") [.int 4, .string "y"]), .size, .close, .table,
    .add (.ofCells (some "d") [.int 5, .string "z"]), .close, .clear, .close, .clear, .table, .size]

/-- How many rows a container of the sample table takes in these calls. -/
def sampleCount : Nat :=
  match createContainer sampleEnvironment 5 sampleSpec true .empty with
  | (.ok c, w) => (taken (performAll sampleCalls (c, w)).1).length
  | _ => 0

theorem answers_of_calls_sample :
    ∃ c w₀ turns c' w' t,
      createContainer sampleEnvironment 5 sampleSpec true .empty = (.ok c, w₀) ∧
      performAll sampleCalls (c, w₀) = (turns, (c', w')) ∧ (taken turns).length = 2 ∧
      c'.container.size = 2 ∧ w'.tables[w₀.tables.size]? = some t ∧ t.info.size = 2 ∧
      t.cleared = true ∧
      readChunk c.store 0 0 w' = (Outcome.fail (.closed .chunkStore), w') := by
  obtain ⟨c, w₀, hcreate, -⟩ := createContainer_took .empty (e := sampleEnvironment)
    ⟨⟨0⟩, rfl⟩ (by decide) 5 (show sampleSpec.isSupported = true from rfl) true
  obtain ⟨turns, c', w', s, hrun, hcalls, -, hsize, htable, -, hread, -⟩ :=
    answers_of_calls hcreate sampleCalls
  have htaken : (taken turns).length = 2 := by
    have h : sampleCount = 2 := by decide +kernel
    simpa only [sampleCount, hcreate, hrun] using h
  have hclear : .clear ∈ sampleCalls := by simp [sampleCalls]
  obtain ⟨t, ht, -, hinfo, hcleared⟩ := htable ⟨sampleCalls.take 6, sampleCalls.drop 7, hcalls,
    by simp [sampleCalls]⟩
  exact ⟨c, w₀, turns, c', w', t, hcreate, hrun, htaken, hsize.trans htaken, ht,
    hinfo.trans htaken, hcleared.mpr hclear, hread hclear 0 0⟩

end OpenContainer

end Columnar
