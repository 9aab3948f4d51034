import Columnar.Proofs.Workspace.Saving

/-!
# Saves that fail

A table that was loaded, one that is cleared and one with too many rows are refused before anything
is done (`Table.refusal?`). All other tables are described in the settings tree before their store
is saved, which may fail.

Main result: `saveTable_failed`. After a refusal the tree is as it was. After any other failure it
is the tree of a table that was saved. The error says which of the two it is, and saving the table
again repairs the second.
-/

namespace Columnar

/-- Why a table cannot be saved, wherever it is to go. -/
def Table.refusal? (t : Table) : Option Error :=
  match t.backing with
  | .saved _ _ => some (.illegalState .savedTwice)
  | .finalized _ _ =>
    if t.cleared then some (.closed .table)
    else if t.info.size < longLimit then none
    else some (.illegalState (.tableSize t.info.size))

namespace Workspace

variable {w w' : Workspace} {table : TableId} {path : String} {tree tree' : Settings} {e : Error}

theorem saveTable_eq_fail (h : saveTable table path (w, tree) = (Outcome.fail e, (w', tree'))) :
    ∃ t, w.tables[table.index]? = some t ∧
      ((t.refusal? = some e ∧ w' = w ∧ tree' = tree) ∨
        (t.refusal? = none ∧ ∃ factory store f s, t.backing = .finalized factory store ∧
          w.factories[factory.index]? = some f ∧ w.stores[store.index]? = some (.memory s) ∧
          (s.save path w.files).1 = Outcome.fail e ∧
          w' = { w with files := (s.save path w.files).2 } ∧
          tree' = Record.describe t.info f.name tree)) := by
  rcases ht : w.tables[table.index]? with _ | ⟨info, ⟨factory, store⟩ | ⟨task, state⟩, cleared⟩
  case none =>
    simp only [saveTable, Action.bind_apply, Action.get_apply, ht] at h
    cases h
  case some.saved =>
    simp only [saveTable, Action.bind_apply, Action.get_apply, ht, Table.save] at h
    cases h
    exact ⟨_, rfl, .inl ⟨rfl, rfl, rfl⟩⟩
  case some.finalized =>
    refine ⟨_, rfl, ?_⟩
    cases cleared with
    | true =>
      simp only [saveTable, Action.bind_apply, Action.get_apply, ht, Table.save] at h
      cases h
      exact .inl ⟨rfl, rfl, rfl⟩
    | false =>
      rcases hstore : w.stores[store.index]? with _ | s | d
      case some.memory =>
        cases hfactory : w.factories[factory.index]? with
        | none =>
          simp only [saveTable_finalized ht hstore, hfactory] at h
          cases h
        | some f =>
          -- a table that is too long is refused before anything is written
          by_cases hsize : info.size < longLimit
          · simp only [saveTable_finalized ht hstore, hfactory, if_pos hsize, Prod.mk.injEq] at h
            obtain ⟨hsave, rfl, rfl⟩ := h
            exact .inr ⟨if_pos hsize, factory, store, f, s, rfl, hfactory, hstore, hsave, rfl, rfl⟩
          · simp only [saveTable_finalized ht hstore, hfactory, if_neg hsize] at h
            cases h
            exact .inl ⟨if_neg hsize, rfl, rfl⟩
      all_goals
        simp only [saveTable, Action.bind_apply, Action.get_apply, ht, Table.save, hstore] at h
        cases hfactory : w.factories[factory.index]? <;> simp only [hfactory] at h <;> cases h

/-- Saving a table that is there describes it in the tree, if it is saved. -/
theorem tree_of_saveTable {t : Table} {factory : FactoryId} {store : StoreId} {f : StoreFactory}
    (ht : w.tables[table.index]? = some t) (hbacking : t.backing = .finalized factory store)
    (hfactory : w.factories[factory.index]? = some f)
    (h : saveTable table path (w, tree) = (.ok (), (w', tree'))) :
    tree' = Record.describe t.info f.name tree := by
  obtain ⟨info, factory', store', f', s, fs, ht', hfactory', -, -, rfl, -⟩ := saveTable_eq_ok h
  rw [ht] at ht'
  cases ht'
  cases hbacking
  rw [hfactory] at hfactory'
  cases hfactory'
  rfl

/-- A table whose path cannot be written is described in the tree nevertheless. -/
theorem saveTable_of_unwritable {info : TableInfo} {factory : FactoryId} {store : StoreId}
    {f : StoreFactory} {s : MemoryStore} {cause : Error}
    (ht : w.tables[table.index]? = some ⟨info, .finalized factory store, false⟩)
    (hfactory : w.factories[factory.index]? = some f)
    (hstore : w.stores[store.index]? = some (.memory s)) (hcount : info.size < longLimit)
    (hopen : s.closed = false) (hwrite : w.files.write path [] = Outcome.fail cause)
    (tree : Settings) :
    saveTable table path (w, tree) =
      (Outcome.fail (.atPath path cause), (w, Record.describe info f.name tree)) := by
  simp only [saveTable_finalized ht hstore, hfactory, if_pos hcount, MemoryStore.save_apply hopen,
    Files.write_eq_error hwrite]
  rfl

/-- **After a save that failed**, the tree depends on how far it got.

- If the table was refused, the tree is as it was, and so is everything else.
- Otherwise the store could not be saved, and the error is another one. The record of the table has
  been laid over the tree, which is as it was only if it had the record in it before. Besides,
  nothing but the files has changed. A save of the table that succeeds afterwards leaves the tree
  that it would have left without the failed one. -/
theorem saveTable_failed (h : saveTable table path (w, tree) = (Outcome.fail e, (w', tree'))) :
    ∃ t, w.tables[table.index]? = some t ∧
      ((t.refusal? = some e ∧ w' = w ∧ tree' = tree) ∨
        (t.refusal? = none ∧ (e = .closed .chunkStore ∨ ∃ cause, e = .atPath path cause) ∧
          (∃ fs, w' = { w with files := fs }) ∧
          ∃ factory store f, t.backing = .finalized factory store ∧
            w.factories[factory.index]? = some f ∧
            tree' = Record.describe t.info f.name tree ∧
            (∀ key, tree'.find? key =
              ((Record.describe t.info f.name .empty).find? key).or (tree.find? key)) ∧
            (tree.Ordered →
              (tree' = tree ↔ tree.Includes (Record.describe t.info f.name .empty)) ∧
              ∀ {path' : String} {w₂ : Workspace} {tree₂ : Settings},
                saveTable table path' (w', tree') = (.ok (), (w₂, tree₂)) →
                tree₂ = Record.describe t.info f.name tree))) := by
  obtain ⟨t, ht, hrefused |
    ⟨hrefusal, factory, store, f, s, hbacking, hfactory, -, hsave, rfl, rfl⟩⟩ := saveTable_eq_fail h
  · exact ⟨t, ht, .inl hrefused⟩
  · refine ⟨t, ht, .inr ⟨hrefusal, (s.save_raises path w.files).of_eq_fail hsave, ⟨_, rfl⟩, factory,
      store, f, hbacking, hfactory, rfl, Record.find?_describe _ _ _, fun hordered =>
      ⟨Record.describe_eq_self_iff hordered, fun hagain => ?_⟩⟩⟩
    rw [tree_of_saveTable (w := { w with files := (s.save path w.files).2 }) ht hbacking hfactory
      hagain]
    exact Record.describe_describe hordered

/-! ## A path that cannot be written -/

/-- A tree with an entry of its own. -/
def sampleTree : Settings := Settings.empty.addString "extra" "keep"

/-- There is no directory `no`. -/
theorem sampleMade_unsaved : saveTable ⟨0⟩ "no/x" (sampleMade, sampleTree) =
    (Outcome.fail (.atPath "no/x" .io),
      (sampleMade, Record.describe sampleInfo StoreFactory.columnarFile.name sampleTree)) := by
  obtain ⟨s, -, hs, hopen, -⟩ :=
    chunkFileLength?_eq_some (show chunkFileLength? sampleMade ⟨0⟩ = some 391 by decide +kernel)
  exact saveTable_of_unwritable sampleMade_table
    (show sampleMade.factories[0]? = some .columnarFile by cbv) hs (by decide) hopen
    (show sampleMade.files.write "no/x" [] = Outcome.fail .io by cbv) sampleTree

theorem saveTable_failed_sample : ∃ e w' tree' t,
    saveTable ⟨0⟩ "no/x" (sampleMade, sampleTree) = (Outcome.fail e, (w', tree')) ∧
      sampleMade.tables[0]? = some t ∧ t.refusal? = none ∧
      (e = .closed .chunkStore ∨ ∃ cause, e = .atPath "no/x" cause) ∧
      (∃ fs, w' = { sampleMade with files := fs }) ∧ sampleTree.Ordered ∧
      tree'.find? "extra" = sampleTree.find? "extra" ∧ tree' ≠ sampleTree := by
  have hordered : sampleTree.Ordered := ⟨Settings.above_empty _, trivial⟩
  obtain ⟨t, ht, ⟨hrefused, -⟩ | ⟨hrefusal, he, hw, factory, store, f, -, -, -, hfind, hchanged⟩⟩ :=
    saveTable_failed sampleMade_unsaved
  · rw [sampleMade_table] at ht
    cases ht
    cases hrefused
  · refine ⟨_, _, _, t, sampleMade_unsaved, ht, hrefusal, he, hw, hordered, by decide, ?_⟩
    intro htree
    have hkind := (hchanged hordered).1.mp htree _ _ (Record.find?_kindKey t.info f.name .empty)
    exact absurd hkind (by decide)

/-- **A failed save may fill the settings.** -/
theorem failed_save_fills_settings : ∃ e w' tree',
    saveTable ⟨0⟩ "no/x" (sampleMade, sampleTree) = (Outcome.fail e, (w', tree')) ∧
      tree' ≠ sampleTree :=
  ⟨_, _, _, sampleMade_unsaved, by decide⟩

end Workspace

end Columnar
