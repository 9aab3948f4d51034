import Columnar.Proofs.Table.Access
import Columnar.Proofs.Table.Record

/-!
# The life of a loaded table

**Operations** (`Table.Op`). The user of a table asks for its store or for iterators over its rows,
asks whether it is open, saves it and clears it. The surroundings create and close stores for it,
with whatever success.

**Turns** (`Table.run`). A turn is an operation, what it answered, and which calls it made on the
surroundings. The calls are found by running the operation in surroundings that list them, which
changes no answer.

**Phases** (`Table.phase`). A loaded table is unopened until a store has been created for it, and
open on that store until it is cleared. What an operation answers and which calls it makes depends
on the phase it finds (`Table.Follows`).

The phase tells all about the state of the table (`Phase.table`). One operation leads from the
table of a phase to that of the next (`exists_takes`), and so does a run (`run_path`).

Main result: `turns_of_load`.
-/

namespace Columnar.Table

variable {σ : Type}

/-! ## Operations -/

/-- What creates, closes and writes out the stores of tables. -/
structure Surroundings (σ : Type) where
  create : OpenTask → Action σ StoreId
  close : StoreId → Action σ Unit
  write : String → TableInfo → FactoryId → StoreId → Action (σ × Settings) Unit

/-- What the user of a table asks for. -/
inductive Op
  | ensureOpen
  | store
  | iterate (f : ColumnFilter)
  | isOpen
  | save (path : String) (tree : Settings)
  | clear

/-- What an operation answers. Saving gives the settings tree back. -/
inductive Answer
  | ensured (o : Outcome Unit)
  | store (o : Outcome StoreId)
  | rows (o : Outcome (RowIterator × Option StoreId))
  | isOpen (yes : Bool)
  | saved (o : Outcome Unit) (tree : Settings)
  | cleared (o : Outcome Unit)

/-- Perform an operation on a table. -/
def perform (e : Surroundings σ) (op : Op) (t : Table) (s : σ) : Answer × (Table × σ) :=
  match op with
  | .ensureOpen =>
    let (o, x) := access e.create (t, s)
    (.ensured ((fun _ => ()) <$> o), x)
  | .store =>
    let (o, x) := access e.create (t, s)
    (.store o, x)
  | .iterate f =>
    let (o, x) := iterate e.create f (t, s)
    (.rows o, x)
  | .isOpen => (.isOpen t.isOpen, (t, s))
  | .save path tree =>
    let (o, (s, tree)) := save (e.write path) t (s, tree)
    (.saved o tree, (t, s))
  | .clear =>
    let (o, x) := clear e.close (t, s)
    (.cleared o, x)

/-- Perform operations one after the other. -/
def performAll (e : Surroundings σ) : List Op → Table × σ → List Answer × (Table × σ)
  | [], x => ([], x)
  | op :: ops, (t, s) =>
    let (answer, x) := perform e op t s
    let (answers, x) := performAll e ops x
    (answer :: answers, x)

/-! ## Turns -/

/-- What the surroundings are asked for: to create a store or to close one. -/
inductive Call
  | created (task : OpenTask) (o : Outcome StoreId)
  | closed (store : StoreId) (o : Outcome Unit)

/-- The surroundings, with a list of the calls made on them. -/
def Surroundings.recorded (e : Surroundings σ) : Surroundings (σ × List Call) where
  create task := fun (s, calls) =>
    let (o, s) := e.create task s
    (o, (s, calls ++ [.created task o]))
  close store := fun (s, calls) =>
    let (o, s) := e.close store s
    (o, (s, calls ++ [.closed store o]))
  write path info factory store := (e.write path info factory store).on
    (fun ((s, _), tree) => (s, tree)) fun (s, tree) ((_, calls), _) => ((s, calls), tree)

/-- An operation, its answer, and the calls it made. -/
structure Turn where
  op : Op
  answer : Answer
  calls : List Call

/-- Perform an operation, and take down the calls it makes. -/
def turn (e : Surroundings σ) (op : Op) (t : Table) (s : σ) : Turn × (Table × σ) :=
  let (answer, (t, (s, calls))) := perform e.recorded op t (s, [])
  (⟨op, answer, calls⟩, (t, s))

/-- The turns of a run of operations. -/
def run (e : Surroundings σ) : List Op → Table × σ → List Turn × (Table × σ)
  | [], x => ([], x)
  | op :: ops, (t, s) =>
    let (t, x) := turn e op t s
    let (ts, x) := run e ops x
    (t :: ts, x)

/-! ## Phases -/

def Op.isClear : Op → Bool
  | clear => true
  | _ => false

/-- The store that a call has created. -/
def Call.created? : Call → Option StoreId
  | created _ o => o.toOption
  | closed _ _ => none

def Call.isClose : Call → Bool
  | closed _ _ => true
  | _ => false

inductive Phase
  | unopened
  | opened (store : StoreId)
  | cleared

/-- The phase that a loaded table is in after some turns: cleared once it was cleared, and until
then open on the store that was created for it, if one was. -/
def phase (before : List Turn) : Phase :=
  if before.any (·.op.isClear) then .cleared
  else
    match (before.flatMap Turn.calls).findSome? Call.created? with
    | some store => .opened store
    | none => .unopened

def Phase.isOpen : Phase → Bool
  | opened _ => true
  | _ => false

/-- The table in a phase. -/
def Phase.table (info : TableInfo) (task : OpenTask) : Phase → Table
  | unopened => ⟨info, .saved task .unopened, false⟩
  | opened store => ⟨info, .saved task (.opened store), false⟩
  | cleared => ⟨info, .saved task .cleared, true⟩

/-- What an operation answers that needs the store, given what came of getting hold of it. Only an
iterator that selects nothing from a table without row keys does not need it. -/
inductive Replies (info : TableInfo) (o : Outcome StoreId) : Op → Answer → Prop
  | ensureOpen : Replies info o .ensureOpen (.ensured ((fun _ => ()) <$> o))
  | store : Replies info o .store (.store o)
  | iterate {f : ColumnFilter} {it : RowIterator}
    (hreads : info.mapping.hasKeys = true ∨ f.selection? ≠ some .empty)
    (hit : RowIterator.ofFilter info f = .ok it) :
    Replies info o (.iterate f) (.rows ((it, some ·) <$> o))

/-- The turns that a loaded table may take in a phase. -/
inductive Follows (info : TableInfo) (task : OpenTask) : Phase → Turn → Prop
  /-- Only an operation that needs the store has it created, and does so while there is none. -/
  | creates {o : Outcome StoreId} {op : Op} {answer : Answer}
    (h : Replies info (o.mapError (.withPath task.path)) op answer) :
    Follows info task .unopened ⟨op, answer, [.created task o]⟩
  /-- The store that was created is used from then on. -/
  | reuses {store : StoreId} {op : Op} {answer : Answer} (h : Replies info (.ok store) op answer) :
    Follows info task (.opened store) ⟨op, answer, []⟩
  | refuses {op : Op} {answer : Answer}
    (h : Replies info (Outcome.fail (.closed .table)) op answer) :
    Follows info task .cleared ⟨op, answer, []⟩
  /-- Rows with no keys and no cells are counted off. -/
  | blank (p : Phase) {f : ColumnFilter} (hkeys : info.mapping.hasKeys = false)
    (hempty : f.selection? = some .empty) :
    Follows info task p
      ⟨.iterate f, .rows (.ok (.blank info.size info.spec.size, none)), []⟩
  | isOpen (p : Phase) : Follows info task p ⟨.isOpen, .isOpen p.isOpen, []⟩
  /-- Saving fails and gives the settings back as they were. -/
  | save (p : Phase) (path : String) (tree : Settings) :
    Follows info task p
      ⟨.save path tree, .saved (Outcome.fail (.illegalState .savedTwice)) tree, []⟩
  /-- An open store is closed. Errors are dropped. -/
  | closes (store : StoreId) (o : Outcome Unit) :
    Follows info task (.opened store) ⟨.clear, .cleared o.quiet, [.closed store o]⟩
  | clears {p : Phase} (hp : p.isOpen = false) :
    Follows info task p ⟨.clear, .cleared (.ok ()), []⟩

variable {info : TableInfo} {task : OpenTask} {p : Phase} {before turns : List Turn} {t : Turn}

theorem Replies.isClear_eq {o : Outcome StoreId} {op : Op} {answer : Answer}
    (h : Replies info o op answer) : op.isClear = false := by cases h <;> rfl

theorem phase_append (before : List Turn) (t : Turn) :
    phase (before ++ [t]) =
      if t.op.isClear then .cleared
      else match phase before, t.calls.findSome? Call.created? with
        | .unopened, some store => .opened store
        | p, _ => p := by
  simp only [phase, List.any_append, List.any_cons, List.any_nil, Bool.or_false,
    List.flatMap_append, List.flatMap_cons, List.flatMap_nil, List.append_nil,
    List.findSome?_append]
  cases before.any (·.op.isClear) <;> cases t.op.isClear <;>
    cases (before.flatMap Turn.calls).findSome? Call.created? <;>
    cases t.calls.findSome? Call.created? <;> rfl

/-- Only a clear and the first store that is created end a phase. -/
theorem phase_same (hclear : t.op.isClear = false)
    (hcalls : t.calls.findSome? Call.created? = none) : phase (before ++ [t]) = phase before := by
  rw [phase_append, hclear, hcalls]
  cases phase before <;> rfl

theorem phase_clear (hclear : t.op.isClear = true) : phase (before ++ [t]) = .cleared := by
  rw [phase_append, if_pos hclear]

/-! ## Steps -/

/-- The operation takes this turn and leads from the table of one phase to that of the next. -/
structure Takes (info : TableInfo) (task : OpenTask) (e : Surroundings σ) (before : List Turn)
    (op : Op) (s : σ) (t : Turn) (s' : σ) : Prop where
  op_eq : t.op = op
  perform_eq : perform e op ((phase before).table info task) s =
    (t.answer, ((phase (before ++ [t])).table info task, s'))
  turn_eq : turn e op ((phase before).table info task) s =
    (t, ((phase (before ++ [t])).table info task, s'))
  follows : Follows info task (phase before) t

variable {e : Surroundings σ} {s s' : σ} {op : Op} {answer : Answer} {calls : List Call}
  {next : Phase}

/-- An operation takes a turn if it makes the same of the table with a list of calls and without. -/
theorem Takes.of_perform
    (hperform : perform e op ((phase before).table info task) s =
      (answer, (next.table info task, s')))
    (hrecorded : perform e.recorded op ((phase before).table info task) (s, []) =
      (answer, (next.table info task, (s', calls))))
    (hnext : phase (before ++ [⟨op, answer, calls⟩]) = next)
    (hfollows : Follows info task (phase before) ⟨op, answer, calls⟩) :
    Takes info task e before op s ⟨op, answer, calls⟩ s' where
  op_eq := rfl
  perform_eq := by rw [hnext, hperform]
  turn_eq := by rw [hnext, turn, hrecorded]
  follows := hfollows

theorem Takes.of_same (e : Surroundings σ) (s : σ) (answer : Answer) (hclear : op.isClear = false)
    (hperform : ∀ {τ : Type} (e : Surroundings τ) (s : τ),
      perform e op ((phase before).table info task) s =
        (answer, ((phase before).table info task, s)))
    (hfollows : Follows info task (phase before) ⟨op, answer, []⟩) :
    Takes info task e before op s ⟨op, answer, []⟩ s :=
  .of_perform (hperform e s) (hperform e.recorded (s, [])) (phase_same hclear rfl) hfollows

theorem access_unopened {create : OpenTask → Action σ StoreId} {o : Outcome StoreId}
    (h : create task s = (o, s')) :
    access create (Phase.unopened.table info task, s) =
      (o.mapError (.withPath task.path), ((match (Call.created task o).created? with
        | some store => Phase.opened store
        | none => .unopened).table info task, s')) := by
  have hrun : task.run create s = (o.mapError (.withPath task.path), s') := by
    rw [OpenTask.run, Action.mapError_apply, h]
  rw [Phase.table, access_saved, LazyStore.access, hrun]
  rcases o with (_ | _) | _ <;> rfl

/-- The operation needs the store, and says what came of getting hold of it. -/
structure Asks (info : TableInfo) (op : Op) (reply : Outcome StoreId → Answer) : Prop where
  replies (o : Outcome StoreId) : Replies info o op (reply o)
  perform_eq {τ : Type} (e : Surroundings τ) {t : Table} (ht : t.info = info) (s : τ) :
    perform e op t s = (reply (access e.create (t, s)).1, (access e.create (t, s)).2)

theorem asks_ensureOpen : Asks info .ensureOpen fun o => .ensured ((fun _ => ()) <$> o) :=
  ⟨fun _ => .ensureOpen, fun _ _ _ _ => rfl⟩

theorem asks_store : Asks info .store .store := ⟨fun _ => .store, fun _ _ _ _ => rfl⟩

theorem asks_iterate {f : ColumnFilter} (hf : f.validate info.spec.size = .ok ())
    (hneeds : RowIterator.needsStore info f = true) {it : RowIterator}
    (hit : RowIterator.ofFilter info f = .ok it) :
    Asks info (.iterate f) fun o => .rows ((it, some ·) <$> o) where
  replies o := .iterate (by simpa [RowIterator.needsStore] using hneeds) hit
  perform_eq e t ht s := by
    subst ht
    rw [perform, iterate_apply, RowIterator.create_apply hf hit, if_pos hneeds]

theorem Asks.takes {reply : Outcome StoreId → Answer} (h : Asks info op reply)
    (e : Surroundings σ) (task : OpenTask) (before : List Turn) (s : σ) :
    ∃ t s', Takes info task e before op s t s' := by
  have hclear : op.isClear = false := (h.replies (.ok ⟨0⟩)).isClear_eq
  cases hp : phase before with
  -- the store is created now, and the turn records whether that succeeded
  | unopened =>
    rcases hcreate : e.create task s with ⟨o, s'⟩
    have hrecorded : e.recorded.create task (s, []) = (o, (s', [.created task o])) := by
      simp only [Surroundings.recorded, hcreate, List.nil_append]
    have hphase : phase (before ++ [⟨op, reply (o.mapError (.withPath task.path)),
        [.created task o]⟩]) = match (Call.created task o).created? with
          | some store => Phase.opened store
          | none => .unopened := by
      rw [phase_append, hclear, hp]
      rcases o with (_ | _) | _ <;> rfl
    refine ⟨_, s', .of_perform ?_ ?_ hphase (hp ▸ .creates (h.replies _))⟩
    · rw [hp, h.perform_eq e rfl, access_unopened hcreate]
    · rw [hp, h.perform_eq e.recorded rfl, access_unopened hrecorded]
  | opened store =>
    refine ⟨_, s, .of_same e s (reply (.ok store)) hclear ?_ (hp ▸ .reuses (h.replies _))⟩
    intro τ e s
    rw [hp, h.perform_eq e rfl]
    rfl
  | cleared =>
    refine ⟨_, s, .of_same e s (reply (Outcome.fail (.closed .table))) hclear ?_
      (hp ▸ .refuses (h.replies _))⟩
    intro τ e s
    rw [hp, h.perform_eq e rfl]
    rfl

theorem clear_of_not_open (hp : p.isOpen = false) (close : StoreId → Action σ Unit) (s : σ) :
    clear close (p.table info task, s) = (.ok (), (Phase.cleared.table info task, s)) := by
  cases p with
  | unopened => exact clear_apply rfl close s
  | opened store => cases hp
  | cleared => exact clear_of_cleared rfl close s

theorem clear_of_open {close : StoreId → Action σ Unit} {store : StoreId} {o : Outcome Unit}
    (h : close store s = (o, s')) :
    clear close ((Phase.opened store).table info task, s) =
      (o.quiet, (Phase.cleared.table info task, s')) := by
  rw [clear_apply rfl]
  simp only [Phase.table, store?, h]
  rfl

theorem takes_clear (info : TableInfo) (task : OpenTask) (e : Surroundings σ) (before : List Turn)
    (s : σ) : ∃ t s', Takes info task e before .clear s t s' := by
  cases hp : phase before with
  | unopened | cleared =>
    have hopen : (phase before).isOpen = false := by rw [hp]; rfl
    refine ⟨_, s, .of_perform ?_ ?_ (phase_clear rfl) (.clears hopen)⟩ <;>
      rw [perform, clear_of_not_open hopen]
  | opened store =>
    rcases hclose : e.close store s with ⟨o, s'⟩
    have hrecorded : e.recorded.close store (s, []) = (o, (s', [.closed store o])) := by
      simp only [Surroundings.recorded, hclose, List.nil_append]
    refine ⟨⟨.clear, .cleared o.quiet, [.closed store o]⟩, s',
      .of_perform ?_ ?_ (phase_clear rfl) (hp ▸ .closes store o)⟩
    · rw [hp, perform, clear_of_open hclose]
    · rw [hp, perform, clear_of_open hrecorded]

/-- **Every operation** takes a turn that may be taken in the phase. -/
theorem exists_takes (hwidth : info.mapping.primitives.length = info.spec.size) (op : Op)
    (hvalid : ∀ f, op = .iterate f → f.validate info.spec.size = .ok ()) (task : OpenTask)
    (e : Surroundings σ) (before : List Turn) (s : σ) :
    ∃ t s', Takes info task e before op s t s' := by
  cases op with
  | ensureOpen => exact asks_ensureOpen.takes e task before s
  | store => exact asks_store.takes e task before s
  | iterate f =>
    have hf := hvalid f rfl
    obtain ⟨it, hit⟩ := RowIterator.exists_ofFilter hwidth hf
    -- only a filter that selects nothing needs no store, and then the table stays as it is
    cases hneeds : RowIterator.needsStore info f with
    | true => exact (asks_iterate hf hneeds hit).takes e task before s
    | false =>
      obtain ⟨hkeys, hempty⟩ : info.mapping.hasKeys = false ∧ f.selection? = some .empty := by
        simpa [RowIterator.needsStore] using hneeds
      have hblank : RowIterator.ofFilter info f = .ok (.blank info.size info.spec.size) := by
        simp only [RowIterator.ofFilter, hempty, hkeys]
        rfl
      refine ⟨_, s, .of_same e s _ rfl ?_ (.blank _ hkeys hempty)⟩
      intro τ e s
      have htable : ((phase before).table info task).info = info := by cases phase before <;> rfl
      rw [perform, iterate_apply, htable, RowIterator.create_apply hf hblank, hneeds,
        if_neg Bool.false_ne_true]
  | isOpen =>
    refine ⟨_, s, .of_same e s _ rfl ?_ (.isOpen _)⟩
    intro τ e s
    cases phase before <;> rfl
  | save path tree =>
    refine ⟨_, s, .of_same e s _ rfl ?_ (.save _ path tree)⟩
    intro τ e s
    cases phase before <;> rfl
  | clear => exact takes_clear info task e before s

/-! ## Runs -/

/-- Turns that may be taken one after the other. -/
inductive Path (info : TableInfo) (task : OpenTask) : List Turn → List Turn → Prop
  | nil (before : List Turn) : Path info task before []
  | cons {before turns : List Turn} {t : Turn} (h : Follows info task (phase before) t)
    (hrest : Path info task (before ++ [t]) turns) : Path info task before (t :: turns)

theorem Path.follows (h : Path info task before turns) {taken left : List Turn}
    (hsplit : turns = taken ++ t :: left) : Follows info task (phase (before ++ taken)) t := by
  induction h generalizing taken with
  | nil before => cases taken <;> cases hsplit
  | cons h hrest ih =>
    cases taken with
    | nil =>
      cases hsplit
      rwa [List.append_nil]
    | cons t taken =>
      cases hsplit
      rw [List.append_cons]
      exact ih rfl

/-- How many stores may still be created. -/
def Phase.creations : Phase → Nat
  | unopened => 1
  | _ => 0

/-- How many stores may still be closed. -/
def Phase.closings : Phase → Nat
  | cleared => 0
  | _ => 1

def creations (calls : List Call) : Nat := calls.countP (·.created?.isSome)

def closings (calls : List Call) : Nat := calls.countP Call.isClose

/-- What a turn creates and closes, it takes from what the phase allows. -/
theorem Follows.calls_le (h : Follows info task (phase before) t) :
    creations t.calls + (phase (before ++ [t])).creations ≤ (phase before).creations ∧
      closings t.calls + (phase (before ++ [t])).closings ≤ (phase before).closings := by
  rw [phase_append]
  generalize phase before = p at h
  cases h with
  | @creates o op answer h =>
    rw [h.isClear_eq]
    rcases o with (_ | _) | _ <;> exact ⟨Nat.le_refl 1, Nat.le_refl 1⟩
  | reuses h => rw [h.isClear_eq]; exact ⟨Nat.le_refl 0, Nat.le_refl 1⟩
  | refuses h => rw [h.isClear_eq]; exact ⟨Nat.le_refl 0, Nat.le_refl 0⟩
  | blank p | isOpen p | save p => cases p <;> exact ⟨Nat.le_refl _, Nat.le_refl _⟩
  | closes store o => exact ⟨Nat.le_refl 0, Nat.le_refl 1⟩
  | clears hp => exact ⟨Nat.zero_le _, Nat.zero_le _⟩

theorem Path.calls_le (h : Path info task before turns) :
    creations (turns.flatMap Turn.calls) ≤ (phase before).creations ∧
      closings (turns.flatMap Turn.calls) ≤ (phase before).closings := by
  induction h with
  | nil before => exact ⟨Nat.zero_le _, Nat.zero_le _⟩
  | cons h hrest ih =>
    obtain ⟨hcreations, hclosings⟩ := h.calls_le
    simp only [creations, closings, List.flatMap_cons, List.countP_append] at *
    omega

/-- **Every run** is made of turns that may be taken, and ends with the table of its last phase. -/
theorem run_path (hwidth : info.mapping.primitives.length = info.spec.size) (ops : List Op)
    (hvalid : ∀ f, .iterate f ∈ ops → f.validate info.spec.size = .ok ()) (task : OpenTask)
    (e : Surroundings σ) (before : List Turn) (s : σ) :
    ∃ turns s',
      run e ops ((phase before).table info task, s) =
        (turns, ((phase (before ++ turns)).table info task, s')) ∧
      performAll e ops ((phase before).table info task, s) =
        (turns.map Turn.answer, ((phase (before ++ turns)).table info task, s')) ∧
      turns.map Turn.op = ops ∧ Path info task before turns := by
  induction ops generalizing before s with
  | nil => exact ⟨[], s, by rw [List.append_nil]; rfl, by rw [List.append_nil]; rfl, rfl, .nil _⟩
  | cons op ops ih =>
    obtain ⟨t, s', hop, hperform, hturn, hfollows⟩ := exists_takes hwidth op
      (fun f hf => hvalid f (hf ▸ List.mem_cons_self)) task e before s
    obtain ⟨turns, s'', hrun, hall, hops, hpath⟩ :=
      ih (fun f hf => hvalid f (List.mem_cons_of_mem _ hf)) (before ++ [t]) s'
    rw [← List.append_cons] at hrun hall
    refine ⟨t :: turns, s'', ?_, ?_, by rw [List.map_cons, hop, hops], .cons hfollows hpath⟩
    · rw [run, hturn]
      simp only [hrun]
    · rw [performAll, hperform]
      simp only [hall, List.map_cons]

/-- **The life of a loaded table.**

Whatever is done to a loaded table, and whichever attempts to create its store fail: each turn is
one that may be taken in the phase that the turns before have led to. So the store is created on
first need, and after a failure on the next need; it is the same from then on, until the table is
cleared. Then it is closed if the table was open, and cannot be had any more. Over the whole run one
store is created at most, and one is closed at most. -/
theorem turns_of_load {c : Record.LoadContext} {serializers : SerializerRegistry} {factory : String}
    (hload : Record.load c serializers = .ok (info, factory)) (e : Surroundings σ)
    (task : OpenTask) (ops : List Op)
    (hvalid : ∀ f, .iterate f ∈ ops → f.validate info.spec.size = .ok ()) (s : σ) :
    ∃ turns s',
      run e ops (⟨info, .saved task .unopened, false⟩, s) =
        (turns, ((phase turns).table info task, s')) ∧
      performAll e ops (⟨info, .saved task .unopened, false⟩, s) =
        (turns.map Turn.answer, ((phase turns).table info task, s')) ∧
      turns.map Turn.op = ops ∧
      (∀ before t after, turns = before ++ t :: after → Follows info task (phase before) t) ∧
      creations (turns.flatMap Turn.calls) ≤ 1 ∧ closings (turns.flatMap Turn.calls) ≤ 1 := by
  obtain ⟨hasKeys, tags, hmapping⟩ := Record.ofTags_of_load hload
  have hwidth := (SchemaMapping.mapsTo_of_ofTags hmapping).length_eq
  obtain ⟨turns, s', hrun, hall, hops, hpath⟩ := run_path hwidth ops hvalid task e [] s
  obtain ⟨hcreations, hclosings⟩ := hpath.calls_le
  exact ⟨turns, s', hrun, hall, hops, fun before t after hsplit => hpath.follows hsplit,
    hcreations, hclosings⟩

/-- A table with one column of numbers. -/
def sampleCounted : TableInfo :=
  ⟨1, ⟨[⟨"a", .primitive .int⟩]⟩, ⟨false, [.int], .empty .builtin⟩, 2⟩

/-- Surroundings in which the first store cannot be created and none can be closed. -/
def sampleSurroundings : Surroundings Nat where
  create _ n := (if n = 0 then Outcome.fail .io else .ok ⟨n⟩, n + 1)
  close _ n := (Outcome.fail .io, n)
  write _ _ _ _ := Action.fail .io

def sampleTask : OpenTask := ⟨⟨0⟩, sampleCounted.mapping.schema.specs, "t"⟩

def sampleOps : List Op :=
  [.iterate (.only []), .store, .iterate .all, .ensureOpen, .save "u" .empty, .clear, .isOpen,
    .clear, .store]

theorem turns_of_load_sample :
    ∃ turns s',
      run sampleSurroundings sampleOps (⟨sampleCounted, .saved sampleTask .unopened, false⟩, 0) =
        (turns, (Phase.cleared.table sampleCounted sampleTask, s')) ∧
      turns.flatMap Turn.calls = [.created sampleTask (Outcome.fail .io),
        .created sampleTask (.ok ⟨1⟩), .closed ⟨1⟩ (Outcome.fail .io)] ∧
      creations (turns.flatMap Turn.calls) ≤ 1 ∧ closings (turns.flatMap Turn.calls) ≤ 1 := by
  have hload : Record.load ⟨1, sampleCounted.spec, Record.derived sampleCounted "f", "t"⟩ .builtin =
      .ok (sampleCounted, "f") :=
    Record.load_describe (t := sampleCounted) (ClassTags.valid_empty .builtin) ⟨rfl, rfl⟩
      (by decide) "t" 1
  have hvalid : ∀ f, .iterate f ∈ sampleOps → f.validate sampleCounted.spec.size = .ok () := by
    intro f hf
    simp only [sampleOps, List.mem_cons, Op.iterate.injEq, reduceCtorEq, false_or, or_false,
      List.not_mem_nil] at hf
    rcases hf with rfl | rfl <;> rfl
  obtain ⟨turns, s', hrun, -, -, -, hcalls⟩ :=
    turns_of_load hload sampleSurroundings sampleTask sampleOps hvalid 0
  cases hrun
  exact ⟨_, _, rfl, rfl, hcalls⟩

end Columnar.Table
