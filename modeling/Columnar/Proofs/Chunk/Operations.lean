import Columnar.Proofs.Chunk.Uniform
import Columnar.Proofs.Chunk.Values
import Mathlib.Logic.Function.Basic

/-!
# Operations on a chunk

**Slots** (`Slots.Records`). What was left in a slot is a value or none. A slot with a value holds
it; one without holds the default value, and the flag that it is missing. Writing and clearing
change what is left in one slot, and cutting slots off leaves the others. Slots with a record are
sound (`Slots.Sound`): there are as many values as flags, and what is missing has the default value.

**Operations** (`Chunk.Op`). A slot is given a value, made missing or reset; its supplement is
written and cleared on its own; and the chunk is cut off at a length. What a chunk refuses leaves it
as it is (`Chunk.perform`).

**The last word** (`lastLeft`). An operation leaves a value in the slot it is about, or none. What
is read of a slot is what the last of them has left there. The value of a slot and its supplement
are two stories: making a value missing leaves the supplement, and resetting a slot ends both.

**Records** (`Chunk.Records`). The invariant says of every slot and its supplement that they hold
what was left there. There is one step for every operation (`Records.perform`), and from it any
operations (`Records.performAll`).

Main result: `slots_after_ops`.
-/

namespace Columnar

/-! ## What is left in slots -/

/-- A slot with a value left in it, or with none. -/
def Slot.holding {α : Type} (default : α) : Option α → Slot α
  | none => ⟨default, true⟩
  | some v => ⟨v, false⟩

namespace Slots

variable {α : Type} {default : α} {n i : Nat} {left left' : Nat → Option α} {s : Slots α}

/-- Values and flags are `n` each, in a bitmap of whole bytes, and a value that is flagged as missing
is the default value. -/
structure Sound (default : α) (n : Nat) (s : Slots α) : Prop where
  values_length : s.values.length = n
  flags_length : s.flags.length = n
  padding_length : s.padding.length = paddingSize n
  default_of_missing : ∀ {i : Nat} {v : α}, s.values[i]? = some v → s.flags[i]? = some true →
    v = default

/-- There are `n` slots, and they hold what was left in them. -/
structure Records (default : α) (n : Nat) (left : Nat → Option α) (s : Slots α) : Prop where
  uniform : s.Uniform n
  slot : ∀ i < n, s.slots[i]? = some (Slot.holding default (left i))

theorem Records.congr (h : s.Records default n left) (heq : ∀ i < n, left' i = left i) :
    s.Records default n left' :=
  ⟨h.uniform, fun i hi => (heq i hi).symm ▸ h.slot i hi⟩

theorem records_fresh (default : α) (n : Nat) :
    (fresh default n).Records default n fun _ => none :=
  ⟨uniform_fresh default n, fun i hi => by simp [fresh, hi, Slot.holding]⟩

theorem Records.replace (h : s.Records default n left) (hi : i < n) (x : Option α) :
    (s.replace i (.holding default x)).Records default n (Function.update left i x) := by
  refine ⟨h.uniform.replace i _, fun j hj => ?_⟩
  by_cases hij : j = i
  · subst hij
    rw [Function.update_self]
    exact getElem?_replace_self (h.uniform.size_eq.symm ▸ hj) _
  · rw [Function.update_of_ne hij, getElem?_replace_of_ne s hij]
    exact h.slot j hj

theorem Records.set_eq (h : s.Records default n left) (hi : i < n) (v : α) :
    s.set i v = .ok (s.replace i (.holding default (some v))) :=
  put_eq (h.uniform.size_eq.symm ▸ hi) _

theorem Records.clear_eq (h : s.Records default n left) (hi : i < n) :
    s.clear default i = .ok (s.replace i (.holding default none)) :=
  put_eq (h.uniform.size_eq.symm ▸ hi) _

theorem Records.truncate (h : s.Records default n left) (m : Nat) :
    (s.truncate m).Records default (min m n) left := by
  refine ⟨h.uniform.truncate m, fun i hi => ?_⟩
  have hsize := h.uniform.size_eq
  rw [← h.slot i (by omega)]
  unfold Slots.truncate
  split
  · rw [Array.getElem?_extract, if_pos (by omega), Nat.zero_add]
  · rfl

theorem Records.sound (h : s.Records default n left) : s.Sound default n where
  values_length := h.uniform.length_values
  flags_length := h.uniform.length_flags
  padding_length := h.uniform.padding_length
  default_of_missing {i v} hv hmissing := by
    simp only [values, flags, List.getElem?_map, Array.getElem?_toList,
      Option.map_eq_some_iff] at hv hmissing
    obtain ⟨slot, hslot, rfl⟩ := hv
    obtain ⟨_, hslot', hflag⟩ := hmissing
    cases hslot.symm.trans hslot'
    have hi : i < n := h.uniform.size_eq ▸ (Array.getElem?_eq_some_iff.mp hslot).1
    cases hslot.symm.trans (h.slot i hi)
    cases hleft : left i with
    | none => rfl
    | some v => rw [hleft] at hflag; cases hflag

theorem Records.isMissing (h : s.Records default n left) (hi : i < n) :
    s.isMissing i = .ok (left i).isNone := by
  rw [isMissing_of_getElem? (h.slot i hi)]
  cases left i <;> rfl

theorem Records.value (h : s.Records default n left) (hi : i < n) :
    s.value i = .ok ((left i).getD default) := by
  rw [value_of_getElem? (h.slot i hi)]
  cases left i <;> rfl

end Slots

/-! ## Chunk specs -/

/-- The kind of the values in a chunk, unless pairs are nested. -/
def ChunkSpec.kind? : ChunkSpec → Option Kind
  | plain k | paired (plain k) => some k
  | paired (paired _) => none

theorem ChunkSpec.kind?_eq_some {spec : ChunkSpec} {k : Kind} (h : spec.kind? = some k) :
    spec = .plain k ∨ spec = .paired (.plain k) := by
  unfold kind? at h
  split at h <;> cases h
  · exact .inl rfl
  · exact .inr rfl

/-- A chunk can be created as long as there is an address for its end. -/
theorem ChunkSpec.create_eq_ok {spec : ChunkSpec} {n : Nat} {c : Chunk} :
    spec.create n = .ok c ↔ n < 0x400000000000000 ∧ spec.fresh n = c := by
  unfold create Outcome.ofLength
  split
  · rename_i hn
    simp [hn]
  · rename_i hn
    exact ⟨nofun, fun h => absurd h.1 hn⟩

/-! ## Values -/

/-- A value as it is given to a setter. -/
inductive Datum
  | int (v : Int32)
  | long (v : Int64)
  | double (v : Double)
  | boolean (v : Bool)
  | text (v : String)
  | bytes (v : Bytes)

namespace Datum

/-- The setter of the value. -/
def put (d : Datum) (c : Chunk) (i : Nat) : Outcome Chunk :=
  match d with
  | int v => c.set .int i v
  | long v => c.set .long i v
  | double v => c.set .double i v
  | boolean v => c.set .boolean i v
  | text v => c.setText i v
  | bytes v => c.setBytes i v

/-- The getter that goes with the setter gives the value. -/
def ReadAt (d : Datum) (c : Chunk) (i : Nat) : Prop :=
  match d with
  | int v => c.get .int i = .ok v
  | long v => c.get .long i = .ok v
  | double v => c.get .double i = .ok v
  | boolean v => c.get .boolean i = .ok v
  | text v => c.getText i = .ok v
  | bytes v => c.getBytes i = .ok v

/-- The chunk that the setter expects. -/
def shape : Datum → ChunkShape
  | int _ => .kind .int
  | long _ => .kind .long
  | double _ => .kind .double
  | boolean _ => .kind .boolean
  | text _ | bytes _ => .varLength

/-- The value as a chunk of a kind holds it. Text and byte strings fit any kind of byte strings, and
the other values their own kind. -/
def as? : (k : Kind) → Datum → Option k.Value
  | .int, int v => some v
  | .long, long v => some v
  | .double, double v => some v
  | .boolean, boolean v => some v
  | .string, text v | .rowKey, text v | .binary, text v => some (Utf8.encode v)
  | .string, bytes v | .rowKey, bytes v | .binary, bytes v => some v
  | _, _ => none

/-- **A setter** writes a value that fits the chunk, and refuses any other chunk. -/
theorem put_plain (d : Datum) {k : Kind} (s : Slots k.Value) (i : Nat) :
    d.put (.plain k s) i =
      match d.as? k with
      | some v => Chunk.plain k <$> s.set i v
      | none => Outcome.fail (.decode (.chunkShape d.shape (.plain k))) := by
  cases k <;> cases d <;> rfl

theorem put_paired (d : Datum) {k : Kind} (s : Slots k.Value) (t : Slots Bytes) (i : Nat) :
    d.put (.paired (.plain k s) t) i = (Chunk.paired · t) <$> d.put (.plain k s) i := by
  cases d <;> rfl

/-- What a chunk of the value's kind has in a slot is read with every getter that fits. -/
theorem readAt_of_get {d : Datum} {k : Kind} {v : k.Value} (hd : d.as? k = some v) {c : Chunk}
    {i : Nat} (h : c.get k i = .ok v) : d.ReadAt c i := by
  cases k <;> cases d <;> cases hd
  case int.int | long.long | double.double | boolean.boolean => exact h
  case string.bytes => exact Chunk.getBytes_of_get (.inl h)
  case rowKey.bytes => exact Chunk.getBytes_of_get (.inr (.inl h))
  case binary.bytes => exact Chunk.getBytes_of_get (.inr (.inr h))
  case string.text => exact Chunk.getText_of_getBytes (Chunk.getBytes_of_get (.inl h))
  case rowKey.text => exact Chunk.getText_of_getBytes (Chunk.getBytes_of_get (.inr (.inl h)))
  case binary.text => exact Chunk.getText_of_getBytes (Chunk.getBytes_of_get (.inr (.inr h)))

end Datum

namespace Chunk

/-! ## Operations -/

inductive Op
  | put (i : Nat) (d : Datum)
  | setMissing (i : Nat)
  | reset (i : Nat)
  | putSupplement (i : Nat) (v : Bytes)
  | clearSupplement (i : Nat)
  | truncate (n : Nat)

/-- What an operation makes of a chunk. -/
def apply (c : Chunk) : Op → Outcome Chunk
  | .put i d => d.put c i
  | .setMissing i => c.setMissing i
  | .reset i => c.reset i
  | .putSupplement i v => c.modifySupplement (·.set i v)
  | .clearSupplement i => c.modifySupplement (Slots.clear [] · i)
  | .truncate n => .ok (c.truncate n)

/-- Perform an operation. One that is refused leaves the chunk as it is. -/
def perform (op : Op) : Action Chunk Unit := fun c =>
  match c.apply op with
  | .ok c' => (.ok (), c')
  | .error e => (.error e, c)

/-- Perform operations one after the other, whether they are refused or not. -/
def performAll : List Op → Chunk → List (Outcome Unit) × Chunk
  | [], c => ([], c)
  | op :: ops, c =>
    let (reply, c) := perform op c
    let (replies, c) := performAll ops c
    (reply :: replies, c)

namespace Op

/-- The slot that the operation is about. -/
def index? : Op → Option Nat
  | put i _ | setMissing i | reset i | putSupplement i _ | clearSupplement i => some i
  | truncate _ => none

/-- The number of slots that the operation leaves of `n`. -/
def sizeAfter (n : Nat) : Op → Nat
  | truncate m => min m n
  | _ => n

/-- The operation is about one of `n` slots. -/
def InRange (n : Nat) (op : Op) : Prop := ∀ i, op.index? = some i → i < n

/-- The answer of a chunk of values of kind `k`. It refuses values of other kinds, and what is meant
for a supplement if it has none. -/
def reply (spec : ChunkSpec) (k : Kind) : Op → Outcome Unit
  | put _ d =>
    if (d.as? k).isSome then .ok ()
    else Outcome.fail (.decode (.chunkShape d.shape (.plain k)))
  | putSupplement _ _ | clearSupplement _ =>
    if spec = .plain k then Outcome.fail (.decode (.chunkShape .supplement (.plain k))) else .ok ()
  | setMissing _ | reset _ | truncate _ => .ok ()

theorem sizeAfter_le (op : Op) (n : Nat) : op.sizeAfter n ≤ n := by
  cases op with
  | truncate m => exact Nat.min_le_right m n
  | _ => exact Nat.le_refl n

/-- What the operation leaves of the value of slot `i`, a value or none, in a chunk of values of kind
`k`. -/
def value? (k : Kind) (i : Nat) : Op → Option (Option k.Value)
  | put j d => if j = i then (d.as? k).map some else none
  | setMissing j | reset j => if j = i then some none else none
  | _ => none

/-- What the operation leaves of the supplement of slot `i`. -/
def supplement? (i : Nat) : Op → Option (Option Bytes)
  | putSupplement j v => if j = i then some (some v) else none
  | clearSupplement j | reset j => if j = i then some none else none
  | _ => none

/-- An operation leaves all slots alone that it is not about. -/
theorem value?_of_ne {op : Op} {i : Nat} (h : op.index? ≠ some i) (k : Kind) :
    op.value? k i = none := by
  cases op <;> simp_all [index?, value?]

theorem supplement?_of_ne {op : Op} {i : Nat} (h : op.index? ≠ some i) :
    op.supplement? i = none := by
  cases op <;> simp_all [index?, supplement?]

end Op

/-- The number of slots that operations leave of `n`. -/
def sizeAfter (n : Nat) (ops : List Op) : Nat := ops.foldl Op.sizeAfter n

theorem sizeAfter_le (n : Nat) (ops : List Op) : sizeAfter n ops ≤ n := by
  induction ops generalizing n with
  | nil => exact Nat.le_refl n
  | cons op ops ih => exact Nat.le_trans (ih (op.sizeAfter n)) (op.sizeAfter_le n)

/-- Every operation is about one of the slots that there are by then, of `n` at first. -/
def InRange (n : Nat) : List Op → Prop
  | [] => True
  | op :: ops => op.InRange n ∧ InRange (op.sizeAfter n) ops

/-- What the last of the operations that leave something has left: a value, or none. There is none
before the first of them. -/
def lastLeft {α : Type} (left? : Op → Option (Option α)) (ops : List Op) : Option α :=
  (ops.reverse.findSome? left?).join

theorem lastLeft_concat {α : Type} (left? : Op → Option (Option α)) (ops : List Op) (op : Op) :
    lastLeft left? (ops ++ [op]) = (left? op).getD (lastLeft left? ops) := by
  rw [lastLeft, List.reverse_concat, List.findSome?_cons]
  cases left? op <;> rfl

/-! ## Records of chunks -/

/-- Every part of the chunk is sound, with `n` slots. -/
def Sound (n : Nat) : Chunk → Prop
  | plain k s => s.Sound k.default n
  | paired inner t => inner.Sound n ∧ t.Sound [] n

/-- What is read of a slot with this left in it. If it is none, the slot is missing, and its value
the default value. -/
structure Reads (c : Chunk) (k : Kind) (i : Nat) (left : Option k.Value) : Prop where
  isMissing : c.isMissing i = .ok left.isNone
  value : ∀ d : Datum, d.as? k = some (left.getD k.default) → d.ReadAt c i

/-- What is read of the supplement of a slot with this left in it. -/
def SupplementReads (c : Chunk) (i : Nat) (left : Option Bytes) : Prop :=
  ∃ t, c.supplement = .ok t ∧ t.isMissing i = .ok left.isNone ∧ t.value i = .ok (left.getD [])

/-- The chunk has `n` slots of kind `k`, and they hold what was left in them and in their
supplements. -/
inductive Records {k : Kind} (n : Nat) (left : Nat → Option k.Value) (extra : Nat → Option Bytes) :
    ChunkSpec → Chunk → Prop
  | plain {s : Slots k.Value} (hs : s.Records k.default n left) :
    Records n left extra (.plain k) (.plain k s)
  | paired {s : Slots k.Value} {t : Slots Bytes} (hs : s.Records k.default n left)
    (ht : t.Records [] n extra) :
    Records n left extra (.paired (.plain k)) (.paired (.plain k s) t)

variable {spec : ChunkSpec} {k : Kind} {n i : Nat} {left left' : Nat → Option k.Value}
  {extra extra' : Nat → Option Bytes} {c c' : Chunk} {op : Op} {ops : List Op}

theorem Records.congr (h : c.Records n left extra spec) (hleft : ∀ i < n, left' i = left i)
    (hextra : ∀ i < n, extra' i = extra i) : c.Records n left' extra' spec := by
  cases h with
  | plain hs => exact .plain (hs.congr hleft)
  | paired hs ht => exact .paired (hs.congr hleft) (ht.congr hextra)

theorem records_fresh (hspec : spec.kind? = some k) (n : Nat) :
    (spec.fresh n).Records (k := k) n (fun _ => none) (fun _ => none) spec := by
  rcases ChunkSpec.kind?_eq_some hspec with rfl | rfl
  · exact .plain (Slots.records_fresh k.default n)
  · exact .paired (Slots.records_fresh k.default n) (Slots.records_fresh [] n)

/-! ## One step for every operation -/

theorem Records.put (h : c.Records n left extra spec) (hi : i < n) {d : Datum} {v : k.Value}
    (hd : d.as? k = some v) :
    ∃ c', d.put c i = .ok c' ∧ c'.Records n (Function.update left i (some v)) extra spec := by
  have hplain : ∀ {s : Slots k.Value}, s.Records k.default n left →
      d.put (.plain k s) i = .ok (.plain k (s.replace i (.holding k.default (some v)))) := by
    intro s hs
    rw [d.put_plain s, hd]
    simp only [hs.set_eq hi, Outcome.map_ok]
  cases h with
  | plain hs => exact ⟨_, hplain hs, .plain (hs.replace hi _)⟩
  | paired hs ht =>
    refine ⟨_, ?_, .paired (hs.replace hi _) ht⟩
    rw [Datum.put_paired, hplain hs, Outcome.map_ok]

theorem Records.put_refused (h : c.Records n left extra spec) {d : Datum} (hd : d.as? k = none)
    (i : Nat) : d.put c i = Outcome.fail (.decode (.chunkShape d.shape (.plain k))) := by
  have hplain : ∀ s : Slots k.Value,
      d.put (.plain k s) i = Outcome.fail (.decode (.chunkShape d.shape (.plain k))) := by
    intro s
    rw [d.put_plain s, hd]
  cases h with
  | plain hs => exact hplain _
  | paired hs ht =>
    rw [Datum.put_paired, hplain]
    rfl

theorem Records.setMissing (h : c.Records n left extra spec) (hi : i < n) :
    ∃ c', c.setMissing i = .ok c' ∧ c'.Records n (Function.update left i none) extra spec := by
  cases h with
  | plain hs =>
    refine ⟨_, ?_, .plain (hs.replace hi none)⟩
    rw [Chunk.setMissing, hs.clear_eq hi]
    rfl
  | paired hs ht =>
    refine ⟨_, ?_, .paired (hs.replace hi none) ht⟩
    rw [Chunk.setMissing, Chunk.setMissing, hs.clear_eq hi]
    rfl

/-- A supplement is written where there is one. Where there is none, nothing was left in it. -/
theorem Records.modifySupplement (h : c.Records n left extra spec) (i : Nat) (x : Option Bytes)
    {f : Slots Bytes → Outcome (Slots Bytes)}
    (hf : ∀ t : Slots Bytes, t.Records [] n extra → f t = .ok (t.replace i (.holding [] x)))
    (hi : i < n) :
    (spec = .plain k ∧
      c.modifySupplement f = Outcome.fail (.decode (.chunkShape .supplement (.plain k))) ∧
      c.Records n left (Function.update extra i x) spec) ∨
    (spec = .paired (.plain k) ∧ ∃ c', c.modifySupplement f = .ok c' ∧
      c'.Records n left (Function.update extra i x) spec) := by
  cases h with
  | plain hs => exact .inl ⟨rfl, rfl, .plain hs⟩
  | paired hs ht =>
    refine .inr ⟨rfl, _, ?_, .paired hs (ht.replace hi x)⟩
    rw [Chunk.modifySupplement, hf _ ht]
    rfl

theorem Records.reset (h : c.Records n left extra spec) (hi : i < n) :
    ∃ c', c.reset i = .ok c' ∧
      c'.Records n (Function.update left i none) (Function.update extra i none) spec := by
  cases h with
  | @plain s hs =>
    have h : (Chunk.plain k s).Records n left extra (.plain k) := .plain hs
    obtain ⟨c', hc', h'⟩ := h.setMissing hi
    cases h' with
    | plain hs' => exact ⟨_, hc', .plain hs'⟩
  | @paired s t hs ht =>
    have h' : (Chunk.paired (.plain k s) (t.replace i (.holding [] none))).Records n left
        (Function.update extra i none) (.paired (.plain k)) := .paired hs (ht.replace hi none)
    obtain ⟨c', hc', h'⟩ := h'.setMissing hi
    refine ⟨c', ?_, h'⟩
    rw [Chunk.reset, ht.clear_eq hi]
    exact hc'

theorem Records.truncate (h : c.Records n left extra spec) (m : Nat) :
    (c.truncate m).Records (min m n) left extra spec := by
  cases h with
  | plain hs => exact .plain (hs.truncate m)
  | paired hs ht => exact .paired (hs.truncate m) (ht.truncate m)

theorem getD_eq_update {α : Type} (left : Nat → α) (i j : Nat) (x : α) :
    (if i = j then some x else none).getD (left j) = Function.update left i x j := by
  by_cases hij : i = j
  · subst hij
    rw [if_pos rfl, Function.update_self, Option.getD_some]
  · rw [if_neg hij, Function.update_of_ne (Ne.symm hij), Option.getD_none]

/-- **An operation** on a slot that there is gets its answer, and leaves in the slots what it says. -/
theorem Records.perform (h : c.Records n left extra spec) (hin : op.InRange n) :
    (Chunk.perform op c).1 = op.reply spec k ∧
      (Chunk.perform op c).2.Records (op.sizeAfter n) (fun j => (op.value? k j).getD (left j))
        (fun j => (op.supplement? j).getD (extra j)) spec := by
  have hok : ∀ {c'}, c.apply op = .ok c' → Chunk.perform op c = (.ok (), c') := by
    intro c' hc'
    rw [Chunk.perform, hc']
  have hfail : ∀ {e}, c.apply op = Outcome.fail e → Chunk.perform op c = (Outcome.fail e, c) := by
    intro e he
    rw [Chunk.perform, he]
    rfl
  cases op with
  | put i d =>
    cases hd : d.as? k with
    | some v =>
      obtain ⟨c', hc', h'⟩ := h.put (hin i rfl) hd
      rw [hok hc', Op.reply, hd]
      refine ⟨rfl, h'.congr (fun j _ => ?_) fun j _ => rfl⟩
      rw [Op.value?, hd]
      exact getD_eq_update left i j (some v)
    | none =>
      rw [hfail (h.put_refused hd i), Op.reply, hd]
      -- what is refused leaves nothing anywhere
      refine ⟨rfl, h.congr (fun j _ => ?_) fun j _ => rfl⟩
      simp [Op.value?, hd]
  | setMissing i =>
    obtain ⟨c', hc', h'⟩ := h.setMissing (hin i rfl)
    rw [hok hc']
    exact ⟨rfl, h'.congr (fun j _ => getD_eq_update left i j none) fun j _ => rfl⟩
  | reset i =>
    obtain ⟨c', hc', h'⟩ := h.reset (hin i rfl)
    rw [hok hc']
    exact ⟨rfl, h'.congr (fun j _ => getD_eq_update left i j none)
      fun j _ => getD_eq_update extra i j none⟩
  | putSupplement i v =>
    have hi := hin i rfl
    obtain ⟨rfl, he, h'⟩ | ⟨rfl, c', hc', h'⟩ :=
      h.modifySupplement i (some v) (fun t ht => ht.set_eq hi v) hi
    · rw [hfail he, Op.reply, if_pos rfl]
      exact ⟨rfl, h'.congr (fun j _ => rfl) fun j _ => getD_eq_update extra i j (some v)⟩
    · rw [hok hc', Op.reply, if_neg (by simp)]
      exact ⟨rfl, h'.congr (fun j _ => rfl) fun j _ => getD_eq_update extra i j (some v)⟩
  | clearSupplement i =>
    have hi := hin i rfl
    obtain ⟨rfl, he, h'⟩ | ⟨rfl, c', hc', h'⟩ :=
      h.modifySupplement i none (fun t ht => ht.clear_eq hi) hi
    · rw [hfail he, Op.reply, if_pos rfl]
      exact ⟨rfl, h'.congr (fun j _ => rfl) fun j _ => getD_eq_update extra i j none⟩
    · rw [hok hc', Op.reply, if_neg (by simp)]
      exact ⟨rfl, h'.congr (fun j _ => rfl) fun j _ => getD_eq_update extra i j none⟩
  | truncate m => exact ⟨rfl, h.truncate m⟩

theorem performAll_cons (op : Op) (ops : List Op) (c : Chunk) :
    performAll (op :: ops) c =
      ((perform op c).1 :: (performAll ops (perform op c).2).1,
        (performAll ops (perform op c).2).2) := rfl

/-- **Any operations** on slots that there are. -/
theorem Records.performAll {past : List Op}
    (h : c.Records n (fun j => lastLeft (·.value? k j) past)
      (fun j => lastLeft (·.supplement? j) past) spec)
    (hin : InRange n ops) :
    (Chunk.performAll ops c).1 = ops.map (·.reply spec k) ∧
      (Chunk.performAll ops c).2.Records (sizeAfter n ops)
        (fun j => lastLeft (·.value? k j) (past ++ ops))
        (fun j => lastLeft (·.supplement? j) (past ++ ops)) spec := by
  induction ops generalizing past n c with
  | nil =>
    rw [List.append_nil]
    exact ⟨rfl, h⟩
  | cons op ops ih =>
    obtain ⟨hop, hin⟩ := hin
    obtain ⟨hreply, h'⟩ := h.perform hop
    simp only [← lastLeft_concat] at h'
    obtain ⟨hreplies, h'⟩ := ih h' hin
    rw [List.append_assoc, List.singleton_append] at h'
    refine ⟨?_, h'⟩
    rw [performAll_cons, List.map_cons, hreply, hreplies]

/-! ## What a record says of a chunk -/

theorem Records.spec_eq (h : c.Records n left extra spec) : c.spec = spec := by
  cases h <;> rfl

theorem Records.sound (h : c.Records n left extra spec) : c.Sound n := by
  cases h with
  | plain hs => exact hs.sound
  | paired hs ht => exact ⟨hs.sound, ht.sound⟩

theorem Records.reads (h : c.Records n left extra spec) (hi : i < n) : c.Reads k i (left i) := by
  have hget : ∀ {c : Chunk} {s : Slots k.Value}, c.primary = .plain k s →
      s.Records k.default n left → c.get k i = .ok ((left i).getD k.default) := by
    intro c s hprimary hs
    simp only [Chunk.get, hprimary, dif_pos]
    exact hs.value hi
  cases h with
  | plain hs => exact ⟨hs.isMissing hi, fun d hd => Datum.readAt_of_get hd (hget rfl hs)⟩
  | paired hs ht => exact ⟨hs.isMissing hi, fun d hd => Datum.readAt_of_get hd (hget rfl hs)⟩

theorem Records.supplementReads (h : c.Records n left extra (.paired (.plain k))) (hi : i < n) :
    c.SupplementReads i (extra i) := by
  cases h with
  | paired hs ht => exact ⟨_, rfl, ht.isMissing hi, ht.value hi⟩

/-- Where the same was left, there is the same slot. -/
theorem Records.sameSlot {m : Nat} (h : c.Records n left extra spec)
    (h' : c'.Records m left' extra' spec) (hi : i < n) (hi' : i < m) (hleft : left' i = left i)
    (hextra : extra' i = extra i) : c'.SameSlot i i c := by
  cases h with
  | plain hs =>
    cases h' with
    | plain hs' => exact .plain (by rw [hs.slot i hi, hs'.slot i hi', hleft])
  | paired hs ht =>
    cases h' with
    | paired hs' ht' =>
      exact .paired (.plain (by rw [hs.slot i hi, hs'.slot i hi', hleft]))
        (by rw [ht.slot i hi, ht'.slot i hi', hextra])

theorem perform_refused (h : (perform op c).1 ≠ .ok ()) : (perform op c).2 = c := by
  unfold perform at h ⊢
  cases hc : c.apply op with
  | ok c' => exact absurd (by rw [hc]) h
  | error e => rfl

/-- **A chunk after any operations.** Take a new chunk without nested pairs, and any operations on
slots that it has by then, refused ones among them.

- All parts of the chunk have the same length: values, flags and those of the supplement. What is
  missing has the default value.
- What is read of a slot is the value it was last given since it was made missing, and the same goes
  for its supplement.
- A further operation is refused if it is meant for another kind of chunk, and then nothing has
  changed. It changes no slot but the one that it is about, and resetting a slot makes it that of
  the new chunk. -/
theorem slots_after_ops (hspec : spec.kind? = some k) {c₀ : Chunk} (hcreate : spec.create n = .ok c₀)
    (hrange : InRange n ops) :
    ∃ c, performAll ops c₀ = (ops.map (·.reply spec k), c) ∧ c.spec = spec ∧
      c.Sound (sizeAfter n ops) ∧
      (∀ i < sizeAfter n ops, c.Reads k i (lastLeft (·.value? k i) ops) ∧
        (spec = .paired (.plain k) → c.SupplementReads i (lastLeft (·.supplement? i) ops))) ∧
      ∀ op : Op, op.InRange (sizeAfter n ops) → ∃ c', perform op c = (op.reply spec k, c') ∧
        (op.reply spec k ≠ .ok () → c' = c) ∧
        (∀ j < op.sizeAfter (sizeAfter n ops), op.index? ≠ some j → c'.SameSlot j j c) ∧
        ∀ i, op = .reset i → c'.SameSlot i i c₀ := by
  obtain ⟨-, rfl⟩ := ChunkSpec.create_eq_ok.mp hcreate
  have hfresh := records_fresh hspec n
  have hnothing : (spec.fresh n).Records (k := k) n (fun j => lastLeft (·.value? k j) [])
      (fun j => lastLeft (·.supplement? j) []) spec := hfresh
  obtain ⟨hreplies, h⟩ := hnothing.performAll hrange
  refine ⟨_, Prod.ext hreplies rfl, h.spec_eq, h.sound, fun i hi => ⟨h.reads hi, ?_⟩,
    fun op hop => ?_⟩
  · rintro rfl
    exact h.supplementReads hi
  · obtain ⟨hreply, h'⟩ := h.perform hop
    refine ⟨_, Prod.ext hreply rfl, fun hrefused => perform_refused (hreply ▸ hrefused),
      fun j hj hne => ?_, ?_⟩
    · have hj' := Nat.lt_of_lt_of_le hj (op.sizeAfter_le _)
      exact h.sameSlot h' hj' hj (by rw [op.value?_of_ne hne]; rfl)
        (by rw [op.supplement?_of_ne hne]; rfl)
    · rintro i rfl
      have hi := hop i rfl
      exact hfresh.sameSlot h' (Nat.lt_of_lt_of_le hi (sizeAfter_le n ops)) hi
        (by simp [Op.value?]) (by simp [Op.supplement?])

/-- Values, a value that is refused and a supplement, in three slots of which the last is cut off. -/
def sampleOps : List Op :=
  [.put 0 (.text "a"), .put 1 (.bytes [0xff]), .putSupplement 1 [7], .put 0 (.int 5), .setMissing 1,
    .put 2 (.text "b"), .truncate 2]

theorem slots_after_ops_sample :
    ∃ c₀ c, (ChunkSpec.paired (.plain .string)).create 3 = .ok c₀ ∧ InRange 3 sampleOps ∧
      (performAll sampleOps c₀).2 = c ∧ c.Sound 2 ∧ c.getText 0 = .ok "a" ∧
      c.isMissing 1 = .ok true ∧ c.getBytes 1 = .ok [] ∧ c.SupplementReads 1 (some [7]) ∧
      ∃ c', perform (.reset 1) c = (.ok (), c') ∧ c'.SameSlot 0 0 c ∧ c'.SameSlot 1 1 c₀ := by
  have hspec : (ChunkSpec.paired (.plain .string)).kind? = some .string := rfl
  have hcreate : (ChunkSpec.paired (.plain .string)).create 3 = .ok _ :=
    ChunkSpec.create_eq_ok.mpr ⟨by decide, rfl⟩
  have hrange : InRange 3 sampleOps := by
    simp [InRange, sampleOps, Op.InRange, Op.index?, Op.sizeAfter]
  obtain ⟨c, hrun, -, hsound, hreads, hstep⟩ := slots_after_ops hspec hcreate hrange
  obtain ⟨c', hreset, -, hframe, hfresh⟩ := hstep (.reset 1) (by intro i hi; cases hi; decide)
  obtain ⟨hfirst, -⟩ := hreads 0 (by decide)
  obtain ⟨hsecond, hextra⟩ := hreads 1 (by decide)
  exact ⟨_, c, rfl, hrange, congrArg Prod.snd hrun, hsound, hfirst.value (.text "a") rfl,
    hsecond.isMissing, hsecond.value (.bytes []) rfl, hextra rfl, c', hreset,
    hframe 0 (by decide) (by decide), hfresh 1 rfl⟩

end Chunk

end Columnar
