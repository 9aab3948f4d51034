import Columnar.Bytes.FixedWidth

/-!
# Buffers

A buffer is a byte string in one piece of memory, for files and blocks, which may be large while
only small parts of them are looked at. A buffer is known by its list of bytes: `ext`, and for
every operation a lemma on `toList`. A fold over a buffer is the fold over that list, `foldl_eq`.

Cuts are those of byte strings and abort in the same case. `cutFront_append` and `cutBack_append`
say that a decoder gets back what was put together.
-/

namespace Columnar

structure Buffer where
  array : ByteArray

namespace Buffer

def empty : Buffer := ⟨.empty⟩

def ofList (bs : Bytes) : Buffer := ⟨bs.toByteArray⟩

def toList (b : Buffer) : Bytes := b.array.data.toList

def size (b : Buffer) : Nat := b.array.size

def append (a b : Buffer) : Buffer := ⟨a.array ++ b.array⟩

instance : Append Buffer := ⟨append⟩

/-- The bytes from `start` on and before `stop`. -/
def slice (start stop : Nat) (b : Buffer) : Buffer := ⟨b.array.extract start stop⟩

/-- `n` zeros. -/
def zeros (n : Nat) : Buffer :=
  if n = 0 then empty
  else
    let half := zeros (n / 2)
    if n % 2 = 0 then half ++ half else half ++ half ++ ofList [0]

/-- The first `n` bytes, or all of them and zeros up to that length. -/
def resize (n : Nat) (b : Buffer) : Buffer := b.slice 0 n ++ zeros (n - b.size)

/-- Put bytes in the place of those from `offset` on. -/
def patch (b : Buffer) (offset : Nat) (bytes : Buffer) : Buffer :=
  if bytes.size = 0 then b
  else b.resize offset ++ bytes ++ b.slice (offset + bytes.size) b.size

/-- Fold over the bytes from `i` on. -/
@[specialize] def foldlFrom {β : Type} (f : β → UInt8 → β) (b : Buffer) (i : Nat) (acc : β) : β :=
  if h : i < b.array.size then foldlFrom f b (i + 1) (f acc b.array[i]) else acc
termination_by b.array.size - i

/-- Fold over all bytes. -/
@[inline] def foldl {β : Type} (f : β → UInt8 → β) (acc : β) (b : Buffer) : β :=
  foldlFrom f b 0 acc

/-! ## The list of bytes -/

theorem ext {a b : Buffer} (h : a.toList = b.toList) : a = b := by
  cases a
  cases b
  simpa [toList, ByteArray.ext_iff] using h

@[simp] theorem toList_ofList (bs : Bytes) : (ofList bs).toList = bs := by
  simp [ofList, toList]

@[simp] theorem ofList_toList (b : Buffer) : ofList b.toList = b := ext (toList_ofList _)

@[simp] theorem length_toList (b : Buffer) : b.toList.length = b.size := by
  simp [toList, size]

@[simp] theorem size_ofList (bs : Bytes) : (ofList bs).size = bs.length := by
  rw [← length_toList, toList_ofList]

@[simp] theorem toList_append (a b : Buffer) : (a ++ b).toList = a.toList ++ b.toList := by
  change (append a b).toList = _
  simp [append, toList]

theorem ofList_append (a b : Bytes) : ofList (a ++ b) = ofList a ++ ofList b :=
  ext (by simp)

theorem toList_slice (start stop : Nat) (b : Buffer) :
    (b.slice start stop).toList = (b.toList.drop start).take (stop - start) := by
  simp [slice, toList, List.extract_eq_take_drop]

@[simp] theorem toList_zeros (n : Nat) : (zeros n).toList = List.replicate n 0 := by
  fun_induction zeros n with
  | case1 => simp [empty, toList]
  | case2 n _ half hn ih =>
    rw [toList_append, ih, List.replicate_append_replicate]
    congr 1
    omega
  | case3 n _ half hn ih =>
    rw [toList_append, toList_append, ih, toList_ofList, List.replicate_append_replicate,
      ← List.replicate_succ']
    congr 1
    omega

theorem toList_resize (n : Nat) (b : Buffer) :
    (b.resize n).toList = b.toList.take n ++ List.replicate (n - b.size) 0 := by
  simp [resize, toList_slice]

theorem toList_patch {b bytes : Buffer} {offset : Nat} (h : offset + bytes.size ≤ b.size) :
    (b.patch offset bytes).toList =
      b.toList.take offset ++ bytes.toList ++ b.toList.drop (offset + bytes.size) := by
  have hz : offset - b.size = 0 := by omega
  unfold patch
  split
  · rename_i h0
    have hb : bytes.toList = [] := by
      apply List.eq_nil_of_length_eq_zero
      rw [length_toList, h0]
    simp [hb, h0]
  · have hd : b.size - (offset + bytes.size) = (b.toList.drop (offset + bytes.size)).length := by
      simp
    simp only [toList_append, toList_resize, toList_slice, hz, List.replicate_zero, List.append_nil]
    rw [hd, List.take_length]

theorem foldlFrom_eq {β : Type} (f : β → UInt8 → β) (b : Buffer) (i : Nat) (acc : β) :
    foldlFrom f b i acc = (b.toList.drop i).foldl f acc := by
  fun_induction foldlFrom f b i acc with
  | case1 i acc h ih =>
    have hi : i < b.toList.length := by rwa [length_toList]
    rw [ih, List.drop_eq_getElem_cons hi, List.foldl_cons]
    rfl
  | case2 i acc h =>
    rw [List.drop_eq_nil_of_le, List.foldl_nil]
    rw [length_toList]
    exact Nat.le_of_not_lt h

@[simp] theorem foldl_eq {β : Type} (f : β → UInt8 → β) (acc : β) (b : Buffer) :
    b.foldl f acc = b.toList.foldl f acc :=
  foldlFrom_eq f b 0 acc

/-! ## Cuts -/

/-- The first `n` bytes and the rest. -/
def cutFront (n : Nat) (b : Buffer) : Outcome (Buffer × Buffer) :=
  if n ≤ b.size then .ok (b.slice 0 n, b.slice n b.size) else Outcome.abort .overrun

/-- All but the last `n` bytes, and those. -/
def cutBack (n : Nat) (b : Buffer) : Outcome (Buffer × Buffer) :=
  if n ≤ b.size then .ok (b.slice 0 (b.size - n), b.slice (b.size - n) b.size)
  else Outcome.abort .overrun

/-- The little-endian number in a whole buffer. -/
def word (b : Buffer) : Nat := LittleEndian.decode b.toList

theorem word_lt {b : Buffer} (h : b.size = 4) : b.word < wordLimit := by
  have hlt := LittleEndian.decode_lt b.toList
  rwa [length_toList, h] at hlt

theorem slice_front (a b : Bytes) : (ofList (a ++ b)).slice 0 a.length = ofList a :=
  ext (by simp [toList_slice])

theorem slice_back (a b : Bytes) :
    (ofList (a ++ b)).slice a.length (a ++ b).length = ofList b :=
  ext (by simp [toList_slice])

theorem cutFront_append (a b : Bytes) :
    cutFront a.length (ofList (a ++ b)) = .ok (ofList a, ofList b) := by
  have h : a.length ≤ (ofList (a ++ b)).size := by simp
  rw [cutFront, if_pos h, size_ofList, slice_front, slice_back]

theorem cutBack_append (a b : Bytes) :
    cutBack b.length (ofList (a ++ b)) = .ok (ofList a, ofList b) := by
  have h : b.length ≤ (ofList (a ++ b)).size := by simp
  have hs : (ofList (a ++ b)).size - b.length = a.length := by simp
  rw [cutBack, if_pos h, hs, size_ofList, slice_front, slice_back]

end Buffer

end Columnar
