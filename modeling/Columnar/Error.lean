import Columnar.Chunk.Spec
import Columnar.Text.Utf8

/-!
# Errors

Every failure of the library is a value that says what went wrong; `Error.message` gives the text
shown to a user. A failure to decode bytes is a `DecodeFault`, a call that does not fit the state
of an object a `StateFault`, a settings tree that does not say what it should a `SettingsFault`.

**Wrapping.** `Error.atPath` adds the file being accessed. `Error.nested` marks an error that came
out of the chunk cache, where one failure may be handed to several readers; it adds no text.

**Aborts.** Misuse that is a defect of the caller, such as an index out of range, is no error but
an `Abort`. `Outcome` is the result of an operation that may end in either.
-/

namespace Columnar

/-- What a chunk was expected to be. -/
inductive ChunkShape
  | kind (k : Kind) | varLength | supplement
deriving DecidableEq

def ChunkShape.text : ChunkShape → String
  | kind k => k.text
  | varLength => "VAR-LENGTH"
  | supplement => "SUPPLEMENT"

/-- Why bytes could not be decoded. -/
inductive DecodeFault
  | truncatedSpec
  | nestedSupplement
  | unknownTag (tag : UInt8)
  | checksumType
  | layoutCode
  | blockWithoutTrailer
  | layoutMismatch (found : Layout) (spec : ChunkSpec)
  | bitmapLength
  | truncatedBitmap
  | valueBytes (expected found : Nat)
  | truncatedOffsets
  | invalidOffset
  | innerLength
  | truncatedInner
  | notChunkFile
  | fileVersion (version : Nat)
  | truncatedTail
  | tailMagic
  | truncatedIndex
  | trailingBytes
  | fileTooShort
  | indexOffset
  | fileSpecs (found expected : List ChunkSpec)
  | blockRange
  | chunkShape (expected : ChunkShape) (found : ChunkSpec)
  | chunkText (row : Nat) (fault : Utf8.Fault)
  | payloadTruncated (need left : Nat)
  | payloadText (fault : Utf8.Fault)
deriving DecidableEq

/-- Chunk specs separated by commas. -/
def specsText (specs : List ChunkSpec) : String := ", ".intercalate (specs.map ChunkSpec.text)

def DecodeFault.message : DecodeFault → String
  | truncatedSpec => "truncated column spec"
  | nestedSupplement => "nested supplement chunk"
  | unknownTag tag => "unknown chunk tag " ++ toString tag.toNat
  | checksumType => "expected valid checksum type"
  | layoutCode => "expected valid block type"
  | blockWithoutTrailer => "block is shorter than its meta"
  | layoutMismatch found spec =>
    "block type " ++ found.text ++ " does not match column spec " ++ spec.text
  | bitmapLength => "missing bitmap length"
  | truncatedBitmap => "truncated missing bitmap"
  | valueBytes expected found =>
    "expected " ++ toString expected ++ " bytes of values, found " ++ toString found
  | truncatedOffsets => "truncated offsets of var-length block"
  | invalidOffset => "invalid offset in var-length block"
  | innerLength => "missing primitive length"
  | truncatedInner => "truncated supplement block"
  | notChunkFile => "not a chunk file"
  | fileVersion version => "unsupported chunk file version " ++ toString version
  | truncatedTail => "truncated chunk file footer"
  | tailMagic => "bad magic at the end of chunk file"
  | truncatedIndex => "truncated chunk file index"
  | trailingBytes => "trailing bytes after column specs"
  | fileTooShort => "chunk file is too short"
  | indexOffset => "index offset out of range"
  | fileSpecs found expected =>
    "column specs of chunk file [" ++ specsText found ++ "] do not match the table schema [" ++
      specsText expected ++ "]"
  | blockRange => "block out of range"
  | chunkShape expected found => "expected " ++ expected.text ++ " chunk, found " ++ found.text
  | chunkText row fault => "invalid utf-8 at row " ++ toString row ++ ": " ++ fault.message
  | payloadTruncated need left =>
    "cell payload truncated: need " ++ toString need ++ " bytes, " ++ toString left ++ " left"
  | payloadText fault => "invalid utf-8 string: " ++ fault.message

/-- Why a call does not fit the state of its object. -/
inductive StateFault
  | batchWidth (found expected : Nat)
  | batchSpec (found expected : ChunkSpec)
  | pastLastRow
  | notOnRow
  | rowKeyCell (cell : Cell)
  | unmaterializedCell
  | noSerializer (cell : Cell)
  | serializerRefuses (serializer : String) (cell : Cell)
  | rowWidth (found expected : Nat)
  | rowWithoutKey
  | containerOpen
  | savedTwice
  | tableSize (size : Nat)
  | chunkTooLong
  | innerTooLong
  | openRefused
deriving DecidableEq

def StateFault.message : StateFault → String
  | batchWidth found expected =>
    "batch has " ++ toString found ++ " columns, store expects " ++ toString expected
  | batchSpec found expected =>
    "chunk of type " ++ found.text ++ " written to column of type " ++ expected.text
  | pastLastRow => "cursor forwarded past the last row"
  | notOnRow => "cursor is not positioned on a row"
  | rowKeyCell cell => "row key must be a string, found " ++ cell.literal
  | unmaterializedCell => "cannot write an unmaterialized cell"
  | noSerializer cell => cell.literal ++ " has no serializer"
  | serializerRefuses serializer cell =>
    serializer ++ " serializer cannot write " ++ cell.literal
  | rowWidth found expected =>
    "row has " ++ toString found ++ " cells, table has " ++ toString expected ++ " columns"
  | rowWithoutKey => "row has no key, but the table stores row keys"
  | containerOpen => "row container must be closed before getting the table"
  | savedTwice => "a loaded table cannot be saved again"
  | tableSize size => "table size " ++ toString size ++ " out of range"
  | chunkTooLong => "var-length chunk exceeds 4 GiB"
  | innerTooLong => "primitive part of chunk exceeds 4 GiB"
  | openRefused => "open failed on request"

/-- The types of a settings entry. -/
inductive EntryType
  | string | int | long | bool | strings | tree
deriving DecidableEq

def EntryType.text : EntryType → String
  | string => "string"
  | int => "int"
  | long => "long"
  | bool => "bool"
  | strings => "string array"
  | tree => "section"

/-- Why a settings tree does not say what it should. -/
inductive SettingsFault
  | noEntry (key : String)
  | wrongType (key : String) (found expected : EntryType)
  | columnType (key : String)
  | columnCounts (names types : Nat)
  | tableKind (name : String)
  | tableSize (size : Int64)
deriving DecidableEq

def SettingsFault.message : SettingsFault → String
  | noEntry key => "no entry for key \"" ++ key ++ "\""
  | wrongType key found expected =>
    "entry \"" ++ key ++ "\" is a " ++ found.text ++ ", expected " ++ expected.text
  | columnType key => "unknown column type \"" ++ key ++ "\""
  | columnCounts names types =>
    toString names ++ " column names but " ++ toString types ++ " column types"
  | tableKind name => "unsupported table implementation \"" ++ name ++ "\""
  | tableSize size => "invalid table size " ++ toString size.toInt

/-- What is looked up by name or number. -/
inductive Lookup
  | batch | cellSerializer | schemaMapping | storeFactory
deriving DecidableEq

def Lookup.text : Lookup → String
  | batch => "batch"
  | cellSerializer => "cell serializer"
  | schemaMapping => "schema mapping"
  | storeFactory => "chunk store factory"

/-- What can be closed. -/
inductive Resource
  | chunkStore | readCursor | writeCursor | table | rowContainer
deriving DecidableEq

def Resource.text : Resource → String
  | chunkStore => "chunk store"
  | readCursor => "read cursor"
  | writeCursor => "write cursor"
  | table => "fast table"
  | rowContainer => "row container"

/-- Everything that can go wrong. -/
inductive Error
  | notFound (what : Lookup) (name : String)
  | invalidColumn (index : Nat)
  | columnNotSelected (index : Nat)
  | unsupportedColumn (column type : String)
  | invalidSettings (fault : SettingsFault)
  | illegalState (fault : StateFault)
  | unknownCellTag (tag : Int8)
  | tooManyClasses (limit : Nat)
  | closed (what : Resource)
  | io
  | json
  | decode (fault : DecodeFault)
  | checksum (found expected : UInt64)
  | atPath (path : String) (cause : Error)
  | nested (cause : Error)
deriving DecidableEq

/-- The text shown to a user. What the system or the reader of a settings file has to say about
its own failures is left out. -/
def Error.message : Error → String
  | notFound what name => what.text ++ "(" ++ name ++ ") not found"
  | invalidColumn index => "invalid column index: " ++ toString index
  | columnNotSelected index =>
    "column " ++ toString index ++ " is not part of the current selection"
  | unsupportedColumn column type =>
    "column \"" ++ column ++ "\" of type " ++ type ++ " has no columnar mapping"
  | invalidSettings fault => "invalid settings: " ++ fault.message
  | illegalState fault => "illegal state: " ++ fault.message
  | unknownCellTag tag =>
    "unknown serializer tag " ++ toString tag.toInt ++
      ", type registry is out of sync with the data"
  | tooManyClasses limit =>
    "too many cell implementations (at most " ++ toString limit ++ " per table)"
  | closed what => what.text ++ " has been closed"
  | io => "IO error"
  | json => "JSON decode error"
  | decode fault => "Decode error: " ++ fault.message
  | checksum found expected =>
    "Invalid checksum: found " ++ toString found.toNat ++ ", expected " ++ toString expected.toNat
  | atPath path cause =>
    "exception while accessing file \"" ++ path ++ "\": " ++ cause.message
  | nested cause => cause.message

/-- Misuse that ends the run. -/
inductive Abort
  | rowKeyAbsent
  | chunkSizeZero
  | unevenBatch
  | unalignedFlags
  /-- An index past the end of a sequence. -/
  | outOfRange
  /-- A read past the end of a buffer. -/
  | overrun
  /-- A count that does not fit in 64 bits. -/
  | overflow
  /-- A sequence of more entries than can ever be stored. -/
  | capacity
deriving DecidableEq

/-- The text of an abort raised on purpose. -/
def Abort.message? : Abort → Option String
  | rowKeyAbsent => some "row key requested, but not part of table"
  | chunkSizeZero => some "chunk size must be positive"
  | unevenBatch => some "chunks of a batch must have the same length"
  | unalignedFlags => some "values and bitmap must align"
  | outOfRange | overrun | overflow | capacity => none

/-- How an operation can fail. -/
inductive Failure
  | error (e : Error)
  | abort (a : Abort)
deriving DecidableEq

/-- The result of an operation. -/
abbrev Outcome := Except Failure

instance [DecidableEq α] : DecidableEq (Outcome α)
  | .ok a, .ok b => decidable_of_iff (a = b) ⟨congrArg _, Except.ok.inj⟩
  | .error e, .error f => decidable_of_iff (e = f) ⟨congrArg _, Except.error.inj⟩
  | .ok _, .error _ | .error _, .ok _ => isFalse (by intro h; cases h)

namespace Outcome

/-- Fail with an error. -/
def fail (e : Error) : Outcome α := .error (.error e)

/-- End the run. -/
def abort (a : Abort) : Outcome α := .error (.abort a)

/-- Change the error of a failed operation; results and aborts stay. -/
def mapError (f : Error → Error) : Outcome α → Outcome α
  | .error (.error e) => .error (.error (f e))
  | o => o

/-- Drop an error; an abort stays. -/
def quiet : Outcome Unit → Outcome Unit
  | .error (.error _) => .ok ()
  | o => o

/-- The value of a look-up, or an error. -/
def ofOption (e : Error) : Option α → Outcome α
  | some a => .ok a
  | none => fail e

/-- The value of an index access, which aborts out of range. -/
def ofIndex : Option α → Outcome α
  | some a => .ok a
  | none => abort .outOfRange

/-- A count, which must fit in 64 bits. -/
def ofCount (n : Nat) : Outcome Nat := if n < 0x10000000000000000 then .ok n else abort .overflow

/-- The length of a new sequence. From `2 ^ 58` entries on there is no address for its end. -/
def ofLength (n : Nat) : Outcome Nat := if n < 0x400000000000000 then .ok n else abort .capacity

theorem ofCount_of_lt {n : Nat} (h : n < 0x10000000000000000) : ofCount n = .ok n := if_pos h

theorem ofLength_of_lt {n : Nat} (h : n < 0x400000000000000) : ofLength n = .ok n := if_pos h

/-- A result together with where it is from. -/
def attach : (o : Outcome α) → Outcome {a // o = .ok a}
  | .ok a => .ok ⟨a, rfl⟩
  | .error e => .error e

/-- A sequence that succeeds does so in both parts. -/
theorem bind_eq_ok {o : Outcome α} {f : α → Outcome β} {b : β} (h : (o >>= f) = .ok b) :
    ∃ a, o = .ok a ∧ f a = .ok b := by
  cases o with
  | ok a => exact ⟨a, rfl, h⟩
  | error e => cases h

/-- A check that passes. -/
theorem guard_eq_ok {c : Prop} [Decidable c] {e : Error} {o : Outcome α} {a : α}
    (h : (if c then fail e else o) = .ok a) : ¬ c ∧ o = .ok a := by
  by_cases hc : c
  · rw [if_pos hc] at h
    cases h
  · rw [if_neg hc] at h
    exact ⟨hc, h⟩

theorem attach_bind {o : Outcome α} {a : α} (h : o = .ok a)
    (f : {a // o = .ok a} → Outcome β) : (o.attach >>= f) = f ⟨a, h⟩ := by
  subst h
  rfl

theorem attach_error {o : Outcome α} {e : Failure} (h : o = .error e) : o.attach = .error e := by
  subst h
  rfl

end Outcome

end Columnar
