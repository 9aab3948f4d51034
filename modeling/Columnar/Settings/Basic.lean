import Columnar.Error

/-!
# Settings trees

A settings tree maps keys to values: texts, numbers of two widths, booleans, lists of texts, and
trees again. It is a list of entries in ascending order of their keys; a nested tree has a
constructor of its own, so that a tree is one plain inductive type.

`insert` keeps the order and replaces an entry of the same key. The getters say what was expected
when an entry is absent or of another type.
-/

namespace Columnar

/-- A settings value that is not a tree. -/
inductive Scalar
  | string (v : String)
  | int (v : Int32)
  | long (v : Int64)
  | bool (v : Bool)
  | strings (v : List String)
deriving DecidableEq

inductive Settings
  | empty
  /-- An entry with a scalar, before the entries with greater keys. -/
  | scalar (key : String) (value : Scalar) (rest : Settings)
  /-- An entry with a tree, before the entries with greater keys. -/
  | nested (key : String) (tree : Settings) (rest : Settings)
deriving DecidableEq

namespace Settings

/-- The value of an entry. -/
inductive Value
  | scalar (v : Scalar)
  | tree (t : Settings)
deriving DecidableEq

def Value.type : Value → EntryType
  | scalar (.string _) => .string
  | scalar (.int _) => .int
  | scalar (.long _) => .long
  | scalar (.bool _) => .bool
  | scalar (.strings _) => .strings
  | tree _ => .tree

/-- An entry in front of a tree. -/
def cons (key : String) : Value → Settings → Settings
  | .scalar v, rest => Settings.scalar key v rest
  | .tree t, rest => nested key t rest

/-- Put a value under a key. -/
def insert (key : String) (v : Value) : Settings → Settings
  | empty => cons key v empty
  | scalar k w rest =>
    if key < k then cons key v (scalar k w rest)
    else if key = k then cons key v rest
    else scalar k w (rest.insert key v)
  | nested k t rest =>
    if key < k then cons key v (nested k t rest)
    else if key = k then cons key v rest
    else nested k t (rest.insert key v)

def find? (key : String) : Settings → Option Value
  | empty => none
  | scalar k v rest => if key = k then some (.scalar v) else rest.find? key
  | nested k t rest => if key = k then some (.tree t) else rest.find? key

/-- The keys in ascending order. -/
def keys : Settings → List String
  | empty => []
  | scalar k _ rest => k :: rest.keys
  | nested k _ rest => k :: rest.keys

def contains (s : Settings) (key : String) : Bool := (s.find? key).isSome

/-! ## Typed entries -/

def addString (s : Settings) (key v : String) : Settings := s.insert key (.scalar (.string v))

def addInt (s : Settings) (key : String) (v : Int32) : Settings := s.insert key (.scalar (.int v))

def addLong (s : Settings) (key : String) (v : Int64) : Settings :=
  s.insert key (.scalar (.long v))

def addBool (s : Settings) (key : String) (v : Bool) : Settings :=
  s.insert key (.scalar (.bool v))

def addStrings (s : Settings) (key : String) (v : List String) : Settings :=
  s.insert key (.scalar (.strings v))

def addTree (s : Settings) (key : String) (t : Settings) : Settings := s.insert key (.tree t)

/-- The entry of a key, seen as a value of the expected type. -/
def getAs (expected : EntryType) (project : Value → Option α) (s : Settings) (key : String) :
    Outcome α :=
  match s.find? key with
  | none => Outcome.fail (.invalidSettings (.noEntry key))
  | some v =>
    Outcome.ofOption (.invalidSettings (.wrongType key v.type expected)) (project v)

def getString : Settings → String → Outcome String :=
  getAs .string fun | .scalar (.string v) => some v | _ => none

def getInt : Settings → String → Outcome Int32 :=
  getAs .int fun | .scalar (.int v) => some v | _ => none

def getLong : Settings → String → Outcome Int64 :=
  getAs .long fun | .scalar (.long v) => some v | _ => none

def getBool : Settings → String → Outcome Bool :=
  getAs .bool fun | .scalar (.bool v) => some v | _ => none

def getStrings : Settings → String → Outcome (List String) :=
  getAs .strings fun | .scalar (.strings v) => some v | _ => none

def getTree : Settings → String → Outcome Settings :=
  getAs .tree fun | .tree t => some t | _ => none

end Settings

end Columnar
