import DepLock.Fields

/-!
# Values of a TOML document

A document is a table. How a table came about decides whether a later header or dotted key may add
to it, so a table carries its `Origin`. `Table.alter` reaches a table along a path of keys and
changes it there.
-/

namespace DepLock.Toml

/-- How a table came about: by a header of its own, by a header for something beneath it, by a
dotted key, or within braces. -/
inductive Origin where
  | header
  | implied
  | dotted
  | braces
  deriving DecidableEq, Repr

/-- Whether a dotted key may reach into a table. -/
def Origin.isOpen : Origin → Bool
  | implied | dotted => true
  | header | braces => false

/-- A value, a table, or an array whose elements are tables with a header each. -/
inductive Value where
  | string (s : String)
  | boolean (b : Bool)
  | integer (i : Int)
  | float (text : String)
  | dateTime (text : String)
  | array (elements : List Value)
  | table (origin : Origin) (entries : List (String × Value))
  | tables (elements : List Value)
  deriving Inhabited, Repr

/-- A table: how it came about, and its entries in the order of definition. -/
structure Table where
  origin : Origin
  entries : List (String × Value) := []
  deriving Repr

namespace Table

/-- The table as a value. -/
def toValue (t : Table) : Value := .table t.origin t.entries

/-- The value at a key. -/
def get? (t : Table) (key : String) : Option Value := t.entries.lookup key

/-- The table with the value at a key set, in place or at the end. -/
def set (t : Table) (key : String) (v : Value) : Table :=
  if (t.get? key).isSome then
    { t with entries := t.entries.map fun e => if e.1 = key then (key, v) else e }
  else { t with entries := t.entries ++ [(key, v)] }

/-- The table with a new key; there is none if the key is taken. -/
def add? (t : Table) (key : String) (v : Value) : Option Table :=
  if (t.get? key).isSome then none else some (t.set key v)

/-- The table without a key. -/
def erase (t : Table) (key : String) : Table :=
  { t with entries := t.entries.filter (·.1 ≠ key) }

/-- The table with `f` applied to the table that a path leads to. Missing tables on the way are
made with the origin `fresh`. An array of tables is entered at its last element. A table in braces
is never entered, and a path by dotted keys enters open tables only. -/
def alter? (fresh : Origin) (f : Table → Option Table) : List String → Table → Option Table
  | [], t => f t
  | key :: path, t =>
    match t.get? key with
    | none => (alter? fresh f path ⟨fresh, []⟩).map fun sub => t.set key sub.toValue
    | some (.table origin entries) =>
      if origin = .braces || (fresh = .dotted && !origin.isOpen) then none
      else (alter? fresh f path ⟨origin, entries⟩).map fun sub => t.set key sub.toValue
    | some (.tables elements) =>
      match elements.getLast? with
      | some (.table origin entries) =>
        (alter? fresh f path ⟨origin, entries⟩).map fun sub =>
          t.set key (.tables (elements.dropLast ++ [sub.toValue]))
      | _ => none
    | some _ => none

/-- The table with a value at a dotted key: the keys before the last lead to tables that dotted
keys made, unless there are none. -/
def define? (t : Table) (path : List String) (key : String) (v : Value) : Option Table :=
  t.alter? .dotted (fun sub =>
    if path = [] || sub.origin = .dotted then sub.add? key v else none) path

end Table

namespace Value

/-- The text of a string. -/
def string? : Value → Option String
  | string s => some s
  | _ => none

/-- The truth value. -/
def boolean? : Value → Option Bool
  | boolean b => some b
  | _ => none

/-- The elements of an array of any kind. -/
def elements? : Value → Option (List Value)
  | array vs => some vs
  | tables vs => some vs
  | _ => none

/-- The strings of an array of strings. -/
def strings? (v : Value) : Option (List String) :=
  v.elements?.bind fun vs => vs.mapM string?

/-- The fields of a record: those of a table by their names, or those of an array by their places.
A date has none of them. -/
def fields? (names : List String) : Value → Option (Fields Value)
  | table _ entries => some entries
  | array vs => some (names.zip vs)
  | tables vs => some (names.zip vs)
  | dateTime _ => some []
  | _ => none

end Value

end DepLock.Toml
