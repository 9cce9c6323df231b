import DepLock.Fields

/-!
# Values of a JSON document

A string may name code units that make no character. It is then a string without a text, which only
matters to those who read it. Numbers are never read and have no value.
-/

namespace DepLock.Json

/-- A JSON value. -/
inductive Value where
  | null
  | boolean (b : Bool)
  | number
  | string (text : Option String)
  | array (elements : List Value)
  | object (members : List (Option String × Value))
  deriving Inhabited

namespace Value

/-- The text of a string. -/
def string? : Value → Option String
  | string text => text
  | _ => none

/-- The elements of an array. -/
def elements? : Value → Option (List Value)
  | array vs => some vs
  | _ => none

/-- The fields of a record: those of an object by their names, or those of an array by their
places, where there must not be more than names. -/
def fields? (names : List String) : Value → Option (Fields Value)
  | object members => do
    let fields ← members.mapM fun (key, v) => key.map (·, v)
    Fields.unambiguous? names fields
  | array vs => if vs.length ≤ names.length then some (names.zip vs) else none
  | _ => none

end Value
end DepLock.Json
