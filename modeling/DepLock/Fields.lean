/-!
# Fields of a record

What a data file says of a record is a list of named values. Whoever reads the record knows its
names, and a name that is not there stands for a default.
-/

namespace DepLock

/-- Named values, in the order in which a file lists them. -/
abbrev Fields (α : Type) : Type := List (String × α)

namespace Fields

variable {α β : Type}

/-- A field that may be missing, read by `f`; there is no result if it is there and `f` fails. -/
def optional (fields : Fields α) (name : String) (f : α → Option β) : Option (Option β) :=
  match fields.lookup name with
  | none => some none
  | some v => (f v).map some

/-- A field that may be missing, with a default. -/
def getOr (fields : Fields α) (name : String) (default : β) (f : α → Option β) : Option β :=
  (fields.optional name f).map (·.getD default)

/-- The fields, unless one of the known names occurs twice. -/
def unambiguous? (names : List String) (fields : Fields α) : Option (Fields α) :=
  if names.all fun name => (fields.filter (·.1 = name)).length ≤ 1 then some fields else none

end Fields
end DepLock
