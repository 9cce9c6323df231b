import DepLock.Toml.Parser
import DepLock.Toml.Printer

/-!
# The characters of a TOML document

A document is read character by character, and a printed one is put together from the texts of its
parts. `blocksChars` goes from the parts to the characters at once (`toList_renderBlocks`), so that
what is read from a document (`read_of_ofChars?`) can be computed without its text.
-/

namespace DepLock.Toml

/-- The root table of a document of some characters. One that starts with a byte order mark has none
here. -/
def ofChars? (cs : List Char) : Option Table :=
  if cs.head? = some '\uFEFF' then none else (lines? (cs.length + 1) {} cs).bind Draft.close?

/-- What is read from the characters of a document is read from the document. -/
theorem read_of_ofChars? {α : Type} {f : Table → Option α} {text : String} {cs : List Char} {r : α}
    (htext : text.toList = cs) (hread : (ofChars? cs).bind f = some r) :
  (parse? text).bind f = some r
  := by
  have hmark : cs.head? ≠ some '\uFEFF' := by
    intro hmark
    rw [ofChars?, if_pos hmark] at hread
    cases hread
  rw [← hread, parse?, htext, ofChars?, if_neg hmark]
  split
  next => exact absurd rfl hmark
  next => rfl

/-! ### What is printed -/

/-- The characters of a string with its quotes. -/
def stringChars (cs : List Char) : List Char :=
  let shape := StringShape.of cs
  let first := if shape.lineFeed then ['\n'] else []
  match Quoting.of shape with
  | .basic => ['"'] ++ escapeChars false 0 0 cs ++ ['"']
  | .literal => ['\x27'] ++ cs ++ ['\x27']
  | .basicLines => List.replicate 3 '"' ++ first ++ escapeChars true 2 0 cs ++ List.replicate 3 '"'
  | .literalLines => List.replicate 3 '\x27' ++ first ++ cs ++ List.replicate 3 '\x27'

theorem toList_renderString (s : String) :
  (renderString s).toList = stringChars s.toList
  := by
  have hfirst : ((if (StringShape.of s.toList).lineFeed then "\n" else "" : String)).toList
      = if (StringShape.of s.toList).lineFeed then ['\n'] else [] := by
    split <;> rfl
  unfold renderString stringChars
  cases hquoting : Quoting.of (StringShape.of s.toList) <;>
    simp only [hquoting, String.toList_append, String.toList_ofList, hfirst] <;> rfl

/-- The characters of an array of strings. -/
def stringsChars : List String → List Char
  | [] => ['[', ']']
  | [s] => ['['] ++ stringChars s.toList ++ [']']
  | ss =>
    ['['] ++ (ss.flatMap fun s => ['\n', ' ', ' ', ' ', ' '] ++ stringChars s.toList ++ [','])
      ++ ['\n', ']']

theorem toList_renderStrings (ss : List String) :
  (renderStrings ss).toList = stringsChars ss
  := by
  have hindent : "\n    ".toList = ['\n', ' ', ' ', ' ', ' '] := by rw [String.toList_ofList]
  rcases ss with _ | ⟨s, _ | ⟨s', ss⟩⟩
  · rfl
  · simp only [renderStrings, String.toList_append, toList_renderString]
    rfl
  · simp only [renderStrings, String.toList_append, String.toList_join, List.flatMap_map,
      toList_renderString, hindent]
    rfl

/-- The characters of a field. -/
def Field.chars : Field → List Char
  | text s => stringChars s.toList
  | texts ss => stringsChars ss

theorem Field.toList_render (f : Field) :
  f.render.toList = f.chars
  := by
  cases f with
  | text s => apply toList_renderString
  | texts ss => apply toList_renderStrings

namespace Block

/-- The characters of assignments to keys. -/
def fieldsChars (fields : List (String × Field)) : List Char :=
  fields.flatMap fun (key, f) => key.toList ++ [' ', '=', ' '] ++ f.chars ++ ['\n']

theorem toList_renderFields (fields : List (String × Field)) :
  (renderFields fields).toList = fieldsChars fields
  := by
  simp only [renderFields, String.toList_join, List.flatMap_map, String.toList_append,
    Field.toList_render]
  rfl

/-- The characters of a block. -/
def chars (b : Block) : List Char :=
  match b.header with
  | none => fieldsChars b.fields
  | some h => ['[', '['] ++ h.toList ++ [']', ']', '\n'] ++ fieldsChars b.fields

theorem toList_render (b : Block) :
  b.render.toList = b.chars
  := by
  unfold render chars
  cases b.header with
  | none => apply toList_renderFields
  | some h =>
    simp only [String.toList_append, toList_renderFields]
    rfl

end Block

/-- The characters of a document of some blocks. -/
def blocksChars (bs : List Block) : List Char :=
  ['\n'].intercalate ((bs.map (·.chars)).filter (· ≠ []))

theorem toList_renderBlocks (bs : List Block) :
  (renderBlocks bs).toList = blocksChars bs
  := by
  have hempty (b : Block) : b.render = "" ↔ b.chars = [] := by
    rw [← String.toList_eq_nil_iff, Block.toList_render]
  simp only [renderBlocks, blocksChars, String.toList_intercalate, List.filter_map, List.map_map,
    Function.comp_def, Block.toList_render, ne_eq, hempty]
  rfl

end DepLock.Toml
