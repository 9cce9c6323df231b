/-!
# Blank characters

`isBlank` is the Unicode property White_Space, and `trim` removes such characters from both
ends of a text. `words` are the maximal runs of other characters.
-/

namespace DepLock.Text

/-- The characters with the Unicode property White_Space: the controls from tab to carriage
return, the space, and the separators outside ASCII. -/
def isBlank (c : Char) : Bool :=
  let n := c.toNat
  (0x09 ≤ n && n ≤ 0x0d) || n = 0x20 || n = 0x85 || n = 0xa0 || n = 0x1680
    || (0x2000 ≤ n && n ≤ 0x200a) || n = 0x2028 || n = 0x2029 || n = 0x202f || n = 0x205f
    || n = 0x3000

theorem isBlank_of_isWhitespace (c : Char) (h : c.isWhitespace) :
  isBlank c
  := by
  simp only [Char.isWhitespace, Bool.or_eq_true, decide_eq_true_eq] at h
  rcases h with ((h | h) | h) | h <;> subst h <;> decide

/-- Drops the longest tail whose characters all satisfy `p`. -/
def dropEndWhile (p : Char → Bool) (cs : List Char) : List Char :=
  (cs.reverse.dropWhile p).reverse

/-- The characters of a text between its leading and its trailing blanks. -/
def trimChars (cs : List Char) : List Char :=
  dropEndWhile isBlank (cs.dropWhile isBlank)

/-- A text without its leading and trailing blanks. -/
def trim (s : String) : String :=
  String.ofList (trimChars s.toList)

/-- A text without its leading blanks. -/
def trimStart (s : String) : String :=
  String.ofList (s.toList.dropWhile isBlank)

/-- A text without its trailing blanks. -/
def trimEnd (s : String) : String :=
  String.ofList (dropEndWhile isBlank s.toList)

/-- The maximal blank-free runs of a text. -/
def words (s : String) : List String :=
  ((s.toList.splitOnP isBlank).filter (· ≠ [])).map String.ofList

end DepLock.Text
