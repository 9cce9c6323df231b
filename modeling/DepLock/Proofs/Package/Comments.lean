import DepLock.Package.Header
import DepLock.Proofs.ProjectRoot
import Mathlib.Data.List.Infix

/-!
# Comments in source texts

A source text is made of words and of fillers: blanks, line comments and block comments
(`SourceText.Piece`). Taking the block comments away leaves the other pieces as they are, apart from
what line comments say (`SourceText.dropBlockComments_render`). It takes line comments for text,
though, so one that opens a block comment must also close it, and must not begin with the star that
makes its second slash open one. This matters only where something that follows closes a comment.
-/

namespace DepLock

/-! ### Pairs of characters -/

namespace Text

variable {x y : Char}

/-- Where two characters stand side by side in a text that begins with a given character. -/
theorem pair_infix_cons {c : Char} {cs : List Char} :
  [x, y] <:+: c :: cs ↔ (c = x ∧ cs.head? = some y) ∨ [x, y] <:+: cs
  := by
  rw [List.infix_cons_iff, List.cons_prefix_cons]
  cases cs with
  | nil => simp
  | cons d cs => simp [eq_comm]

/-- Where two characters stand side by side in a text that is put together. -/
theorem pair_infix_append {cs ds : List Char} :
  [x, y] <:+: cs ++ ds ↔
    [x, y] <:+: cs ∨ [x, y] <:+: ds ∨ (cs.getLast? = some x ∧ ds.head? = some y)
  := by
  induction cs with
  | nil => simp
  | cons c cs ih =>
    rw [List.cons_append, pair_infix_cons, pair_infix_cons, ih]
    cases cs with
    | nil => simp [or_comm]
    | cons d cs => simp [List.getLast?_cons_cons, or_assoc]

/-- A text is cut where two characters first stand side by side. -/
theorem cutAt?_cons {c : Char} {cs : List Char} :
  cutAt? [x, y] (c :: cs) =
    if c = x ∧ cs.head? = some y then some ([], cs.tail)
    else (cutAt? [x, y] cs).map fun cut => (c :: cut.1, cut.2)
  := by
  cases cs with
  | nil => by_cases hc : c = x <;> simp [cutAt?, List.isPrefixOf?, hc]
  | cons d cs =>
    rw [cutAt?]
    by_cases hc : x = c
    · by_cases hd : y = d
      · simp [List.isPrefixOf?, hc, hd]
      · simp [List.isPrefixOf?, hc, hd, Ne.symm hd]
    · simp [List.isPrefixOf?, hc, Ne.symm hc]

/-- What has two characters nowhere side by side is passed when a text is cut there. -/
theorem cutAt?_append {cs ds : List Char} (h : ¬ [x, y] <:+: cs)
    (hlast : cs.getLast? = some x → ds.head? ≠ some y) :
  cutAt? [x, y] (cs ++ ds) = (cutAt? [x, y] ds).map fun cut => (cs ++ cut.1, cut.2)
  := by
  induction cs with
  | nil => simp
  | cons c cs ih =>
    rw [pair_infix_cons, not_or] at h
    have hhead : ¬ (c = x ∧ (cs ++ ds).head? = some y) := by
      rintro ⟨rfl, hy⟩
      cases cs with
      | nil => exact hlast rfl hy
      | cons d cs => exact h.1 ⟨rfl, hy⟩
    have hlast' : cs.getLast? = some x → ds.head? ≠ some y := by
      intro hx
      apply hlast
      rw [List.getLast?_cons, hx]
      rfl
    rw [List.cons_append, cutAt?_cons, if_neg hhead, ih h.2 hlast', Option.map_map]
    rfl

/-- A text that has two characters nowhere side by side is not cut. -/
theorem cutAt?_eq_none {cs : List Char} (h : ¬ [x, y] <:+: cs) :
  cutAt? [x, y] cs = none
  := by
  have hcut : cutAt? [x, y] (cs ++ []) = _ := cutAt?_append h (fun _ => nofun)
  rwa [List.append_nil] at hcut

end Text

/-! ### Block comments -/

namespace SourceHeader

/-- Where there is no block comment, the first character stays. -/
theorem dropBlockComments_of_none {c : Char} {cs : List Char}
    (h : dropBlockComments.commentLength? (c :: cs) = none) :
  dropBlockComments 0 (c :: cs) = c :: dropBlockComments 0 cs
  := by
  rw [dropBlockComments, h]

/-- A block comment is skipped from its second character on. -/
theorem dropBlockComments_of_some {c : Char} {cs : List Char} {n : Nat}
    (h : dropBlockComments.commentLength? (c :: cs) = some n) :
  dropBlockComments 0 (c :: cs) = dropBlockComments (n - 1) cs
  := by
  rw [dropBlockComments, h]

/-- A character that does not open a block comment stays. -/
theorem dropBlockComments_cons {c : Char} {cs : List Char}
    (h : ¬ (c = '/' ∧ cs.head? = some '*')) :
  dropBlockComments 0 (c :: cs) = c :: dropBlockComments 0 cs
  := by
  apply dropBlockComments_of_none
  unfold dropBlockComments.commentLength?
  split
  next ds heq =>
    obtain ⟨rfl, rfl⟩ := List.cons.inj heq
    exact absurd ⟨rfl, rfl⟩ h
  next => rfl

/-- A text that opens no block comment stays. -/
theorem dropBlockComments_append {cs ds : List Char} (h : ¬ ['/', '*'] <:+: cs)
    (hlast : cs.getLast? = some '/' → ds.head? ≠ some '*') :
  dropBlockComments 0 (cs ++ ds) = cs ++ dropBlockComments 0 ds
  := by
  induction cs with
  | nil => rfl
  | cons c cs ih =>
    rw [Text.pair_infix_cons, not_or] at h
    have hhead : ¬ (c = '/' ∧ (cs ++ ds).head? = some '*') := by
      rintro ⟨rfl, hstar⟩
      cases cs with
      | nil => exact hlast rfl hstar
      | cons d cs => exact h.1 ⟨rfl, hstar⟩
    have hlast' : cs.getLast? = some '/' → ds.head? ≠ some '*' := by
      intro hslash
      apply hlast
      rw [List.getLast?_cons, hslash]
      rfl
    rw [List.cons_append, dropBlockComments_cons hhead, ih h.2 hlast', List.cons_append]

theorem dropBlockComments_skip (cs ds : List Char) :
  dropBlockComments cs.length (cs ++ ds) = dropBlockComments 0 ds
  := by
  induction cs with
  | nil => rfl
  | cons c cs ih => exact ih

/-- A block comment goes. -/
theorem dropBlockComments_comment {inside : List Char} (h : ¬ ['*', '/'] <:+: inside)
    (ds : List Char) :
  dropBlockComments 0 ('/' :: '*' :: (inside ++ '*' :: '/' :: ds)) = dropBlockComments 0 ds
  := by
  have hcut : Text.cutAt? ['*', '/'] (inside ++ '*' :: '/' :: ds) = some (inside, ds) := by
    rw [Text.cutAt?_append h (fun _ => by simp), Text.cutAt?_cons, if_pos ⟨rfl, rfl⟩]
    simp
  have hlength : dropBlockComments.commentLength? ('/' :: '*' :: (inside ++ '*' :: '/' :: ds))
      = some (inside.length + 4) := by
    rw [dropBlockComments.commentLength?, hcut]
    rfl
  rw [dropBlockComments_of_some hlength]
  have hskip := dropBlockComments_skip ('*' :: (inside ++ ['*', '/'])) ds
  simpa using hskip

/-- Where nothing closes a block comment, nothing goes. -/
theorem dropBlockComments_eq_self {cs : List Char} (h : ¬ ['*', '/'] <:+: cs) :
  dropBlockComments 0 cs = cs
  := by
  induction cs with
  | nil => rfl
  | cons c cs ih =>
    rw [Text.pair_infix_cons, not_or] at h
    have hnone : dropBlockComments.commentLength? (c :: cs) = none := by
      unfold dropBlockComments.commentLength?
      split
      next ds heq =>
        obtain ⟨-, rfl⟩ := List.cons.inj heq
        rw [Text.pair_infix_cons, not_or] at h
        rw [Text.cutAt?_eq_none h.2.2]
        rfl
      next => rfl
    rw [dropBlockComments_of_none hnone, ih h.2]

/-- Taking block comments away adds nothing. -/
theorem mem_of_mem_dropBlockComments {skip : Nat} {c : Char} {cs : List Char}
    (h : c ∈ dropBlockComments skip cs) :
  c ∈ cs
  := by
  induction cs generalizing skip with
  | nil => exact h
  | cons d cs ih =>
    cases skip with
    | succ skip => exact List.mem_cons_of_mem d (ih h)
    | zero =>
      cases hlength : dropBlockComments.commentLength? (d :: cs) with
      | some n =>
        rw [dropBlockComments_of_some hlength] at h
        exact List.mem_cons_of_mem d (ih h)
      | none =>
        rw [dropBlockComments_of_none hlength] at h
        rcases List.mem_cons.1 h with rfl | h
        · exact List.mem_cons_self
        · exact List.mem_cons_of_mem d (ih h)

end SourceHeader

namespace SourceText

open SourceHeader

/-- The white space of source texts. -/
def spaces : List Char := [' ', '\t', '\r', '\n']

/-- What may stand between two words of a source text. A line comment ends with its line, and a block
comment where it is first closed. -/
inductive Filler where
  | blank (c : Char) (h : c ∈ spaces := by decide)
  | lineComment (text : List Char) (h : '\n' ∉ text := by decide)
  | blockComment (text : List Char) (h : ¬ ['*', '/'] <:+: text := by decide)

/-- A word is on one line, and no part of a comment. It ends neither with a slash, which could open
one, nor with a carriage return, which could belong to the end of the line. -/
structure IsWord (w : List Char) : Prop where
  feed : '\n' ∉ w
  lineComment : ¬ ['/', '/'] <:+: w
  blockComment : ¬ ['/', '*'] <:+: w
  last : ∀ c ∈ w.getLast?, c ≠ '/' ∧ c ≠ '\r'

/-- What a source text is made of. -/
inductive Piece where
  | filler (f : Filler)
  | word (w : List Char) (h : IsWord w)

namespace Filler

/-- The text of a filler. -/
def render : Filler → List Char
  | blank c _ => [c]
  | lineComment text _ => '/' :: '/' :: (text ++ ['\n'])
  | blockComment text _ => '/' :: '*' :: (text ++ ['*', '/'])

/-- What is left of a filler without block comments. -/
def stripped : Filler → List Char
  | blank c _ => [c]
  | lineComment text _ => '/' :: '/' :: (dropBlockComments 0 text ++ ['\n'])
  | blockComment _ _ => []

end Filler

namespace Piece

/-- The text of a piece. -/
def render : Piece → List Char
  | filler f => f.render
  | word w _ => w

/-- What is left of a piece without block comments. -/
def stripped : Piece → List Char
  | filler f => f.stripped
  | word w _ => w

end Piece

/-- The text of pieces. -/
def render (pieces : List Piece) : List Char := pieces.flatMap Piece.render

/-- What is left of pieces without block comments. -/
def stripped (pieces : List Piece) : List Char := pieces.flatMap Piece.stripped

/-! ### Line comments -/

/-- Texts in which each block comment that is opened is closed. -/
inductive Closed : List Char → Prop where
  | plain {text : List Char} (h : ¬ ['/', '*'] <:+: text) : Closed text
  | comment {before inside after : List Char} (hbefore : ¬ ['/', '*'] <:+: before)
      (hinside : ¬ ['*', '/'] <:+: inside) (hafter : Closed after) :
    Closed (before ++ '/' :: '*' :: (inside ++ '*' :: '/' :: after))

/-- A text that closes its block comments is followed by a line as it would be by itself. -/
theorem dropBlockComments_closed {text : List Char} (h : Closed text) (ds : List Char) :
  dropBlockComments 0 (text ++ '\n' :: ds)
    = dropBlockComments 0 text ++ '\n' :: dropBlockComments 0 ds
  := by
  have hfeed : dropBlockComments 0 ('\n' :: ds)
      = '\n' :: dropBlockComments 0 ds :=
    dropBlockComments_cons (by simp)
  induction h with
  | @plain text h =>
    have hself : dropBlockComments 0 (text ++ []) = _ :=
      dropBlockComments_append h (fun _ => nofun)
    rw [List.append_nil] at hself
    rw [dropBlockComments_append h (fun _ => by simp), hfeed, hself]
    simp [dropBlockComments]
  | @comment before inside after hbefore hinside _ ih =>
    have hdrop (ds : List Char) :
        dropBlockComments 0 (before ++ '/' :: '*' :: (inside ++ '*' :: '/' :: ds))
          = before ++ dropBlockComments 0 ds := by
      rw [dropBlockComments_append hbefore (fun _ => by simp), dropBlockComments_comment hinside]
    have hassoc :
        before ++ '/' :: '*' :: (inside ++ '*' :: '/' :: after) ++ '\n' :: ds
          = before ++ '/' :: '*' :: (inside ++ '*' :: '/' :: (after ++ '\n' :: ds)) := by
      simp
    rw [hassoc, hdrop, hdrop, ih, List.append_assoc]

/-- A line comment that leaves block comments alone. -/
structure Harmless (text : List Char) : Prop where
  head : text.head? ≠ some '*'
  closed : Closed text

/-- Line comments are harmless, except where nothing closes a block comment up to the end, which is
`tail`. -/
def Unharmed (tail : List Char) : List Piece → Prop
  | [] => True
  | .filler (.lineComment text _) :: pieces =>
    (Harmless text ∨ ¬ ['*', '/'] <:+: text ++ '\n' :: (render pieces ++ tail)) ∧
      Unharmed tail pieces
  | _ :: pieces => Unharmed tail pieces

variable {pieces : List Piece} {tail : List Char}

theorem render_cons (piece : Piece) (pieces : List Piece) :
  render (piece :: pieces) = piece.render ++ render pieces
  := rfl

theorem stripped_cons (piece : Piece) (pieces : List Piece) :
  stripped (piece :: pieces) = piece.stripped ++ stripped pieces
  := rfl

/-- Without a pair of characters that closes block comments, pieces stay as they are. -/
theorem stripped_eq_render (h : ¬ ['*', '/'] <:+: render pieces) :
  stripped pieces = render pieces
  := by
  induction pieces with
  | nil => rfl
  | cons piece pieces ih =>
    rw [render_cons, Text.pair_infix_append, not_or, not_or] at h
    rw [stripped_cons, render_cons, ih h.2.1]
    congr 1
    obtain ⟨_ | ⟨text⟩ | ⟨text⟩⟩ | _ := piece
    case word | filler.blank => rfl
    case filler.lineComment =>
      have htext : ¬ ['*', '/'] <:+: text :=
        fun hclose => h.1 (hclose.trans ⟨['/', '/'], ['\n'], rfl⟩)
      rw [Piece.stripped, Filler.stripped, dropBlockComments_eq_self htext]
      rfl
    case filler.blockComment =>
      exact absurd ⟨'/' :: '*' :: text, [], by simp [Piece.render, Filler.render]⟩ h.1

/-- Where nothing closes a block comment, none goes. -/
theorem dropBlockComments_render_of_unclosed (h : ¬ ['*', '/'] <:+: render pieces ++ tail) :
  dropBlockComments 0 (render pieces ++ tail) = stripped pieces ++ dropBlockComments 0 tail
  := by
  rw [dropBlockComments_eq_self h]
  rw [Text.pair_infix_append, not_or, not_or] at h
  rw [stripped_eq_render h.1, dropBlockComments_eq_self h.2.1]

/-- Taking block comments away takes them away from each piece. -/
theorem dropBlockComments_render (h : Unharmed tail pieces) :
  dropBlockComments 0 (render pieces ++ tail) = stripped pieces ++ dropBlockComments 0 tail
  := by
  induction pieces with
  | nil => rfl
  | cons piece pieces ih =>
    obtain ⟨⟨c, hc⟩ | ⟨text, _⟩ | ⟨text, htext⟩⟩ | ⟨w, hw⟩ := piece
    case filler.blank =>
      have hslash : c ≠ '/' := ne_of_mem_of_not_mem hc (by decide)
      rw [render_cons, stripped_cons, List.append_assoc, List.append_assoc, ← ih h]
      exact dropBlockComments_cons fun hopen => hslash hopen.1
    case filler.lineComment hfeed =>
      have hrender : render (.filler (.lineComment text hfeed) :: pieces) ++ tail
          = '/' :: '/' :: (text ++ '\n' :: (render pieces ++ tail)) := by
        simp [render_cons, Piece.render, Filler.render]
      rcases h with ⟨hharmless | hunclosed, h⟩
      · have hslashes : dropBlockComments 0 ('/' :: '/' :: (text ++ '\n' :: (render pieces ++ tail)))
            = '/' :: '/' :: dropBlockComments 0 (text ++ '\n' :: (render pieces ++ tail)) := by
          rw [dropBlockComments_cons (by simp), dropBlockComments_cons]
          rintro ⟨-, hstar⟩
          apply hharmless.head
          cases text with
          | nil => simp at hstar
          | cons d text => exact hstar
        rw [hrender, hslashes, dropBlockComments_closed hharmless.closed, ih h]
        simp [stripped_cons, Piece.stripped, Filler.stripped]
      · apply dropBlockComments_render_of_unclosed
        rw [hrender, Text.pair_infix_cons, Text.pair_infix_cons]
        simp [hunclosed]
    case filler.blockComment =>
      have hcomment := dropBlockComments_comment htext (render pieces ++ tail)
      rw [ih h] at hcomment
      simpa [render_cons, stripped_cons, Piece.render, Piece.stripped, Filler.render,
        Filler.stripped] using hcomment
    case word =>
      rw [render_cons, stripped_cons, List.append_assoc, List.append_assoc, ← ih h]
      apply dropBlockComments_append hw.blockComment
      intro hlast
      exact absurd rfl (hw.last _ hlast).1

end SourceText
end DepLock
