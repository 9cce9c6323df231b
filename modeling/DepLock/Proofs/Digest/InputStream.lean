import DepLock.Digest.InputStream
import Mathlib.Data.List.TakeDrop

/-!
# Taking a stream apart

A stream is a list of tokens, each followed by NUL. As long as no token has a NUL in it, the tokens
can be read off the stream, so that different lists of tokens give different streams.
-/

namespace DepLock.InputStream

/-- The character that ends a token. -/
def nul : Char := '\x00'

/-- The texts that a step contributes. -/
def Step.tokens : Step → List String
  | heading name => ["-" ++ name ++ "-"]
  | text s => [s]
  | sorted items => sortDedup items

/-- The texts that some steps contribute. -/
def tokens (steps : List Step) : List String := steps.flatMap Step.tokens

theorem Step.toList_render (step : Step) :
  step.render.toList = step.tokens.flatMap (·.toList ++ [nul])
  := by
  cases step with
  | heading name => simp [render, tokens, terminator, nul]
  | text s => simp [render, tokens, terminator, nul]
  | sorted items =>
    simp [render, tokens, terminator, nul, String.toList_join, List.flatMap_map]

/-- A stream is its tokens, each followed by NUL. -/
theorem toList_render (steps : List Step) :
  (render steps).toList = (tokens steps).flatMap (·.toList ++ [nul])
  := by
  induction steps with
  | nil => rfl
  | cons step steps ih =>
    rw [render, String.toList_join] at ih ⊢
    rw [List.map_cons, List.flatMap_cons, ih, Step.toList_render, ← List.flatMap_append]
    rfl

/-- The tokens are what stands between the NULs. -/
theorem splitOn_nul {ts : List String} (hts : ∀ t ∈ ts, nul ∉ t.toList) :
  (ts.flatMap (·.toList ++ [nul])).splitOn nul = ts.map String.toList ++ [[]]
  := by
  induction ts with
  | nil => simp
  | cons t ts ih =>
    obtain ⟨ht, hts⟩ := List.forall_mem_cons.mp hts
    rw [List.flatMap_cons, List.append_assoc, List.singleton_append,
      List.splitOn_append_cons_self_of_not_mem ht, ih hts, List.map_cons, List.cons_append]

/-- Streams without NULs in their tokens are the same only if the tokens are. -/
theorem tokens_eq_of_render_eq {steps steps' : List Step}
    (hsteps : ∀ t ∈ tokens steps, nul ∉ t.toList) (hsteps' : ∀ t ∈ tokens steps', nul ∉ t.toList)
    (h : render steps = render steps') :
  tokens steps = tokens steps'
  := by
  have hsplit := splitOn_nul hsteps
  rw [← toList_render, h, toList_render, splitOn_nul hsteps'] at hsplit
  have hmap := List.append_cancel_right hsplit
  exact ((List.map_inj_right fun _ _ => String.toList_inj.mp).mp hmap).symm

/-- A stream depends only on the tokens. -/
theorem render_eq_of_tokens_eq {steps steps' : List Step} (h : tokens steps = tokens steps') :
  render steps = render steps'
  := by
  rw [← String.toList_inj, toList_render, toList_render, h]

end DepLock.InputStream

namespace DepLock.Sha256

/-- The digest of a text of two blocks goes through the state between them. -/
theorem hexOfText_of_state {text hex : String} {s : State}
    (hblocks : (wordsOf (pad text.toUTF8.toList)).length / 16 = 2)
    (hfirst : compress initial ((wordsOf (pad text.toUTF8.toList)).take 16).toArray = s)
    (hsecond : (compress s
      (((wordsOf (pad text.toUTF8.toList)).drop 16).take 16).toArray).hex = hex) :
  hexOfText text = hex
  := by
  simp only [hexOfText, digest, hblocks, absorb, hfirst, hsecond]

end DepLock.Sha256
