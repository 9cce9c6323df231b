import DepLock.Proofs.Digest.InputStream
import DepLock.Proofs.Order.SortedList
import Mathlib.Data.List.Permutation

/-!
# What a stream tells of its steps

Sorted items count as the texts that they are in order (`InputStream.spread`). As long as no name
and no text has a NUL in it, a stream determines its steps up to that, and up to texts that are
written like a heading: the text `-a-` and the heading of section `a` are `Alike`
(`InputStream.stream_eq_iff_alike`). So the stream is unambiguous where no text is written like a
heading, and a text that is may be moved into the section that it looks like.
-/

namespace DepLock.InputStream

variable {steps steps' : List Step}

/-! ### Steps that are written alike -/

/-- How the heading of a section is written. -/
def marked (name : String) : String := "-" ++ name ++ "-"

theorem marked_inj {name name' : String} :
  marked name = marked name' ↔ name = name'
  := by
  rw [marked, marked, String.append_left_inj, String.append_right_inj]

/-- Whether two steps are the same, or one is a text that is written like the heading of the
other. -/
inductive Alike : Step → Step → Prop where
  | same (step : Step) : Alike step step
  | heading (name : String) : Alike (.heading name) (.text (marked name))
  | text (name : String) : Alike (.text (marked name)) (.heading name)

/-- The steps that sorted items stand for, each of which contributes one text. -/
def Step.spread : Step → List Step
  | heading name => [heading name]
  | text s => [text s]
  | sorted items => (sortDedup items).map text

/-- The steps with the sorted items as texts in order. -/
def spread (steps : List Step) : List Step := steps.flatMap Step.spread

/-- Whether a step contributes one text. -/
def Step.IsSingle : Step → Prop
  | sorted _ => False
  | _ => True

theorem isSingle_of_mem_spread {step : Step} (h : step ∈ spread steps) :
  step.IsSingle
  := by
  obtain ⟨step', -, hstep⟩ := List.mem_flatMap.mp h
  cases step' with
  | heading name =>
    obtain rfl := List.mem_singleton.mp hstep
    trivial
  | text s =>
    obtain rfl := List.mem_singleton.mp hstep
    trivial
  | sorted items =>
    obtain ⟨item, -, rfl⟩ := List.mem_map.mp hstep
    trivial

/-- Steps that contribute one text each are alike exactly if it is the same. -/
theorem alike_iff {step step' : Step} (h : step.IsSingle) (h' : step'.IsSingle) :
  Alike step step' ↔ step.tokens = step'.tokens
  := by
  constructor
  · intro halike
    cases halike with
    | same => rfl
    | heading name => rfl
    | text name => rfl
  · intro htokens
    cases step with
    | heading name =>
      cases step' with
      | heading name' =>
        obtain rfl := marked_inj.mp (List.singleton_inj.mp htokens)
        exact .same _
      | text s =>
        obtain rfl := List.singleton_inj.mp htokens
        exact .heading name
      | sorted items => cases h'
    | text s =>
      cases step' with
      | heading name =>
        obtain rfl := List.singleton_inj.mp htokens
        exact .text name
      | text s' =>
        obtain rfl := List.singleton_inj.mp htokens
        exact .same _
      | sorted items => cases h'
    | sorted items => cases h

theorem Step.tokens_spread (step : Step) :
  InputStream.tokens step.spread = step.tokens
  := by
  cases step with
  | heading name => rfl
  | text s => rfl
  | sorted items =>
    rw [InputStream.tokens, spread, List.flatMap_map, Step.tokens]
    exact List.flatMap_singleton' _

/-- Sorted items contribute the texts that they are in order. -/
theorem tokens_spread (steps : List Step) :
  tokens (spread steps) = tokens steps
  := by
  rw [tokens, spread, List.flatMap_assoc]
  exact List.flatMap_congr fun step _ => step.tokens_spread

theorem Step.IsSingle.exists_token {step : Step} (h : step.IsSingle) :
  ∃ t, step.tokens = [t]
  := by
  cases step with
  | heading name => exact ⟨_, rfl⟩
  | text s => exact ⟨_, rfl⟩
  | sorted items => cases h

/-- Steps that contribute one text each contribute the same texts exactly if they are alike, one by
one. -/
theorem tokens_eq_iff (h : ∀ step ∈ steps, step.IsSingle) (h' : ∀ step ∈ steps', step.IsSingle) :
  tokens steps = tokens steps' ↔ List.Forall₂ Alike steps steps'
  := by
  induction steps generalizing steps' with
  | nil =>
    cases steps' with
    | nil => simp
    | cons step' steps' =>
      obtain ⟨t, ht⟩ := (h' step' List.mem_cons_self).exists_token
      simp [tokens, ht]
  | cons step steps ih =>
    obtain ⟨hstep, hsteps⟩ := List.forall_mem_cons.mp h
    obtain ⟨t, ht⟩ := hstep.exists_token
    cases steps' with
    | nil => simp [tokens, ht]
    | cons step' steps' =>
      obtain ⟨hstep', hsteps'⟩ := List.forall_mem_cons.mp h'
      obtain ⟨t', ht'⟩ := hstep'.exists_token
      rw [List.forall₂_cons, alike_iff hstep hstep', ← ih hsteps hsteps']
      simp [tokens, ht, ht']

/-- Steps that are alike, one by one, are the same if no text of one side is written like a heading
of the other. -/
theorem eq_of_forall₂_alike (h : List.Forall₂ Alike steps steps')
    (hmarked : ∀ name, .heading name ∈ steps → .text (marked name) ∉ steps')
    (hmarked' : ∀ name, .heading name ∈ steps' → .text (marked name) ∉ steps) :
  steps = steps'
  := by
  induction h with
  | nil => rfl
  | @cons step step' steps steps' halike _ ih =>
    have hrest : steps = steps' := by
      apply ih
      · intro name hname htext
        exact hmarked name (List.mem_cons_of_mem _ hname) (List.mem_cons_of_mem _ htext)
      · intro name hname htext
        exact hmarked' name (List.mem_cons_of_mem _ hname) (List.mem_cons_of_mem _ htext)
    cases halike with
    | same => rw [hrest]
    | heading name => exact absurd List.mem_cons_self (hmarked name List.mem_cons_self)
    | text name => exact absurd List.mem_cons_self (hmarked' name List.mem_cons_self)

/-! ### Streams -/

/-- The name or the texts that a step is given. -/
def Step.texts : Step → List String
  | heading name => [name]
  | text s => [s]
  | sorted items => items

/-- Whether no name and no text of some steps has a NUL in it. -/
def IsClean (steps : List Step) : Prop :=
  ∀ step ∈ steps, ∀ t ∈ step.texts, nul ∉ t.toList

theorem IsClean.tokens (h : IsClean steps) :
  ∀ t ∈ tokens steps, nul ∉ t.toList
  := by
  intro t ht
  obtain ⟨step, hstep, ht⟩ := List.mem_flatMap.mp ht
  have hclean := h step hstep
  cases step with
  | heading name =>
    have hname : nul ∉ name.toList := hclean name List.mem_cons_self
    obtain rfl := List.mem_singleton.mp ht
    simp [nul] at hname ⊢
    exact hname
  | text s => exact hclean t ht
  | sorted items => exact hclean t (mem_sortDedup.mp ht)

/-- Streams without NULs in their names and texts are the same exactly if their steps are alike, one
by one, after sorted items are spread. So they tell the steps apart unless a text of one is written
like a heading of the other. -/
theorem stream_eq_iff_alike (h : IsClean steps) (h' : IsClean steps') :
  ((render steps).toUTF8 = (render steps').toUTF8
    ↔ List.Forall₂ Alike (spread steps) (spread steps'))
  ∧ ((∀ name, .heading name ∈ spread steps → .text (marked name) ∉ spread steps') →
    (∀ name, .heading name ∈ spread steps' → .text (marked name) ∉ spread steps) →
    spread steps ≠ spread steps' → (render steps).toUTF8 ≠ (render steps').toUTF8)
  := by
  have hiff : (render steps).toUTF8 = (render steps').toUTF8
      ↔ List.Forall₂ Alike (spread steps) (spread steps') := by
    rw [← tokens_eq_iff (fun _ => isSingle_of_mem_spread) (fun _ => isSingle_of_mem_spread),
      tokens_spread, tokens_spread, String.toUTF8, String.toUTF8, String.toByteArray_inj]
    exact ⟨tokens_eq_of_render_eq h.tokens h'.tokens, render_eq_of_tokens_eq⟩
  refine ⟨hiff, ?_⟩
  intro hmarked hmarked' hne hstream
  exact hne (eq_of_forall₂_alike (hiff.mp hstream) hmarked hmarked')

/-- A package that is listed as ignored and one that is listed as an import have different
streams. -/
theorem stream_eq_iff_alike_sample :
  IsClean [.heading "ignored", .sorted ["b", "a"], .heading "imports"] ∧
    IsClean [.heading "ignored", .sorted ["a"], .heading "imports", .text "b"] ∧
    (render [.heading "ignored", .sorted ["b", "a"], .heading "imports"]).toUTF8
      ≠ (render [.heading "ignored", .sorted ["a"], .heading "imports", .text "b"]).toUTF8
  := by
  have hfirst : IsClean [.heading "ignored", .sorted ["b", "a"], .heading "imports"] := by
    unfold IsClean
    decide
  have hsecond : IsClean [.heading "ignored", .sorted ["a"], .heading "imports", .text "b"] := by
    unfold IsClean
    decide
  refine ⟨hfirst, hsecond, ?_⟩
  have hspread : spread [.heading "ignored", .sorted ["b", "a"], .heading "imports"]
      = [.heading "ignored", .text "a", .text "b", .heading "imports"] := by cbv
  have hspread' : spread [.heading "ignored", .sorted ["a"], .heading "imports", .text "b"]
      = [.heading "ignored", .text "a", .heading "imports", .text "b"] := by cbv
  apply (stream_eq_iff_alike hfirst hsecond).2
  · rw [hspread, hspread']
    intro name hname
    obtain rfl | rfl : name = "ignored" ∨ name = "imports" := by simpa using hname
    · decide
    · decide
  · rw [hspread, hspread']
    intro name hname
    obtain rfl | rfl : name = "ignored" ∨ name = "imports" := by simpa using hname
    · decide
    · decide
  · rw [hspread, hspread']
    decide

/-- The text `-b-` has the same stream in the section `a`, before the section `b`, as in the section
`b`. -/
theorem stream_eq_of_marked :
  IsClean [.heading "a", .text "-b-", .heading "b"] ∧
    IsClean [.heading "a", .heading "b", .text "-b-"] ∧
    spread [.heading "a", .text "-b-", .heading "b"]
      ≠ spread [.heading "a", .heading "b", .text "-b-"] ∧
    (render [.heading "a", .text "-b-", .heading "b"]).toUTF8
      = (render [.heading "a", .heading "b", .text "-b-"]).toUTF8
  := by
  unfold IsClean
  refine ⟨by decide, by decide +kernel, by decide +kernel, ?_⟩
  have hrender : render [.heading "a", .text "-b-", .heading "b"]
      = render [.heading "a", .heading "b", .text "-b-"] := by decide
  rw [hrender]

end DepLock.InputStream
