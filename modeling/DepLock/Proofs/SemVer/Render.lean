import DepLock.Proofs.SemVer.Wellformed

/-!
# Reading back what is written

The text of a well-formed range is read as the range itself (`Range.parseChars?_render`). Each part
of a comparator has a lemma that reads it off the front of a text, given that the rest does not go
on with it.
-/

namespace DepLock.SemVer

/-! ### Numbers -/

theorem isDigit_of_mem_toDigits {n : Nat} {c : Char} (hc : c ∈ Nat.toDigits 10 n) :
  isDigit c
  := Nat.isDigit_of_mem_toDigits (by decide) (by decide) hc

/-- A positive number has no leading zero. -/
theorem head?_toDigits_ne_zero {n : Nat} (hn : 0 < n) :
  (Nat.toDigits 10 n).head? ≠ some '0'
  := by
  induction n using Nat.strongRecOn with
  | ind n ih =>
    by_cases hlt : n < 10
    · have hdigit : ∀ m < 10, 0 < m → some (Nat.digitChar m) ≠ some '0' := by decide
      rw [Nat.toDigits_of_lt_base hlt, List.head?_cons]
      exact hdigit n hlt hn
    · have hpos : 0 < n / 10 := by omega
      have hrec := ih (n / 10) (by omega) hpos
      rw [Nat.toDigits_of_base_le (by decide) (by omega)]
      cases hd : Nat.toDigits 10 (n / 10) with
      | nil => exact absurd hd Nat.toDigits_ne_nil
      | cons d ds =>
        rw [hd] at hrec
        exact hrec

/-- The digits of a number are a digit, and more than one digit only behind one that is not
zero. -/
theorem exists_toDigits_eq_cons (n : Nat) :
  ∃ d ds, Nat.toDigits 10 n = d :: ds ∧ isDigit d ∧ (d = '0' → ds = [])
  := by
  cases hd : Nat.toDigits 10 n with
  | nil => exact absurd hd Nat.toDigits_ne_nil
  | cons d ds =>
    have hdigit : isDigit d :=
      isDigit_of_mem_toDigits (n := n) (by rw [hd]; exact List.mem_cons_self)
    refine ⟨d, ds, rfl, hdigit, ?_⟩
    rintro rfl
    rcases Nat.eq_zero_or_pos n with rfl | hpos
    · rw [Nat.toDigits_zero] at hd
      exact (List.cons.inj hd).2.symm
    · have hhead := head?_toDigits_ne_zero hpos
      rw [hd] at hhead
      exact absurd rfl hhead

/-- The digits of a number are read as the number. -/
theorem number?_toDigits {n : Nat} {rest : List Char} (hn : n < numberBound)
    (hrest : ∀ c ∈ rest.head?, isDigit c = false) :
  number? (Nat.toDigits 10 n ++ rest) = some (n, rest)
  := by
  have hvalue : digitsValue (Nat.toDigits 10 n) = n := Nat.ofDigitChars_ten_toDigits
  rw [number?, Text.span_append (fun c hc => isDigit_of_mem_toDigits hc) hrest]
  obtain ⟨d, ds, hds, -, hzero⟩ := exists_toDigits_eq_cons n
  simp only
  split
  · next hnil => exact absurd hnil Nat.toDigits_ne_nil
  · next d' ds' heq =>
    rw [hds] at heq
    obtain ⟨rfl, rfl⟩ := List.cons.inj heq
    cases hzero rfl
  · rw [hvalue, if_pos hn]

/-! ### Identifiers -/

theorem toList_renderIds (ids : List String) :
  (renderIds ids).toList = ['.'].intercalate (ids.map String.toList)
  := String.toList_intercalate

theorem isIdChar_of_mem_renderIds {ids : List String} (hids : ∀ id ∈ ids, IsPreId id) {c : Char}
    (hc : c ∈ (renderIds ids).toList) :
  (isIdChar c || c = '.') = true
  := by
  rw [toList_renderIds] at hc
  rcases Text.mem_of_mem_intercalate hc with hc | ⟨part, hpart, hc⟩
  · rw [List.mem_singleton] at hc
    simp [hc]
  · obtain ⟨id, hid, rfl⟩ := List.mem_map.mp hpart
    simp [(hids id hid).1 c hc]

/-- Identifiers are read back when the rest does not begin with a character of theirs. -/
theorem ids?_renderIds {ids : List String} {rest : List Char} (hne : ids ≠ [])
    (hids : ∀ id ∈ ids, IsPreId id)
    (hrest : ∀ c ∈ rest.head?, (isIdChar c || c = '.') = false) :
  ids? true ((renderIds ids).toList ++ rest) = some (ids, rest)
  := by
  have hsplit : (renderIds ids).toList.splitOn '.' = ids.map String.toList := by
    rw [toList_renderIds]
    apply List.splitOn_intercalate
    · rintro part hpart hdot
      obtain ⟨id, hid, rfl⟩ := List.mem_map.mp hpart
      exact absurd ((hids id hid).1 '.' hdot) (by decide)
    · simpa using hne
  have hall : (ids.map String.toList).all (isId true) := by
    rw [List.all_map, List.all_eq_true]
    intro id hid
    exact (hids id hid).2
  rw [ids?, Text.span_append (fun c hc => isIdChar_of_mem_renderIds hids hc) hrest]
  simp only [hsplit, hall, if_true, List.map_map]
  simp [Function.comp_def]

theorem idsAfter?_eq_nil {mark : Char} {strict : Bool} {cs : List Char}
    (hcs : cs.head? ≠ some mark) :
  idsAfter? mark strict cs = some ([], cs)
  := by
  unfold idsAfter?
  split
  · rfl
  · next c rest =>
    rw [if_neg]
    rintro rfl
    exact hcs rfl

/-! ### Comparators -/

/-- What a comparator has after its major number. -/
def Comparator.afterMajor (c : Comparator) : List Char :=
  let star := if c.op = .wildcard then ['.', '*'] else []
  match c.minor with
  | none => star
  | some minor =>
    '.' :: (Nat.toDigits 10 minor ++
      match c.patch with
      | none => star
      | some patch =>
        '.' :: (Nat.toDigits 10 patch
          ++ if c.pre.isEmpty then [] else '-' :: (renderIds c.pre).toList))

theorem Comparator.toList_render (c : Comparator) :
  c.render.toList = c.op.render.toList ++ (Nat.toDigits 10 c.major ++ c.afterMajor)
  := by
  obtain ⟨op, major, minor, patch, pre⟩ := c
  simp only [Comparator.render, Comparator.afterMajor, Nat.toString_eq_ofList_toDigits,
    String.toList_append, String.toList_ofList, List.append_assoc]
  cases minor with
  | none => by_cases h : op = .wildcard <;> simp [h]
  | some minor =>
    cases patch with
    | none => by_cases h : op = .wildcard <;> simp [h]
    | some patch => by_cases h : pre.isEmpty <;> simp [h]

/-- A rest that does not go on with a comparator. -/
def EndsComparator (rest : List Char) : Prop := ∀ c ∈ rest.head?, c = ','

theorem EndsComparator.head?_ne {rest : List Char} (h : EndsComparator rest) {c : Char}
    (hc : c ≠ ',') :
  rest.head? ≠ some c
  := fun heq => hc (h c heq)

theorem EndsComparator.head?_eq_false {rest : List Char} (h : EndsComparator rest)
    {p : Char → Bool} (hp : p ',' = false) :
  ∀ c ∈ rest.head?, p c = false
  := by
  intro c hc
  rw [h c hc, hp]

theorem ne_of_isDigit {c d : Char} (hd : isDigit d) (hc : isDigit c = false) :
  d ≠ c
  := by
  rintro rfl
  exact absurd hd (by simp [hc])

/-- An operator in front of a digit is read; a wildcard has none. -/
theorem operator_render (op : Operator) {d : Char} (hd : isDigit d) (cs : List Char) :
  operator (op.render.toList ++ d :: cs) = (if op = .wildcard then none else some op, d :: cs)
  := by
  have heq : d ≠ '=' := ne_of_isDigit hd (by decide)
  cases op with
  | greater | less => simp [Operator.render, operator, heq]
  | wildcard =>
    have hgreater : d ≠ '>' := ne_of_isDigit hd (by decide)
    have hless : d ≠ '<' := ne_of_isDigit hd (by decide)
    have htilde : d ≠ '~' := ne_of_isDigit hd (by decide)
    have hcaret : d ≠ '^' := ne_of_isDigit hd (by decide)
    simp [Operator.render, operator, heq, hgreater, hless, htilde, hcaret]
  | _ => rfl

theorem skipSpaces_of_head?_ne {cs : List Char} (h : cs.head? ≠ some ' ') :
  skipSpaces cs = cs
  := by
  cases cs with
  | nil => rfl
  | cons c cs =>
    have hc : c ≠ ' ' := fun heq => h (by rw [heq, List.head?_cons])
    simp [skipSpaces, hc]

theorem isWild_eq_false_of_isDigit {d : Char} (hd : isDigit d) :
  isWild d = false
  := by
  simp [isWild, ne_of_isDigit hd (show isDigit '*' = false by decide),
    ne_of_isDigit hd (show isDigit 'x' = false by decide),
    ne_of_isDigit hd (show isDigit 'X' = false by decide)]

theorem part?_number {n : Nat} {rest : List Char} (hn : n < numberBound)
    (hrest : ∀ c ∈ rest.head?, isDigit c = false) :
  part? ('.' :: (Nat.toDigits 10 n ++ rest)) = some (.number n, rest)
  := by
  have hnumber := number?_toDigits hn hrest
  obtain ⟨d, ds, hds, hdigit, -⟩ := exists_toDigits_eq_cons n
  rw [hds] at hnumber ⊢
  rw [List.cons_append] at hnumber ⊢
  rw [part?, isWild_eq_false_of_isDigit hdigit, if_neg Bool.false_ne_true, hnumber]
  rfl

theorem part?_absent {cs : List Char} (h : cs.head? ≠ some '.') :
  part? cs = some (.absent, cs)
  := by
  unfold part?
  split
  · exact absurd rfl h
  · exact absurd rfl h
  · rfl

/-- Where the parts end, a wildcard has a star and any other comparator has nothing. -/
theorem part?_star (op : Operator) {rest : List Char} (hrest : EndsComparator rest) :
  part? ((if op = .wildcard then ['.', '*'] else []) ++ rest)
    = some (if op = .wildcard then .wild else .absent, rest)
  := by
  split
  · rfl
  · exact part?_absent (hrest.head?_ne (by decide))

/-- A comparator is read from its operator and its numbers when no patch is written. -/
theorem comparator?_of_parts {cs afterOp afterMajor afterMinor rest : List Char}
    {op : Option Operator} {major : Nat} {minor patch : Part}
    (hop : operator cs = (op, afterOp))
    (hmajor : number? (skipSpaces afterOp) = some (major, afterMajor))
    (hminor : part? afterMajor = some (minor, afterMinor))
    (hpatch : part? afterMinor = some (patch, rest)) (hnone : patch.number? = none)
    (hrest : EndsComparator rest) :
  comparator? cs = some
    ({ op := op.getD (if minor = .wild || patch = .wild then .wildcard else .caret)
       major, minor := minor.number?, patch := none }, rest)
  := by
  have hskip : skipSpaces rest = rest := skipSpaces_of_head?_ne (hrest.head?_ne (by decide))
  simp [comparator?, hop, hmajor, hminor, hpatch, hnone, hskip]

/-- A comparator of three numbers is read together with its pre-release identifiers, and build
identifiers are passed over. -/
theorem comparator?_of_numbers
    {cs afterOp afterMajor afterMinor afterPatch afterPre rest : List Char}
    {op : Option Operator} {major minor patch : Nat} {pre build : List String}
    (hop : operator cs = (op, afterOp))
    (hmajor : number? (skipSpaces afterOp) = some (major, afterMajor))
    (hminor : part? afterMajor = some (.number minor, afterMinor))
    (hpatch : part? afterMinor = some (.number patch, afterPatch))
    (hpre : idsAfter? '-' true afterPatch = some (pre, afterPre))
    (hbuild : idsAfter? '+' false afterPre = some (build, rest)) :
  comparator? cs = some
    ({ op := op.getD .caret, major, minor := some minor, patch := some patch, pre },
      skipSpaces rest)
  := by
  simp [comparator?, Part.number?, hop, hmajor, hminor, hpatch, hpre, hbuild]

/-- Pre-release identifiers are read back behind their mark, or their absence without it. -/
theorem idsAfter?_render {pre : List String} {rest : List Char} (hpre : ∀ id ∈ pre, IsPreId id)
    (hrest : EndsComparator rest) :
  idsAfter? '-' true ((if pre.isEmpty then [] else '-' :: (renderIds pre).toList) ++ rest)
    = some (pre, rest)
  := by
  cases pre with
  | nil => exact idsAfter?_eq_nil (hrest.head?_ne (by decide))
  | cons id ids =>
    exact ids?_renderIds (List.cons_ne_nil id ids) hpre (hrest.head?_eq_false (by decide))

/-- What ends a comparator or follows a number in it is no digit. -/
theorem isDigit_head?_append {cs rest : List Char} (hcs : ∀ c ∈ cs.head?, isDigit c = false)
    (hrest : EndsComparator rest) :
  ∀ c ∈ (cs ++ rest).head?, isDigit c = false
  := by
  cases cs with
  | nil => exact hrest.head?_eq_false (by decide)
  | cons c cs => exact hcs

/-- The operator and the major number of a well-formed comparator are read. -/
theorem operator_number?_render {c : Comparator} {rest : List Char} (hc : c.Wellformed)
    (hafter : ∀ d ∈ c.afterMajor.head?, isDigit d = false) (hrest : EndsComparator rest) :
  ∃ afterOp,
    operator (c.render.toList ++ rest) = (if c.op = .wildcard then none else some c.op, afterOp)
      ∧ number? (skipSpaces afterOp) = some (c.major, c.afterMajor ++ rest)
  := by
  have hnumber := number?_toDigits hc.major (isDigit_head?_append hafter hrest)
  obtain ⟨d, ds, hds, hd, -⟩ := exists_toDigits_eq_cons c.major
  have hspace : d ≠ ' ' := ne_of_isDigit hd (by decide)
  rw [hds] at hnumber
  use d :: ds ++ (c.afterMajor ++ rest)
  constructor
  · rw [Comparator.toList_render, List.append_assoc, List.append_assoc, hds]
    exact operator_render c.op hd _
  · have hskip : skipSpaces (d :: ds ++ (c.afterMajor ++ rest)) =
        d :: ds ++ (c.afterMajor ++ rest) :=
      skipSpaces_of_head?_ne fun heq => hspace (Option.some.inj heq)
    rw [hskip, hnumber]

/-- A well-formed comparator is read back, and the rest is left when it does not go on with it. -/
theorem comparator?_render {c : Comparator} {rest : List Char} (hc : c.Wellformed)
    (hrest : EndsComparator rest) :
  comparator? (c.render.toList ++ rest) = some (c, rest)
  := by
  have hstar (op : Operator) :
      ∀ d ∈ (if op = .wildcard then ['.', '*'] else []).head?, isDigit d = false := by
    split <;> rintro d ⟨⟩
    decide
  have hdot (cs : List Char) : ∀ d ∈ ('.' :: cs).head?, isDigit d = false := by
    rintro d ⟨⟩
    decide
  have hnoDot : rest.head? ≠ some '.' := hrest.head?_ne (by decide)
  have hpatchOfPre := hc.patch_of_pre
  obtain ⟨op, major, minor, patch, pre⟩ := c
  cases patch with
  | none =>
    have hpre : pre = [] := by
      by_contra hne
      exact absurd (hpatchOfPre hne) Bool.false_ne_true
    subst hpre
    cases minor with
    | none =>
      obtain ⟨afterOp, hop, hmajor⟩ := operator_number?_render hc (hstar op) hrest
      rw [comparator?_of_parts hop hmajor (part?_star op hrest) (part?_absent hnoDot) rfl hrest]
      by_cases hw : op = .wildcard <;> simp [hw, Part.number?]
    | some minor =>
      obtain ⟨afterOp, hop, hmajor⟩ := operator_number?_render hc (hdot _) hrest
      have hminor := part?_number (hc.minor minor rfl) (isDigit_head?_append (hstar op) hrest)
      rw [← List.append_assoc] at hminor
      have hnone : (if op = .wildcard then Part.wild else .absent).number? = none := by
        split <;> rfl
      rw [comparator?_of_parts hop hmajor hminor (part?_star op hrest) hnone hrest]
      by_cases hw : op = .wildcard <;> simp [hw, Part.number?]
  | some patch =>
    cases minor with
    | none => exact absurd (hc.minor_of_patch rfl) Bool.false_ne_true
    | some minor =>
      have hw : op ≠ .wildcard := fun hw => Option.some_ne_none patch (hc.patch_of_wildcard hw)
      obtain ⟨afterOp, hop, hmajor⟩ := operator_number?_render hc (hdot _) hrest
      have hmark : ∀ d ∈ (if pre.isEmpty then [] else '-' :: (renderIds pre).toList).head?,
          isDigit d = false := by
        split <;> rintro d ⟨⟩
        decide
      have hpatch := part?_number (hc.patch patch rfl) (isDigit_head?_append hmark hrest)
      have hminor := part?_number (hc.minor minor rfl) (isDigit_head?_append (hdot
        (Nat.toDigits 10 patch ++ if pre.isEmpty then [] else '-' :: (renderIds pre).toList)) hrest)
      rw [← List.append_assoc] at hpatch hminor
      have hbuild : idsAfter? '+' false rest = some ([], rest) :=
        idsAfter?_eq_nil (hrest.head?_ne (by decide))
      rw [comparator?_of_numbers hop hmajor hminor hpatch (idsAfter?_render hc.pre hrest) hbuild,
        if_neg hw, Option.getD_some, skipSpaces_of_head?_ne (hrest.head?_ne (by decide))]

/-! ### Ranges -/

theorem Range.toList_render {r : Range} (h : r.comparators ≠ []) :
  r.render.toList = [',', ' '].intercalate (r.comparators.map (·.render.toList))
  := by
  rw [Range.render, if_neg (by simpa using h), String.toList_intercalate, List.map_map]
  rfl

/-- The text of a comparator begins with an operator or with a digit. -/
theorem Comparator.exists_render_eq_cons (c : Comparator) :
  ∃ d ds, c.render.toList = d :: ds ∧ (isDigit d ∨ d ∈ ['=', '>', '<', '~', '^'])
  := by
  rw [c.toList_render]
  cases c.op with
  | wildcard =>
    obtain ⟨d, ds, hds, hd, -⟩ := exists_toDigits_eq_cons c.major
    exact ⟨d, ds ++ c.afterMajor, by rw [hds]; rfl, .inl hd⟩
  | _ => exact ⟨_, _, rfl, .inr (by decide)⟩

/-- A list of comparators begins like the first of them. -/
theorem exists_intercalate_eq_cons (c : Comparator) (l : List Comparator) :
  ∃ d ds, [',', ' '].intercalate ((c :: l).map (·.render.toList)) = d :: ds
    ∧ (isDigit d ∨ d ∈ ['=', '>', '<', '~', '^'])
  := by
  obtain ⟨d, ds, hds, hd⟩ := c.exists_render_eq_cons
  rw [List.map_cons, hds]
  cases l with
  | nil => exact ⟨d, ds, List.intercalate_singleton, hd⟩
  | cons c' l => exact ⟨d, _, List.intercalate_cons_cons_left, hd⟩

theorem skipSpaces_intercalate (l : List Comparator) :
  skipSpaces ([',', ' '].intercalate (l.map (·.render.toList)))
    = [',', ' '].intercalate (l.map (·.render.toList))
  := by
  cases l with
  | nil => rfl
  | cons c l =>
    obtain ⟨d, ds, hds, hd⟩ := exists_intercalate_eq_cons c l
    apply skipSpaces_of_head?_ne
    rw [hds, List.head?_cons]
    rintro ⟨⟩
    revert hd
    decide

/-- Comparators that are separated by a comma and a space are read back. -/
theorem comparators?_render {n : Nat} {l : List Comparator} (hne : l ≠ []) (hlength : l.length ≤ n)
    (hl : ∀ c ∈ l, c.Wellformed) :
  comparators? n ([',', ' '].intercalate (l.map (·.render.toList))) = some l
  := by
  induction n generalizing l with
  | zero => exact absurd (List.length_eq_zero_iff.mp (Nat.le_zero.mp hlength)) hne
  | succ n ih =>
    cases l with
    | nil => exact absurd rfl hne
    | cons c l =>
      have hc := hl c List.mem_cons_self
      by_cases hnil : l = []
      · subst hnil
        have hread : comparator? (c.render.toList ++ []) = some (c, []) :=
          comparator?_render hc nofun
        rw [List.append_nil] at hread
        simp [comparators?, hread]
      · have hmap : l.map (·.render.toList) ≠ [] := by simpa using hnil
        have hread := ih hnil (Nat.le_of_succ_le_succ hlength)
          fun d hd => hl d (List.mem_cons_of_mem c hd)
        have hends (cs : List Char) : EndsComparator (',' :: cs) := by
          rintro d ⟨⟩
          rfl
        rw [List.map_cons, List.intercalate_cons_of_ne_nil hmap, List.append_assoc]
        simp only [comparators?, comparator?_render hc (hends _), List.cons_append,
          Option.bind_eq_bind, Option.bind_some, List.nil_append]
        rw [skipSpaces, List.dropWhile_cons_of_pos (by decide), ← skipSpaces,
          skipSpaces_intercalate, hread, Option.map_some]

/-- The text of a well-formed range is read as the range. -/
theorem Range.parseChars?_render {r : Range} (hr : r.Wellformed) :
  Range.parseChars? r.render.toList = some r
  := by
  by_cases hnil : r.comparators = []
  · obtain ⟨l⟩ := r
    cases hnil
    rfl
  · have hread := comparators?_render hnil hr.length_le hr.comparators
    obtain ⟨c, l, hcl⟩ := List.exists_cons_of_ne_nil hnil
    obtain ⟨d, ds, hds, hd⟩ := exists_intercalate_eq_cons c l
    have hwild : isWild d = false := by
      rcases hd with hd | hd
      · exact isWild_eq_false_of_isDigit hd
      · have hops : ∀ d ∈ ['=', '>', '<', '~', '^'], isWild d = false := by simp [isWild]
        exact hops d hd
    rw [Range.toList_render hnil, Range.parseChars?, skipSpaces_intercalate, hcl, hds]
    rw [hcl, hds] at hread
    simp [hwild, hread, ← hcl]

/-- Different well-formed ranges have different texts. -/
theorem Range.render_injective {r r' : Range} (hr : r.Wellformed) (hr' : r'.Wellformed)
    (h : r.render = r'.render) :
  r = r'
  := by
  have hread := Range.parseChars?_render hr
  rw [h, Range.parseChars?_render hr', Option.some.injEq] at hread
  exact hread.symm

end DepLock.SemVer
