import DepLock.Files.Tree
import DepLock.Proofs.Order.SortedMap
import DepLock.Proofs.Text.Split

/-!
# Reading what is written

A file that is written is read back with its text. Writing it neither changes what is read from
another file of the directory nor keeps one from being written there. All of this rests on the walk
along a path: a walk that succeeds does so again when a file is put where there was no directory.
-/

namespace DepLock

namespace Path

theorem not_isAbsolute {name : String} (hname : '/' ∉ name.toList) :
  isAbsolute name = false
  := by
  rw [isAbsolute, Text.startsWith, Bool.eq_false_iff]
  intro hpre
  rw [List.isPrefixOf_iff_prefix] at hpre
  exact hname (hpre.subset (by simp))

/-- A name stands behind a slash in any path that it is joined to. -/
theorem exists_toList_join {base : String} (hbase : base ≠ "") :
  ∃ before, ∀ name : String, '/' ∉ name.toList →
    (join base name).toList = before ++ '/' :: name.toList
  := by
  by_cases hslash : Text.endsWith "/" base
  · obtain ⟨before, hbefore⟩ := List.isSuffixOf_iff_suffix.mp hslash
    use before
    intro name hname
    rw [join, not_isAbsolute hname, if_neg (by simpa using hbase), if_pos hslash,
      String.toList_append, ← hbefore]
    simp
  · use base.toList
    intro name hname
    rw [join, not_isAbsolute hname, if_neg (by simpa using hbase), if_neg hslash]
    simp

/-- A name without slashes is the last element of any path that it is joined to. -/
theorem exists_split_join (base : String) :
  ∃ es, ∀ name : String, '/' ∉ name.toList → Text.split '/' (join base name) = es ++ [name]
  := by
  by_cases hbase : base = ""
  · use []
    intro name hname
    simp [join, hbase, Text.split, List.splitOn_eq_singleton hname]
  · obtain ⟨before, hbefore⟩ := exists_toList_join hbase
    use (before.splitOn '/').map String.ofList
    intro name hname
    rw [Text.split, hbefore name hname, List.splitOn_append_cons_self,
      List.splitOn_eq_singleton hname]
    simp

end Path

namespace FileTree

variable {t t' : FileTree} {place next target : List String} {element path text : String}

theorem node?_insert (t : FileTree) (node : FileNode) (htarget : target ≠ []) :
  FileTree.node? ⟨t.nodes.insert target node⟩ place
    = if place = target then some node else t.node? place
  := by
  cases place with
  | nil => rw [if_neg htarget.symm]; rfl
  | cons e place => exact SortedMap.get?_insert _ _ _ _

/-- A step that succeeds does so again when a file is put where there was no directory. -/
theorem step_insert (node : FileNode) (htarget : target ≠ [])
    (hnode : t.node? target ≠ some .directory) (h : t.step place element = .ok next) :
  FileTree.step ⟨t.nodes.insert target node⟩ place element = .ok next
  := by
  have hsome {p : List String} (hp : (t.node? p).isSome) :
      (FileTree.node? ⟨t.nodes.insert target node⟩ p).isSome := by
    rw [node?_insert t node htarget]
    split
    · rfl
    · exact hp
  unfold step at h ⊢
  by_cases hplace : t.node? place = some .directory
  · have hne : place ≠ target := fun heq => hnode (heq ▸ hplace)
    have hplace' : FileTree.node? ⟨t.nodes.insert target node⟩ place = some .directory := by
      rw [node?_insert t node htarget, if_neg hne, hplace]
    simp only [hplace, hplace', ne_eq, not_true_eq_false, if_false] at h ⊢
    by_cases hstay : element = "" ∨ element = "."
    · rwa [if_pos hstay] at h ⊢
    · rw [if_neg hstay] at h ⊢
      by_cases hup : element = ".."
      · rwa [if_pos hup] at h ⊢
      · rw [if_neg hup] at h ⊢
        by_cases hnext : (t.node? (place ++ [element])).isSome
        · rw [if_pos hnext] at h
          rwa [if_pos (hsome hnext)]
        · rw [if_neg hnext] at h
          cases h
  · rw [if_pos hplace] at h
    cases h

/-- A walk that succeeds does so again when a file is put where there was no directory. -/
theorem walk_insert (node : FileNode) (htarget : target ≠ [])
    (hnode : t.node? target ≠ some .directory) {es : List String}
    (h : es.foldlM t.step place = .ok next) :
  es.foldlM (FileTree.step ⟨t.nodes.insert target node⟩) place = .ok next
  := by
  induction es generalizing place with
  | nil => exact h
  | cons e es ih =>
    rw [List.foldlM_cons] at h ⊢
    cases hstep : t.step place e with
    | error fault =>
      rw [hstep] at h
      cases h
    | ok middle =>
      rw [hstep] at h
      rw [step_insert node htarget hnode hstep]
      exact ih h

/-- What a write that succeeds does: it puts a file into a directory where there is none of its
name. -/
theorem exists_of_write (h : t.write path text = .ok t') :
  ∃ es name parent, Text.split '/' path = es ++ [name] ∧ name ∉ ["", ".", ".."]
    ∧ es.foldlM t.step [] = .ok parent ∧ t.node? parent = some .directory
    ∧ t.node? (parent ++ [name]) ≠ some .directory
    ∧ t' = ⟨t.nodes.insert (parent ++ [name]) (.file text.toUTF8)⟩
  := by
  cases hwalk : (Text.split '/' path).dropLast.foldlM t.step [] with
  | error fault =>
    simp only [write, hwalk, bind, Except.bind] at h
    cases h
  | ok parent =>
    simp only [write, hwalk, bind, Except.bind] at h
    split at h
    case h_5 name hempty hdot hdots hlast =>
      obtain ⟨es, hes⟩ := List.getLast?_eq_some_iff.mp hlast
      rw [hes, List.dropLast_concat] at hwalk
      have hname : name ∉ ["", ".", ".."] := by simp_all
      split at h
      · cases h
      · next hparent =>
        split at h
        · cases h
        · next htarget =>
          cases h
          exact ⟨es, name, parent, hes, hname, hwalk, not_not.mp hparent, htarget, rfl⟩
    all_goals cases h

/-- A file can be written into a directory in which its name is not taken by another one. -/
theorem write_of_walk {parent es : List String} {name : String}
    (hpath : Text.split '/' path = es ++ [name]) (hname : name ∉ ["", ".", ".."])
    (hwalk : es.foldlM t.step [] = .ok parent) (hparent : t.node? parent = some .directory)
    (htarget : t.node? (parent ++ [name]) ≠ some .directory) (text : String) :
  t.write path text = .ok ⟨t.nodes.insert (parent ++ [name]) (.file text.toUTF8)⟩
  := by
  simp only [write, hpath, List.dropLast_concat, hwalk, List.getLast?_concat, bind, Except.bind]
  split
  case h_5 last _ _ _ hlast =>
    cases hlast
    rw [if_neg (not_not.mpr hparent), if_neg htarget]
  all_goals simp_all

/-- A step stays, goes up, or goes to what has the name. -/
theorem eq_of_step (h : t.step place element = .ok next) :
  next = place ∨ next = place.dropLast ∨ next = place ++ [element]
  := by
  unfold step at h
  split at h
  · cases h
  · split at h
    · cases h
      exact .inl rfl
    · split at h
      · cases h
        exact .inr (.inl rfl)
      · simp only at h
        split at h
        · cases h
          exact .inr (.inr rfl)
        · cases h

/-- A name in a directory leads to what is there, if anything is. -/
theorem resolve_of_walk {parent es : List String} {name : String}
    (hpath : Text.split '/' path = es ++ [name]) (hname : name ∉ ["", ".", ".."])
    (hwalk : es.foldlM t.step [] = .ok parent) (hparent : t.node? parent = some .directory) :
  t.resolve path = if (t.node? (parent ++ [name])).isSome then .ok (parent ++ [name])
    else .error .notFound
  := by
  have hspecial : ¬ (name = "" ∨ name = ".") ∧ name ≠ ".." := by simp_all
  have hne : path ≠ "" := by
    rintro rfl
    have hsplit : Text.split '/' "" = [""] := by decide
    rw [hsplit] at hpath
    have happend : [] ++ [""] = es ++ [name] := hpath
    obtain ⟨-, hempty⟩ := List.append_inj' happend rfl
    exact hspecial.1 (.inl (List.cons.inj hempty).1.symm)
  rw [resolve, if_neg hne, hpath, List.foldlM_append, hwalk]
  change ([name].foldlM t.step parent) = _
  rw [List.foldlM_cons, step]
  simp only [hparent, hspecial, ne_eq, not_true_eq_false, if_false]
  split <;> rfl

/-- A path leads to something just if there is something of its last name in the directory. -/
theorem holds_of_walk {parent es : List String} {name : String}
    (hpath : Text.split '/' path = es ++ [name]) (hname : name ∉ ["", ".", ".."])
    (hwalk : es.foldlM t.step [] = .ok parent) (hparent : t.node? parent = some .directory) :
  t.holds path = (t.node? (parent ++ [name])).isSome
  := by
  rw [holds, lookup?, resolve_of_walk hpath hname hwalk hparent]
  split
  next hsome => rfl
  next hnone => rw [Bool.eq_false_of_not_eq_true hnone]; rfl

theorem walk_of_resolve (h : t.resolve path = .ok place) :
  path ≠ "" ∧ (Text.split '/' path).foldlM t.step [] = .ok place
  := by
  unfold resolve at h
  split at h
  · cases h
  · next hne => exact ⟨hne, h⟩

/-- The text of a file is read where the path leads to it. -/
theorem readText_of_node (hresolve : t.resolve path = .ok place)
    (hnode : t.node? place = some (.file text.toUTF8)) :
  t.readText path = .ok text
  := by
  have htext : String.fromUTF8? text.toUTF8 = some text := dif_pos text.isValidUTF8
  simp only [readText, hresolve, bind, Except.bind, hnode, htext]

/-- What is read is the text of a file. -/
theorem exists_of_readText (h : t.readText path = .ok text) :
  ∃ place bytes, t.resolve path = .ok place ∧ t.node? place = some (.file bytes)
    ∧ String.fromUTF8? bytes = some text
  := by
  cases hresolve : t.resolve path with
  | error fault =>
    simp only [readText, hresolve, bind, Except.bind] at h
    cases h
  | ok place =>
    simp only [readText, hresolve, bind, Except.bind] at h
    split at h
    case h_1 bytes hnode =>
      split at h
      case h_1 text' htext =>
        cases h
        exact ⟨place, bytes, rfl, hnode, htext⟩
      case h_2 => cases h
    all_goals cases h

/-- What is written to a file is read from it. -/
theorem readText_write (h : t.write path text = .ok t') :
  t'.readText path = .ok text
  := by
  obtain ⟨es, name, parent, hpath, hname, hwalk, hparent, htarget, rfl⟩ := exists_of_write h
  have hnil : parent ++ [name] ≠ [] := by simp
  have hne : parent ≠ parent ++ [name] := by simp
  have hfile : FileTree.node? ⟨t.nodes.insert (parent ++ [name]) (.file text.toUTF8)⟩
      (parent ++ [name]) = some (.file text.toUTF8) := by
    rw [node?_insert t _ hnil, if_pos rfl]
  have hdirectory : FileTree.node? ⟨t.nodes.insert (parent ++ [name]) (.file text.toUTF8)⟩ parent
      = some .directory := by
    rw [node?_insert t _ hnil, if_neg hne, hparent]
  have hresolve := resolve_of_walk hpath hname (walk_insert _ hnil htarget hwalk) hdirectory
  rw [hfile, Option.isSome_some, if_pos rfl] at hresolve
  exact readText_of_node hresolve hfile

/-- A file that is written to a directory is put where the other names in it lead to, too. -/
theorem exists_of_write_join {base name : String} (hname : '/' ∉ name.toList)
    (h : t.write (Path.join base name) text = .ok t') :
  ∃ es parent, (∀ name : String, '/' ∉ name.toList →
      Text.split '/' (Path.join base name) = es ++ [name])
    ∧ es.foldlM t.step [] = .ok parent ∧ t.node? parent = some .directory
    ∧ t.node? (parent ++ [name]) ≠ some .directory
    ∧ t' = ⟨t.nodes.insert (parent ++ [name]) (.file text.toUTF8)⟩
  := by
  obtain ⟨es, hes⟩ := Path.exists_split_join base
  obtain ⟨es', last, parent, hpath, -, hwalk, hparent, htarget, rfl⟩ := exists_of_write h
  rw [hes name hname] at hpath
  obtain ⟨rfl, hlast⟩ := List.append_inj' hpath rfl
  obtain rfl := (List.cons.inj hlast).1
  exact ⟨es, parent, hes, hwalk, hparent, htarget, rfl⟩

/-- Writing to a file does not change what is read from another one in the same directory. -/
theorem readText_write_of_ne {base name name' text' : String} (hne : name ≠ name')
    (hname : '/' ∉ name.toList) (hname' : '/' ∉ name'.toList)
    (h : t.write (Path.join base name') text' = .ok t')
    (hread : t.readText (Path.join base name) = .ok text) :
  t'.readText (Path.join base name) = .ok text
  := by
  obtain ⟨es, parent, hes, hwalk, -, htarget, rfl⟩ := exists_of_write_join hname' h
  have hnil : parent ++ [name'] ≠ [] := by simp
  obtain ⟨place, bytes, hresolve, hnode, htext⟩ := exists_of_readText hread
  obtain ⟨hempty, hplace⟩ := walk_of_resolve hresolve
  rw [hes name hname] at hplace
  have hother : place ≠ parent ++ [name'] := by
    have hstep : t.step parent name = .ok place := by
      rw [List.foldlM_append, hwalk] at hplace
      change [name].foldlM t.step parent = _ at hplace
      rw [List.foldlM_cons] at hplace
      exact (bind_pure _).symm.trans hplace
    have hlength (p : List String) (hp : p.length ≤ parent.length) : p ≠ parent ++ [name'] := by
      rintro rfl
      rw [List.length_append, List.length_singleton] at hp
      omega
    rcases eq_of_step hstep with rfl | rfl | rfl
    · exact hlength place le_rfl
    · exact hlength _ (by simp)
    · simpa using hne
  have hresolve' : FileTree.resolve ⟨t.nodes.insert (parent ++ [name']) (.file text'.toUTF8)⟩
      (Path.join base name) = .ok place := by
    rw [resolve, if_neg hempty, hes name hname]
    exact walk_insert _ hnil htarget hplace
  have hnode' : FileTree.node? ⟨t.nodes.insert (parent ++ [name']) (.file text'.toUTF8)⟩ place
      = some (.file bytes) := by
    rw [node?_insert t _ hnil, if_neg hother, hnode]
  simp only [readText, hresolve', bind, Except.bind, hnode', htext]

/-- A file can be written beside another one, if its name is not taken. -/
theorem exists_write_of_write {base name name' text' : String} (hne : name ≠ name')
    (hname : '/' ∉ name.toList) (hname' : '/' ∉ name'.toList) (hproper : name ∉ ["", ".", ".."])
    (hfree : t.holds (Path.join base name) = false)
    (h : t.write (Path.join base name') text' = .ok t') (text : String) :
  t'.holds (Path.join base name) = false ∧ ∃ t'', t'.write (Path.join base name) text = .ok t''
  := by
  obtain ⟨es, parent, hes, hwalk, hparent, htarget, rfl⟩ := exists_of_write_join hname' h
  have hnil : parent ++ [name'] ≠ [] := by simp
  have hself : parent ≠ parent ++ [name'] := by simp
  have hother : parent ++ [name] ≠ parent ++ [name'] := by simpa using hne
  have hwalk' := walk_insert (.file text'.toUTF8) hnil htarget hwalk
  have hparent' : FileTree.node? ⟨t.nodes.insert (parent ++ [name']) (.file text'.toUTF8)⟩ parent
      = some .directory := by
    rw [node?_insert t _ hnil, if_neg hself, hparent]
  have hnone : FileTree.node? ⟨t.nodes.insert (parent ++ [name']) (.file text'.toUTF8)⟩
      (parent ++ [name]) = none := by
    rw [holds_of_walk (hes name hname) hproper hwalk hparent] at hfree
    rw [node?_insert t _ hnil, if_neg hother]
    exact Option.isNone_iff_eq_none.mp (Option.isSome_eq_false_iff.mp hfree)
  constructor
  · rw [holds_of_walk (hes name hname) hproper hwalk' hparent', hnone]
    rfl
  · have hfile := write_of_walk (hes name hname) hproper hwalk' hparent' (by rw [hnone]; simp) text
    exact ⟨_, hfile⟩

/-- A path without detours stays one when a file is written. -/
theorem canonical_write {p q : String} (h : t.write path text = .ok t')
    (hp : t.canonical p = .ok q) :
  t'.canonical p = .ok q
  := by
  obtain ⟨es, name, parent, -, -, -, -, htarget, rfl⟩ := exists_of_write h
  cases hresolve : t.resolve p with
  | error fault =>
    rw [canonical, hresolve] at hp
    cases hp
  | ok place =>
    obtain ⟨hne, hwalk⟩ := walk_of_resolve hresolve
    have hresolve' : FileTree.resolve ⟨t.nodes.insert (parent ++ [name]) (.file text.toUTF8)⟩ p
        = .ok place := by
      rw [resolve, if_neg hne]
      exact walk_insert _ (by simp) htarget hwalk
    rw [canonical, hresolve] at hp
    rw [canonical, hresolve', hp]

/-- Where a text is read there is a file. -/
theorem isFile_of_readText (h : t.readText path = .ok text) :
  t.isFile path
  := by
  obtain ⟨place, bytes, hresolve, hnode, -⟩ := exists_of_readText h
  have hlookup : t.lookup? path = some (.file bytes) := by
    rw [lookup?, hresolve]
    exact hnode
  rw [isFile, hlookup]

/-- A file is there once it is written. -/
theorem holds_write (h : t.write path text = .ok t') :
  t'.holds path
  := by
  obtain ⟨place, bytes, hresolve, hnode, -⟩ := exists_of_readText (readText_write h)
  rw [holds, lookup?, hresolve]
  exact Option.isSome_iff_exists.mpr ⟨_, hnode⟩

end FileTree
end DepLock
