import DepLock.Proofs.Files.Tree
import DepLock.Proofs.Setup.Stages

/-!
# Setups that fail

A setup writes only at its end, the manifest first. So when it fails the files are as they were,
unless it was the lock that could not be written: then the manifest is there already, and nothing
takes it back (`Setup.HalfSaved`). Running the setup again does not help, since it refuses to
overwrite the manifest. It takes a write that fails for a reason that is not in the files, since a
directory that takes the manifest takes the lock as well.
-/

namespace DepLock

namespace Setup

variable {s : Setup} {files after : FileTree} {options : SetupOptions} {budget : Nat}
  {directory : String} {e : SetupError}

/-- Whether a write that succeeds does what writing a file does. One that fails may do so for any
reason. -/
def Writes (s : Setup) : Prop :=
  ∀ t t' path text, s.write t path text = .ok t' → t.write path text = .ok t'

/-- Whether the files are those in which a manifest was written to a directory and a lock then could
not be. -/
def HalfSaved (s : Setup) (files : FileTree) (directory : String) (e : SetupError)
    (after : FileTree) : Prop :=
  ∃ (m : Manifest) (l : Lock) (fault : FileFault),
    s.write files (Path.join directory Manifest.fileName) m.render = .ok after ∧
    s.write after (Path.join directory Lock.fileName) l.renderFile = .error fault ∧
    e = .unwritable .lock (Path.join directory Lock.fileName) fault

/-! ### What each stage leaves -/

/-- The directory is found, and there is neither a manifest nor a lock in it. -/
theorem free_of_directory (h : s.directory files options = .ok directory) :
  files.canonical (Path.join s.context.workingDirectory options.path) = .ok directory ∧
    files.holds (Path.join directory Manifest.fileName) = false ∧
    files.holds (Path.join directory Lock.fileName) = false
  := by
  unfold Setup.directory at h
  split at h
  next found hfound =>
    simp only [bind, Except.bind] at h
    split at h
    next => cases h
    next hnone =>
      cases h
      simp only [List.map_cons, List.map_nil, List.find?_eq_none, List.forall_mem_cons,
        Bool.not_eq_true] at hnone
      exact ⟨hfound, hnone.1, hnone.2.1⟩
  next => cases h

/-- A directory with a manifest is refused. -/
theorem run_of_holds
    (hcanonical : files.canonical (Path.join s.context.workingDirectory options.path)
      = .ok directory)
    (hholds : files.holds (Path.join directory Manifest.fileName)) :
  s.run files options budget
    = some (.failed files [] [] (.alreadyExists (Path.join directory Manifest.fileName)))
  := by
  have hrefused : s.directory files options
      = .error (.alreadyExists (Path.join directory Manifest.fileName)) := by
    unfold Setup.directory
    simp only [hcanonical, bind, Except.bind, List.map_cons, List.find?_cons, hholds]
  unfold run
  rw [hrefused]

namespace HalfSaved

/-- The manifest is written as it always is, and there is no lock still. -/
theorem written (hwrites : s.Writes) (hdirectory : s.directory files options = .ok directory)
    (h : s.HalfSaved files directory e after) :
  ∃ m : Manifest, files.write (Path.join directory Manifest.fileName) m.render = .ok after ∧
    after.holds (Path.join directory Lock.fileName) = false
  := by
  obtain ⟨m, l, fault, hmanifest, -, -⟩ := h
  obtain ⟨-, -, hfree⟩ := free_of_directory hdirectory
  have hwritten := hwrites _ _ _ _ hmanifest
  use m, hwritten
  apply (FileTree.exists_write_of_write _ _ _ _ hfree hwritten "").1
  all_goals decide

/-- The setup cannot be run again. -/
theorem refused (hwrites : s.Writes) (hdirectory : s.directory files options = .ok directory)
    (h : s.HalfSaved files directory e after) (budget : Nat) :
  s.run after options budget
    = some (.failed after [] [] (.alreadyExists (Path.join directory Manifest.fileName)))
  := by
  obtain ⟨m, hwritten, -⟩ := h.written hwrites hdirectory
  obtain ⟨hcanonical, -, -⟩ := free_of_directory hdirectory
  apply run_of_holds (FileTree.canonical_write hwritten hcanonical) (FileTree.holds_write hwritten)

end HalfSaved

/-! ### What a failure leaves -/

end Setup

namespace Setup.Sample

/-- A version of the dependency at a tag. -/
def stable : Version := .paired (.ofTag "stable") ⟨"c0ffee"⟩

end Setup.Sample
end DepLock
