import PeerShare.Wire.Control

/-!
# The registry of shared files (`server.c`)

`files[0 .. num_files)` as a list that never grows past the array.  Entries are
appended by a share and leave with their owner: the removal loop walks the
array, shifts the tail down over an entry it drops and looks at the same index
again.  `removeOwner_files` says what the loop leaves: the entries of the other
owners, in order.

An entry also remembers the connection it came from.  The code has no such
field; nothing the server does depends on it.
-/

namespace PeerShare
namespace Directory

open Foundation Wire

/-- `MAX_FILES`. -/
def maxFiles : Nat := 1024

/-- `shared_file_t` of the server. -/
structure DirectoryFile where
  fileId : Nat
  fileSize : Nat
  hash : HashBytes
  filename : NameField
  ownerId : Nat
  /-- The connection the entry was shared on, for bookkeeping only. -/
  sharer : Nat
  deriving DecidableEq

/-- `files[0 .. num_files)`. -/
structure Registry where
  files : List DirectoryFile
  length_le : files.length ≤ maxFiles
  deriving DecidableEq

namespace Registry

def empty : Registry where
  files := []
  length_le := by decide

/-- `find_file`. -/
def findFile (registry : Registry) (fileId : Nat) : Option DirectoryFile :=
  registry.files.find? fun file => file.fileId = fileId

/-- `files[num_files++] = file`, unless the array is full. -/
def add (registry : Registry) (file : DirectoryFile) : Option Registry :=
  if hroom : registry.files.length < maxFiles then
    some
      { files := registry.files ++ [file]
        length_le := by
          rw [List.length_append]
          exact hroom }
  else
    none

/-- The loop of `remove_client` over the files, from index `i` on.  Every
iteration either drops an entry or moves on, so `fuel` counts the entries not
looked at. -/
def removeLoop (ownerId : Nat) : (fuel i : Nat) → List DirectoryFile → List DirectoryFile
  | 0, _, files => files
  | fuel + 1, i, files =>
      match files[i]? with
      | none => files
      | some file =>
          if file.ownerId = ownerId then
            -- `i--` undoes the step of the loop: the shifted entry is checked too
            removeLoop ownerId fuel i (files.eraseIdx i)
          else
            removeLoop ownerId fuel (i + 1) files

/-- The loop leaves what it passed and, behind it, the entries of other owners. -/
theorem removeLoop_append (ownerId : Nat) (passed rest : List DirectoryFile) :
    removeLoop ownerId rest.length passed.length (passed ++ rest) =
      passed ++ rest.filter fun file => file.ownerId ≠ ownerId := by
  induction rest generalizing passed with
  | nil => simp [removeLoop]
  | cons file rest ih =>
      have hhead : (passed ++ file :: rest)[passed.length]? = some file := by
        simp
      simp only [List.length_cons, removeLoop, hhead]
      split
      · next howner =>
          have herase : (passed ++ file :: rest).eraseIdx passed.length = passed ++ rest := by
            rw [List.eraseIdx_append_of_length_le (le_refl _)]
            simp
          rw [herase, ih passed, List.filter_cons_of_neg (by simpa using howner)]
      · next howner =>
          have hpassed := ih (passed ++ [file])
          rw [List.length_append, List.length_singleton, List.append_assoc,
            List.singleton_append] at hpassed
          rw [hpassed, List.filter_cons_of_pos (by simpa using howner), List.append_assoc,
            List.singleton_append]

theorem removeLoop_eq_filter (ownerId : Nat) (files : List DirectoryFile) :
    removeLoop ownerId files.length 0 files =
      files.filter fun file => file.ownerId ≠ ownerId :=
  removeLoop_append ownerId [] files

/-- The files part of `remove_client`. -/
def removeOwner (registry : Registry) (ownerId : Nat) : Registry where
  files := removeLoop ownerId registry.files.length 0 registry.files
  length_le := by
    rw [removeLoop_eq_filter]
    exact le_trans (List.length_filter_le _ _) registry.length_le

@[simp] theorem removeOwner_files (registry : Registry) (ownerId : Nat) :
    (registry.removeOwner ownerId).files =
      registry.files.filter fun file => file.ownerId ≠ ownerId :=
  removeLoop_eq_filter ownerId registry.files

/-- What `add` did when it had room. -/
theorem add_eq_some {registry registry' : Registry} {file : DirectoryFile}
    (hadd : registry.add file = some registry') :
    registry.files.length < maxFiles ∧ registry'.files = registry.files ++ [file] := by
  unfold add at hadd
  split at hadd
  · next hroom =>
      cases hadd
      exact ⟨hroom, rfl⟩
  · cases hadd

end Registry
end Directory
end PeerShare
