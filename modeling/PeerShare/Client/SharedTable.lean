import PeerShare.Wire.Control

/-!
# The local table of shared files (`share_file_logic.c`)

A table of at most 1024 entries.  Entries are only ever appended; when the
table is full the new entry is dropped and nothing tells the caller.
-/

namespace PeerShare
namespace Client

open Foundation Wire

/-- `MAX_SHARED_FILES`. -/
def maxSharedFiles : Nat := 1024

/-- `shared_file_t` of the client. -/
structure SharedFile where
  fileId : Nat
  fileSize : Nat
  hash : HashBytes
  fileName : NameField
  deriving DecidableEq

/-- `table[0 .. num_files)`. -/
structure SharedTable where
  files : List SharedFile
  length_le : files.length ≤ maxSharedFiles
  deriving DecidableEq

namespace SharedTable

def empty : SharedTable where
  files := []
  length_le := by decide

/-- `add_shared_file`. -/
def addSharedFile (table : SharedTable) (fileId fileSize : Nat) (hash : HashBytes)
    (filename : Bytes) : SharedTable :=
  if hroom : table.files.length < maxSharedFiles then
    { files := table.files ++
        [{ fileId := fileId
           fileSize := fileSize
           hash := hash
           fileName := NameField.strncpy filename }]
      length_le := by
        rw [List.length_append]
        exact hroom }
  else
    table

theorem addSharedFile_files {table : SharedTable} (hroom : table.files.length < maxSharedFiles)
    (fileId fileSize : Nat) (hash : HashBytes) (filename : Bytes) :
    (table.addSharedFile fileId fileSize hash filename).files =
      table.files ++
        [{ fileId := fileId
           fileSize := fileSize
           hash := hash
           fileName := NameField.strncpy filename }] := by
  rw [addSharedFile, dif_pos hroom]

/-- `find_shared_file_by_id`. -/
def findSharedFileById (table : SharedTable) (fileId : Nat) : Option SharedFile :=
  table.files.find? fun file => file.fileId = fileId

end SharedTable
end Client
end PeerShare
