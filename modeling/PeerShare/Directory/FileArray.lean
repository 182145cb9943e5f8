import PeerShare.Directory.Server
import PeerShare.Foundation.CellArray

/-!
# `remove_client` on the array

The registry of `Directory/Registry.lean` is a list.  In memory it is the array
`files` with the counter `num_files`, and `remove_client` compacts it in place:
an inner loop shifts the tail down over an entry of the client, the counter
goes down, and the outer loop looks at the same index again.

Each round of the outer loop shortens what it has not looked at yet, so it ends;
Lean asks for that reason when the loop is defined.  The loops report the cells
they read.
-/

namespace PeerShare
namespace Directory

open Foundation Wire

/-- `files` and `num_files`. -/
structure FileMemory where
  cells : Nat → DirectoryFile
  numFiles : Nat

def FileMemory.files (memory : FileMemory) : List DirectoryFile :=
  entries memory.cells memory.numFiles

/-- What the loop over the files leaves, `files_removed` and the cells read. -/
structure Removal where
  memory : FileMemory
  removed : Nat
  read : List Nat

/-- The loop of `remove_client` over the files, from index `i` on. -/
def removeFiles (ownerId : Nat) (memory : FileMemory) (i : Nat) : Removal :=
  if i < memory.numFiles then
    if (memory.cells i).ownerId = ownerId then
      let shifted := shiftLoop memory.numFiles i memory.cells
      -- `i--` undoes the step of the loop
      let rest := removeFiles ownerId ⟨shifted.cells, memory.numFiles - 1⟩ i
      { rest with
        removed := rest.removed + 1
        read := i :: (shifted.read ++ rest.read) }
    else
      let rest := removeFiles ownerId memory (i + 1)
      { rest with read := i :: rest.read }
  else
    ⟨memory, 0, []⟩
termination_by memory.numFiles - i

section Loop

variable (ownerId : Nat) (memory : FileMemory) (i : Nat)

/-- The loop leaves what it passed and, behind it, the entries of other owners. -/
theorem removeFiles_files :
    (removeFiles ownerId memory i).memory.files =
      memory.files.take i ++
        (memory.files.drop i).filter fun file => file.ownerId ≠ ownerId := by
  induction memory, i using removeFiles.induct ownerId with
  | case1 memory i hi howner shifted ih =>
      rw [removeFiles, if_pos hi, if_pos howner]
      have hlength : i < memory.files.length := by
        rw [FileMemory.files, entries_length]
        exact hi
      have hhead : memory.files.drop i = memory.cells i :: memory.files.drop (i + 1) := by
        rw [List.drop_eq_getElem_cons hlength]
        simp [FileMemory.files, entries]
      have herased : FileMemory.files ⟨shifted.cells, memory.numFiles - 1⟩ =
          memory.files.eraseIdx i := entries_shiftLoop hi memory.cells
      rw [herased] at ih
      have htake : (memory.files.eraseIdx i).take i = memory.files.take i := by
        rw [List.eraseIdx_eq_take_drop_succ]
        exact List.take_left' (by rw [List.length_take]; omega)
      have hdrop : (memory.files.eraseIdx i).drop i = memory.files.drop (i + 1) := by
        rw [List.eraseIdx_eq_take_drop_succ]
        exact List.drop_left' (by rw [List.length_take]; omega)
      rw [htake, hdrop] at ih
      rw [hhead, List.filter_cons_of_neg (by simpa using howner)]
      exact ih
  | case2 memory i hi howner ih =>
      rw [removeFiles, if_pos hi, if_neg howner]
      have hlength : i < memory.files.length := by
        rw [FileMemory.files, entries_length]
        exact hi
      have hcell : memory.files[i] = memory.cells i := by
        simp [FileMemory.files, entries]
      rw [List.drop_eq_getElem_cons hlength, hcell,
        List.filter_cons_of_pos (by simpa using howner)]
      rw [List.take_succ_eq_append_getElem hlength, hcell, List.append_assoc,
        List.singleton_append] at ih
      exact ih
  | case3 memory i hi =>
      rw [removeFiles, if_neg hi]
      have hlength : memory.files.length ≤ i := by
        rw [FileMemory.files, entries_length]
        exact not_lt.mp hi
      rw [List.take_of_length_le hlength, List.drop_eq_nil_of_le hlength]
      simp

/-- Every round that removes an entry takes one off the counter. -/
theorem removeFiles_numFiles :
    (removeFiles ownerId memory i).memory.numFiles + (removeFiles ownerId memory i).removed =
      memory.numFiles := by
  induction memory, i using removeFiles.induct ownerId with
  | case1 memory i hi howner shifted ih =>
      rw [removeFiles, if_pos hi, if_pos howner]
      have hpos : 1 ≤ memory.numFiles := by omega
      have hmore := congrArg (· + 1) ih
      simp only [Nat.sub_add_cancel hpos] at hmore
      exact hmore
  | case2 memory i hi howner ih =>
      rw [removeFiles, if_pos hi, if_neg howner]
      exact ih
  | case3 memory i hi =>
      rw [removeFiles, if_neg hi]
      rfl

/-- The loop stays in front of the old `num_files`. -/
theorem removeFiles_read_lt :
    ∀ k ∈ (removeFiles ownerId memory i).read, k < memory.numFiles := by
  induction memory, i using removeFiles.induct ownerId with
  | case1 memory i hi howner shifted ih =>
      rw [removeFiles, if_pos hi, if_pos howner]
      intro k hk
      rcases List.mem_cons.mp hk with rfl | hinner
      · exact hi
      · rcases List.mem_append.mp hinner with hshift | hrest
        · exact shiftLoop_read_lt _ _ _ k hshift
        · have hlt := ih k hrest
          simp only at hlt
          omega
  | case2 memory i hi howner ih =>
      rw [removeFiles, if_pos hi, if_neg howner]
      intro k hk
      rcases List.mem_cons.mp hk with rfl | hrest
      · exact hi
      · exact ih k hrest
  | case3 memory i hi =>
      rw [removeFiles, if_neg hi]
      simp

/-- Memory from the old `num_files` on is not written. -/
theorem removeFiles_cells_of_ge {k : Nat} (hk : memory.numFiles ≤ k) :
    (removeFiles ownerId memory i).memory.cells k = memory.cells k := by
  induction memory, i using removeFiles.induct ownerId with
  | case1 memory i hi howner shifted ih =>
      have hrest := ih (by simp only; omega)
      rw [removeFiles, if_pos hi, if_pos howner]
      refine hrest.trans ?_
      show (shiftLoop memory.numFiles i memory.cells).cells k = memory.cells k
      rw [shiftLoop_apply, if_neg (by omega)]
  | case2 memory i hi howner ih =>
      rw [removeFiles, if_pos hi, if_neg howner]
      exact ih hk
  | case3 memory i hi => rw [removeFiles, if_neg hi]

end Loop

/-! ## The whole function -/

/-- The globals `remove_client` reads and writes. -/
structure ServerMemory where
  clients : Fin maxClients → ClientSlot
  files : FileMemory
  numClients : Int

/-- The globals after `remove_client`, with what the loop over the files did. -/
structure RemoveClientResult where
  memory : ServerMemory
  removed : Nat
  read : List Nat

/-- `remove_client`. -/
def ServerMemory.removeClient (memory : ServerMemory) (i : Fin maxClients) :
    RemoveClientResult :=
  let client := memory.clients i
  if client.active = false then
    ⟨memory, 0, []⟩
  else
    let removal := removeFiles client.clientId memory.files 0
    { memory :=
        { clients := Function.update memory.clients i { client with fd := -1, active := false }
          files := removal.memory
          numClients := memory.numClients - 1 }
      removed := removal.removed
      read := removal.read }

/-- The memory of a server. -/
structure Represents (memory : ServerMemory) (server : Server) : Prop where
  clients : memory.clients = server.clients
  files : memory.files.files = server.registry.files
  numClients : memory.numClients = server.numClients

/-- The function on the array is the function on the list. -/
theorem Represents.removeClient {memory : ServerMemory} {server : Server}
    (h : Represents memory server) (i : Fin maxClients) :
    Represents (memory.removeClient i).memory (server.removeClient i) := by
  unfold ServerMemory.removeClient Server.removeClient
  rw [h.clients]
  by_cases hactive : (server.clients i).active = false
  · simp only [hactive, if_true]
    exact h
  · simp only [hactive]
    refine ⟨rfl, ?_, ?_⟩
    · show (removeFiles _ memory.files 0).memory.files = (server.registry.removeOwner _).files
      rw [removeFiles_files, Registry.removeOwner_files, h.files]
      rfl
    · show memory.numClients - 1 = server.numClients - 1
      rw [h.numClients]

/-- What is left of an array when the client `clientId` is gone. -/
structure RemovesExactly (memory : ServerMemory) (i : Fin maxClients)
    (result : RemoveClientResult) : Prop where
  kept : result.memory.files.files =
    memory.files.files.filter fun file => file.ownerId ≠ (memory.clients i).clientId
  removed : result.removed =
    (memory.files.files.filter fun file => file.ownerId = (memory.clients i).clientId).length
  numFiles : result.memory.files.numFiles + result.removed = memory.files.numFiles
  read_inside : ∀ k ∈ result.read, k < memory.files.numFiles
  written_inside : ∀ k, memory.files.numFiles ≤ k →
    result.memory.files.cells k = memory.files.cells k
  slot : result.memory.clients i = { memory.clients i with fd := -1, active := false }
  other_slot : ∀ j, j ≠ i → result.memory.clients j = memory.clients j

/-- Whatever the array holds, `remove_client` of an active client leaves exactly
the entries of the other owners, in their order, without reading or writing
past the entries that were there, and writes no slot but that of the client. -/
theorem remove_client_exact (memory : ServerMemory) (i : Fin maxClients)
    (hactive : (memory.clients i).active = true) :
    RemovesExactly memory i (memory.removeClient i) := by
  have hresult : memory.removeClient i =
      { memory :=
          { clients := Function.update memory.clients i
              { memory.clients i with fd := -1, active := false }
            files := (removeFiles (memory.clients i).clientId memory.files 0).memory
            numClients := memory.numClients - 1 }
        removed := (removeFiles (memory.clients i).clientId memory.files 0).removed
        read := (removeFiles (memory.clients i).clientId memory.files 0).read } := by
    unfold ServerMemory.removeClient
    simp only [hactive, Bool.true_eq_false, if_false]
  have hkept := removeFiles_files (memory.clients i).clientId memory.files 0
  rw [List.take_zero, List.nil_append, List.drop_zero] at hkept
  have hcount := removeFiles_numFiles (memory.clients i).clientId memory.files 0
  rw [hresult]
  refine
    { kept := hkept
      removed := ?_
      numFiles := hcount
      read_inside := removeFiles_read_lt _ _ _
      written_inside := fun k hk => removeFiles_cells_of_ge _ _ _ hk
      slot := Function.update_self ..
      other_slot := fun j hj => Function.update_of_ne hj .. }
  -- the entries kept and the entries removed make up the array
  have hsplit := List.length_eq_length_filter_add
    (l := memory.files.files) (fun file => decide (file.ownerId ≠ (memory.clients i).clientId))
  rw [← hkept, FileMemory.files, FileMemory.files, entries_length, entries_length] at hsplit
  have hother : (memory.files.files.filter fun file =>
      !decide (file.ownerId ≠ (memory.clients i).clientId)) =
      memory.files.files.filter fun file =>
        decide (file.ownerId = (memory.clients i).clientId) := by
    simp
  rw [← FileMemory.files, hother] at hsplit
  simp only at hcount ⊢
  omega

/-- Four entries of which the client owns the first two and the last. -/
def fourFiles : ServerMemory where
  clients := fun _ => ⟨5, 7, ⟨0, 0⟩, 0, true, 1⟩
  files :=
    { cells := fun k => ⟨k + 1, 0, HashBytes.ofImage [], NameField.ofImage [],
        if k = 2 then 3 else 7, 1⟩
      numFiles := 4 }
  numClients := 1

theorem remove_client_exact_four :
    ((fourFiles.removeClient 0).memory.files.files.map DirectoryFile.fileId = [3] ∧
      (fourFiles.removeClient 0).removed = 3) ∧
    ∀ k ∈ (fourFiles.removeClient 0).read, k < 4 := by
  have h := remove_client_exact fourFiles 0 rfl
  refine ⟨⟨?_, ?_⟩, h.read_inside⟩
  · rw [h.kept]
    decide +kernel
  · rw [h.removed]
    decide +kernel

end Directory
end PeerShare
