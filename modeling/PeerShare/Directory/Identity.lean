import PeerShare.Directory.Connections

/-!
# Ids and descriptors name one thing

Ids are counters, so as long as they do not wrap around, a client id names at
most one slot and a file id at most one entry, whatever the clients send.  A
slot keeps the id of its last client, hence uniqueness is stated for all slots
that ever had a client, active or not.

What one connection sends then reaches no other client: `effect_other` says
that an event on another slot leaves a client's slot and its files alone.
-/

namespace PeerShare
namespace Directory

open Foundation Wire

/-- The counters have not wrapped around. -/
def InRange (server : Server) : Prop :=
  server.registered < 2 ^ 32 - 1 ∧ server.shared < 2 ^ 32 - 1

/-- The fields of an entry are as the messages carry them. -/
def DirectoryFile.Formed (file : DirectoryFile) : Prop :=
  file.fileSize < 2 ^ 32 ∧ NameField.strncpy file.filename.bytes = file.filename

/-- Descriptors and client ids name one slot.  The files do not matter here,
except that their owners have been given out. -/
structure ClientIdentity (server : Server) : Prop where
  numbered : Numbered server
  fd_inj : server.FdsDistinct
  nextClientId_eq : server.nextClientId = server.registered + 1
  clientId_lt : ∀ i, (server.clients i).clientId < server.nextClientId
  clientId_inj : ∀ i j, (server.clients i).clientId = (server.clients j).clientId →
    (server.clients i).clientId ≠ 0 → i = j
  clientId_ne : ∀ i, (server.clients i).active = true → (server.clients i).clientId ≠ 0
  ownerId_lt : ∀ file ∈ server.registry.files, file.ownerId < server.nextClientId

/-- File ids name one entry.  The clients do not matter here. -/
structure FileIdentity (server : Server) : Prop where
  nextFileId_eq : server.nextFileId = server.shared + 1
  fileId_lt : ∀ file ∈ server.registry.files, file.fileId < server.nextFileId
  increasing : server.registry.files.Pairwise fun file later => file.fileId < later.fileId

/-- The entries are as the messages carry them; this needs no counter. -/
structure FilesFormed (server : Server) : Prop where
  nextFileId_lt : server.nextFileId < 2 ^ 32
  fileId_fits : ∀ file ∈ server.registry.files, file.fileId < 2 ^ 32
  formed : ∀ file ∈ server.registry.files, file.Formed

structure IdentityInv (server : Server) : Prop extends
  ClientIdentity server, FileIdentity server, FilesFormed server

/-! ## Descriptors and client ids -/

theorem clientIdentity_initial : ClientIdentity Server.initial where
  numbered := numbered_initial
  fd_inj := fdsDistinct_initial
  nextClientId_eq := rfl
  clientId_lt := by
    intro i
    exact Nat.zero_lt_one
  clientId_inj := by
    intro i j _ hne
    exact absurd rfl hne
  clientId_ne := by
    intro i hactive
    cases hactive
  ownerId_lt := by
    intro file hfile
    cases hfile

theorem ClientIdentity.place {server : Server} (h : ClientIdentity server) {i : Fin maxClients}
    {fd : Int} (hfresh : ∀ j, 0 < (server.clients j).fd → (server.clients j).fd ≠ fd)
    (addr : SockAddr) : ClientIdentity (server.place i fd addr) := by
  have hid : ∀ j, ((server.place i fd addr).clients j).clientId = (server.clients j).clientId := by
    intro j
    by_cases hj : j = i
    · rw [hj, Server.place_clients_self]
    · rw [Server.place_clients_of_ne _ _ _ _ hj]
  refine
    { h with
      numbered := h.numbered.place i fd addr
      fd_inj := fdsDistinct_place h.fd_inj hfresh addr
      clientId_lt := ?_
      clientId_inj := ?_
      clientId_ne := ?_ }
  · intro j
    rw [hid]
    exact h.clientId_lt j
  · intro j k hjk hne
    rw [hid] at hne
    rw [hid, hid] at hjk
    exact h.clientId_inj j k hjk hne
  · intro j hactive
    rw [hid]
    by_cases hj : j = i
    · rw [hj, Server.place_clients_self] at hactive
      cases hactive
    · rw [Server.place_clients_of_ne _ _ _ _ hj] at hactive
      exact h.clientId_ne j hactive

theorem ClientIdentity.hangUp {server : Server} (h : ClientIdentity server)
    (i : Fin maxClients) : ClientIdentity (server.hangUp (server.clients i).conn) :=
  { h with numbered := h.numbered.hangUp i }

/-- Removing a client takes entries away, and moves none. -/
theorem dropClient_files_sublist (server : Server) (i : Fin maxClients) :
    (server.dropClient i).registry.files.Sublist server.registry.files := by
  show (server.registry.removeOwner (server.clients i).clientId).files.Sublist _
  rw [Registry.removeOwner_files]
  exact List.filter_sublist

theorem ClientIdentity.dropClient {server : Server} (h : ClientIdentity server)
    (i : Fin maxClients) : ClientIdentity (server.dropClient i) := by
  have hid : ∀ j, ((server.dropClient i).clients j).clientId = (server.clients j).clientId := by
    intro j
    by_cases hj : j = i
    · rw [hj, Server.dropClient_clients_self]
    · rw [Server.dropClient_clients_of_ne _ _ hj]
  have hfiles := dropClient_files_sublist server i
  refine
    { h with
      numbered := h.numbered.dropClient i
      fd_inj := fdsDistinct_dropClient h.fd_inj i
      clientId_lt := ?_
      clientId_inj := ?_
      clientId_ne := ?_
      ownerId_lt := fun file hfile => h.ownerId_lt file (hfiles.mem hfile) }
  · intro j
    rw [hid]
    exact h.clientId_lt j
  · intro j k hjk hne
    rw [hid] at hne
    rw [hid, hid] at hjk
    exact h.clientId_inj j k hjk hne
  · intro j hactive
    rw [hid]
    by_cases hj : j = i
    · rw [hj, Server.dropClient_clients_self] at hactive
      cases hactive
    · rw [Server.dropClient_clients_of_ne _ _ hj] at hactive
      exact h.clientId_ne j hactive

theorem ClientIdentity.handleRegister {server : Server} (h : ClientIdentity server)
    (host : ByteOrder) {i : Fin maxClients} (hfd : 0 < (server.clients i).fd)
    (udpPort : UInt16) (hrange : server.registered + 1 < 2 ^ 32 - 1) :
    ClientIdentity (server.handleRegister host i udpPort).server := by
  have hnext := h.nextClientId_eq
  have hwrap : (server.nextClientId + 1) % 2 ^ 32 = server.nextClientId + 1 :=
    Nat.mod_eq_of_lt (by omega)
  have hfds := fun j => (handleRegister_same_connection host server i udpPort j).2
  have hnew : (server.handleRegister host i udpPort).server.nextClientId =
      server.nextClientId + 1 := hwrap
  refine
    { h with
      numbered := h.numbered.handleRegister host hfd udpPort
      fd_inj := ?_
      nextClientId_eq := ?_
      clientId_lt := ?_
      clientId_inj := ?_
      clientId_ne := ?_
      ownerId_lt := ?_ }
  · intro j k hjk hpos
    rw [hfds] at hpos
    rw [hfds, hfds] at hjk
    exact h.fd_inj j k hjk hpos
  · rw [hnew, hnext]
    rfl
  · intro j
    rw [hnew]
    by_cases hj : j = i
    · rw [hj, Server.handleRegister_clients_self]
      exact Nat.lt_succ_self _
    · rw [Server.handleRegister_clients_of_ne _ _ _ _ hj]
      exact Nat.lt_succ_of_lt (h.clientId_lt j)
  · intro j k hjk hne
    -- the id handed out is above every id in use
    have hj := h.clientId_lt j
    have hk := h.clientId_lt k
    by_cases hji : j = i <;> by_cases hki : k = i
    · rw [hji, hki]
    · rw [hji, Server.handleRegister_clients_self,
        Server.handleRegister_clients_of_ne _ _ _ _ hki] at hjk
      simp only at hjk
      omega
    · rw [hki, Server.handleRegister_clients_self,
        Server.handleRegister_clients_of_ne _ _ _ _ hji] at hjk
      simp only at hjk
      omega
    · rw [Server.handleRegister_clients_of_ne _ _ _ _ hji] at hjk hne
      rw [Server.handleRegister_clients_of_ne _ _ _ _ hki] at hjk
      exact h.clientId_inj j k hjk hne
  · intro j hactive
    by_cases hj : j = i
    · rw [hj, Server.handleRegister_clients_self]
      simp only
      omega
    · rw [Server.handleRegister_clients_of_ne _ _ _ _ hj] at hactive ⊢
      exact h.clientId_ne j hactive
  · intro file hfile
    rw [hnew]
    exact Nat.lt_succ_of_lt (h.ownerId_lt file hfile)

/-- The entries after a share: the old ones and the new one. -/
theorem mem_enter_files {server : Server} {i : Fin maxClients} {share : ShareFile}
    {registry : Registry} (hadd : server.registry.add (server.sharedFile i share) = some registry)
    {file : DirectoryFile} (hfile : file ∈ (server.enter registry).registry.files) :
    file ∈ server.registry.files ∨ file = server.sharedFile i share := by
  change file ∈ registry.files at hfile
  rw [(Registry.add_eq_some hadd).2, List.mem_append, List.mem_singleton] at hfile
  exact hfile

theorem ClientIdentity.enter {server : Server} (h : ClientIdentity server) {i : Fin maxClients}
    {share : ShareFile} {registry : Registry}
    (hadd : server.registry.add (server.sharedFile i share) = some registry) :
    ClientIdentity (server.enter registry) := by
  refine
    { h with
      numbered := h.numbered.of_same_conns (fun _ => rfl) rfl h.numbered.conn_of_fd
        h.numbered.conn_of_active h.numbered.ended_le
      ownerId_lt := ?_ }
  intro file hfile
  rcases mem_enter_files hadd hfile with hold | rfl
  · exact h.ownerId_lt file hold
  · exact h.clientId_lt i

theorem clientIdentity_effect {host : ByteOrder} {server server' : Server} {event : ServerEvent}
    (h : ClientIdentity server) (heffect : Effect host server event server')
    (hfresh : FreshAccept server event) (hrange : server'.registered < 2 ^ 32 - 1) :
    ClientIdentity server' := by
  cases heffect with
  | unchanged => exact h
  | placed => exact h.place hfresh _
  | ended => exact h.hangUp _
  | dropped => exact h.dropClient _
  | @endedDropped _ _ i =>
      have hdropped := (h.dropClient i).hangUp i
      rwa [Server.dropClient_clients_self] at hdropped
  | registered hfind =>
      exact h.handleRegister host (Server.fd_of_findClientByFd hfind).2 _ hrange
  | shared _ _ hadd => exact h.enter hadd

/-! ## File ids -/

theorem fileIdentity_initial : FileIdentity Server.initial where
  nextFileId_eq := rfl
  fileId_lt := by
    intro file hfile
    cases hfile
  increasing := List.Pairwise.nil

theorem FileIdentity.dropClient {server : Server} (h : FileIdentity server)
    (i : Fin maxClients) : FileIdentity (server.dropClient i) :=
  have hfiles := dropClient_files_sublist server i
  { h with
    fileId_lt := fun file hfile => h.fileId_lt file (hfiles.mem hfile)
    increasing := h.increasing.sublist hfiles }

theorem FileIdentity.enter {server : Server} (h : FileIdentity server) {i : Fin maxClients}
    {share : ShareFile} {registry : Registry}
    (hadd : server.registry.add (server.sharedFile i share) = some registry)
    (hrange : server.shared + 1 < 2 ^ 32 - 1) : FileIdentity (server.enter registry) := by
  have hnext := h.nextFileId_eq
  have hwrap : (server.nextFileId + 1) % 2 ^ 32 = server.nextFileId + 1 :=
    Nat.mod_eq_of_lt (by omega)
  have hnew : (server.enter registry).nextFileId = server.nextFileId + 1 := hwrap
  have hfiles : (server.enter registry).registry.files =
      server.registry.files ++ [server.sharedFile i share] := (Registry.add_eq_some hadd).2
  constructor
  · rw [hnew, hnext]
    rfl
  · intro file hfile
    rw [hnew]
    rcases mem_enter_files hadd hfile with hold | rfl
    · exact Nat.lt_succ_of_lt (h.fileId_lt file hold)
    · exact Nat.lt_succ_self _
  · rw [hfiles, List.pairwise_append]
    refine ⟨h.increasing, List.pairwise_singleton _ _, ?_⟩
    intro file hfile later hlater
    rw [List.mem_singleton] at hlater
    subst hlater
    exact h.fileId_lt file hfile

theorem fileIdentity_effect {host : ByteOrder} {server server' : Server} {event : ServerEvent}
    (h : FileIdentity server) (heffect : Effect host server event server')
    (hrange : server'.shared < 2 ^ 32 - 1) : FileIdentity server' := by
  cases heffect with
  | unchanged => exact h
  | placed => exact { h with }
  | ended => exact { h with }
  | dropped => exact h.dropClient _
  | endedDropped => exact { h.dropClient _ with }
  | registered => exact { h with }
  | shared _ _ hadd => exact h.enter hadd hrange

/-! ## Entries as the messages carry them -/

theorem filesFormed_initial : FilesFormed Server.initial where
  nextFileId_lt := by
    show 1 < 2 ^ 32
    norm_num
  fileId_fits := by
    intro file hfile
    cases hfile
  formed := by
    intro file hfile
    cases hfile

/-- The size a share announces comes from four bytes. -/
theorem fileSize_of_readMessage {host : ByteOrder} {data : Bytes} {share : ShareFile}
    (hmessage : readMessage host data = some (.shareFile share)) : share.fileSize < 2 ^ 32 := by
  have hshare : ∃ payload, share = ShareFile.ofImage host payload := by
    unfold readMessage selectMessage at hmessage
    grind
  obtain ⟨payload, rfl⟩ := hshare
  exact ntoh_lt host 4 _

theorem FilesFormed.dropClient {server : Server} (h : FilesFormed server)
    (i : Fin maxClients) : FilesFormed (server.dropClient i) :=
  have hfiles := dropClient_files_sublist server i
  { h with
    fileId_fits := fun file hfile => h.fileId_fits file (hfiles.mem hfile)
    formed := fun file hfile => h.formed file (hfiles.mem hfile) }

theorem FilesFormed.enter {server : Server} (h : FilesFormed server) {i : Fin maxClients}
    {share : ShareFile} {registry : Registry} (hsize : share.fileSize < 2 ^ 32)
    (hadd : server.registry.add (server.sharedFile i share) = some registry) :
    FilesFormed (server.enter registry) := by
  constructor
  · exact Nat.mod_lt _ (Nat.two_pow_pos 32)
  · intro file hfile
    rcases mem_enter_files hadd hfile with hold | rfl
    · exact h.fileId_fits file hold
    · exact h.nextFileId_lt
  · intro file hfile
    rcases mem_enter_files hadd hfile with hold | rfl
    · exact h.formed file hold
    · exact ⟨hsize, NameField.strncpy_strncpy _⟩

theorem filesFormed_effect {host : ByteOrder} {server server' : Server} {event : ServerEvent}
    (h : FilesFormed server) (heffect : Effect host server event server') :
    FilesFormed server' := by
  cases heffect with
  | unchanged => exact h
  | placed => exact { h with }
  | ended => exact { h with }
  | dropped => exact h.dropClient _
  | endedDropped => exact { h.dropClient _ with }
  | registered => exact { h with }
  | shared _ hmessage hadd => exact h.enter (fileSize_of_readMessage hmessage) hadd

/-! ## All three together -/

theorem identityInv_initial : IdentityInv Server.initial :=
  { clientIdentity_initial, fileIdentity_initial, filesFormed_initial with }

theorem identityInv_effect {host : ByteOrder} {server server' : Server} {event : ServerEvent}
    (h : IdentityInv server) (heffect : Effect host server event server')
    (hfresh : FreshAccept server event) (hrange : InRange server') : IdentityInv server' :=
  { clientIdentity_effect h.toClientIdentity heffect hfresh hrange.1,
    fileIdentity_effect h.toFileIdentity heffect hrange.2,
    filesFormed_effect h.toFilesFormed heffect with }

/-- The counters only grow. -/
theorem counters_le_of_effect {host : ByteOrder} {server server' : Server} {event : ServerEvent}
    (heffect : Effect host server event server') :
    server.registered ≤ server'.registered ∧ server.shared ≤ server'.shared := by
  cases heffect with
  | registered => exact ⟨Nat.le_succ _, le_refl _⟩
  | shared => exact ⟨le_refl _, Nat.le_succ _⟩
  | _ => exact ⟨le_refl _, le_refl _⟩

theorem inRange_of_effect {host : ByteOrder} {server server' : Server} {event : ServerEvent}
    (heffect : Effect host server event server') (hrange : InRange server') :
    InRange server := by
  obtain ⟨hregistered, hshared⟩ := counters_le_of_effect heffect
  exact ⟨lt_of_le_of_lt hregistered hrange.1, lt_of_le_of_lt hshared hrange.2⟩

/-! ## Looking things up -/

theorem FileIdentity.fileId_nodup {server : Server} (h : FileIdentity server) :
    (server.registry.files.map DirectoryFile.fileId).Nodup :=
  nodup_keys_of_increasing h.increasing

/-- The id of an entry finds that entry. -/
theorem FileIdentity.findFile_eq {server : Server} (h : FileIdentity server)
    {file : DirectoryFile} (hfile : file ∈ server.registry.files) :
    server.registry.findFile file.fileId = some file :=
  find?_eq_of_nodup_keys h.fileId_nodup hfile

/-- The id of an active client finds its slot. -/
theorem ClientIdentity.findClient_eq {server : Server} (h : ClientIdentity server)
    {i : Fin maxClients} (hactive : (server.clients i).active = true) :
    server.findClient (server.clients i).clientId = some i := by
  apply firstSlot_of_unique
  · simp [hactive]
  · intro j hj
    rw [Bool.and_eq_true, beq_iff_eq] at hj
    exact (h.clientId_inj i j hj.2.symm (h.clientId_ne i hactive)).symm

/-- A file of an active client is located at that client. -/
theorem IdentityInv.locate_eq {server : Server} (h : IdentityInv server) {i : Fin maxClients}
    (hactive : (server.clients i).active = true) {file : DirectoryFile}
    (hfile : file ∈ server.registry.files)
    (howner : file.ownerId = (server.clients i).clientId) :
    server.locate file.fileId =
      .ok
        { fileId := file.fileId
          fileSize := file.fileSize
          hash := file.hash
          peer := { ip := (server.clients i).addr.ip, port := (server.clients i).udpPort }
          filename := file.filename } := by
  have hname : NameField.strncpy file.filename.bytes = file.filename := (h.formed file hfile).2
  simp only [Server.locate, h.findFile_eq hfile, howner, h.findClient_eq hactive, hname]

/-! ## An event leaves the other clients alone -/

/-- The entries of one owner, in the order of the registry. -/
def Server.filesOf (server : Server) (clientId : Nat) : List DirectoryFile :=
  server.registry.files.filter fun file => file.ownerId = clientId

/-- The event is about this slot. -/
def Server.Touches (server : Server) (j : Fin maxClients) : ServerEvent → Prop
  | .accept _ _ => server.freeSlot = some j
  | .readable fd _ _ => server.findClientByFd fd = some j

theorem filesOf_dropClient {server : Server} {i : Fin maxClients} {clientId : Nat}
    (hne : (server.clients i).clientId ≠ clientId) :
    (server.dropClient i).filesOf clientId = server.filesOf clientId := by
  show (server.registry.removeOwner (server.clients i).clientId).files.filter _ = _
  rw [Registry.removeOwner_files, List.filter_filter]
  refine List.filter_congr ?_
  intro file _
  by_cases howner : file.ownerId = clientId
  · simp [howner, hne.symm]
  · simp [howner]

theorem filesOf_enter {server : Server} {i : Fin maxClients} {share : ShareFile}
    {registry : Registry}
    (hadd : server.registry.add (server.sharedFile i share) = some registry) (clientId : Nat) :
    (server.enter registry).filesOf clientId =
      server.filesOf clientId ++
        if (server.clients i).clientId = clientId then [server.sharedFile i share] else [] := by
  show registry.files.filter _ = _
  rw [(Registry.add_eq_some hadd).2, List.filter_append]
  split
  · next howner => rw [List.filter_singleton, Server.filesOf, Server.sharedFile]; simp [howner]
  · next howner => rw [List.filter_singleton, Server.filesOf, Server.sharedFile]; simp [howner]

/-- An event on one slot changes no other slot, and no file of an active client
in another slot. -/
theorem effect_other {host : ByteOrder} {server server' : Server} {event : ServerEvent}
    (h : ClientIdentity server) (heffect : Effect host server event server') {j : Fin maxClients}
    (hother : ¬ server.Touches j event) :
    server'.clients j = server.clients j ∧
      ((server.clients j).active = true →
        server'.filesOf (server.clients j).clientId =
          server.filesOf (server.clients j).clientId) := by
  -- an active client shares its id with no other slot
  have hids : ∀ i, i ≠ j → (server.clients j).active = true →
      (server.clients i).clientId ≠ (server.clients j).clientId := by
    intro i hij hactive hsame
    exact hij (h.clientId_inj j i hsame.symm (h.clientId_ne j hactive)).symm
  have hne : ∀ {i}, server.Touches i event → i ≠ j := by
    rintro i htouches rfl
    exact hother htouches
  cases heffect with
  | unchanged => exact ⟨rfl, fun _ => rfl⟩
  | placed _ hfree =>
      exact ⟨Server.place_clients_of_ne _ _ _ _ (hne hfree).symm, fun _ => rfl⟩
  | ended => exact ⟨rfl, fun _ => rfl⟩
  | @dropped _ _ _ i hfind =>
      refine ⟨Server.dropClient_clients_of_ne _ _ (hne hfind).symm, ?_⟩
      intro hactive
      exact filesOf_dropClient (hids i (hne hfind) hactive)
  | @endedDropped _ _ i hfind =>
      refine ⟨Server.dropClient_clients_of_ne _ _ (hne hfind).symm, ?_⟩
      intro hactive
      exact filesOf_dropClient (hids i (hne hfind) hactive)
  | registered hfind =>
      exact ⟨Server.handleRegister_clients_of_ne _ _ _ _ (hne hfind).symm, fun _ => rfl⟩
  | @shared _ _ _ i _ _ hfind _ hadd =>
      refine ⟨rfl, ?_⟩
      intro hactive
      rw [filesOf_enter hadd, if_neg (hids i (hne hfind) hactive), List.append_nil]

end Directory
end PeerShare
