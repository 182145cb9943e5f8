import PeerShare.Directory.Ownership
import PeerShare.Directory.Isolation
import PeerShare.Foundation.Catalogue

/-!
# The directory server is a catalogue

What the server is for, said without slots, descriptors and arrays: clients join and
publish files, files are looked up, and a client that leaves takes its files along.  A
server state is read as a catalogue, and every event of an orderly run is one request to
it, answered on the socket with the bytes of the catalogue's answer.

Orderly means here that nobody shares before registering or registers twice; the
connections themselves may come and go as they like.
-/

namespace PeerShare
namespace Directory

open Foundation Wire

/-- What a member publishes: what a share announces, with the name as it is stored. -/
def DirectoryFile.item (file : DirectoryFile) : ShareFile where
  fileSize := file.fileSize
  hash := file.hash
  filename := file.filename

/-- Where the client of a slot takes requests for its files. -/
def ClientSlot.place (slot : ClientSlot) : SockAddr where
  ip := slot.addr.ip
  port := slot.udpPort

/-- The server, read as a catalogue. -/
def Server.catalogue (server : Server) : Catalogue SockAddr ShareFile where
  place := fun clientId =>
    (server.findClient clientId).map fun i => (server.clients i).place
  entry := fun fileId =>
    (server.registry.findFile fileId).map fun file => (file.ownerId, file.item)
  nextMember := server.nextClientId
  nextEntry := server.nextFileId

/-- An event, the slot its descriptor finds and what the server sent. -/
structure ServedEvent where
  event : ServerEvent
  caller : Option ClientSlot
  replies : List Reply

/-- The slot of the client that an event comes from. -/
def Server.caller (server : Server) : ServerEvent → Option ClientSlot
  | .accept _ _ => none
  | .readable fd _ _ => (server.findClientByFd fd).map server.clients

/-- What happened at the server and a request to the catalogue with its answer say the
same. -/
inductive Speaks (host : ByteOrder) :
    ServedEvent → CatalogueRequest SockAddr ShareFile × CatalogueAnswer SockAddr ShareFile → Prop
  | idle (event : ServerEvent) (caller : Option ClientSlot) :
      Speaks host ⟨event, caller, []⟩ (.idle, .silent)
  | left (fd : Int) (recv : Recv) (room : Bool) (slot : ClientSlot) :
      Speaks host ⟨.readable fd recv room, some slot, []⟩ (.leave slot.clientId, .silent)
  | joined {fd : Int} {data : Bytes} {room : Bool} {slot : ClientSlot} {udpPort : UInt16}
      (member : Nat) (hmessage : readMessage host data = some (.register udpPort)) :
      Speaks host
        ⟨.readable fd (.bytes data) room, some slot,
          [⟨slot.fd, controlMessage host tcpRegisterAck errNone (idImage host member)⟩]⟩
        (.join ⟨slot.addr.ip, udpPort⟩, .joined member)
  | published {fd : Int} {data : Bytes} {room : Bool} {slot : ClientSlot} {share : ShareFile}
      (number : Nat) (hmessage : readMessage host data = some (.shareFile share)) :
      Speaks host
        ⟨.readable fd (.bytes data) room, some slot,
          [⟨slot.fd, controlMessage host tcpShareAck errNone (idImage host number)⟩]⟩
        (.publish slot.clientId
          { share with filename := NameField.strncpy share.filename.bytes }, .published number)
  | refused {fd : Int} {data : Bytes} {room : Bool} {slot : ClientSlot} {share : ShareFile}
      (hmessage : readMessage host data = some (.shareFile share)) :
      Speaks host
        ⟨.readable fd (.bytes data) room, some slot,
          [⟨slot.fd, Server.errorResponse host errInvalidMsg⟩]⟩
        (.publish slot.clientId
          { share with filename := NameField.strncpy share.filename.bytes }, .refused)
  /-- The records of the list, in the order of their numbers. -/
  | browsed {fd : Int} {data : Bytes} {slot : ClientSlot}
      {entries : Nat → Option (Nat × ShareFile)} (files : List DirectoryFile)
      (hmessage : readMessage host data = some .listFiles)
      (hincreasing : files.Pairwise fun file later => file.fileId < later.fileId)
      (hentries : ∀ number entry, entries number = some entry ↔
        ∃ file ∈ files, file.fileId = number ∧ (file.ownerId, file.item) = entry) :
      Speaks host
        ⟨.readable fd (.bytes data) true, some slot,
          [⟨slot.fd,
            controlMessage host tcpFileList errNone (files.flatMap (Server.fileInfo host))⟩]⟩
        (.browse, .listing entries)
  | found {fd : Int} {data : Bytes} {room : Bool} {slot : ClientSlot} {number : Nat}
      (place : SockAddr) (item : ShareFile)
      (hmessage : readMessage host data = some (.requestFile number)) :
      Speaks host
        ⟨.readable fd (.bytes data) room, some slot,
          [⟨slot.fd, controlMessage host tcpFileLocation errNone
            (FileLocation.image host ⟨number, item.fileSize, item.hash, place, item.filename⟩)⟩]⟩
        (.find number, .found place item)
  | missed {fd : Int} {data : Bytes} {room : Bool} {slot : ClientSlot} {number : Nat}
      (hmessage : readMessage host data = some (.requestFile number)) :
      Speaks host
        ⟨.readable fd (.bytes data) room, some slot,
          [⟨slot.fd, Server.errorResponse host errFileNotFound⟩]⟩
        (.find number, .unknown)

/-! ## Reading the state -/

section Reading

variable {server : Server}

theorem place_eq_some_iff (h : ClientIdentity server) {clientId : Nat} {place : SockAddr} :
    server.catalogue.place clientId = some place ↔
      ∃ i, (server.clients i).active = true ∧ (server.clients i).clientId = clientId ∧
        (server.clients i).place = place := by
  show (server.findClient clientId).map _ = some place ↔ _
  constructor
  · intro hplace
    obtain ⟨i, hfind, hhere⟩ := Option.map_eq_some_iff.mp hplace
    have htest := firstSlot_eq_some hfind
    rw [Bool.and_eq_true, beq_iff_eq] at htest
    exact ⟨i, htest.1, htest.2, hhere⟩
  · rintro ⟨i, hactive, rfl, rfl⟩
    rw [h.findClient_eq hactive]
    rfl

theorem entry_eq_some_iff (h : FileIdentity server) {fileId : Nat} {entry : Nat × ShareFile} :
    server.catalogue.entry fileId = some entry ↔
      ∃ file ∈ server.registry.files, file.fileId = fileId ∧
        (file.ownerId, file.item) = entry := by
  show (server.registry.findFile fileId).map _ = some entry ↔ _
  constructor
  · intro hentry
    obtain ⟨file, hfind, hhere⟩ := Option.map_eq_some_iff.mp hentry
    exact ⟨file, List.mem_of_find?_eq_some hfind, by simpa using List.find?_some hfind, hhere⟩
  · rintro ⟨file, hfile, rfl, rfl⟩
    rw [h.findFile_eq hfile]
    rfl

/-- The catalogue holds as many items as the registry has files. -/
theorem ncard_numbers (h : FileIdentity server) :
    server.catalogue.numbers.ncard = server.registry.files.length := by
  have hset : server.catalogue.numbers =
      ((server.registry.files.map DirectoryFile.fileId).toFinset : Set Nat) := by
    ext number
    rw [Finset.mem_coe, List.mem_toFinset, List.mem_map]
    show (server.catalogue.entry number).isSome ↔ _
    rw [Option.isSome_iff_exists]
    constructor
    · rintro ⟨entry, hentry⟩
      obtain ⟨file, hfile, hid, -⟩ := (entry_eq_some_iff h).mp hentry
      exact ⟨file, hfile, hid⟩
    · rintro ⟨file, hfile, hid⟩
      exact ⟨_, (entry_eq_some_iff h).mpr ⟨file, hfile, hid, rfl⟩⟩
  rw [hset, Set.ncard_coe_finset, List.toFinset_card_of_nodup h.fileId_nodup, List.length_map]

/-- A catalogue is given by its two functions and its two counters. -/
theorem catalogue_eq {c : Catalogue SockAddr ShareFile}
    (hplace : ∀ clientId place, server.catalogue.place clientId = some place ↔
      c.place clientId = some place)
    (hentry : ∀ fileId entry, server.catalogue.entry fileId = some entry ↔
      c.entry fileId = some entry)
    (hmember : server.nextClientId = c.nextMember) (hnumber : server.nextFileId = c.nextEntry) :
    server.catalogue = c := by
  have hplaces : server.catalogue.place = c.place :=
    funext fun clientId => Option.ext (hplace clientId)
  have hentries : server.catalogue.entry = c.entry :=
    funext fun fileId => Option.ext (hentry fileId)
  cases c
  simp only at hplaces hentries hmember hnumber
  rw [← hplaces, ← hentries, ← hmember, ← hnumber]
  rfl

end Reading

/-! ## What the changes of the server are to the catalogue -/

section Changes

variable {server : Server} {i : Fin maxClients}

/-- An accepted connection is nobody yet. -/
theorem catalogue_place (h : IdentityInv server) {fd : Int} {addr : SockAddr}
    (hfree : server.freeSlot = some i) (h' : IdentityInv (server.place i fd addr)) :
    (server.place i fd addr).catalogue = server.catalogue := by
  refine catalogue_eq ?_ (fun _ _ => Iff.rfl) rfl rfl
  intro clientId place
  rw [place_eq_some_iff h.toClientIdentity, place_eq_some_iff h'.toClientIdentity]
  have hidle := Server.active_of_freeSlot hfree
  constructor
  · rintro ⟨j, hactive, hid, hhere⟩
    have hj : j ≠ i := by
      rintro rfl
      rw [Server.place_clients_self] at hactive
      cases hactive
    rw [Server.place_clients_of_ne _ _ _ _ hj] at hactive hid hhere
    exact ⟨j, hactive, hid, hhere⟩
  · rintro ⟨j, hactive, hid, hhere⟩
    have hj : j ≠ i := by
      rintro rfl
      rw [hidle] at hactive
      cases hactive
    refine ⟨j, ?_⟩
    rw [Server.place_clients_of_ne _ _ _ _ hj]
    exact ⟨hactive, hid, hhere⟩

/-- A client that is removed leaves, and its files with it. -/
theorem catalogue_dropClient (h : IdentityInv server)
    (hactive : (server.clients i).active = true) (h' : IdentityInv (server.dropClient i)) :
    (server.dropClient i).catalogue = server.catalogue.left (server.clients i).clientId := by
  refine catalogue_eq ?_ ?_ rfl rfl
  · intro clientId place
    rw [place_eq_some_iff h'.toClientIdentity]
    by_cases hown : clientId = (server.clients i).clientId
    · rw [hown, Catalogue.left_place, Function.update_self]
      refine ⟨?_, fun hnone => absurd hnone (by simp)⟩
      rintro ⟨j, hon, hid, -⟩
      have hj : j ≠ i := by
        rintro rfl
        rw [Server.dropClient_clients_self] at hon
        cases hon
      rw [Server.dropClient_clients_of_ne _ _ hj] at hon hid
      exact absurd (h.clientId_inj j i hid (h.clientId_ne j hon)) hj
    · rw [Catalogue.left_place, Function.update_of_ne hown, place_eq_some_iff h.toClientIdentity]
      constructor
      · rintro ⟨j, hon, hid, hhere⟩
        have hj : j ≠ i := by
          rintro rfl
          rw [Server.dropClient_clients_self] at hon
          cases hon
        rw [Server.dropClient_clients_of_ne _ _ hj] at hon hid hhere
        exact ⟨j, hon, hid, hhere⟩
      · rintro ⟨j, hon, hid, hhere⟩
        have hj : j ≠ i := by
          rintro rfl
          exact hown hid.symm
        refine ⟨j, ?_⟩
        rw [Server.dropClient_clients_of_ne _ _ hj]
        exact ⟨hon, hid, hhere⟩
  · intro fileId entry
    rw [entry_eq_some_iff h'.toFileIdentity, Catalogue.left_entry_eq_some,
      entry_eq_some_iff h.toFileIdentity]
    show (∃ file ∈ (server.registry.removeOwner (server.clients i).clientId).files, _) ↔ _
    simp only [Registry.removeOwner_files, List.mem_filter, decide_eq_true_eq]
    constructor
    · rintro ⟨file, ⟨hfile, howner⟩, hid, rfl⟩
      exact ⟨⟨file, hfile, hid, rfl⟩, howner⟩
    · rintro ⟨⟨file, hfile, hid, rfl⟩, howner⟩
      exact ⟨file, ⟨hfile, howner⟩, hid, rfl⟩

/-- A registration joins, under the next number. -/
theorem catalogue_handleRegister (h : IdentityInv server) (host : ByteOrder)
    (hidle : (server.clients i).active = false) (udpPort : UInt16)
    (h' : IdentityInv (server.handleRegister host i udpPort).server) :
    (server.handleRegister host i udpPort).server.catalogue =
      server.catalogue.joined ⟨(server.clients i).addr.ip, udpPort⟩ := by
  have hself := Server.handleRegister_clients_self host server i udpPort
  refine catalogue_eq ?_ (fun _ _ => Iff.rfl) ?_ rfl
  · intro clientId place
    rw [place_eq_some_iff h'.toClientIdentity]
    by_cases hnew : clientId = server.nextClientId
    · subst hnew
      rw [Catalogue.joined_place, show server.catalogue.nextMember = server.nextClientId from rfl,
        Function.update_self, Option.some_inj]
      constructor
      · rintro ⟨j, hon, hid, rfl⟩
        by_cases hj : j = i
        · rw [hj, hself]
          rfl
        · rw [Server.handleRegister_clients_of_ne _ _ _ _ hj] at hid
          exact absurd hid (h.clientId_lt j).ne
      · rintro rfl
        refine ⟨i, ?_⟩
        rw [hself]
        exact ⟨rfl, rfl, rfl⟩
    · rw [Catalogue.joined_place, show server.catalogue.nextMember = server.nextClientId from rfl,
        Function.update_of_ne hnew, place_eq_some_iff h.toClientIdentity]
      constructor
      · rintro ⟨j, hon, hid, hhere⟩
        have hj : j ≠ i := by
          rintro rfl
          rw [hself] at hid
          exact hnew hid.symm
        rw [Server.handleRegister_clients_of_ne _ _ _ _ hj] at hon hid hhere
        exact ⟨j, hon, hid, hhere⟩
      · rintro ⟨j, hon, hid, hhere⟩
        have hj : j ≠ i := by
          rintro rfl
          rw [hidle] at hon
          cases hon
        refine ⟨j, ?_⟩
        rw [Server.handleRegister_clients_of_ne _ _ _ _ hj]
        exact ⟨hon, hid, hhere⟩
  · have hnext := h'.nextClientId_eq
    rw [hnext]
    show server.registered + 1 + 1 = server.nextClientId + 1
    rw [h.nextClientId_eq]

/-- A share that is entered is published, under the next number. -/
theorem catalogue_enter (h : IdentityInv server) {share : ShareFile} {registry : Registry}
    (hadd : server.registry.add (server.sharedFile i share) = some registry)
    (h' : IdentityInv (server.enter registry)) :
    (server.enter registry).catalogue = server.catalogue.published (server.clients i).clientId
      { share with filename := NameField.strncpy share.filename.bytes } := by
  have hfiles := (Registry.add_eq_some hadd).2
  refine catalogue_eq (fun _ _ => Iff.rfl) ?_ rfl ?_
  · intro fileId entry
    rw [entry_eq_some_iff h'.toFileIdentity]
    show (∃ file ∈ registry.files, _) ↔ _
    simp only [hfiles, List.mem_append, List.mem_singleton]
    by_cases hnew : fileId = server.nextFileId
    · subst hnew
      rw [Catalogue.published_entry, show server.catalogue.nextEntry = server.nextFileId from rfl,
        Function.update_self, Option.some_inj]
      constructor
      · rintro ⟨file, hold | rfl, hid, rfl⟩
        · exact absurd hid (h.fileId_lt file hold).ne
        · rfl
      · rintro rfl
        exact ⟨_, .inr rfl, rfl, rfl⟩
    · rw [Catalogue.published_entry, show server.catalogue.nextEntry = server.nextFileId from rfl,
        Function.update_of_ne hnew, entry_eq_some_iff h.toFileIdentity]
      constructor
      · rintro ⟨file, hold | rfl, hid, hhere⟩
        · exact ⟨file, hold, hid, hhere⟩
        · exact absurd hid.symm hnew
      · rintro ⟨file, hold, hid, hhere⟩
        exact ⟨file, .inl hold, hid, hhere⟩
  · have hnext := h'.nextFileId_eq
    rw [hnext]
    show server.shared + 1 + 1 = server.nextFileId + 1
    rw [h.nextFileId_eq]

end Changes

/-! ## One event -/

/-- An orderly event on a descriptor that is nobody's, with what the server sends. -/
def RegularStep (host : ByteOrder) (server : Server) (served : ServedEvent) (server' : Server) :
    Prop :=
  OrderlyStep host server served.event server' ∧ FreshAccept server served.event ∧
    served.caller = server.caller served.event ∧
    served.replies = (server.apply host served.event).replies

/-- What the catalogue can answer to a message that the server has read. -/
def Simulates (host : ByteOrder) (server : Server) (served : ServedEvent) (server' : Server) :
    Prop :=
  ∃ request answer,
    Catalogue.Step maxFiles server.catalogue (request, answer) server'.catalogue ∧
      Speaks host served (request, answer)

section Events

variable {host : ByteOrder} {server : Server} {i : Fin maxClients} {fd : Int}

theorem simulates_idle (event : ServerEvent) (caller : Option ClientSlot) :
    Simulates host server ⟨event, caller, []⟩ server :=
  ⟨.idle, .silent, .idle _, .idle event caller⟩

/-- An active client is a member. -/
theorem place_of_active (h : ClientIdentity server)
    (hactive : (server.clients i).active = true) :
    server.catalogue.place (server.clients i).clientId = some (server.clients i).place :=
  (place_eq_some_iff h).mpr ⟨i, hactive, rfl, rfl⟩

/-- `remove_client`, with whatever the record of ended connections then says. -/
theorem simulates_removeClient (h : IdentityInv server) (recv : Recv) (room : Bool)
    {server' : Server} (hsame : server'.catalogue = (server.removeClient i).catalogue)
    (h' : IdentityInv (server.removeClient i)) :
    Simulates host server ⟨.readable fd recv room, some (server.clients i), []⟩ server' := by
  by_cases hactive : (server.clients i).active = true
  · have hremove : server.removeClient i = server.dropClient i := by
      rw [Server.removeClient, hactive]
      rfl
    rw [hremove] at hsame h'
    refine ⟨.leave (server.clients i).clientId, .silent, ?_, .left fd recv room _⟩
    rw [hsame, catalogue_dropClient h hactive h']
    refine .leave _ ?_
    rw [place_of_active h.toClientIdentity hactive]
    rfl
  · have hremove : server.removeClient i = server := by
      rw [Server.removeClient, if_pos (by simpa using hactive)]
    rw [hremove] at hsame
    refine ⟨.idle, .silent, ?_, .idle _ _⟩
    rw [hsame]
    exact .idle _

theorem simulates_handleRegister (h : IdentityInv server) {data : Bytes} {udpPort : UInt16}
    (hmessage : readMessage host data = some (.register udpPort)) (room : Bool)
    (hidle : (server.clients i).active = false)
    (h' : IdentityInv (server.handleRegister host i udpPort).server) :
    Simulates host server
      ⟨.readable fd (.bytes data) room, some (server.clients i),
        (server.handleRegister host i udpPort).replies⟩
      (server.handleRegister host i udpPort).server := by
  refine ⟨_, _, ?_, .joined server.nextClientId hmessage⟩
  rw [catalogue_handleRegister h host hidle udpPort h']
  exact .join server.catalogue _

theorem simulates_handleShareFile (h : IdentityInv server) {data : Bytes} {share : ShareFile}
    (hmessage : readMessage host data = some (.shareFile share)) (room : Bool)
    (horderly : (server.clients i).active = true ∨ server.registry.files.length = maxFiles)
    (h' : IdentityInv (server.handleShareFile host i share).server) :
    Simulates host server
      ⟨.readable fd (.bytes data) room, some (server.clients i),
        (server.handleShareFile host i share).replies⟩
      (server.handleShareFile host i share).server := by
  cases hadd : server.registry.add (server.sharedFile i share) with
  | none =>
      have hfull : server.registry.files.length = maxFiles := by
        rw [Registry.add] at hadd
        split at hadd
        · cases hadd
        · next hroom => exact le_antisymm server.registry.length_le (not_lt.mp hroom)
      simp only [Server.handleShareFile, hadd]
      refine ⟨_, _, ?_, .refused hmessage⟩
      exact .refuse _ _ _ ((ncard_numbers h.toFileIdentity).trans hfull)
  | some registry =>
      have hroom := (Registry.add_eq_some hadd).1
      have hactive : (server.clients i).active = true :=
        horderly.resolve_right hroom.ne
      simp only [Server.handleShareFile, hadd] at h' ⊢
      refine ⟨_, _, ?_, .published server.nextFileId hmessage⟩
      rw [catalogue_enter h hadd h']
      refine .publish server.catalogue _ ?_ ?_
      · rw [place_of_active h.toClientIdentity hactive]
        rfl
      · rw [ncard_numbers h.toFileIdentity]
        exact hroom

theorem simulates_handleListFiles (h : IdentityInv server) {data : Bytes}
    (hmessage : readMessage host data = some .listFiles) (room : Bool) :
    Simulates host server
      ⟨.readable fd (.bytes data) room, some (server.clients i),
        (server.handleListFiles host i room).replies⟩
      (server.handleListFiles host i room).server := by
  cases room with
  | false => exact simulates_idle _ _
  | true =>
      refine ⟨.browse, .listing server.catalogue.entry, .browse _, ?_⟩
      exact .browsed server.registry.files hmessage h.increasing
        fun number entry => entry_eq_some_iff h.toFileIdentity

theorem simulates_handleRequestFile (h : IdentityInv server) (hown : OwnershipInv server)
    {data : Bytes} {fileId : Nat}
    (hmessage : readMessage host data = some (.requestFile fileId)) (room : Bool) :
    Simulates host server
      ⟨.readable fd (.bytes data) room, some (server.clients i),
        (server.handleRequestFile host i fileId).replies⟩
      (server.handleRequestFile host i fileId).server := by
  cases hfind : server.registry.findFile fileId with
  | none =>
      simp only [Server.handleRequestFile, Server.locate, hfind]
      refine ⟨_, _, ?_, .missed hmessage⟩
      refine .miss _ ?_
      show (server.registry.findFile fileId).map _ = none
      rw [hfind]
      rfl
  | some file =>
      have hfile := List.mem_of_find?_eq_some hfind
      have hid : file.fileId = fileId := by
        simpa using List.find?_some hfind
      subst hid
      -- an entry always has its owner at hand, so the third answer does not occur
      obtain ⟨owner, hactive, howner, -⟩ := hown.owned file hfile
      simp only [Server.handleRequestFile, h.locate_eq hactive hfile howner.symm]
      refine ⟨_, _, ?_, .found (server.clients owner).place file.item hmessage⟩
      refine .find _ ((entry_eq_some_iff h.toFileIdentity).mpr ⟨file, hfile, rfl, rfl⟩) ?_
      rw [← howner]
      exact place_of_active h.toClientIdentity hactive

theorem simulates_handle (h : IdentityInv server) (hown : OwnershipInv server) {data : Bytes}
    {message : ClientMessage} (hmessage : readMessage host data = some message) (room : Bool)
    (horderly : OrderlyMessage server i (some message))
    (h' : IdentityInv (server.handle host i message room).server) :
    Simulates host server
      ⟨.readable fd (.bytes data) room, some (server.clients i),
        (server.handle host i message room).replies⟩
      (server.handle host i message room).server := by
  cases message with
  | register udpPort => exact simulates_handleRegister h hmessage room horderly h'
  | shareFile share => exact simulates_handleShareFile h hmessage room horderly h'
  | listFiles => exact simulates_handleListFiles h hmessage room
  | requestFile fileId => exact simulates_handleRequestFile h hown hmessage room
  | unregister => exact simulates_removeClient h _ room rfl h'

/-- Every event of an orderly run is a request to the catalogue. -/
theorem simulates_step {served : ServedEvent} {server' : Server} (h : IdentityInv server)
    (hown : OwnershipInv server) (hstep : RegularStep host server served server')
    (hrange : InRange server') : Simulates host server served server' := by
  obtain ⟨event, caller, replies⟩ := served
  obtain ⟨⟨horderly, -, hserver⟩, hfresh, hcaller, hreplies⟩ := hstep
  simp only at horderly hserver hfresh hcaller hreplies
  subst hserver hcaller hreplies
  have h' := identityInv_effect h (apply_effect host server event) hfresh hrange
  cases event with
  | accept fd addr =>
      simp only [Server.apply, Server.acceptNewClient] at h' ⊢
      by_cases hfd : fd < 0
      · rw [if_pos hfd]
        exact simulates_idle _ _
      · rw [if_neg hfd] at h' ⊢
        cases hfree : server.freeSlot with
        | none => exact simulates_idle _ _
        | some i =>
            rw [hfree] at h'
            refine ⟨.idle, .silent, ?_, .idle _ _⟩
            simp only
            rw [catalogue_place h hfree h']
            exact .idle _
  | readable fd recv room =>
      cases hfind : server.findClientByFd fd with
      | none =>
          simp only [Server.apply, Server.receive, Server.caller, hfind]
          exact simulates_idle _ _
      | some i =>
          simp only [Server.apply, Server.receive, Server.caller, hfind,
            Option.map_some] at h' hrange ⊢
          cases recv with
          | error => exact simulates_removeClient h _ room rfl h'
          | bytes data =>
              cases data with
              | nil =>
                  -- the catalogue does not ask which connections have ended
                  have heffect : Effect host server (.readable fd .error room)
                      (server.removeClient i) := effect_removeClient .error room hfind
                  exact simulates_removeClient h _ room rfl
                    (identityInv_effect h heffect trivial hrange)
              | cons byte data =>
                  simp only [Server.processClientMessage] at h' ⊢
                  have hmessage := horderly i hfind
                  cases hread : readMessage host (byte :: data) with
                  | none => exact simulates_idle _ _
                  | some message =>
                      rw [hread] at hmessage
                      simp only [hread] at h' ⊢
                      exact simulates_handle h hown hread room hmessage h'

theorem inRange_of_regularStep {served : ServedEvent} {server' : Server}
    (hstep : RegularStep host server served server') (hrange : InRange server') :
    InRange server := by
  obtain ⟨⟨-, -, rfl⟩, -⟩ := hstep
  exact inRange_of_effect (apply_effect host server served.event) hrange

theorem regularStep_inv {served : ServedEvent} {server' : Server}
    (h : IdentityInv server ∧ OwnershipInv server)
    (hstep : RegularStep host server served server') (hrange : InRange server') :
    IdentityInv server' ∧ OwnershipInv server' := by
  obtain ⟨horderly, hfresh, -⟩ := hstep
  refine ⟨?_, ownershipInv_step h.2 horderly⟩
  obtain ⟨-, -, rfl⟩ := horderly
  exact identityInv_effect h.1 (apply_effect host server served.event) hfresh hrange

theorem catalogue_initial : Server.initial.catalogue = Catalogue.empty := by
  refine catalogue_eq ?_ (fun _ _ => Iff.rfl) rfl rfl
  intro clientId place
  rw [place_eq_some_iff clientIdentity_initial]
  constructor
  · rintro ⟨i, hactive, -⟩
    cases hactive
  · intro hnone
    cases hnone

/-- The requests of a run, one for each event. -/
theorem requests_of_run {served : List ServedEvent} {server' : Server}
    (h : IdentityInv server ∧ OwnershipInv server)
    (hrun : Run (RegularStep host) server served server') (hrange : InRange server') :
    ∃ requests, Run (Catalogue.Step maxFiles) server.catalogue requests server'.catalogue ∧
      List.Forall₂ (Speaks host) served requests := by
  induction hrun with
  | nil => exact ⟨[], Run.nil _, List.Forall₂.nil⟩
  | snoc hrun hstep ih =>
      have hbefore := inRange_of_regularStep hstep hrange
      obtain ⟨requests, hfirst, hspoken⟩ := ih hbefore
      obtain ⟨hidentity, hownership⟩ := hrun.invariant_within (Q := InRange)
        (fun _ _ _ hstep hrange => inRange_of_regularStep hstep hrange)
        (fun _ _ _ hinv hstep hrange => regularStep_inv hinv hstep hrange) h hbefore
      obtain ⟨request, answer, hlast, hspeaks⟩ :=
        simulates_step hidentity hownership hstep hrange
      exact ⟨requests ++ [(request, answer)], hfirst.snoc hlast,
        List.rel_append hspoken (List.Forall₂.cons hspeaks List.Forall₂.nil)⟩

end Events

/-- What happens at the server when a list of events comes in. -/
def Server.served (host : ByteOrder) : Server → List ServerEvent → List ServedEvent
  | _, [] => []
  | server, event :: events =>
      ⟨event, server.caller event, (server.apply host event).replies⟩ ::
        Server.served host (server.apply host event).server events

theorem served_run {host : ByteOrder} {server : Server} {events : List ServerEvent}
    (hallowed : Run.Allowed
      (fun server event => (Orderly host server event ∧ server.Delivers event) ∧
        FreshAccept server event)
      (fun server event => (server.apply host event).server) server events) :
    Run (RegularStep host) server (server.served host events)
      (events.foldl (fun server event => (server.apply host event).server) server) := by
  induction events generalizing server with
  | nil => exact Run.nil server
  | cons event events ih =>
      obtain ⟨⟨⟨horderly, hdelivers⟩, hfresh⟩, hrest⟩ := hallowed
      have hfirst : RegularStep host server
          ⟨event, server.caller event, (server.apply host event).replies⟩
          (server.apply host event).server :=
        ⟨⟨horderly, hdelivers, rfl⟩, hfresh, rfl, rfl⟩
      exact (Run.single hfirst).append (ih hrest)

end Directory
end PeerShare
