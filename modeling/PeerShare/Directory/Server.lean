import PeerShare.Directory.Registry
import PeerShare.Foundation.LabelledRun
import PeerShare.Foundation.SlotTable

/-!
# The directory server (`server.c`)

A fixed table of client slots and the registry of files.  A slot holds a
connection from `accept` on, but it counts as active only after `TCP_REGISTER`;
a free slot is any slot that is not active.  The handlers ask neither whether
the slot they serve is active nor whether it was registered before.

What the server sends is returned as a list of replies; that a `send` fails is
only reported by the code, never acted upon.

The ghost fields number the connections (`conn`, `accepted`), record the ones
that have ended (`hungUp`) and count the ids handed out.  No handler reads them.
-/

namespace PeerShare
namespace Directory

open Foundation Wire

/-- `MAX_CLIENTS`. -/
def maxClients : Nat := 256

instance : NeZero maxClients := ⟨by decide⟩

/-- `client_t`. -/
structure ClientSlot where
  fd : Int
  clientId : Nat
  addr : SockAddr
  udpPort : UInt16
  active : Bool
  /-- The number of the connection in the slot, 0 if there was none. -/
  conn : Nat
  deriving DecidableEq

/-- The globals of `server.c`. -/
structure Server where
  clients : Fin maxClients → ClientSlot
  registry : Registry
  nextClientId : Nat
  nextFileId : Nat
  numClients : Int
  /-- How many connections were put into a slot. -/
  accepted : Nat
  /-- The connections that the server closed or whose peer did. -/
  hungUp : List Nat
  /-- How many registrations and how many shares were granted. -/
  registered : Nat
  shared : Nat

/-- A message the server hands to `send`, with the descriptor it goes to. -/
structure Reply where
  fd : Int
  bytes : Bytes
  deriving DecidableEq

/-- A handler returns the new state and what it sent. -/
structure ServerResult where
  server : Server
  replies : List Reply

namespace Server

/-- After the `memset` of `main`. -/
def initial : Server where
  clients := fun _ =>
    { fd := 0
      clientId := 0
      addr := ⟨0, 0⟩
      udpPort := 0
      active := false
      conn := 0 }
  registry := Registry.empty
  nextClientId := 1
  nextFileId := 1
  numClients := 0
  accepted := 0
  hungUp := []
  registered := 0
  shared := 0

/-- `find_client`. -/
def findClient (server : Server) (clientId : Nat) : Option (Fin maxClients) :=
  firstSlot (fun slot => slot.active && slot.clientId == clientId) server.clients

/-- `find_client_by_fd`. -/
def findClientByFd (server : Server) (fd : Int) : Option (Fin maxClients) :=
  firstSlot (fun slot => slot.fd == fd && decide (0 < slot.fd)) server.clients

def setSlot (server : Server) (i : Fin maxClients) (slot : ClientSlot) : Server :=
  { server with clients := Function.update server.clients i slot }

/-- A connection has ended. -/
def hangUp (server : Server) (conn : Nat) : Server :=
  { server with hungUp := conn :: server.hungUp }

/-- The part of `remove_client` behind its check: the files of the client go,
its connection is closed and its slot is free again. -/
def dropClient (server : Server) (i : Fin maxClients) : Server :=
  let client := server.clients i
  { server.setSlot i { client with fd := -1, active := false } with
    registry := server.registry.removeOwner client.clientId
    numClients := server.numClients - 1
    hungUp := client.conn :: server.hungUp }

/-- `remove_client`: a slot that is not active is left as it is, descriptor
included. -/
def removeClient (server : Server) (i : Fin maxClients) : Server :=
  if (server.clients i).active = false then server else server.dropClient i

/-- `handle_register`. -/
def handleRegister (host : ByteOrder) (server : Server) (i : Fin maxClients)
    (udpPort : UInt16) : ServerResult :=
  let client := server.clients i
  let clientId := server.nextClientId
  { server :=
      { server.setSlot i
          { client with udpPort := udpPort, clientId := clientId, active := true } with
        nextClientId := (clientId + 1) % 2 ^ 32
        numClients := server.numClients + 1
        registered := server.registered + 1 }
    replies :=
      [⟨client.fd, controlMessage host tcpRegisterAck errNone (idImage host clientId)⟩] }

/-- The header-only `TCP_ERROR` answer. -/
def errorResponse (host : ByteOrder) (errorCode : UInt8) : Bytes :=
  ({ msgType := tcpError, errorCode := errorCode, dataLen := 0 } : TcpHeader).image host

/-- The entry a share writes.  The owner is whatever the slot holds, also when
nobody registered in it. -/
def sharedFile (server : Server) (i : Fin maxClients) (share : ShareFile) : DirectoryFile where
  fileId := server.nextFileId
  fileSize := share.fileSize
  hash := share.hash
  filename := NameField.strncpy share.filename.bytes
  ownerId := (server.clients i).clientId
  sharer := (server.clients i).conn

/-- The state with one more file. -/
def enter (server : Server) (registry : Registry) : Server :=
  { server with
    registry := registry
    nextFileId := (server.nextFileId + 1) % 2 ^ 32
    shared := server.shared + 1 }

/-- `handle_share_file`. -/
def handleShareFile (host : ByteOrder) (server : Server) (i : Fin maxClients)
    (share : ShareFile) : ServerResult :=
  match server.registry.add (server.sharedFile i share) with
  | none => ⟨server, [⟨(server.clients i).fd, errorResponse host errInvalidMsg⟩]⟩
  | some registry =>
      ⟨server.enter registry, [⟨(server.clients i).fd,
        controlMessage host tcpShareAck errNone (idImage host server.nextFileId)⟩]⟩

/-- `infos[i]` of a file list. -/
def fileInfo (host : ByteOrder) (file : DirectoryFile) : Bytes :=
  storeWord host 4 (hton host 4 file.fileId) ++ storeWord host 4 (hton host 4 file.fileSize) ++
    file.hash.bytes ++ [1] ++ (NameField.strncpy file.filename.bytes).bytes

/-- `handle_list_files`; `room` is whether `malloc` has room for the answer.
The 16-bit length field keeps the low half of a long list's length. -/
def handleListFiles (host : ByteOrder) (server : Server) (i : Fin maxClients)
    (room : Bool) : ServerResult :=
  if room = false then
    ⟨server, []⟩
  else
    ⟨server, [⟨(server.clients i).fd,
      controlMessage host tcpFileList errNone
        (server.registry.files.flatMap (fileInfo host))⟩]⟩

/-- The location a request is answered with, or the error. -/
def locate (server : Server) (fileId : Nat) : Except UInt8 FileLocation :=
  match server.registry.findFile fileId with
  | none => .error errFileNotFound
  | some file =>
      match server.findClient file.ownerId with
      | none => .error errNoPeers
      | some owner =>
          .ok
            { fileId := file.fileId
              fileSize := file.fileSize
              hash := file.hash
              peer :=
                { ip := (server.clients owner).addr.ip
                  port := (server.clients owner).udpPort }
              filename := NameField.strncpy file.filename.bytes }

/-- `handle_request_file`. -/
def handleRequestFile (host : ByteOrder) (server : Server) (i : Fin maxClients)
    (fileId : Nat) : ServerResult :=
  match server.locate fileId with
  | .error errorCode => ⟨server, [⟨(server.clients i).fd, errorResponse host errorCode⟩]⟩
  | .ok location =>
      ⟨server, [⟨(server.clients i).fd,
        controlMessage host tcpFileLocation errNone (location.image host)⟩]⟩

/-- `handle_unregister`. -/
def handleUnregister (server : Server) (i : Fin maxClients) : ServerResult :=
  ⟨server.removeClient i, []⟩

end Server

/-! ## Messages and events -/

/-- A message that reaches a handler. -/
inductive ClientMessage where
  | register (udpPort : UInt16)
  | shareFile (share : ShareFile)
  | listFiles
  | requestFile (fileId : Nat)
  | unregister
  deriving DecidableEq

/-- The `switch` of `process_client_message`.  Two of the five message types are
not asked for their length. -/
def selectMessage (host : ByteOrder) (msgType : UInt8) (dataLen : Nat) (payload : Bytes) :
    Option ClientMessage :=
  if msgType = tcpRegister then
    if dataLen = tcpRegisterSize then
      some (.register (UInt16.ofNat (ntoh host 2 (fieldAt host payload 0 2))))
    else
      none
  else if msgType = tcpShareFile then
    if dataLen = tcpShareFileSize then
      some (.shareFile (ShareFile.ofImage host payload))
    else
      none
  else if msgType = tcpListFiles then
    some .listFiles
  else if msgType = tcpRequestFile then
    if dataLen = tcpRequestFileSize then
      some (.requestFile (ntoh host 4 (fieldAt host payload 0 4)))
    else
      none
  else if msgType = tcpUnregister then
    some .unregister
  else
    none

/-- The checks of `process_client_message`, up to the choice of the handler. -/
def readMessage (host : ByteOrder) (data : Bytes) : Option ClientMessage :=
  if data.length < tcpHeaderSize then
    none
  else
    let hdr := TcpHeader.ofImage host data
    let dataLen := ntoh host 2 hdr.dataLen
    if tcpHeaderSize + dataLen ≠ data.length then
      none
    else
      selectMessage host hdr.msgType dataLen (data.drop tcpHeaderSize)

/-- What `recv` returned: an error, or bytes; no bytes mean the end of the
stream. -/
inductive Recv where
  | error
  | bytes (data : Bytes)
  deriving DecidableEq

/-- The events of the main loop: a connection on the listening socket with what
`accept` returned, or a readable client socket with what `recv` (and a possible
`malloc`) returned. -/
inductive ServerEvent where
  | accept (fd : Int) (addr : SockAddr)
  | readable (fd : Int) (recv : Recv) (room : Bool)

namespace Server

/-- The handlers behind the `switch`. -/
def handle (host : ByteOrder) (server : Server) (i : Fin maxClients)
    (message : ClientMessage) (room : Bool) : ServerResult :=
  match message with
  | .register udpPort => server.handleRegister host i udpPort
  | .shareFile share => server.handleShareFile host i share
  | .listFiles => server.handleListFiles host i room
  | .requestFile fileId => server.handleRequestFile host i fileId
  | .unregister => server.handleUnregister i

/-- `process_client_message`. -/
def processClientMessage (host : ByteOrder) (server : Server) (i : Fin maxClients)
    (data : Bytes) (room : Bool) : ServerResult :=
  match readMessage host data with
  | none => ⟨server, []⟩
  | some message => server.handle host i message room

/-- The slot `accept_new_client` takes: the first that is not active. -/
def freeSlot (server : Server) : Option (Fin maxClients) :=
  firstSlot (fun slot => !slot.active) server.clients

/-- A connection moves into a slot; the client id of the slot's last client
stays. -/
def place (server : Server) (i : Fin maxClients) (fd : Int) (addr : SockAddr) : Server :=
  { server.setSlot i
      { server.clients i with
        fd := fd
        addr := addr
        active := false
        conn := server.accepted + 1 } with
    accepted := server.accepted + 1 }

/-- `accept_new_client`; `fd` is what `accept` returned. -/
def acceptNewClient (server : Server) (fd : Int) (addr : SockAddr) : Server :=
  if fd < 0 then
    server
  else
    match server.freeSlot with
    | none => server
    | some i => server.place i fd addr

/-- The branch of the main loop for a readable client socket. -/
def receive (host : ByteOrder) (server : Server) (fd : Int) (recv : Recv) (room : Bool) :
    ServerResult :=
  match server.findClientByFd fd with
  | none => ⟨server, []⟩
  | some i =>
      match recv with
      | .error => ⟨server.removeClient i, []⟩
      | .bytes [] => ⟨(server.removeClient i).hangUp (server.clients i).conn, []⟩
      | .bytes (byte :: data) => server.processClientMessage host i (byte :: data) room

def apply (host : ByteOrder) (server : Server) (event : ServerEvent) : ServerResult :=
  match event with
  | .accept fd addr => ⟨server.acceptNewClient fd addr, []⟩
  | .readable fd recv room => server.receive host fd recv room

/-- The client sockets an iteration of the main loop polls. -/
def pollFds (server : Server) : List Int :=
  ((List.finRange maxClients).map fun i => (server.clients i).fd).filter fun fd => 0 < fd

/-- The client sockets of an iteration, in the order of the poll array. -/
def serveClients (host : ByteOrder) (readiness : Int → Option (Recv × Bool)) :
    List Int → ServerResult → ServerResult
  | [], result => result
  | fd :: fds, result =>
      match readiness fd with
      | none => serveClients host readiness fds result
      | some (recv, room) =>
          let next := result.server.receive host fd recv room
          serveClients host readiness fds ⟨next.server, result.replies ++ next.replies⟩

/-- One iteration of the main loop.  The sockets to read are those polled, so
a connection accepted here is first read in the next iteration. -/
def mainIteration (host : ByteOrder) (server : Server) (accepted : Option (Int × SockAddr))
    (readiness : Int → Option (Recv × Bool)) : ServerResult :=
  let ready := match accepted with
    | none => server
    | some (fd, addr) => server.acceptNewClient fd addr
  serveClients host readiness server.pollFds ⟨ready, []⟩

/-- What a socket can deliver: a read fills at most the buffer, and a stream
that has ended delivers nothing more. -/
def Delivers (server : Server) (event : ServerEvent) : Prop :=
  match event with
  | .accept _ _ => True
  | .readable _ .error _ => True
  | .readable fd (.bytes data) _ =>
      data.length ≤ 4096 ∧
        ∀ i, server.findClientByFd fd = some i → (server.clients i).conn ∈ server.hungUp →
          data = []

instance (server : Server) : (event : ServerEvent) → Decidable (server.Delivers event)
  | .accept _ _ => isTrue trivial
  | .readable _ .error _ => isTrue trivial
  | .readable fd (.bytes data) _ =>
      inferInstanceAs (Decidable (data.length ≤ 4096 ∧
        ∀ i, server.findClientByFd fd = some i → (server.clients i).conn ∈ server.hungUp →
          data = []))

end Server

/-- One event handled by the server. -/
def ServerStep (host : ByteOrder) (server : Server) (event : ServerEvent)
    (server' : Server) : Prop :=
  server' = (server.apply host event).server

/-- An event as the sockets can deliver it. -/
def DeliveredStep (host : ByteOrder) (server : Server) (event : ServerEvent)
    (server' : Server) : Prop :=
  server.Delivers event ∧ ServerStep host server event server'

theorem serveClients_run (host : ByteOrder) (readiness : Int → Option (Recv × Bool))
    (fds : List Int) (result : ServerResult) :
    ∃ events, Run (ServerStep host) result.server events
      (Server.serveClients host readiness fds result).server := by
  induction fds generalizing result with
  | nil => exact ⟨[], Run.nil _⟩
  | cons fd fds ih =>
      rw [Server.serveClients]
      split
      · exact ih result
      · next recv room _ =>
          obtain ⟨events, hrest⟩ := ih
            ⟨(result.server.receive host fd recv room).server,
              result.replies ++ (result.server.receive host fd recv room).replies⟩
          have hfirst : ServerStep host result.server (.readable fd recv room)
              (result.server.receive host fd recv room).server := rfl
          exact ⟨_, (Run.single hfirst).append hrest⟩

/-- An iteration of the main loop is a run of events. -/
theorem mainIteration_run (host : ByteOrder) (server : Server)
    (accepted : Option (Int × SockAddr)) (readiness : Int → Option (Recv × Bool)) :
    ∃ events, Run (ServerStep host) server events
      (server.mainIteration host accepted readiness).server := by
  cases accepted with
  | none => exact serveClients_run host readiness server.pollFds ⟨server, []⟩
  | some connection =>
      rcases connection with ⟨fd, addr⟩
      obtain ⟨events, hrest⟩ := serveClients_run host readiness server.pollFds
        ⟨server.acceptNewClient fd addr, []⟩
      have hfirst : ServerStep host server (.accept fd addr)
          (server.acceptNewClient fd addr) := rfl
      exact ⟨_, (Run.single hfirst).append hrest⟩

/-! ## What an event can do -/

/-- Everything an event does to the state, with what was checked on the way. -/
inductive Effect (host : ByteOrder) (server : Server) : ServerEvent → Server → Prop
  | unchanged (event : ServerEvent) : Effect host server event server
  | placed {fd : Int} {addr : SockAddr} {i : Fin maxClients} (hfd : 0 ≤ fd)
      (hfree : server.freeSlot = some i) :
      Effect host server (.accept fd addr) (server.place i fd addr)
  | ended {fd : Int} {room : Bool} {i : Fin maxClients}
      (hfind : server.findClientByFd fd = some i) (hidle : (server.clients i).active = false) :
      Effect host server (.readable fd (.bytes []) room)
        (server.hangUp (server.clients i).conn)
  | dropped {fd : Int} {recv : Recv} {room : Bool} {i : Fin maxClients}
      (hfind : server.findClientByFd fd = some i) (hactive : (server.clients i).active = true) :
      Effect host server (.readable fd recv room) (server.dropClient i)
  | endedDropped {fd : Int} {room : Bool} {i : Fin maxClients}
      (hfind : server.findClientByFd fd = some i) (hactive : (server.clients i).active = true) :
      Effect host server (.readable fd (.bytes []) room)
        ((server.dropClient i).hangUp (server.clients i).conn)
  | registered {fd : Int} {data : Bytes} {room : Bool} {i : Fin maxClients} {udpPort : UInt16}
      (hfind : server.findClientByFd fd = some i)
      (hmessage : readMessage host data = some (.register udpPort)) :
      Effect host server (.readable fd (.bytes data) room)
        (server.handleRegister host i udpPort).server
  | shared {fd : Int} {data : Bytes} {room : Bool} {i : Fin maxClients} {share : ShareFile}
      {registry : Registry} (hfind : server.findClientByFd fd = some i)
      (hmessage : readMessage host data = some (.shareFile share))
      (hadd : server.registry.add (server.sharedFile i share) = some registry) :
      Effect host server (.readable fd (.bytes data) room) (server.enter registry)

theorem effect_removeClient {host : ByteOrder} {server : Server} {fd : Int}
    {i : Fin maxClients} (recv : Recv) (room : Bool)
    (hfind : server.findClientByFd fd = some i) :
    Effect host server (.readable fd recv room) (server.removeClient i) := by
  unfold Server.removeClient
  split
  · exact Effect.unchanged _
  · next hactive => exact Effect.dropped hfind (by simpa using hactive)

theorem effect_handle {host : ByteOrder} {server : Server} {fd : Int} {i : Fin maxClients}
    {data : Bytes} {message : ClientMessage} (room : Bool)
    (hfind : server.findClientByFd fd = some i) (hmessage : readMessage host data = some message) :
    Effect host server (.readable fd (.bytes data) room)
      (server.handle host i message room).server := by
  cases message with
  | register udpPort => exact Effect.registered hfind hmessage
  | shareFile share =>
      simp only [Server.handle, Server.handleShareFile]
      split
      · exact Effect.unchanged _
      · next hadd => exact Effect.shared hfind hmessage hadd
  | listFiles =>
      simp only [Server.handle, Server.handleListFiles]
      split <;> exact Effect.unchanged _
  | requestFile fileId =>
      simp only [Server.handle, Server.handleRequestFile]
      split <;> exact Effect.unchanged _
  | unregister => exact effect_removeClient _ room hfind

theorem apply_effect (host : ByteOrder) (server : Server) (event : ServerEvent) :
    Effect host server event (server.apply host event).server := by
  cases event with
  | accept fd addr =>
      simp only [Server.apply, Server.acceptNewClient]
      split
      · exact Effect.unchanged _
      · next hfd =>
          split
          · exact Effect.unchanged _
          · next hfree => exact Effect.placed (Int.not_lt.mp hfd) hfree
  | readable fd recv room =>
      simp only [Server.apply, Server.receive]
      split
      · exact Effect.unchanged _
      · next i hfind =>
          rcases recv with _ | data
          · exact effect_removeClient _ room hfind
          · cases data with
            | nil =>
                simp only [Server.removeClient]
                split
                · next hidle => exact Effect.ended hfind hidle
                · next hactive => exact Effect.endedDropped hfind (by simpa using hactive)
            | cons byte data =>
                simp only [Server.processClientMessage]
                split
                · exact Effect.unchanged _
                · next hmessage => exact effect_handle room hfind hmessage

/-! ## The slot an event writes -/

namespace Server

variable (host : ByteOrder) (server : Server) (i : Fin maxClients)

@[simp] theorem place_clients_self (fd : Int) (addr : SockAddr) :
    (server.place i fd addr).clients i =
      { server.clients i with
        fd := fd
        addr := addr
        active := false
        conn := server.accepted + 1 } :=
  Function.update_self ..

@[simp] theorem place_clients_of_ne (fd : Int) (addr : SockAddr) {j : Fin maxClients}
    (hj : j ≠ i) : (server.place i fd addr).clients j = server.clients j :=
  Function.update_of_ne hj ..

@[simp] theorem dropClient_clients_self :
    (server.dropClient i).clients i = { server.clients i with fd := -1, active := false } :=
  Function.update_self ..

@[simp] theorem dropClient_clients_of_ne {j : Fin maxClients} (hj : j ≠ i) :
    (server.dropClient i).clients j = server.clients j :=
  Function.update_of_ne hj ..

@[simp] theorem handleRegister_clients_self (udpPort : UInt16) :
    (server.handleRegister host i udpPort).server.clients i =
      { server.clients i with
        udpPort := udpPort
        clientId := server.nextClientId
        active := true } :=
  Function.update_self ..

@[simp] theorem handleRegister_clients_of_ne (udpPort : UInt16) {j : Fin maxClients}
    (hj : j ≠ i) :
    (server.handleRegister host i udpPort).server.clients j = server.clients j :=
  Function.update_of_ne hj ..

variable {server i}

/-- A slot that is found has an open descriptor. -/
theorem fd_of_findClientByFd {fd : Int} (hfind : server.findClientByFd fd = some i) :
    (server.clients i).fd = fd ∧ 0 < (server.clients i).fd := by
  have htest := firstSlot_eq_some hfind
  simpa using htest

/-- A location is that of an entry with the requested id. -/
theorem locate_eq_ok {fileId : Nat} {location : FileLocation}
    (hlocate : server.locate fileId = .ok location) :
    ∃ file ∈ server.registry.files, file.fileId = fileId ∧ location.fileId = fileId ∧
      location.fileSize = file.fileSize ∧ location.hash = file.hash ∧
      location.filename = NameField.strncpy file.filename.bytes := by
  unfold locate at hlocate
  split at hlocate
  · cases hlocate
  · next file hfind =>
      have hid : file.fileId = fileId := by
        simpa using List.find?_some hfind
      split at hlocate
      · cases hlocate
      · cases hlocate
        exact ⟨file, List.mem_of_find?_eq_some hfind, hid, hid, rfl, rfl, rfl⟩

theorem active_of_freeSlot (hfree : server.freeSlot = some i) :
    (server.clients i).active = false := by
  have htest := firstSlot_eq_some hfree
  simpa using htest

end Server
end Directory
end PeerShare
