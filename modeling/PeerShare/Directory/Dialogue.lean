import PeerShare.Directory.Network

/-!
# The dialogue between the server and a client

`Dialogue` lists the situations of a connection, one for every message that can
be on its way, and says in each of them how the files listed for the client
relate to the client's own table.  They are the same, except while the
acknowledgement of a share is on its way: then the registry is one entry ahead.

The dialogue speaks of one slot and the files listed for it, so an event on
another slot keeps it for free.
-/

namespace PeerShare
namespace Directory

open Foundation Wire Client

/-! ## Requests reach their handlers -/

section Requests

variable (host : ByteOrder)

theorem readMessage_controlMessage (msgType errorCode : UInt8) {payload : Bytes}
    (hfits : payload.length < 2 ^ 16) :
    readMessage host (controlMessage host msgType errorCode payload) =
      selectMessage host msgType payload.length payload := by
  have hdr := ofImage_controlMessage host msgType errorCode payload
  have hdrop := controlMessage_drop host msgType errorCode payload
  have hlength := controlMessage_length host msgType errorCode payload
  have hdataLen := dataLen_controlMessage host hfits
  unfold readMessage
  rw [if_neg (by omega)]
  simp only [hdr, hdrop, hdataLen]
  rw [if_neg (not_not.mpr hlength.symm)]

theorem readMessage_register (udpPort : UInt16) :
    readMessage host (registerMessage host udpPort) = some (.register udpPort) := by
  have hlength : (registerImage host udpPort.toNat).length = tcpRegisterSize :=
    storeWord_length ..
  have hfield := fieldAt_storeWord_append host 2 (hton host 2 udpPort.toNat) []
  rw [List.append_nil] at hfield
  have hport : udpPort.toNat < 256 ^ 2 := udpPort.toNat_lt
  rw [registerMessage, readMessage_controlMessage host _ _ (by rw [hlength]; decide),
    selectMessage, if_pos rfl, if_pos hlength, registerImage, hfield, hton_mod, ntoh_hton,
    Nat.mod_eq_of_lt hport, UInt16.ofNat_toNat]

theorem readMessage_share {share : ShareFile} (hsize : share.fileSize < 2 ^ 32) :
    readMessage host (shareMessage host share) = some (.shareFile share) := by
  have hlength := ShareFile.image_length host share
  rw [shareMessage, readMessage_controlMessage host _ _ (by rw [hlength]; decide), selectMessage,
    if_neg (by decide), if_pos rfl, if_pos hlength, ShareFile.ofImage_image host share hsize]

theorem readMessage_list : readMessage host (listMessage host) = some .listFiles := by
  rw [listMessage, readMessage_controlMessage host _ _ (by decide), selectMessage,
    if_neg (by decide), if_neg (by decide), if_pos rfl]

theorem readMessage_request {fileId : Nat} (hid : fileId < 2 ^ 32) :
    readMessage host (requestMessage host fileId) = some (.requestFile fileId) := by
  have hlength : (idImage host fileId).length = tcpRequestFileSize := storeWord_length ..
  have hread := readId_idImage host hid
  rw [requestMessage, readMessage_controlMessage host _ _ (by rw [hlength]; decide),
    selectMessage, if_neg (by decide), if_neg (by decide), if_neg (by decide), if_pos rfl,
    if_pos hlength]
  exact congrArg (fun id => some (ClientMessage.requestFile id)) hread

end Requests

/-! ## Situations of a connection -/

/-- An entry of the registry as its owner keeps it. -/
def DirectoryFile.entry (file : DirectoryFile) : SharedFile where
  fileId := file.fileId
  fileSize := file.fileSize
  hash := file.hash
  fileName := file.filename

/-- The files listed for a slot. -/
def Server.listing (server : Server) (i : Fin maxClients) : List SharedFile :=
  if (server.clients i).active then
    (server.filesOf (server.clients i).clientId).map DirectoryFile.entry
  else
    []

/-- A request is on its way. -/
def Asked (peer : Peer) (message : Bytes) : Prop :=
  peer.toServer = [message] ∧ peer.inbox = []

/-- Nothing is on its way to the server, and these bytes are to the client. -/
def Answered (peer : Peer) (stream : Bytes) : Prop :=
  peer.toServer = [] ∧ peer.inbox = stream

/-- The server has the client's registration. -/
def Recorded (peer : Peer) (slot : ClientSlot) : Prop :=
  slot.active = true ∧ slot.udpPort = peer.udpPort ∧ slot.clientId = peer.clientId

/-- The two tables are the same. -/
def Agrees (peer : Peer) (slot : ClientSlot) (listed : List SharedFile) : Prop :=
  Recorded peer slot ∧ listed = peer.table.files

/-- The entry both sides make of a share. -/
def shareEntry (fileId : Nat) (share : ShareFile) (filename : Bytes) : SharedFile where
  fileId := fileId
  fileSize := share.fileSize
  hash := share.hash
  fileName := NameField.strncpy filename

/-- What is known about a connection in each phase of its client. -/
def Dialogue (host : ByteOrder) (peer : Peer) (slot : ClientSlot) (listed : List SharedFile) :
    Prop :=
  match peer.phase with
  | .connected => slot.active = false ∧ peer.table.files = [] ∧ Answered peer []
  | .registering =>
      peer.table.files = [] ∧
        (slot.active = false ∧ Asked peer (registerMessage host peer.udpPort) ∨
          slot.active = true ∧ slot.udpPort = peer.udpPort ∧ listed = [] ∧
            Answered peer
              (controlMessage host tcpRegisterAck errNone (idImage host slot.clientId)))
  | .idle => Agrees peer slot listed ∧ Answered peer []
  | .sharing share filename =>
      share.fileSize < 2 ^ 32 ∧ share.filename = NameField.strncpy filename ∧
        (Agrees peer slot listed ∧ Asked peer (shareMessage host share) ∨
          Agrees peer slot listed ∧
            (∃ errorCode, Answered peer (Server.errorResponse host errorCode)) ∨
          -- here the registry is one entry ahead
          Recorded peer slot ∧ ∃ fileId < 2 ^ 32,
            listed = peer.table.files ++ [shareEntry fileId share filename] ∧
              Answered peer (controlMessage host tcpShareAck errNone (idImage host fileId)))
  | .listing =>
      Agrees peer slot listed ∧
        (Asked peer (listMessage host) ∨ Answered peer [] ∨
          ∃ payload count, payload.length = count * fileInfoSize ∧ count ≤ 1024 ∧
            Answered peer (controlMessage host tcpFileList errNone payload))
  | .locating fileId =>
      Agrees peer slot listed ∧
        (fileId < 2 ^ 32 ∧ Asked peer (requestMessage host fileId) ∨
          (∃ errorCode, Answered peer (Server.errorResponse host errorCode)) ∨
          ∃ location : FileLocation,
            Answered peer (controlMessage host tcpFileLocation errNone (location.image host)))
  | .fetching _ => Agrees peer slot listed ∧ Answered peer []
  | .closed => True

/-- The connection of a client, in its slot of the server. -/
structure LinkedAt (host : ByteOrder) (server : Server) (n : Nat) (peer : Peer)
    (i : Fin maxClients) : Prop where
  conn_eq : (server.clients i).conn = n
  fd_pos : 0 < (server.clients i).fd
  fd_eq : (server.clients i).fd = peer.fd
  addr_eq : (server.clients i).addr = peer.addr
  dialogue : Dialogue host peer (server.clients i) (server.listing i)

/-! ## The client moves -/

section ClientMoves

variable {host : ByteOrder} {peer : Peer} {slot : ClientSlot} {listed : List SharedFile}

theorem dialogue_of_closed (hphase : peer.phase = .closed) : Dialogue host peer slot listed := by
  rw [Dialogue, hphase]
  trivial

theorem Dialogue.register (h : Dialogue host peer slot listed) :
    Dialogue host (peer.register host) slot listed := by
  unfold Peer.register
  split
  · next hphase =>
      rw [Dialogue, hphase] at h
      obtain ⟨hslot, htable, hsent, hinbox⟩ := h
      refine ⟨htable, Or.inl ⟨hslot, ?_, hinbox⟩⟩
      simp [Peer.send, hsent]
  · exact h

theorem Dialogue.command (h : Dialogue host peer slot listed) (sha256 : Bytes → HashBytes)
    (command : Command) : Dialogue host (peer.command host sha256 command) slot listed := by
  unfold Peer.command
  split
  · next hphase =>
      rw [Dialogue, hphase] at h
      obtain ⟨hagrees, hsent, hinbox⟩ := h
      -- the message is alone on its way
      have hasked : ∀ message phase, Asked (peer.send message phase) message := by
        intro message phase
        exact ⟨by simp [Peer.send, hsent], hinbox⟩
      cases command with
      | share filename file =>
          cases hannounce : announce sha256 filename file with
          | none =>
              simp only [hannounce]
              exact dialogue_of_closed rfl
          | some share =>
              simp only [hannounce]
              obtain ⟨hsize, hname⟩ := announce_eq_some hannounce
              exact ⟨hsize, hname, Or.inl ⟨hagrees, hasked _ _⟩⟩
      | list => exact ⟨hagrees, Or.inl (hasked _ _)⟩
      | get fileId => exact ⟨hagrees, Or.inl ⟨fileId.toNat_lt, hasked _ _⟩⟩
      | quit => exact dialogue_of_closed rfl
  · exact h

theorem Dialogue.fetched (h : Dialogue host peer slot listed) (success : Bool) :
    Dialogue host (peer.fetched host success) slot listed := by
  unfold Peer.fetched
  split
  · next hphase =>
      rw [Dialogue, hphase] at h
      cases success with
      | true => exact h
      | false => exact dialogue_of_closed rfl
  · exact h

/-- Reading an answer brings both tables together again. -/
theorem Dialogue.read (h : Dialogue host peer slot listed) (hid : slot.clientId < 2 ^ 32)
    (hlisted : listed.length ≤ maxFiles) (room : Bool) :
    Dialogue host (peer.read host room) slot listed := by
  unfold Peer.read
  split
  · next hphase =>
      have hkeep := h
      rw [Dialogue, hphase] at h
      obtain ⟨htable, ⟨-, -, hinbox⟩ | ⟨hslot, hport, hempty, hsent, hinbox⟩⟩ := h
      · rw [hinbox]
        exact hkeep
      · rw [hinbox, readRegisterAck_done host hid]
        exact ⟨⟨⟨hslot, hport, rfl⟩, hempty.trans htable.symm⟩, hsent, rfl⟩
  · next share filename hphase =>
      have hkeep := h
      rw [Dialogue, hphase] at h
      obtain ⟨-, -, ⟨-, -, hinbox⟩ | ⟨-, errorCode, -, hinbox⟩ |
        ⟨hslot, fileId, hfileId, hentry, hsent, hinbox⟩⟩ := h
      · rw [hinbox]
        exact hkeep
      · rw [hinbox, readShareAck, Server.errorResponse, readReply_error]
        exact dialogue_of_closed rfl
      · rw [hinbox, readShareAck_done host hfileId]
        -- the registry has room for one entry more than the table holds
        have hroom : peer.table.files.length < maxSharedFiles := by
          rw [hentry, List.length_append, List.length_singleton] at hlisted
          exact hlisted
        refine ⟨⟨hslot, ?_⟩, hsent, rfl⟩
        rw [hentry]
        exact (SharedTable.addSharedFile_files hroom _ _ _ _).symm
  · next hphase =>
      have hkeep := h
      rw [Dialogue, hphase] at h
      obtain ⟨hagrees, ⟨-, hinbox⟩ | ⟨-, hinbox⟩ |
        ⟨payload, count, hlength, hcount, hsent, hinbox⟩⟩ := h
      · rw [hinbox]
        exact hkeep
      · rw [hinbox]
        exact hkeep
      · rw [hinbox]
        rcases readFileList_reply host room hlength hcount with hread | hread
        · rw [hread]
          exact dialogue_of_closed rfl
        · rw [hread]
          exact ⟨hagrees, hsent, rfl⟩
  · next fileId hphase =>
      have hkeep := h
      rw [Dialogue, hphase] at h
      obtain ⟨hagrees, ⟨-, -, hinbox⟩ | ⟨errorCode, -, hinbox⟩ |
        ⟨location, hsent, hinbox⟩⟩ := h
      · rw [hinbox]
        exact hkeep
      · rw [hinbox, readFileLocation, Server.errorResponse, readReply_error]
        exact dialogue_of_closed rfl
      · rw [hinbox]
        rcases readFileLocation_reply host fileId location with hread | ⟨answer, hread⟩
        · rw [hread]
          exact dialogue_of_closed rfl
        · rw [hread]
          exact ⟨hagrees, hsent, rfl⟩
  · exact h

end ClientMoves

/-! ## The server answers -/

theorem apply_readable {host : ByteOrder} {server : Server} {fd : Int} {i : Fin maxClients}
    {data : Bytes} {message : ClientMessage} (hfind : server.findClientByFd fd = some i)
    (hmessage : readMessage host data = some message) (room : Bool) :
    server.apply host (.readable fd (.bytes data) room) = server.handle host i message room := by
  cases data with
  | nil => cases hmessage
  | cons byte data =>
      simp only [Server.apply, Server.receive, hfind, Server.processClientMessage, hmessage]

theorem fileInfo_length (host : ByteOrder) (file : DirectoryFile) :
    (Server.fileInfo host file).length = fileInfoSize := by
  simp [Server.fileInfo, file.hash.length_eq, (NameField.strncpy _).length_eq, fileInfoSize]

theorem fileList_length (host : ByteOrder) (files : List DirectoryFile) :
    (files.flatMap (Server.fileInfo host)).length = files.length * fileInfoSize := by
  induction files with
  | nil => rfl
  | cons file files ih =>
      rw [List.flatMap_cons, List.length_append, ih, fileInfo_length, List.length_cons,
        Nat.succ_mul, Nat.add_comm]

/-- Nothing is listed under an id that was just handed out. -/
theorem IdentityInv.filesOf_nextClientId {server : Server} (h : IdentityInv server) :
    server.filesOf server.nextClientId = [] := by
  rw [Server.filesOf, List.filter_eq_nil_iff]
  intro file hfile
  have hlt := h.ownerId_lt file hfile
  simpa using hlt.ne

theorem listing_length_le (server : Server) (i : Fin maxClients) :
    (server.listing i).length ≤ maxFiles := by
  unfold Server.listing
  split
  · rw [List.length_map]
    exact le_trans (List.length_filter_le _ _) server.registry.length_le
  · exact Nat.zero_le _

section Serving

variable {host : ByteOrder} {server : Server} {n : Nat} {peer : Peer} {i : Fin maxClients}

@[simp] theorem answer_phase (replies : List Reply) (pending : List Bytes) :
    (peer.answer replies pending).phase = peer.phase := rfl

/-- One reply on the client's own connection. -/
theorem answer_singleton {fd : Int} (hfd : fd = peer.fd) (bytes : Bytes)
    (hinbox : peer.inbox = []) :
    Answered (peer.answer [⟨fd, bytes⟩] []) bytes := by
  refine ⟨rfl, ?_⟩
  simp [Peer.answer, hfd, hinbox]

/-- The connection stays in its slot; what changes is judged by the dialogue. -/
theorem LinkedAt.move (h : LinkedAt host server n peer i) {server' : Server} {peer' : Peer}
    {slot : ClientSlot} (hslot : server'.clients i = slot)
    (hconn : slot.conn = (server.clients i).conn) (hfd : slot.fd = (server.clients i).fd)
    (haddr : slot.addr = (server.clients i).addr)
    (hpeer : peer'.fd = peer.fd ∧ peer'.addr = peer.addr)
    (hdialogue : Dialogue host peer' slot (server'.listing i)) :
    LinkedAt host server' n peer' i where
  conn_eq := by
    rw [hslot, hconn]
    exact h.conn_eq
  fd_pos := by
    rw [hslot, hfd]
    exact h.fd_pos
  fd_eq := by
    rw [hslot, hfd, hpeer.1]
    exact h.fd_eq
  addr_eq := by
    rw [hslot, haddr, hpeer.2]
    exact h.addr_eq
  dialogue := by
    rw [hslot]
    exact hdialogue

theorem LinkedAt.serve_register (h : LinkedAt host server n peer i)
    (hphase : peer.phase = .registering) (htable : peer.table.files = [])
    (hinbox : peer.inbox = []) (hidentity : IdentityInv server) :
    LinkedAt host (server.handleRegister host i peer.udpPort).server n
      (peer.answer (server.handleRegister host i peer.udpPort).replies []) i := by
  have hself := Server.handleRegister_clients_self host server i peer.udpPort
  have hlisting : (server.handleRegister host i peer.udpPort).server.listing i = [] := by
    rw [Server.listing, hself, if_pos rfl]
    show (server.filesOf server.nextClientId).map _ = []
    rw [hidentity.filesOf_nextClientId, List.map_nil]
  refine h.move hself rfl rfl rfl ⟨rfl, rfl⟩ ?_
  rw [Dialogue, answer_phase, hphase, hlisting]
  exact ⟨htable, Or.inr ⟨rfl, rfl, rfl, answer_singleton h.fd_eq _ hinbox⟩⟩

theorem LinkedAt.serve_share (h : LinkedAt host server n peer i) {share : ShareFile}
    {filename : Bytes} (hphase : peer.phase = .sharing share filename)
    (hsize : share.fileSize < 2 ^ 32) (hname : share.filename = NameField.strncpy filename)
    (hagrees : Agrees peer (server.clients i) (server.listing i)) (hinbox : peer.inbox = [])
    (hid : server.nextFileId < 2 ^ 32) :
    LinkedAt host (server.handleShareFile host i share).server n
      (peer.answer (server.handleShareFile host i share).replies []) i := by
  unfold Server.handleShareFile
  split
  · next hfull =>
      refine h.move rfl rfl rfl rfl ⟨rfl, rfl⟩ ?_
      rw [Dialogue, answer_phase, hphase]
      exact ⟨hsize, hname, Or.inr (Or.inl ⟨hagrees, _, answer_singleton h.fd_eq _ hinbox⟩)⟩
  · next registry hadd =>
      obtain ⟨⟨hactive, hport, hclient⟩, hlisted⟩ := hagrees
      -- the new entry is the last one of its owner
      have hlisting : (server.enter registry).listing i =
          peer.table.files ++ [shareEntry server.nextFileId share filename] := by
        have hentry : (server.sharedFile i share).entry =
            shareEntry server.nextFileId share filename := by
          simp [DirectoryFile.entry, Server.sharedFile, shareEntry, hname]
        rw [Server.listing, if_pos hactive] at hlisted
        rw [Server.listing, if_pos (show ((server.enter registry).clients i).active = true from
          hactive)]
        show ((server.enter registry).filesOf (server.clients i).clientId).map _ = _
        rw [filesOf_enter hadd, if_pos rfl, List.map_append, hlisted, List.map_singleton, hentry]
      refine h.move rfl rfl rfl rfl ⟨rfl, rfl⟩ ?_
      rw [Dialogue, answer_phase, hphase, hlisting]
      exact ⟨hsize, hname, Or.inr (Or.inr ⟨⟨hactive, hport, hclient⟩, _, hid, rfl,
        answer_singleton h.fd_eq _ hinbox⟩)⟩

theorem LinkedAt.serve_list (h : LinkedAt host server n peer i)
    (hphase : peer.phase = .listing)
    (hagrees : Agrees peer (server.clients i) (server.listing i)) (hinbox : peer.inbox = [])
    (room : Bool) :
    LinkedAt host (server.handleListFiles host i room).server n
      (peer.answer (server.handleListFiles host i room).replies []) i := by
  cases room with
  | false =>
      refine h.move rfl rfl rfl rfl ⟨rfl, rfl⟩ ?_
      rw [Dialogue, answer_phase, hphase]
      exact ⟨hagrees, Or.inr (Or.inl
        ⟨rfl, by simp [Peer.answer, Server.handleListFiles, hinbox]⟩)⟩
  | true =>
      refine h.move rfl rfl rfl rfl ⟨rfl, rfl⟩ ?_
      rw [Dialogue, answer_phase, hphase]
      exact ⟨hagrees, Or.inr (Or.inr ⟨_, _, fileList_length host server.registry.files,
        server.registry.length_le, answer_singleton h.fd_eq _ hinbox⟩)⟩

theorem LinkedAt.serve_request (h : LinkedAt host server n peer i) {fileId : Nat}
    (hphase : peer.phase = .locating fileId)
    (hagrees : Agrees peer (server.clients i) (server.listing i)) (hinbox : peer.inbox = []) :
    LinkedAt host (server.handleRequestFile host i fileId).server n
      (peer.answer (server.handleRequestFile host i fileId).replies []) i := by
  unfold Server.handleRequestFile
  cases server.locate fileId with
  | error errorCode =>
      refine h.move rfl rfl rfl rfl ⟨rfl, rfl⟩ ?_
      rw [Dialogue, answer_phase, hphase]
      exact ⟨hagrees, Or.inr (Or.inl ⟨_, answer_singleton h.fd_eq _ hinbox⟩)⟩
  | ok location =>
      refine h.move rfl rfl rfl rfl ⟨rfl, rfl⟩ ?_
      rw [Dialogue, answer_phase, hphase]
      exact ⟨hagrees, Or.inr (Or.inr ⟨location, answer_singleton h.fd_eq _ hinbox⟩)⟩

/-- The server takes a message of a client; only a client that waits has one. -/
theorem LinkedAt.serve (h : LinkedAt host server n peer i) (hliving : peer.phase ≠ .closed)
    (hidentity : IdentityInv server) (hrange : InRange server) {fd : Int}
    (hfind : server.findClientByFd fd = some i) {message : Bytes} {pending : List Bytes}
    (hsent : peer.toServer = message :: pending) (room : Bool) :
    LinkedAt host (server.apply host (.readable fd (.bytes message) room)).server n
      (peer.answer (server.apply host (.readable fd (.bytes message) room)).replies pending)
      i := by
  have hdialogue := h.dialogue
  unfold Dialogue at hdialogue
  -- while an answer is unread no message is left
  have hunanswered : ∀ {stream}, ¬ Answered peer stream := by
    rintro stream ⟨hnone, -⟩
    rw [hnone] at hsent
    cases hsent
  have hhead : ∀ {request}, peer.toServer = [request] → message = request ∧ pending = [] := by
    intro request hasked
    rw [hasked] at hsent
    cases hsent
    exact ⟨rfl, rfl⟩
  split at hdialogue
  · exact absurd hdialogue.2.2 hunanswered
  · next hphase =>
      obtain ⟨htable, ⟨-, hasked, hinbox⟩ | ⟨-, -, -, hanswered⟩⟩ := hdialogue
      · obtain ⟨rfl, rfl⟩ := hhead hasked
        rw [apply_readable hfind (readMessage_register host peer.udpPort)]
        exact h.serve_register hphase htable hinbox hidentity
      · exact absurd hanswered hunanswered
  · exact absurd hdialogue.2 hunanswered
  · next share filename hphase =>
      obtain ⟨hsize, hname, ⟨hagrees, hasked, hinbox⟩ | ⟨-, errorCode, hanswered⟩ |
        ⟨-, fileId, -, -, hanswered⟩⟩ := hdialogue
      · obtain ⟨rfl, rfl⟩ := hhead hasked
        have hid : server.nextFileId < 2 ^ 32 := by
          have hshared := hrange.2
          rw [hidentity.nextFileId_eq]
          omega
        rw [apply_readable hfind (readMessage_share host hsize)]
        exact h.serve_share hphase hsize hname hagrees hinbox hid
      · exact absurd hanswered hunanswered
      · exact absurd hanswered hunanswered
  · next hphase =>
      obtain ⟨hagrees, ⟨hasked, hinbox⟩ | hanswered | ⟨payload, count, -, -, hanswered⟩⟩ :=
        hdialogue
      · obtain ⟨rfl, rfl⟩ := hhead hasked
        rw [apply_readable hfind (readMessage_list host)]
        exact h.serve_list hphase hagrees hinbox room
      · exact absurd hanswered hunanswered
      · exact absurd hanswered hunanswered
  · next fileId hphase =>
      obtain ⟨hagrees, ⟨hid, hasked, hinbox⟩ | ⟨errorCode, hanswered⟩ | ⟨location, hanswered⟩⟩ :=
        hdialogue
      · obtain ⟨rfl, rfl⟩ := hhead hasked
        rw [apply_readable hfind (readMessage_request host hid)]
        exact h.serve_request hphase hagrees hinbox
      · exact absurd hanswered hunanswered
      · exact absurd hanswered hunanswered
  · exact absurd hdialogue.2 hunanswered
  · next hphase => exact absurd hphase hliving

/-- An event on another slot does not touch the connection. -/
theorem LinkedAt.other (h : LinkedAt host server n peer i) (hidentity : IdentityInv server)
    {event : ServerEvent} (hother : ¬ server.Touches i event) :
    LinkedAt host (server.apply host event).server n peer i := by
  obtain ⟨hslot, hfiles⟩ :=
    effect_other hidentity.toClientIdentity (apply_effect host server event) hother
  have hlisting : (server.apply host event).server.listing i = server.listing i := by
    rw [Server.listing, Server.listing, hslot]
    split
    · next hactive => rw [hfiles hactive]
    · rfl
  refine h.move hslot rfl rfl rfl ⟨rfl, rfl⟩ ?_
  rw [hlisting]
  exact h.dialogue

end Serving

end Directory
end PeerShare
