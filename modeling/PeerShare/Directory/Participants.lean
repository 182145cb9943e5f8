import PeerShare.Directory.Waiting

/-!
# A client on its connection

`Situation` says for each phase of a client what may be on its way in both
directions.  A client that shares is told the id of its own registration, and a
client that asks for a file is told what the registry holds.

A client that failed sends `TCP_UNREGISTER` behind whatever is left of its last
message.  `ShareSafe` is what remains true of such a stream: the only share on
it is the one for the bytes read last.
-/

namespace PeerShare
namespace Directory

open Foundation Wire Client

/-! ## Situations of a client -/

/-- The share is the one for these contents. -/
def Announces (sha256 : Bytes → HashBytes) (share : ShareFile) (contents : Bytes) : Prop :=
  share.fileSize = contents.length ∧ share.fileSize < 2 ^ 32 ∧ share.hash = sha256 contents

/-- The id was given out, to a file with this hash if `share` asked for it. -/
def Backed (sha256 : Bytes → HashBytes) (registrations : List Registration) (fileId : Nat)
    (hash : HashBytes) : Prop :=
  ∃ registration ∈ registrations, registration.fileId = fileId ∧
    ∀ contents, registration.source = some contents →
      hash = sha256 contents ∧ registration.fileSize = contents.length

theorem Backed.mono {sha256 : Bytes → HashBytes} {registrations registrations' : List Registration}
    {fileId : Nat} {hash : HashBytes} (h : Backed sha256 registrations fileId hash)
    (hsub : registrations ⊆ registrations') : Backed sha256 registrations' fileId hash := by
  obtain ⟨registration, hmem, hfacts⟩ := h
  exact ⟨registration, hsub hmem, hfacts⟩

/-- Nothing is on its way in either direction. -/
def Quiet (peer : Peer) : Prop := peer.stream = [] ∧ peer.inbox = []

/-! ### The answers a client can wait for -/

section Genuine

variable (host : ByteOrder)

def GenuineRegisterAck (inbox : Bytes) : Prop :=
  ∃ clientId, inbox = controlMessage host tcpRegisterAck errNone (idImage host clientId)

/-- The acknowledgement names the registration made for these contents. -/
def GenuineShareAck (registrations : List Registration) (share : ShareFile) (contents : Bytes)
    (inbox : Bytes) : Prop :=
  ∃ fileId < 2 ^ 32, ⟨fileId, share.fileSize, some contents⟩ ∈ registrations ∧
    inbox = controlMessage host tcpShareAck errNone (idImage host fileId)

def GenuineFileList (inbox : Bytes) : Prop :=
  ∃ (payload : Bytes) (count : Nat), payload.length = count * fileInfoSize ∧ count ≤ maxFiles ∧
    inbox = controlMessage host tcpFileList errNone payload

def GenuineLocation (sha256 : Bytes → HashBytes) (registrations : List Registration)
    (inbox : Bytes) : Prop :=
  ∃ location : FileLocation, location.fileId < 2 ^ 32 ∧ location.fileSize < 2 ^ 32 ∧
    Backed sha256 registrations location.fileId location.hash ∧
    inbox = controlMessage host tcpFileLocation errNone (location.image host)

end Genuine

/-- What is known about a client in each of its phases. -/
def Situation (host : ByteOrder) (sha256 : Bytes → HashBytes) (registrations : List Registration)
    (participant : Participant) : Prop :=
  let peer := participant.peer
  match peer.phase with
  | .connected => Quiet peer
  | .registering =>
      Waiting (registerMessage host peer.udpPort) tcpRegisterAck (GenuineRegisterAck host)
        peer.stream peer.inbox
  | .idle => Quiet peer
  | .sharing share _ =>
      Announces sha256 share participant.contents ∧
        Waiting (shareMessage host share) tcpShareAck
          (GenuineShareAck host registrations share participant.contents) peer.stream peer.inbox
  | .listing =>
      Waiting (listMessage host) tcpFileList (GenuineFileList host) peer.stream peer.inbox
  | .locating fileId =>
      fileId < 2 ^ 32 ∧
        Waiting (requestMessage host fileId) tcpFileLocation
          (GenuineLocation host sha256 registrations) peer.stream peer.inbox
  | .fetching location => Quiet peer ∧ Backed sha256 registrations location.fileId location.hash
  | .closed => True

/-- A `TCP_UNREGISTER` behind these bytes does not make them as long as a
share. -/
def Short (stream : Bytes) : Prop :=
  stream.length + tcpHeaderSize < tcpHeaderSize + tcpShareFileSize

theorem short_nil : Short [] := by
  unfold Short
  norm_num [tcpShareFileSize]

/-- The stream is too short for a share, or it is the share of what was read
last. -/
def ShareSafe (host : ByteOrder) (sha256 : Bytes → HashBytes) (hashed : List Bytes)
    (participant : Participant) : Prop :=
  participant.peer.stream.length < tcpHeaderSize + tcpShareFileSize ∨
    participant.contents ∈ hashed ∧
      ∃ share, Announces sha256 share participant.contents ∧
        participant.peer.stream = shareMessage host share

/-- A client and its connection. -/
structure ParticipantInv (host : ByteOrder) (sha256 : Bytes → HashBytes)
    (registrations : List Registration) (hashed : List Bytes) (participant : Participant) :
    Prop where
  situation : Situation host sha256 registrations participant
  safe : ShareSafe host sha256 hashed participant

section Moves

variable {host : ByteOrder} {sha256 : Bytes → HashBytes}
  {registrations registrations' : List Registration} {hashed hashed' : List Bytes}
  {participant : Participant}

/-- The record only grows. -/
theorem ParticipantInv.mono
    (h : ParticipantInv host sha256 registrations hashed participant)
    (hregistrations : registrations ⊆ registrations') (hhashed : hashed ⊆ hashed') :
    ParticipantInv host sha256 registrations' hashed' participant := by
  obtain ⟨hsituation, hsafe⟩ := h
  constructor
  · unfold Situation at hsituation ⊢
    simp only at hsituation ⊢
    cases hphase : participant.peer.phase with
    | sharing share filename =>
        rw [hphase] at hsituation
        refine ⟨hsituation.1, hsituation.2.mono ?_⟩
        rintro inbox ⟨fileId, hid, hmem, hinbox⟩
        exact ⟨fileId, hid, hregistrations hmem, hinbox⟩
    | locating fileId =>
        rw [hphase] at hsituation
        refine ⟨hsituation.1, hsituation.2.mono ?_⟩
        rintro inbox ⟨location, hid, hsize, hbacked, hinbox⟩
        exact ⟨location, hid, hsize, hbacked.mono hregistrations, hinbox⟩
    | fetching location =>
        rw [hphase] at hsituation
        exact ⟨hsituation.1, hsituation.2.mono hregistrations⟩
    | _ =>
        rw [hphase] at hsituation
        exact hsituation
  · rcases hsafe with hshort | ⟨hmem, hshare⟩
    · exact Or.inl hshort
    · exact Or.inr ⟨hhashed hmem, hshare⟩

/-- A client that is gone is judged by what it left on the connection. -/
theorem ParticipantInv.of_closed (hclosed : participant.peer.phase = .closed)
    (hsafe : ShareSafe host sha256 hashed participant) :
    ParticipantInv host sha256 registrations hashed participant := by
  refine ⟨?_, hsafe⟩
  simp only [Situation, hclosed]

@[simp] theorem stream_send (peer : Peer) (message : Bytes) (phase : ClientPhase) :
    (peer.send message phase).stream = peer.stream ++ message := by
  simp [Peer.stream, Peer.send]

/-- What is sent behind a share that failed does not make up for it. -/
theorem ParticipantInv.quit
    (hshort : Short participant.peer.stream) :
    ParticipantInv host sha256 registrations hashed
      { participant with peer := participant.peer.quit host } := by
  refine .of_closed rfl (Or.inl ?_)
  show (participant.peer.send (unregisterMessage host) .closed).stream.length < _
  rw [stream_send, List.length_append, unregisterMessage, controlMessage_length]
  exact hshort

/-- A message sent on a quiet connection is alone on its way. -/
theorem waiting_send {peer : Peer} (hquiet : Quiet peer) (message : Bytes) (phase : ClientPhase)
    (expected : UInt8) (Genuine : Bytes → Prop) :
    Waiting message expected Genuine (peer.send message phase).stream
      (peer.send message phase).inbox := by
  have hinbox : (peer.send message phase).inbox = [] := hquiet.2
  rw [stream_send, hquiet.1, hinbox]
  exact .asked

theorem shareSafe_send (hquiet : Quiet participant.peer) {message : Bytes}
    (phase : ClientPhase) (hshort : message.length < tcpHeaderSize + tcpShareFileSize) :
    ShareSafe host sha256 hashed
      { participant with peer := participant.peer.send message phase } := by
  left
  rw [stream_send, hquiet.1]
  exact hshort

theorem ParticipantInv.register
    (h : ParticipantInv host sha256 registrations hashed participant) :
    ParticipantInv host sha256 registrations hashed
      { participant with peer := participant.peer.register host } := by
  unfold Peer.register
  split
  · next hphase =>
      obtain ⟨hsituation, -⟩ := h
      simp only [Situation, hphase] at hsituation
      exact ⟨waiting_send hsituation _ _ _ _,
        shareSafe_send hsituation _ (registerMessage_short host _)⟩
  · exact h

/-- What `announce` puts into a share. -/
theorem announces_of_announce {filename contents : Bytes} {share : ShareFile}
    (hannounce : announce sha256 filename (some contents) = some share) :
    Announces sha256 share contents := by
  have hsize := (announce_eq_some hannounce).1
  unfold announce at hannounce
  simp only at hannounce
  split at hannounce
  · cases hannounce
  · cases hannounce
    exact ⟨rfl, hsize, rfl⟩

theorem ParticipantInv.command
    (h : ParticipantInv host sha256 registrations hashed participant) (command : Command) :
    ParticipantInv host sha256 registrations
      (hashed ++ (participant.sharing sha256 command).toList)
      (participant.command host sha256 command) := by
  by_cases hphase : participant.peer.phase = .idle
  · obtain ⟨hsituation, -⟩ := h
    simp only [Situation, hphase] at hsituation
    have hshort : Short participant.peer.stream := by
      rw [hsituation.1]
      exact short_nil
    unfold Participant.command Participant.sharing Peer.command
    simp only [hphase]
    cases command with
    | share filename file =>
        cases hannounce : announce sha256 filename file with
        | none =>
            simp only [hannounce, Option.isSome_none, Bool.false_eq_true, if_false,
              Option.getD_none, Option.toList_none, List.append_nil]
            exact .quit hshort
        | some share =>
            simp only [hannounce, Option.isSome_some, if_true]
            cases file with
            | none => cases hannounce
            | some contents =>
                have hshare := announces_of_announce hannounce
                refine ⟨⟨hshare, waiting_send hsituation _ _ _ _⟩,
                  Or.inr ⟨by simp, share, hshare, ?_⟩⟩
                show (participant.peer.send _ _).stream = _
                rw [stream_send, hsituation.1, List.nil_append]
    | list =>
        rw [Option.toList_none, List.append_nil]
        exact ⟨waiting_send hsituation _ _ _ _,
          shareSafe_send hsituation _ (listMessage_short host)⟩
    | get fileId =>
        rw [Option.toList_none, List.append_nil]
        exact ⟨⟨fileId.toNat_lt, waiting_send hsituation _ _ _ _⟩,
          shareSafe_send hsituation _ (requestMessage_short host _)⟩
    | quit =>
        rw [Option.toList_none, List.append_nil]
        exact .quit hshort
  · have hnone : participant.sharing sha256 command = none := by
      unfold Participant.sharing
      split
      · next hidle => exact absurd hidle hphase
      · rfl
    have hsame : participant.command host sha256 command = participant := by
      unfold Participant.command Peer.command
      rw [hnone]
      split
      · next hidle => exact absurd hidle hphase
      · rfl
    rw [hnone, hsame, Option.toList_none, List.append_nil]
    exact h

/-- How a read ends for a client that waits: it blocks, it fails with little on
its way to the server, or it takes a genuine answer as a whole. -/
inductive ReadEnds {α : Type} (stream : Bytes) (P : α → Prop) : ReadOutcome α → Prop
  | blocked : ReadEnds stream P .blocked
  | failed (hshort : Short stream) : ReadEnds stream P .failed
  | done {value : α} (hstream : stream = []) (hvalue : P value) :
      ReadEnds stream P (.done value [])

theorem Waiting.readEnds {message stream inbox : Bytes} {expected : UInt8}
    {Genuine : Bytes → Prop} (h : Waiting message expected Genuine stream inbox)
    (hsize : message.length ≤ tcpHeaderSize + tcpShareFileSize) {α : Type}
    {read : Bytes → ReadOutcome α} {P : α → Prop} (hnil : read [] = .blocked)
    (hwrong : ∀ inbox, Wrong expected inbox → read inbox = .failed)
    (hgenuine : ∀ inbox, Genuine inbox → ReadEnds [] P (read inbox)) :
    ReadEnds stream P (read inbox) := by
  cases h with
  | asked =>
      rw [hnil]
      exact .blocked
  | cut =>
      rw [hnil]
      exact .blocked
  | wrong hcut hinbox =>
      rw [hwrong _ hinbox]
      exact .failed (lt_of_lt_of_le hcut hsize)
  | answered hinbox => exact hgenuine _ hinbox

section Reads

variable {stream inbox : Bytes}

theorem readRegisterAck_ends {udpPort : UInt16}
    (h : Waiting (registerMessage host udpPort) tcpRegisterAck (GenuineRegisterAck host) stream
      inbox) :
    ReadEnds stream (fun _ => True) (readRegisterAck host inbox) := by
  refine h.readEnds (registerMessage_short host _).le rfl ?_ ?_
  · intro inbox hwrong
    rw [readRegisterAck, readReply_wrong hwrong]
    rfl
  · rintro inbox ⟨clientId, rfl⟩
    have hlength : (idImage host clientId).length = tcpRegisterAckSize := storeWord_length ..
    rw [readRegisterAck, readReply_controlMessage host errNone (by decide) hlength (by decide)]
    exact .done rfl trivial

/-- The id that `share` gets is the one of its own registration. -/
theorem readShareAck_ends {share : ShareFile} {contents : Bytes}
    (h : Waiting (shareMessage host share) tcpShareAck
      (GenuineShareAck host registrations share contents) stream inbox) :
    ReadEnds stream (fun fileId => ⟨fileId, share.fileSize, some contents⟩ ∈ registrations)
      (readShareAck host inbox) := by
  refine h.readEnds (shareMessage_length host share).le rfl ?_ ?_
  · intro inbox hwrong
    rw [readShareAck, readReply_wrong hwrong]
    rfl
  · rintro inbox ⟨fileId, hid, hmem, rfl⟩
    rw [readShareAck_done host hid]
    exact .done rfl hmem

theorem readFileList_ends (room : Bool)
    (h : Waiting (listMessage host) tcpFileList (GenuineFileList host) stream inbox) :
    ReadEnds stream (fun _ => True) (readFileList host room inbox) := by
  refine h.readEnds (listMessage_short host).le rfl ?_ ?_
  · rintro inbox ⟨hlength, htype⟩
    have htype' : (TcpHeader.ofImage host inbox).msgType ≠ tcpFileList := htype
    unfold readFileList
    simp only [if_neg (not_lt.mpr hlength), if_pos htype']
    split <;> rfl
  · rintro inbox ⟨payload, count, hlength, hcount, rfl⟩
    rcases readFileList_reply host room hlength hcount with hread | hread
    · rw [hread]
      exact .failed short_nil
    · rw [hread]
      exact .done rfl trivial

/-- The location that `get` goes on with is one the registry held. -/
theorem readFileLocation_ends {fileId : Nat}
    (h : Waiting (requestMessage host fileId) tcpFileLocation
      (GenuineLocation host sha256 registrations) stream inbox) :
    ReadEnds stream
      (fun location => Backed sha256 registrations location.fileId location.hash)
      (readFileLocation host fileId inbox) := by
  refine h.readEnds (requestMessage_short host _).le rfl ?_ ?_
  · intro inbox hwrong
    rw [readFileLocation, readReply_wrong hwrong]
    rfl
  · rintro inbox ⟨location, hid, hsize, hbacked, rfl⟩
    -- `get` also compares the id, and gives up if it is another one
    by_cases hsame : fileId = location.fileId
    · rw [hsame, readFileLocation_done host hid hsize]
      exact .done rfl hbacked
    · have hfailed : readFileLocation host fileId
          (controlMessage host tcpFileLocation errNone (location.image host)) = .failed := by
        rw [readFileLocation, readReply_controlMessage host errNone (by decide)
          (FileLocation.image_length host location) (by decide), ReadOutcome.map,
          FileLocation.ofImage_image host location hid hsize]
        exact if_pos hsame
      rw [hfailed]
      exact .failed short_nil

end Reads

theorem ParticipantInv.obtains_mem
    (h : ParticipantInv host sha256 registrations hashed participant)
    {registration : Registration} (hobtains : participant.obtains host = some registration) :
    registration ∈ registrations ∧ ∃ contents, registration.source = some contents := by
  have hsituation := h.situation
  unfold Participant.obtains at hobtains
  cases hphase : participant.peer.phase with
  | sharing share filename =>
      simp only [Situation, hphase] at hsituation hobtains
      have hread := readShareAck_ends hsituation.2
      generalize readShareAck host participant.peer.inbox = outcome at hread hobtains
      cases hread with
      | done _ hmem =>
          cases hobtains
          exact ⟨hmem, _, rfl⟩
      | _ => cases hobtains
  | _ =>
      rw [hphase] at hobtains
      cases hobtains

theorem shareSafe_of_nil (hstream : participant.peer.stream = []) :
    ShareSafe host sha256 hashed participant := by
  left
  rw [hstream]
  decide

theorem ParticipantInv.read (h : ParticipantInv host sha256 registrations hashed participant)
    (room : Bool) :
    ParticipantInv host sha256 registrations hashed
      { participant with peer := participant.peer.read host room } := by
  have hsituation := h.situation
  unfold Peer.read
  split
  · next hphase =>
      simp only [Situation, hphase] at hsituation
      have hread := readRegisterAck_ends hsituation
      generalize readRegisterAck host participant.peer.inbox = outcome at hread ⊢
      cases hread with
      | blocked => exact h
      | failed => exact .of_closed rfl h.safe
      | done hstream => exact ⟨⟨hstream, rfl⟩, shareSafe_of_nil hstream⟩
  · next share filename hphase =>
      simp only [Situation, hphase] at hsituation
      have hread := readShareAck_ends hsituation.2
      generalize readShareAck host participant.peer.inbox = outcome at hread ⊢
      cases hread with
      | blocked => exact h
      | failed hshort => exact .quit hshort
      | done hstream => exact ⟨⟨hstream, rfl⟩, shareSafe_of_nil hstream⟩
  · next hphase =>
      simp only [Situation, hphase] at hsituation
      have hread := readFileList_ends room hsituation
      generalize readFileList host room participant.peer.inbox = outcome at hread ⊢
      cases hread with
      | blocked => exact h
      | failed hshort => exact .quit hshort
      | done hstream => exact ⟨⟨hstream, rfl⟩, shareSafe_of_nil hstream⟩
  · next fileId hphase =>
      simp only [Situation, hphase] at hsituation
      have hread := readFileLocation_ends hsituation.2
      generalize readFileLocation host fileId participant.peer.inbox = outcome at hread ⊢
      cases hread with
      | blocked => exact h
      | failed hshort => exact .quit hshort
      | done hstream hbacked => exact ⟨⟨⟨hstream, rfl⟩, hbacked⟩, shareSafe_of_nil hstream⟩
  · exact h

theorem ParticipantInv.fetched
    (h : ParticipantInv host sha256 registrations hashed participant) (success : Bool) :
    ParticipantInv host sha256 registrations hashed
      { participant with peer := participant.peer.fetched host success } := by
  unfold Peer.fetched
  split
  · next hphase =>
      have hsituation := h.situation
      simp only [Situation, hphase] at hsituation
      obtain ⟨⟨hstream, hinbox⟩, -⟩ := hsituation
      cases success with
      | true => exact ⟨⟨hstream, hinbox⟩, shareSafe_of_nil hstream⟩
      | false =>
          refine .quit ?_
          rw [hstream]
          exact short_nil
  · exact h

@[simp] theorem served_stream (recv : Recv) (replies : List Reply) :
    (participant.served recv replies).peer.stream = participant.peer.stream.drop recv.taken :=
  List.flatten_singleton

@[simp] theorem disconnected_stream (arriving : Nat) :
    (participant.disconnected arriving).peer.stream = participant.peer.stream.take arriving :=
  List.flatten_singleton

/-- A stream that lost some bytes holds no share. -/
theorem ShareSafe.of_part {participant' : Participant}
    (h : ShareSafe host sha256 hashed participant)
    (hcontents : participant'.contents = participant.contents)
    (hpart : participant'.peer.stream = participant.peer.stream ∨
      participant'.peer.stream.length < participant.peer.stream.length) :
    ShareSafe host sha256 hashed participant' := by
  -- a share is the longest thing that can be on a stream
  rcases hpart with hsame | hless
  · rw [ShareSafe, hcontents, hsame]
    exact h
  · left
    rcases h with hshort | ⟨-, share, -, hshare⟩
    · exact lt_trans hless hshort
    · rwa [hshare, shareMessage_length] at hless

theorem ParticipantInv.disconnected
    (h : ParticipantInv host sha256 registrations hashed participant) (arriving : Nat) :
    ParticipantInv host sha256 registrations hashed (participant.disconnected arriving) := by
  refine .of_closed rfl (h.safe.of_part rfl ?_)
  rw [disconnected_stream]
  by_cases hall : participant.peer.stream.length ≤ arriving
  · exact Or.inl (List.take_of_length_le hall)
  · right
    rw [List.length_take]
    omega

end Moves

/-! ## The server takes the next bytes -/

section Served

variable {host : ByteOrder} {sha256 : Bytes → HashBytes} {registrations : List Registration}
  {hashed : List Bytes} {participant : Participant} {server : Server} {fd : Int}
  {i : Fin maxClients} {room : Bool}

/-- A location the server answers with comes from an entry of the registry. -/
theorem backed_of_locate (hformed : FilesFormed server)
    (hbacked : ∀ file ∈ server.registry.files, Backed sha256 registrations file.fileId file.hash)
    {fileId : Nat} {location : FileLocation} (hlocate : server.locate fileId = .ok location) :
    location.fileId < 2 ^ 32 ∧ location.fileSize < 2 ^ 32 ∧
      Backed sha256 registrations location.fileId location.hash := by
  obtain ⟨file, hmem, hfileId, hid, hsize, hhash, -⟩ := Server.locate_eq_ok hlocate
  rw [hid, hsize, hhash, ← hfileId]
  exact ⟨hformed.fileId_fits file hmem, (hformed.formed file hmem).1, hbacked file hmem⟩

/-! ### How each request is answered -/

variable {data : Bytes} {peer : Peer}

theorem arrives_register (hfind : server.findClientByFd fd = some i) (udpPort : UInt16) :
    Arrives (registerMessage host udpPort) tcpRegisterAck (GenuineRegisterAck host) data
      (arrivals host server fd (.bytes data) room peer) := by
  have hlength : (registerImage host udpPort.toNat).length = tcpRegisterSize :=
    storeWord_length ..
  refine arrives_of_handler hfind (by rw [hlength]; decide) (readMessage_register host udpPort)
    ?_ ?_
  · intro answer htype
    rw [requestSize, if_pos htype, hlength]
  · intro _ answer hreplies
    cases hreplies
    exact Or.inl ⟨_, rfl⟩

theorem arrives_share (hformed : FilesFormed server) (hfind : server.findClientByFd fd = some i)
    {share : ShareFile} {contents : Bytes} (hsize : share.fileSize < 2 ^ 32)
    (hgranted : ∀ registry, readMessage host data = some (.shareFile share) →
      server.registry.add (server.sharedFile i share) = some registry →
      ⟨server.nextFileId, share.fileSize, some contents⟩ ∈ registrations) :
    Arrives (shareMessage host share) tcpShareAck
      (GenuineShareAck host registrations share contents) data
      (arrivals host server fd (.bytes data) room peer) := by
  have hlength := ShareFile.image_length host share
  have hread := readMessage_share host hsize
  refine arrives_of_handler hfind (by rw [hlength]; decide) hread ?_ ?_
  · intro answer htype
    rw [requestSize, htype, hlength]
    rfl
  · intro hdata answer hreplies
    simp only [Server.handle, Server.handleShareFile] at hreplies
    split at hreplies
    · cases hreplies
      right
      rw [hlength]
      exact ⟨by decide, show tcpError ≠ tcpShareAck by decide⟩
    · next registry hadd =>
        -- the registration is in the record when the acknowledgement is sent
        cases hreplies
        change data = shareMessage host share at hdata
        rw [← hdata] at hread
        exact Or.inl ⟨server.nextFileId, hformed.nextFileId_lt, hgranted registry hread hadd, rfl⟩

theorem arrives_list (hfind : server.findClientByFd fd = some i) :
    Arrives (listMessage host) tcpFileList (GenuineFileList host) data
      (arrivals host server fd (.bytes data) room peer) := by
  refine arrives_of_handler hfind (by decide) (readMessage_list host) ?_ ?_
  · intro answer htype
    rw [requestSize, htype]
    rfl
  · intro _ answer hreplies
    simp only [Server.handle, Server.handleListFiles] at hreplies
    split at hreplies
    · cases hreplies
    · cases hreplies
      exact Or.inl ⟨_, _, fileList_length host server.registry.files,
        server.registry.length_le, rfl⟩

theorem arrives_request (hformed : FilesFormed server)
    (hbacked : ∀ file ∈ server.registry.files, Backed sha256 registrations file.fileId file.hash)
    (hfind : server.findClientByFd fd = some i) {fileId : Nat} (hid : fileId < 2 ^ 32) :
    Arrives (requestMessage host fileId) tcpFileLocation
      (GenuineLocation host sha256 registrations) data
      (arrivals host server fd (.bytes data) room peer) := by
  have hlength : (idImage host fileId).length = tcpRequestFileSize := storeWord_length ..
  refine arrives_of_handler hfind (by rw [hlength]; decide) (readMessage_request host hid) ?_ ?_
  · intro answer htype
    rw [requestSize, htype, hlength]
    rfl
  · intro _ answer hreplies
    simp only [Server.handle, Server.handleRequestFile] at hreplies
    split at hreplies
    · cases hreplies
      right
      rw [hlength]
      exact ⟨by decide, show tcpError ≠ tcpFileLocation by decide⟩
    · next location hlocate =>
        cases hreplies
        obtain ⟨hfits, hsize, hknown⟩ := backed_of_locate hformed hbacked hlocate
        exact Or.inl ⟨location, hfits, hsize, hknown, rfl⟩

/-- On a quiet connection there is nothing to take. -/
theorem quiet_served (hfind : server.findClientByFd fd = some i)
    (hdata : data <+: participant.peer.stream) (h : Quiet participant.peer) :
    Quiet (participant.served (.bytes data)
      (server.apply host (.readable fd (.bytes data) room)).replies).peer := by
  obtain ⟨hstream, hinbox⟩ := h
  rw [hstream] at hdata
  have hnone : data = [] := List.prefix_nil.mp hdata
  subst hnone
  refine ⟨?_, ?_⟩
  · rw [served_stream, hstream]
    rfl
  · show participant.peer.inbox ++ arrivals host server fd (.bytes []) room participant.peer = []
    rw [hinbox, List.nil_append]
    rcases arrivals_cases hfind with hempty | ⟨message, hmessage, -⟩
    · exact hempty
    · cases hmessage

/-- A client after the server took the next bytes of its stream. -/
theorem situation_served (h : Situation host sha256 registrations participant)
    (hformed : FilesFormed server)
    (hbacked : ∀ file ∈ server.registry.files, Backed sha256 registrations file.fileId file.hash)
    (hfind : server.findClientByFd fd = some i) (hdata : data <+: participant.peer.stream)
    (hgranted : ∀ share registry, readMessage host data = some (.shareFile share) →
      server.registry.add (server.sharedFile i share) = some registry →
      ⟨server.nextFileId, share.fileSize, some participant.contents⟩ ∈ registrations) :
    Situation host sha256 registrations
      (participant.served (.bytes data)
        (server.apply host (.readable fd (.bytes data) room)).replies) := by
  have hstream : (participant.served (.bytes data)
      (server.apply host (.readable fd (.bytes data) room)).replies).peer.stream =
      participant.peer.stream.drop data.length := served_stream _ _
  have hinbox : (participant.served (.bytes data)
      (server.apply host (.readable fd (.bytes data) room)).replies).peer.inbox =
      participant.peer.inbox ++
        arrivals host server fd (.bytes data) room participant.peer := rfl
  have hphase' : (participant.served (.bytes data)
      (server.apply host (.readable fd (.bytes data) room)).replies).peer.phase =
      participant.peer.phase := rfl
  unfold Situation at h ⊢
  simp only at h ⊢
  rw [hstream, hinbox, hphase']
  cases hphase : participant.peer.phase with
  | connected =>
      rw [hphase] at h
      exact quiet_served hfind hdata h
  | registering =>
      rw [hphase] at h
      exact h.serve (controlMessage_ne_nil _ _ _ _) hdata
        (arrives_register hfind _)
  | idle =>
      rw [hphase] at h
      exact quiet_served hfind hdata h
  | sharing share filename =>
      rw [hphase] at h
      obtain ⟨hannounces, hwaiting⟩ := h
      exact ⟨hannounces, hwaiting.serve (controlMessage_ne_nil _ _ _ _) hdata
        (arrives_share hformed hfind hannounces.2.1 (hgranted share))⟩
  | listing =>
      rw [hphase] at h
      exact h.serve (controlMessage_ne_nil _ _ _ _) hdata (arrives_list hfind)
  | locating fileId =>
      rw [hphase] at h
      obtain ⟨hid, hwaiting⟩ := h
      exact ⟨hid, hwaiting.serve (controlMessage_ne_nil _ _ _ _) hdata
        (arrives_request hformed hbacked hfind hid)⟩
  | fetching location =>
      rw [hphase] at h
      exact ⟨quiet_served hfind hdata h.1, h.2⟩
  | closed => trivial

theorem ParticipantInv.served_bytes
    (h : ParticipantInv host sha256 registrations hashed participant)
    (hformed : FilesFormed server)
    (hbacked : ∀ file ∈ server.registry.files, Backed sha256 registrations file.fileId file.hash)
    (hfind : server.findClientByFd fd = some i) (hdata : data <+: participant.peer.stream)
    (hgranted : ∀ share registry, readMessage host data = some (.shareFile share) →
      server.registry.add (server.sharedFile i share) = some registry →
      ⟨server.nextFileId, share.fileSize, some participant.contents⟩ ∈ registrations) :
    ParticipantInv host sha256 registrations hashed
      (participant.served (.bytes data)
        (server.apply host (.readable fd (.bytes data) room)).replies) := by
  refine ⟨situation_served h.situation hformed hbacked hfind hdata hgranted,
    h.safe.of_part rfl ?_⟩
  rw [served_stream]
  show participant.peer.stream.drop data.length = _ ∨
    (participant.peer.stream.drop data.length).length < _
  by_cases hnone : data = []
  · rw [hnone]
    exact Or.inl rfl
  · right
    have hpos := List.length_pos_iff.mpr hnone
    have hle := hdata.length_le
    rw [List.length_drop]
    omega

theorem ParticipantInv.served
    (h : ParticipantInv host sha256 registrations hashed participant)
    (hformed : FilesFormed server)
    (hbacked : ∀ file ∈ server.registry.files, Backed sha256 registrations file.fileId file.hash)
    (hfind : server.findClientByFd fd = some i) {recv : Recv}
    (hdata : ∀ data, recv = .bytes data → data <+: participant.peer.stream)
    (hgranted : ∀ data share registry, recv = .bytes data →
      readMessage host data = some (.shareFile share) →
      server.registry.add (server.sharedFile i share) = some registry →
      ⟨server.nextFileId, share.fileSize, some participant.contents⟩ ∈ registrations) :
    ParticipantInv host sha256 registrations hashed
      (participant.served recv (server.apply host (.readable fd recv room)).replies) := by
  cases recv with
  | error =>
      -- an error is answered as little as the end of the stream
      have hsame : (server.apply host (.readable fd .error room)).replies =
          (server.apply host (.readable fd (.bytes []) room)).replies := by
        simp only [Server.apply, Server.receive, hfind]
      rw [hsame]
      exact h.served_bytes hformed hbacked hfind List.nil_prefix fun _ _ hmessage => by
        cases hmessage
  | bytes data =>
      exact h.served_bytes hformed hbacked hfind (hdata data rfl)
        fun share registry => hgranted data share registry rfl

/-- A share that reaches its handler on the connection of a client is the one for
what the client read last. -/
theorem ShareSafe.announces (h : ShareSafe host sha256 hashed participant) {data : Bytes}
    (hdata : data <+: participant.peer.stream) {share : ShareFile}
    (hmessage : readMessage host data = some (.shareFile share)) :
    participant.contents ∈ hashed ∧ Announces sha256 share participant.contents := by
  have hlong : tcpHeaderSize + tcpShareFileSize ≤ data.length :=
    wireSize_le_of_readMessage hmessage
  rcases h with hshort | ⟨hmem, sent, hannounces, hstream⟩
  · have hle := hdata.length_le
    omega
  · have hwhole : data = shareMessage host sent := by
      rw [← hstream]
      apply hdata.eq_of_length_le
      rw [hstream, shareMessage_length]
      exact hlong
    -- nothing shorter than the whole message is taken for a share
    rw [hwhole, readMessage_share host hannounces.2.1] at hmessage
    cases hmessage
    exact ⟨hmem, hannounces⟩

end Served

end Directory
end PeerShare
