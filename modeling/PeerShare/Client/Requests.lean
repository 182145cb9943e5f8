import PeerShare.Client.SharedTable

/-!
# The client's side of the control channel (`client.c`)

The messages the commands send and the answers they wait for.  Every answer is
read in the same way: a header, checks on it, then a body of known length.
`readReply` is that reader; only the file list has a body of variable length.

Reading blocks while the stream holds too few bytes.  A failed read makes the
command return 1.
-/

namespace PeerShare
namespace Client

open Foundation Wire

section Messages

variable (host : ByteOrder)

/-- The `TCP_REGISTER` message of `main`. -/
def registerMessage (udpPort : UInt16) : Bytes :=
  controlMessage host tcpRegister errNone (registerImage host udpPort.toNat)

/-- The `TCP_SHARE_FILE` message of `share`. -/
def shareMessage (share : ShareFile) : Bytes :=
  controlMessage host tcpShareFile errNone (share.image host)

/-- The `TCP_LIST_FILES` message of `list`. -/
def listMessage : Bytes := controlMessage host tcpListFiles errNone []

/-- The `TCP_REQUEST_FILE` message of `get`. -/
def requestMessage (fileId : Nat) : Bytes :=
  controlMessage host tcpRequestFile errNone (idImage host fileId)

/-- The `TCP_UNREGISTER` message of `quit`. -/
def unregisterMessage : Bytes := controlMessage host tcpUnregister errNone []

end Messages

/-- What `share` announces: the file must be readable and its size must fit. -/
def announce (sha256 : Bytes → HashBytes) (filename : Bytes) (file : Option Bytes) :
    Option ShareFile :=
  match file with
  | none => none
  | some contents =>
      if 2 ^ 32 - 1 < contents.length then
        none
      else
        some
          { fileSize := contents.length
            hash := sha256 contents
            filename := NameField.strncpy filename }

theorem announce_eq_some {sha256 : Bytes → HashBytes} {filename : Bytes} {file : Option Bytes}
    {share : ShareFile} (hannounce : announce sha256 filename file = some share) :
    share.fileSize < 2 ^ 32 ∧ share.filename = NameField.strncpy filename := by
  unfold announce at hannounce
  cases file with
  | none => cases hannounce
  | some contents =>
      simp only at hannounce
      split at hannounce
      · cases hannounce
      · next hsize =>
          cases hannounce
          exact ⟨Nat.lt_of_le_pred (Nat.two_pow_pos 32) (Nat.le_of_not_lt hsize), rfl⟩

/-- Reading an answer from the stream. -/
inductive ReadOutcome (α : Type) where
  | blocked
  | failed
  | done (value : α) (rest : Bytes)
  deriving DecidableEq

/-- Header, the three checks on it, then a body of `size` bytes. -/
def readReply (host : ByteOrder) (expected : UInt8) (size : Nat) (stream : Bytes) :
    ReadOutcome Bytes :=
  let hdr := TcpHeader.ofImage host stream
  if stream.length < tcpHeaderSize then
    .blocked
  else if hdr.msgType = tcpError then
    .failed
  else if hdr.msgType ≠ expected then
    .failed
  else if ntoh host 2 hdr.dataLen ≠ size then
    .failed
  else if stream.length < tcpHeaderSize + size then
    .blocked
  else
    .done ((stream.drop tcpHeaderSize).take size) (stream.drop (tcpHeaderSize + size))

/-- The id in a body of one `uint32_t`. -/
def readId (host : ByteOrder) (payload : Bytes) : Nat :=
  ntoh host 4 (fieldAt host payload 0 4)

def ReadOutcome.map {α β : Type} (f : α → β) : ReadOutcome α → ReadOutcome β
  | .blocked => .blocked
  | .failed => .failed
  | .done value rest => .done (f value) rest

/-- The answer to `TCP_REGISTER` in `main`. -/
def readRegisterAck (host : ByteOrder) (stream : Bytes) : ReadOutcome Nat :=
  (readReply host tcpRegisterAck tcpRegisterAckSize stream).map (readId host)

/-- The answer to `TCP_SHARE_FILE` in `share`. -/
def readShareAck (host : ByteOrder) (stream : Bytes) : ReadOutcome Nat :=
  (readReply host tcpShareAck tcpShareAckSize stream).map (readId host)

/-- The answer to `TCP_REQUEST_FILE` in `get`, with the check that it is about
the file asked for. -/
def readFileLocation (host : ByteOrder) (fileId : Nat) (stream : Bytes) :
    ReadOutcome FileLocation :=
  match (readReply host tcpFileLocation tcpFileLocationSize stream).map
      (FileLocation.ofImage host) with
  | .blocked => .blocked
  | .failed => .failed
  | .done location rest => if fileId ≠ location.fileId then .failed else .done location rest

/-- The answer to `TCP_LIST_FILES` in `list`; `room` is whether `malloc` has
room for the body. -/
def readFileList (host : ByteOrder) (room : Bool) (stream : Bytes) : ReadOutcome Bytes :=
  let hdr := TcpHeader.ofImage host stream
  let bodyLen := ntoh host 2 hdr.dataLen
  if stream.length < tcpHeaderSize then
    .blocked
  else if hdr.msgType = tcpError then
    .failed
  else if hdr.msgType ≠ tcpFileList then
    .failed
  else if bodyLen = 0 then
    .done [] (stream.drop tcpHeaderSize)
  else if bodyLen % fileInfoSize ≠ 0 then
    .failed
  else if room = false then
    .failed
  else if stream.length < tcpHeaderSize + bodyLen then
    .blocked
  else
    .done ((stream.drop tcpHeaderSize).take bodyLen) (stream.drop (tcpHeaderSize + bodyLen))

/-! ## Answers that were written for the reader -/

section Answers

variable (host : ByteOrder)

/-- A message of the expected type and size is read to its end. -/
theorem readReply_controlMessage {expected : UInt8} (errorCode : UInt8) {payload : Bytes}
    {size : Nat} (htype : expected ≠ tcpError) (hsize : payload.length = size)
    (hfits : size < 2 ^ 16) :
    readReply host expected size (controlMessage host expected errorCode payload) =
      .done payload [] := by
  subst hsize
  have hdr := ofImage_controlMessage host expected errorCode payload
  have hdrop := controlMessage_drop host expected errorCode payload
  have hlength := controlMessage_length host expected errorCode payload
  have hdataLen := dataLen_controlMessage host hfits
  unfold readReply
  rw [hdr, if_neg (by omega), if_neg htype, if_neg (not_not.mpr rfl),
    if_neg (not_not.mpr hdataLen), if_neg (by omega), ← List.drop_drop, hdrop, List.take_length,
    List.drop_length]

theorem readReply_error (expected errorCode : UInt8) (size : Nat) :
    readReply host expected size
      (({ msgType := tcpError, errorCode := errorCode, dataLen := 0 } : TcpHeader).image host) =
      .failed := by
  have hdr := TcpHeader.ofImage_image_append host
    { msgType := tcpError, errorCode := errorCode, dataLen := 0 } [] (Nat.two_pow_pos 16)
  rw [List.append_nil] at hdr
  unfold readReply
  rw [hdr, if_neg (by simp), if_pos rfl]

theorem readId_idImage {id : Nat} (hid : id < 2 ^ 32) : readId host (idImage host id) = id := by
  have hfield := fieldAt_storeWord_append host 4 (hton host 4 id) []
  rw [List.append_nil] at hfield
  rw [readId, idImage, hfield, hton_mod, ntoh_hton]
  exact Nat.mod_eq_of_lt hid

theorem readRegisterAck_done {clientId : Nat} (hid : clientId < 2 ^ 32) :
    readRegisterAck host (controlMessage host tcpRegisterAck errNone (idImage host clientId)) =
      .done clientId [] := by
  have hlength : (idImage host clientId).length = tcpRegisterAckSize := storeWord_length ..
  rw [readRegisterAck, readReply_controlMessage host errNone (by decide) hlength (by decide),
    ReadOutcome.map, readId_idImage host hid]

theorem readShareAck_done {fileId : Nat} (hid : fileId < 2 ^ 32) :
    readShareAck host (controlMessage host tcpShareAck errNone (idImage host fileId)) =
      .done fileId [] := by
  have hlength : (idImage host fileId).length = tcpShareAckSize := storeWord_length ..
  rw [readShareAck, readReply_controlMessage host errNone (by decide) hlength (by decide),
    ReadOutcome.map, readId_idImage host hid]

theorem readFileLocation_done {location : FileLocation} (hid : location.fileId < 2 ^ 32)
    (hsize : location.fileSize < 2 ^ 32) :
    readFileLocation host location.fileId
      (controlMessage host tcpFileLocation errNone (location.image host)) =
      .done location [] := by
  rw [readFileLocation, readReply_controlMessage host errNone (by decide)
    (FileLocation.image_length host location) (by decide), ReadOutcome.map,
    FileLocation.ofImage_image host location hid hsize]
  simp

/-- A location is read to its end, but may be about another file. -/
theorem readFileLocation_reply (fileId : Nat) (location : FileLocation) :
    readFileLocation host fileId
        (controlMessage host tcpFileLocation errNone (location.image host)) = .failed ∨
      ∃ answer, readFileLocation host fileId
        (controlMessage host tcpFileLocation errNone (location.image host)) =
          .done answer [] := by
  rw [readFileLocation, readReply_controlMessage host errNone (by decide)
    (FileLocation.image_length host location) (by decide), ReadOutcome.map]
  by_cases hid : fileId = (FileLocation.ofImage host (location.image host)).fileId
  · right
    exact ⟨_, if_neg (not_not.mpr hid)⟩
  · left
    exact if_pos hid

/-- How a file list is read, in terms of the 16 bits its length leaves. -/
theorem readFileList_controlMessage (room : Bool) (payload : Bytes) :
    readFileList host room (controlMessage host tcpFileList errNone payload) =
      if payload.length % 2 ^ 16 = 0 then .done [] payload
      else if payload.length % 2 ^ 16 % fileInfoSize ≠ 0 then .failed
      else if room = false then .failed
      else .done (payload.take (payload.length % 2 ^ 16))
        (payload.drop (payload.length % 2 ^ 16)) := by
  have hdr := ofImage_controlMessage host tcpFileList errNone payload
  have hdrop := controlMessage_drop host tcpFileList errNone payload
  have hsize := controlMessage_length host tcpFileList errNone payload
  have hannounced : ntoh host 2 (hton host 2 payload.length) = payload.length % 2 ^ 16 :=
    ntoh_hton host 2 _
  have hle : payload.length % 2 ^ 16 ≤ payload.length := Nat.mod_le _ _
  unfold readFileList
  simp only [hdr, hannounced, hsize, hdrop]
  rw [if_neg (by omega), if_neg (by decide), if_neg (by decide), ← List.drop_drop, hdrop,
    if_neg (show ¬ tcpHeaderSize + payload.length < _ by omega)]

/-- A list of at most 220 files is read to its end. -/
theorem readFileList_done {payload : Bytes} {count : Nat}
    (hlength : payload.length = count * fileInfoSize) (hcount : count ≤ 220) :
    readFileList host true (controlMessage host tcpFileList errNone payload) =
      .done payload [] := by
  unfold fileInfoSize at hlength
  have hexact : payload.length % 2 ^ 16 = payload.length := by omega
  rw [readFileList_controlMessage, hexact, List.take_length, List.drop_length]
  by_cases hempty : payload.length = 0
  · rw [if_pos hempty, List.length_eq_zero_iff.mp hempty]
  · rw [if_neg hempty, if_neg (by unfold fileInfoSize; omega), if_neg (by decide)]

/-- A longer list overflows the length field and makes the command fail. -/
theorem readFileList_failed (room : Bool) {payload : Bytes} {count : Nat}
    (hlength : payload.length = count * fileInfoSize) (hlong : 220 < count)
    (hcount : count ≤ 1024) :
    readFileList host room (controlMessage host tcpFileList errNone payload) = .failed := by
  unfold fileInfoSize at hlength
  -- 65536 and 297 have no common factor, and the list has at most 1024 entries
  have hwraps : count * 297 / 65536 = 1 ∨ count * 297 / 65536 = 2 ∨
      count * 297 / 65536 = 3 ∨ count * 297 / 65536 = 4 := by
    omega
  have hpartial : payload.length % 2 ^ 16 % fileInfoSize ≠ 0 := by
    unfold fileInfoSize
    rcases hwraps with hwrap | hwrap | hwrap | hwrap <;> omega
  have hpos : payload.length % 2 ^ 16 ≠ 0 := by
    intro hzero
    rw [hzero] at hpartial
    exact hpartial rfl
  rw [readFileList_controlMessage, if_neg hpos, if_pos hpartial]

/-- A file list is read to its end or makes the command fail. -/
theorem readFileList_reply (room : Bool) {payload : Bytes} {count : Nat}
    (hlength : payload.length = count * fileInfoSize) (hcount : count ≤ 1024) :
    readFileList host room (controlMessage host tcpFileList errNone payload) = .failed ∨
      readFileList host room (controlMessage host tcpFileList errNone payload) =
        .done payload [] := by
  by_cases hlong : 220 < count
  · exact Or.inl (readFileList_failed host room hlength hlong hcount)
  · cases room with
    | true => exact Or.inr (readFileList_done host hlength (not_lt.mp hlong))
    | false =>
        unfold fileInfoSize at hlength
        have hexact : payload.length % 2 ^ 16 = payload.length := by omega
        rw [readFileList_controlMessage, hexact]
        by_cases hempty : payload.length = 0
        · right
          rw [if_pos hempty, List.length_eq_zero_iff.mp hempty]
        · left
          rw [if_neg hempty, if_neg (by unfold fileInfoSize; omega), if_pos rfl]

end Answers
end Client
end PeerShare
