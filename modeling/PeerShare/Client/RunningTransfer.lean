import PeerShare.Client.OwnerLoop

/-!
# Requests that arrive during a transfer

A request is granted when the datagram, the table and the system calls all go
its way; the state of the running transfer has no say.  A granted request
replaces the global sender, a refused one leaves the owner as it was, so a
running transfer survives a request from another peer exactly when the request
is refused.

The global sender always satisfies the sender invariant of the file it was last
initialised with, and while all requests are refused it keeps serving that file
to that peer.
-/

namespace PeerShare
namespace Client

open Foundation Wire SelectiveRepeat

/-- The datagram is complete and names a shared file with its hash, and the file
can be opened, announced, buffered and read. -/
structure RequestGranted (host : ByteOrder) (table : SharedTable) (packet : Datagram)
    (env : RequestEnv) : Prop where
  length : udpHeaderSize + udpRequestFileSize ≤ packet.bytes.length
  dataLen : ntoh host 2 (UdpHeader.ofImage host packet.bytes).dataLen = udpRequestFileSize
  listed : ∃ file,
    table.findSharedFileById (ntoh host 4 (fieldAt host packet.bytes 16 4)) = some file ∧
      file.hash = HashBytes.ofImage (packet.bytes.drop 20)
  opened : ∃ actualSize, env.fileEnd = some actualSize ∧
    (env.readBytes.length : Int) = actualSize % 2 ^ 64
  sent : 0 < env.sendResult
  allocated : env.allocated = true

section RequestBranch

variable {host : ByteOrder} {owner : Owner} {packet : Datagram} {env : RequestEnv}

theorem requestedFile_eq_ok_iff {table : SharedTable} {file : SharedFile} :
    requestedFile host table packet = .ok file ↔
      udpHeaderSize + udpRequestFileSize ≤ packet.bytes.length ∧
        ntoh host 2 (UdpHeader.ofImage host packet.bytes).dataLen = udpRequestFileSize ∧
        table.findSharedFileById (ntoh host 4 (fieldAt host packet.bytes 16 4)) =
          some file ∧
        file.hash = HashBytes.ofImage (packet.bytes.drop 20) := by
  unfold requestedFile
  by_cases hlength : packet.bytes.length < udpHeaderSize + udpRequestFileSize
  · simp [hlength]
  by_cases hdataLen : ntoh host 2 (UdpHeader.ofImage host packet.bytes).dataLen =
      udpRequestFileSize
  swap
  · simp [hlength, hdataLen]
  cases hfind : table.findSharedFileById (ntoh host 4 (fieldAt host packet.bytes 16 4)) with
  | none => simp [hlength, hdataLen]
  | some found =>
      by_cases hhash : found.hash = HashBytes.ofImage (packet.bytes.drop 20)
      · simp only [hlength, hdataLen, hhash, if_false, ne_eq, not_true_eq_false,
          Except.ok.injEq, Option.some.injEq, not_lt.mp hlength, true_and]
        constructor
        · rintro rfl
          exact ⟨rfl, hhash⟩
        · rintro ⟨rfl, -⟩
          rfl
      · simp only [hlength, hdataLen, hhash, if_false, if_true, ne_eq, not_true_eq_false,
          not_false_eq_true, reduceCtorEq, Option.some.injEq, false_iff]
        rintro ⟨-, -, rfl, hsame⟩
        exact hhash hsame

/-- A request built by `get` passes the checks exactly for the file that the table
holds under the id, if that has the hash. -/
theorem requestedFile_buildRequestFile_iff (host : ByteOrder) {table : SharedTable}
    {file : SharedFile} {fileId : Nat} {hash : HashBytes} (hid : fileId < 2 ^ 32) :
    requestedFile host table (Datagram.recv (buildRequestFile host fileId hash)) = .ok file ↔
      table.findSharedFileById fileId = some file ∧ file.hash = hash := by
  have hlength : (buildRequestFile host fileId hash).length =
      udpHeaderSize + udpRequestFileSize := by
    simp [buildRequestFile, hash.length_eq, udpRequestFileSize]
  have hbytes : (Datagram.recv (buildRequestFile host fileId hash)).bytes =
      buildRequestFile host fileId hash :=
    Datagram.recv_bytes (by rw [hlength]; decide)
  have hfield := fieldAt_sealPacket host (requestHeader host) [] hash.bytes 4
    (hton host 4 fileId) (show udpHeaderSize + ([] : Bytes).length = 16 from rfl)
  have hnumber : ntoh host 4 (fieldAt host (buildRequestFile host fileId hash) 16 4) =
      fileId := by
    rw [buildRequestFile, ← List.nil_append (storeWord host 4 _ ++ _), hfield,
      Nat.mod_eq_of_lt (hton_lt host 4 fileId), ntoh_hton,
      Nat.mod_eq_of_lt (show fileId < 256 ^ 4 from hid)]
  have hdrop : HashBytes.ofImage ((buildRequestFile host fileId hash).drop 20) = hash := by
    rw [show 20 = udpHeaderSize + 4 from rfl, ← List.drop_drop, buildRequestFile,
      sealPacket_drop, List.drop_left' (storeWord_length _ _ _), ← List.append_nil hash.bytes,
      HashBytes.ofImage_append]
  have hdataLen : ntoh host 2 (UdpHeader.ofImage host
      (buildRequestFile host fileId hash)).dataLen = udpRequestFileSize := by
    rw [buildRequestFile, ofImage_sealPacket host _ _ (requestHeader_inRange host)]
    exact ntoh_hton host 2 udpRequestFileSize
  rw [requestedFile_eq_ok_iff, hbytes, hnumber, hdrop]
  constructor
  · rintro ⟨-, -, hfound⟩
    exact hfound
  · intro hfound
    exact ⟨hlength.ge, hdataLen, hfound⟩

/-- A request built by `get` passes the checks if the id and the hash are those
of a shared file. -/
theorem requestedFile_buildRequestFile (host : ByteOrder) {table : SharedTable}
    {file : SharedFile} (hid : file.fileId < 2 ^ 32)
    (hfind : table.findSharedFileById file.fileId = some file) :
    requestedFile host table
      (Datagram.recv (buildRequestFile host file.fileId file.hash)) = .ok file :=
  (requestedFile_buildRequestFile_iff host hid).mpr ⟨hfind, rfl⟩

/-- The file of a granted request, as the sender will hold it. -/
theorem exists_fileImage {actualSize : Int}
    (hread : (env.readBytes.length : Int) = actualSize % 2 ^ 64) :
    ∃ file : FileImage, file.data = env.readBytes ∧
      file.size = UInt32.ofNat (announcedSize actualSize) := by
  refine ⟨⟨env.readBytes, UInt32.ofNat (announcedSize actualSize), ?_⟩, rfl, rfl⟩
  have hsmall : announcedSize actualSize < 2 ^ 32 := by
    unfold announcedSize
    omega
  rw [UInt32.toNat_ofNat', Nat.mod_eq_of_lt hsmall]
  unfold announcedSize
  omega

/-- What a granted request does: it announces the file, initialises the sender with
it and sends the first window. -/
theorem handleRequest_eq_started (hgranted : RequestGranted host owner.table packet env)
    {actualSize : Int} (hend : env.fileEnd = some actualSize) {file : FileImage}
    (hdata : file.data = env.readBytes)
    (hsize : file.size = UInt32.ofNat (announcedSize actualSize)) {link : LossyLink}
    {peer : SockAddr} {sender : Sender}
    (hinit : srSenderInit (some peer) (some file.data) file.size (some link) = some sender)
    (now : UInt64) :
    handleRequest host link owner peer packet env now =
      (⟨{ owner with
          globalSender := (srSenderSendWindow host sender now).sender
          globalFileBuffer := some env.readBytes
          transferActive := true },
        (peer, buildFileStart host (announcedSize actualSize) (announcedChunks actualSize)) ::
          (srSenderSendWindow host sender now).packets.map
            fun data => ((srSenderSendWindow host sender now).sender.peerAddr, data),
        false⟩, .started) := by
  obtain ⟨hlength, hdataLen, ⟨listed, hlisted, hhash⟩, ⟨size, hopened, hread⟩, hsent,
    hallocated⟩ := hgranted
  rw [hend] at hopened
  cases hopened
  have hfile := requestedFile_eq_ok_iff.mpr ⟨hlength, hdataLen, hlisted, hhash⟩
  rw [hdata, hsize] at hinit
  simp only [handleRequest, hfile, hend, hallocated, hread, hinit]
  simp [not_le.mpr hsent]

/-- A granted request starts a transfer from scratch. -/
theorem handleRequest_of_granted (hgranted : RequestGranted host owner.table packet env)
    (link : LossyLink) (peer : SockAddr) (now : UInt64) :
    ∃ (file : FileImage) (sender : Sender) (fileSize numChunks : Nat),
      SenderInv file sender ∅ ∧ Settled sender ∅ ∧ sender.peerAddr = peer ∧
      (handleRequest host link owner peer packet env now).1 =
        ⟨{ owner with
            globalSender := (srSenderSendWindow host sender now).sender
            globalFileBuffer := some env.readBytes
            transferActive := true },
          (peer, buildFileStart host fileSize numChunks) ::
            (srSenderSendWindow host sender now).packets.map
              fun data => ((srSenderSendWindow host sender now).sender.peerAddr, data),
          false⟩ := by
  obtain ⟨actualSize, hend, hread⟩ := hgranted.opened
  obtain ⟨file, hdata, hsize⟩ := exists_fileImage hread
  obtain ⟨sender, hinit, hpeer, hinv, hsettled⟩ := srSenderInit_inv peer link file
  refine ⟨file, sender, announcedSize actualSize, announcedChunks actualSize, hinv, hsettled,
    hpeer, ?_⟩
  rw [handleRequest_eq_started hgranted hend hdata hsize hinit now]

/-- A refused request changes nothing; at most the announcement was sent. -/
theorem handleRequest_of_refused (hrefused : ¬ RequestGranted host owner.table packet env)
    (link : LossyLink) (peer : SockAddr) (now : UInt64) :
    (handleRequest host link owner peer packet env now).1.owner = owner ∧
      (handleRequest host link owner peer packet env now).1.continued = true ∧
      ∀ item ∈ (handleRequest host link owner peer packet env now).1.sent,
        ∃ fileSize numChunks, item = (peer, buildFileStart host fileSize numChunks) := by
  unfold handleRequest
  cases hfile : requestedFile host owner.table packet with
  | error exit => exact ⟨rfl, rfl, by simp⟩
  | ok file =>
      obtain ⟨hlength, hdataLen, hlisted, hhash⟩ := requestedFile_eq_ok_iff.mp hfile
      cases hend : env.fileEnd with
      | none => exact ⟨rfl, rfl, by simp⟩
      | some actualSize =>
          -- from here on the announcement has been sent, whatever happens next
          by_cases hsent : env.sendResult ≤ 0
          · simp [hsent]
          by_cases hallocated : env.allocated = true
          swap
          · simp [hsent, hallocated]
          by_cases hread : (env.readBytes.length : Int) = actualSize % 2 ^ 64
          swap
          · simp only [if_neg hsent, hallocated, Bool.true_eq_false, if_false, ne_eq, hread,
              not_false_eq_true, if_true]
            exact ⟨trivial, trivial, by simp⟩
          exact absurd ⟨hlength, hdataLen, ⟨file, hlisted, hhash⟩, ⟨actualSize, hend, hread⟩,
            not_le.mp hsent, hallocated⟩ hrefused

end RequestBranch

/-! ## The invariant of the global sender -/

/-- The global sender is that of some file, with some set of counted chunks. -/
def OwnerInv (owner : Owner) : Prop :=
  ∃ file acked, SenderInv file owner.globalSender acked ∧ Settled owner.globalSender acked

/-- A request is refused. -/
def Refused (host : ByteOrder) (owner : Owner) : OwnerEvent → Prop
  | .datagram (some (_, packet)) env _ =>
      (UdpHeader.ofImage host packet.bytes).msgType = udpRequestFile →
        ¬ RequestGranted host owner.table packet env
  | _ => True

section Kept

variable {host : ByteOrder} {owner : Owner} {file : FileImage} {acked : Finset Nat}

/-- What an event that grants no request can do to the sender: count chunks, and
nothing else that the set of counted chunks does not determine. -/
def KeepsTransfer (file : FileImage) (acked : Finset Nat) (before after : Sender) : Prop :=
  after.peerAddr = before.peerAddr ∧
    ∃ acked', acked ⊆ acked' ∧ SenderInv file after acked' ∧ Settled after acked'

theorem KeepsTransfer.refl {sender : Sender} (hinv : SenderInv file sender acked)
    (hsettled : Settled sender acked) : KeepsTransfer file acked sender sender :=
  ⟨rfl, acked, Finset.Subset.refl acked, hinv, hsettled⟩

theorem keepsTransfer_handleAck {sender : Sender} (hinv : SenderInv file sender acked)
    (hsettled : Settled sender acked) (host : ByteOrder) (hdr : UdpHeader) :
    KeepsTransfer file acked sender (srSenderHandleAck host sender hdr) := by
  obtain ⟨hinv', hsettled', -, hpeer⟩ := hinv.handleAck_spec hsettled host hdr
  refine ⟨hpeer, _, ?_, hinv', hsettled'⟩
  unfold SenderInv.ackedAfter
  cases ackCounted host sender hdr with
  | none => exact Finset.Subset.refl acked
  | some q => exact Finset.subset_insert q acked

/-- One pass of the driver over the sender counts nothing. -/
theorem drive_sender {sender : Sender} (hinv : SenderInv file sender acked)
    (hsettled : Settled sender acked) (host : ByteOrder) (sendNow scanNow : UInt64) :
    let driven := (srSenderCheckTimeouts host
      (srSenderSendWindow host sender sendNow).sender scanNow).sender
    driven.peerAddr = sender.peerAddr ∧ SenderInv file driven acked ∧ Settled driven acked := by
  obtain ⟨hsent, hpeer, hbase, -⟩ := hinv.sendWindow_spec host sendNow
  obtain ⟨hscan, hpeer', hbase', -⟩ := hsent.checkTimeouts_spec host scanNow
  refine ⟨hpeer'.trans hpeer, hscan, ?_⟩
  unfold Settled
  rw [hbase', hbase]
  exact hsettled

/-- Whether or not the driver ends the transfer, the sender is the scanned one. -/
theorem drive_globalSender (hactive : owner.transferActive = true)
    (sendNow scanNow : UInt64) :
    (drive host owner sendNow scanNow).owner.globalSender =
      (srSenderCheckTimeouts host (srSenderSendWindow host owner.globalSender sendNow).sender
        scanNow).sender := by
  unfold drive
  rw [if_pos hactive]
  simp only
  split
  · rfl
  · split <;> rfl

/-- An event that grants no request keeps the transfer. -/
theorem keepsTransfer_apply (hinv : SenderInv file owner.globalSender acked)
    (hsettled : Settled owner.globalSender acked) (link : LossyLink) {event : OwnerEvent}
    (hrefused : Refused host owner event) :
    KeepsTransfer file acked owner.globalSender
      (owner.apply host link event).owner.globalSender := by
  have hsame := KeepsTransfer.refl hinv hsettled
  cases event with
  | shared fileId fileSize hash filename => exact hsame
  | driver sendNow scanNow =>
      show KeepsTransfer file acked _ (drive host owner sendNow scanNow).owner.globalSender
      -- the driver is called in every iteration, with or without a transfer
      by_cases hactive : owner.transferActive = true
      · rw [drive_globalSender hactive]
        obtain ⟨hpeer, hinv', hsettled'⟩ := drive_sender hinv hsettled host sendNow scanNow
        exact ⟨hpeer, acked, Finset.Subset.refl acked, hinv', hsettled'⟩
      · rw [drive, if_neg hactive]
        exact hsame
  | datagram reception env now =>
      rcases reception with _ | ⟨peer, packet⟩
      · exact hsame
      show KeepsTransfer file acked _
        (receiveDatagram host link owner (some (peer, packet)) env now).owner.globalSender
      unfold receiveDatagram
      simp only
      split
      · exact hsame
      · split
        · rename_i hrequest
          rw [(handleRequest_of_refused (hrefused hrequest) link peer now).1]
          exact hsame
        · split
          · unfold handleAck
            split
            · exact keepsTransfer_handleAck hinv hsettled host _
            · exact hsame
          · exact hsame

end Kept

theorem ownerInv_initial : OwnerInv Owner.initial := by
  refine ⟨⟨[], 0, le_rfl⟩, ∅, ?_, by simp [Settled]⟩
  exact
    { fileData := rfl
      fileSize := rfl
      numChunks := rfl
      count := rfl
      acked_lt := by simp
      below_base := by simp [Owner.initial]
      base_le := le_rfl
      next_le_window := Nat.zero_le _
      next_le_chunks := le_rfl
      live := by
        intro q hlow hhigh
        exact absurd hhigh (Nat.not_lt_zero q)
      idle := by
        intro q _ _
        rfl }

/-- Every event keeps the invariant, for a new file when a request is granted. -/
theorem ownerInv_step {host : ByteOrder} {link : LossyLink} {owner owner' : Owner}
    {event : OwnerEvent} (hinv : OwnerInv owner)
    (hstep : OwnerStep host link owner event owner') : OwnerInv owner' := by
  obtain ⟨file, acked, hsender, hsettled⟩ := hinv
  rw [hstep]
  -- a granted request replaces the sender, anything else keeps its transfer
  by_cases hrefused : Refused host owner event
  · obtain ⟨-, acked', -, hinv', hsettled'⟩ :=
      keepsTransfer_apply hsender hsettled link hrefused
    exact ⟨file, acked', hinv', hsettled'⟩
  · rcases event with _ | ⟨_ | ⟨peer, packet⟩, env, now⟩ | _
    · exact absurd trivial hrefused
    · exact absurd trivial hrefused
    · simp only [Refused, Classical.not_imp, not_not] at hrefused
      obtain ⟨hrequest, hgranted⟩ := hrefused
      obtain ⟨file', sender, fileSize, numChunks, hnew, hfresh, -, hresult⟩ :=
        handleRequest_of_granted hgranted link peer now
      have hlong : ¬ packet.bytes.length < udpHeaderSize := by
        have hlength := hgranted.length
        omega
      obtain ⟨hsent, -, hbase, -⟩ := hnew.sendWindow_spec host now
      have hafter : (owner.apply host link (.datagram (some (peer, packet)) env now)).owner =
          (handleRequest host link owner peer packet env now).1.owner := by
        simp only [Owner.apply, receiveDatagram, if_neg hlong, if_pos hrequest]
      refine ⟨file', ∅, ?_, by simp [Settled]⟩
      rw [hafter, hresult]
      exact hsent
    · exact absurd trivial hrefused

/-! ## A request from another peer -/

/-- A step of the loop in which no request is granted. -/
def RefusingStep (host : ByteOrder) (link : LossyLink) (owner : Owner) (event : OwnerEvent)
    (owner' : Owner) : Prop :=
  OwnerStep host link owner event owner' ∧ Refused host owner event

/-- The owner still serves the transfer it served before: the flag and every
field of the global sender that describes the transfer. -/
structure StillServes (before after : Owner) : Prop where
  active : after.transferActive = true
  peerAddr : after.globalSender.peerAddr = before.globalSender.peerAddr
  fileData : after.globalSender.fileData = before.globalSender.fileData
  numChunks : after.globalSender.numChunks = before.globalSender.numChunks
  base : after.globalSender.base = before.globalSender.base
  nextSeq : after.globalSender.nextSeq = before.globalSender.nextSeq
  window : after.globalSender.window = before.globalSender.window
  chunksAcked : after.globalSender.chunksAcked = before.globalSender.chunksAcked

theorem stillServes_of_eq {before after : Owner} (hactive : before.transferActive = true)
    (heq : after = before) : StillServes before after := by
  subst heq
  exact ⟨hactive, rfl, rfl, rfl, rfl, rfl, rfl, rfl⟩

/-- The request branch at another peer's request. -/
theorem stillServes_iff_refused {host : ByteOrder} {owner : Owner} {peer : SockAddr}
    {packet : Datagram} {env : RequestEnv} (hactive : owner.transferActive = true)
    (hpeer : peer ≠ owner.globalSender.peerAddr)
    (hrequest : (UdpHeader.ofImage host packet.bytes).msgType = udpRequestFile)
    (link : LossyLink) (now : UInt64) :
    StillServes owner (receiveDatagram host link owner (some (peer, packet)) env now).owner ↔
      ¬ RequestGranted host owner.table packet env := by
  constructor
  · intro hserves hgranted
    obtain ⟨file, sender, fileSize, numChunks, hinv, -, haddr, hresult⟩ :=
      handleRequest_of_granted hgranted link peer now
    have hlong : ¬ packet.bytes.length < udpHeaderSize := by
      have hlength := hgranted.length
      omega
    obtain ⟨-, hkept, -⟩ := hinv.sendWindow_spec host now
    have hafter := hserves.peerAddr
    simp only [receiveDatagram, if_neg hlong, if_pos hrequest, hresult] at hafter
    rw [hkept, haddr] at hafter
    exact hpeer hafter
  · intro hrefused
    apply stillServes_of_eq hactive
    unfold receiveDatagram
    simp only [if_pos hrequest]
    split
    · rfl
    · exact (handleRequest_of_refused hrefused link peer now).1

/-- A run without a granted request keeps the transfer. -/
theorem keepsTransfer_run {host : ByteOrder} {link : LossyLink} {owner owner' : Owner}
    {events : List OwnerEvent} {file : FileImage} {acked : Finset Nat}
    (hinv : SenderInv file owner.globalSender acked)
    (hsettled : Settled owner.globalSender acked)
    (hrun : Run (RefusingStep host link) owner events owner') :
    KeepsTransfer file acked owner.globalSender owner'.globalSender := by
  induction hrun with
  | nil => exact KeepsTransfer.refl hinv hsettled
  | snoc _ hstep ih =>
      obtain ⟨hpeer, acked', hsub, hinv', hsettled'⟩ := ih
      obtain ⟨hpeer', acked'', hsub', hinv'', hsettled''⟩ :=
        keepsTransfer_apply hinv' hsettled' link hstep.2
      rw [hstep.1]
      exact ⟨hpeer'.trans hpeer, acked'', hsub.trans hsub', hinv'', hsettled''⟩

/-- In every reachable state with an active transfer: a request from another
address leaves the transfer alone exactly when it is refused, and in every
continuation in which all requests are refused the global sender keeps serving
the same file to the same peer, with no chunk forgotten. -/
theorem running_transfer_preserved_iff {host : ByteOrder} {link : LossyLink}
    {owner : Owner} {events : List OwnerEvent}
    (hrun : Run (OwnerStep host link) Owner.initial events owner)
    (hactive : owner.transferActive = true) :
    (∀ peer packet env now, peer ≠ owner.globalSender.peerAddr →
        (UdpHeader.ofImage host packet.bytes).msgType = udpRequestFile →
        (StillServes owner
            (receiveDatagram host link owner (some (peer, packet)) env now).owner ↔
          ¬ RequestGranted host owner.table packet env)) ∧
      ∀ later owner', Run (RefusingStep host link) owner later owner' →
        owner'.globalSender.peerAddr = owner.globalSender.peerAddr ∧
          ∃ file acked acked', SenderInv file owner.globalSender acked ∧
            acked ⊆ acked' ∧ SenderInv file owner'.globalSender acked' := by
  refine ⟨fun peer packet env now hpeer hrequest =>
    stillServes_iff_refused hactive hpeer hrequest link now, ?_⟩
  intro later owner' hlater
  obtain ⟨file, acked, hinv, hsettled⟩ :=
    hrun.invariant (fun _ _ _ hinv hstep => ownerInv_step hinv hstep) ownerInv_initial
  obtain ⟨hpeer, acked', hsub, hinv', -⟩ := keepsTransfer_run hinv hsettled hlater
  exact ⟨hpeer, file, acked, acked', hinv, hsub, hinv'⟩

/-- The system calls go well for a file of one byte. -/
def oneByteEnv : RequestEnv where
  fileEnd := some 1
  sendResult := 24
  allocated := true
  readBytes := [7]

/-- The request of a peer for file 1, whose hash is all zeros. -/
def requestOne : Datagram := Datagram.recv (buildRequestFile .little 1 (HashBytes.ofImage []))

/-- File 1 is shared, then the peer at `⟨1, 1⟩` asks for it. -/
def servingEvents : List OwnerEvent :=
  [.shared 1 1 (HashBytes.ofImage []) [97],
    .datagram (some (⟨1, 1⟩, requestOne)) oneByteEnv 0]

/-- The owner while it serves that peer. -/
def servingOwner : Owner :=
  ((Owner.initial.apply .little ⟨3, 0, 1⟩
    (.shared 1 1 (HashBytes.ofImage []) [97])).owner.apply .little ⟨3, 0, 1⟩
    (.datagram (some (⟨1, 1⟩, requestOne)) oneByteEnv 0)).owner

theorem servingOwner_run :
    Run (OwnerStep .little ⟨3, 0, 1⟩) Owner.initial servingEvents servingOwner :=
  Run.snoc (Run.single rfl) rfl

/-- The peer at `⟨1, 1⟩` is being served and its only chunk is unacknowledged
when the peer at `⟨2, 2⟩` asks for the same file: the sender is re-initialised
for the second peer. -/
theorem running_transfer_overwritten :
    servingOwner.transferActive = true ∧
      srSenderIsComplete servingOwner.globalSender = false ∧
      servingOwner.globalSender.peerAddr = ⟨1, 1⟩ ∧
      (UdpHeader.ofImage .little requestOne.bytes).msgType = udpRequestFile ∧
      (receiveDatagram .little ⟨3, 0, 1⟩ servingOwner (some (⟨2, 2⟩, requestOne))
        oneByteEnv 1).owner.globalSender.peerAddr = ⟨2, 2⟩ ∧
      ¬ StillServes servingOwner (receiveDatagram .little ⟨3, 0, 1⟩ servingOwner
        (some (⟨2, 2⟩, requestOne)) oneByteEnv 1).owner := by
  have hbefore : servingOwner.globalSender.peerAddr = ⟨1, 1⟩ := by decide +kernel
  have hafter : (receiveDatagram .little ⟨3, 0, 1⟩ servingOwner (some (⟨2, 2⟩, requestOne))
      oneByteEnv 1).owner.globalSender.peerAddr = ⟨2, 2⟩ := by decide +kernel
  refine ⟨by decide +kernel, by decide +kernel, hbefore, by decide +kernel, hafter, ?_⟩
  intro hserves
  have hsame := hserves.peerAddr
  rw [hbefore, hafter] at hsame
  exact absurd hsame (by decide)

/-- The same request is harmless when the file can no longer be opened. -/
theorem running_transfer_survives_refusal :
    servingOwner.transferActive = true ∧
      StillServes servingOwner (receiveDatagram .little ⟨3, 0, 1⟩ servingOwner
        (some (⟨2, 2⟩, requestOne)) { oneByteEnv with fileEnd := none } 1).owner := by
  have hactive : servingOwner.transferActive = true := by decide +kernel
  have hbefore : servingOwner.globalSender.peerAddr = ⟨1, 1⟩ := by decide +kernel
  refine ⟨hactive, ((running_transfer_preserved_iff servingOwner_run hactive).1 ⟨2, 2⟩
    requestOne { oneByteEnv with fileEnd := none } 1 ?_ (by decide +kernel)).mpr ?_⟩
  · rw [hbefore]
    decide
  · rintro ⟨-, -, -, ⟨actualSize, hend, -⟩, -⟩
    exact absurd hend (by simp)

end Client
end PeerShare
