import PeerShare.SelectiveRepeat.ReceiverRun
import PeerShare.Wire.Control

/-!
# The download half of `get`

What `get` does with its UDP socket once the directory has named a peer: wait
for one `UDP_FILE_START`, set up a receiver with the two numbers it carries,
feed the receiver from the peer until it is complete, then compare the hash and
save the file.  The outcome of `malloc`, of `fopen` and the hash function are
parameters.

Neither `get` nor the receiver relates the announced size to the announced
number of chunks, or a payload length to either.  The last section says for
which announcements the copies into `file_buffer` nevertheless stay inside it.
-/

namespace PeerShare
namespace Client

open Foundation Wire SelectiveRepeat

/-- What `lossy_recv` delivers: an error, or a datagram and its source. -/
abbrev Reception := Option (SockAddr × Datagram)

/-- The early returns of `get` while it waits for `UDP_FILE_START`. -/
inductive StartRefusal where
  | receiveFailed
  | tooSmall
  | shortPayload
  | checksumMismatch
  | unexpectedSender
  | notFileStart
  | payloadSize
  deriving DecidableEq, Repr

/-- The value `get` returns there. -/
def StartRefusal.returnCode : StartRefusal → Int
  -- the only refusal that the caller takes for success
  | .notFileStart => 0
  | _ => 1

/-- `udp_file_start_t` in host order. -/
structure FileStart where
  fileSize : UInt32
  numChunks : UInt32
  deriving DecidableEq, Repr

/-- The checks on the first datagram, in the order of the source. -/
def receiveFileStart (host : ByteOrder) (location : FileLocation) :
    Reception → Except StartRefusal FileStart
  | none => .error .receiveFailed
  | some (sender, packet) =>
      if packet.bytes.length < udpHeaderSize then
        .error .tooSmall
      else
        let hdr := UdpHeader.ofImage host packet.bytes
        let dataLen := ntoh host 2 hdr.dataLen
        if packet.bytes.length < udpHeaderSize + dataLen then
          .error .shortPayload
        else if verifyChecksum (setChecksum host packet.bytes 0) hdr.checksum = false then
          .error .checksumMismatch
        else if sender ≠ location.peer then
          .error .unexpectedSender
        else if hdr.msgType ≠ udpFileStart then
          .error .notFileStart
        else if dataLen ≠ udpFileStartSize then
          .error .payloadSize
        else
          .ok
            { fileSize := UInt32.ofNat (ntoh host 4 (fieldAt host packet.bytes 16 4))
              numChunks := UInt32.ofNat (ntoh host 4 (fieldAt host packet.bytes 20 4)) }

/-- The return value of `get` and the file it saved, if it saved one. -/
structure GetReturn where
  code : Int
  saved : Option (Bytes × Bytes)
  deriving DecidableEq

/-- The end of `get`: compare the hash, then write the file under the name the
directory gave. -/
def finishGet (sha256 : Bytes → HashBytes) (canOpen : Bool) (location : FileLocation)
    (receiver : Receiver) : GetReturn :=
  let (assembled, size) := srReceiverGetFile receiver
  if sha256 (assembled.take size) = location.hash then
    if canOpen then
      ⟨0, some (cString location.filename.bytes, assembled.take size)⟩
    else
      ⟨-1, none⟩
  else
    -- a mismatch is reported on stderr only
    ⟨0, none⟩

/-- Where a running `get` is. -/
inductive GetState where
  | awaitingStart
  | receiving (receiver : Receiver)
  | finished (result : GetReturn)

/-- What the surroundings of one `get` decide. -/
structure GetEnv where
  sha256 : Bytes → HashBytes
  heap : Option (Nat → UInt8)
  canOpen : Bool
  link : LossyLink

/-- The head of the receive loop. -/
def continueGet (env : GetEnv) (location : FileLocation) (receiver : Receiver) : GetState :=
  if srReceiverIsComplete receiver then
    .finished (finishGet env.sha256 env.canOpen location receiver)
  else
    .receiving receiver

/-- The state after one reception, with the acknowledgements sent to the peer
and the copies made. -/
structure GetStep where
  state : GetState
  acks : List Bytes
  copies : List DeliveryCopy

/-- One reception of `get`. -/
def getReceive (host : ByteOrder) (env : GetEnv) (location : FileLocation)
    (state : GetState) (reception : Reception) : GetStep :=
  match state with
  | .awaitingStart =>
      match receiveFileStart host location reception with
      | .error refusal => ⟨.finished ⟨refusal.returnCode, none⟩, [], []⟩
      | .ok start =>
          match srReceiverInit (some location.peer) start.fileSize start.numChunks
              (some env.link) env.heap with
          | none => ⟨.finished ⟨1, none⟩, [], []⟩
          | some receiver => ⟨continueGet env location receiver, [], []⟩
  | .receiving receiver =>
      match reception with
      | none => ⟨.finished ⟨-1, none⟩, [], []⟩
      | some (sender, packet) =>
          if sender ≠ location.peer then
            ⟨.receiving receiver, [], []⟩
          else
            let result := srReceiverHandleData host receiver packet.bytes
            ⟨continueGet env location result.receiver, result.acks, result.copies⟩
  | .finished result => ⟨.finished result, [], []⟩

/-- The copies of a whole download. -/
def getCopies (host : ByteOrder) (env : GetEnv) (location : FileLocation) :
    GetState → List Reception → List DeliveryCopy
  | _, [] => []
  | state, reception :: rest =>
      let step := getReceive host env location state reception
      step.copies ++ getCopies host env location step.state rest

/-! ## The announcement -/

/-- Every pair of 32-bit numbers can be announced, and `get` accepts it. -/
theorem receiveFileStart_build (host : ByteOrder) (location : FileLocation)
    (fileSize numChunks : UInt32) :
    receiveFileStart host location
      (some (location.peer,
        Datagram.recv (buildFileStart host fileSize.toNat numChunks.toNat))) =
      .ok ⟨fileSize, numChunks⟩ := by
  have hlength : (buildFileStart host fileSize.toNat numChunks.toNat).length = 24 := by
    simp [buildFileStart, udpHeaderSize]
  have hwhole : (Datagram.recv (buildFileStart host fileSize.toNat numChunks.toNat)).bytes =
      buildFileStart host fileSize.toNat numChunks.toNat := by
    apply List.take_of_length_le
    rw [hlength]
    decide
  have hheader := ofImage_sealPacket host (fileStartHeader host)
    (storeWord host 4 (hton host 4 fileSize.toNat) ++
      storeWord host 4 (hton host 4 numChunks.toNat)) (fileStartHeader_inRange host)
  have hzeroed := setChecksum_sealPacket host (fileStartHeader host)
    (storeWord host 4 (hton host 4 fileSize.toNat) ++
      storeWord host 4 (hton host 4 numChunks.toNat)) rfl
  have hdataLen : ntoh host 2 (fileStartHeader host).dataLen = udpFileStartSize := by
    simp [fileStartHeader, udpFileStartSize]
  obtain ⟨hfirst, hsecond⟩ := fieldAt_buildFileStart host fileSize.toNat numChunks.toNat
  unfold receiveFileStart
  simp only [hwhole, hfirst, hsecond, ofNat_ntoh_hton, hlength]
  rw [buildFileStart, hheader, hzeroed]
  simp only [hdataLen]
  simp [verifyChecksum, udpHeaderSize, udpFileStartSize, fileStartHeader]

/-! ## The receive loop is a run of the receiver -/

theorem foldl_handle_copies (host : ByteOrder) (packets : List Datagram)
    (history : ReceiverHistory) :
    (packets.foldl (ReceiverHistory.handle host) history).copies =
      history.copies ++ (runReceiver host history.receiver packets).copies := by
  unfold runReceiver
  induction packets using List.reverseRecOn with
  | nil => simp
  | append_singleton packets packet ih =>
      have hreceiver : (packets.foldl (ReceiverHistory.handle host) history).receiver =
          (packets.foldl (ReceiverHistory.handle host)
            ⟨history.receiver, [], [], [], []⟩).receiver := by
        clear ih
        induction packets using List.reverseRecOn with
        | nil => rfl
        | append_singleton packets packet ih =>
            simp only [List.foldl_concat, ReceiverHistory.handle, ih]
      simp only [List.foldl_concat, ReceiverHistory.handle, ih, hreceiver, List.append_assoc]

/-- Whatever arrives, from whomever, the copies of the receive loop are those
of a run of the receiver over some of the datagrams. -/
theorem getCopies_receiving (host : ByteOrder) (env : GetEnv) (location : FileLocation)
    (receptions : List Reception) (receiver : Receiver) :
    ∃ packets, getCopies host env location (.receiving receiver) receptions =
      (runReceiver host receiver packets).copies := by
  have hidle : ∀ result receptions,
      getCopies host env location (.finished result) receptions = [] := by
    intro result receptions
    induction receptions with
    | nil => rfl
    | cons reception rest ih => simpa [getCopies, getReceive] using ih
  induction receptions generalizing receiver with
  | nil => exact ⟨[], rfl⟩
  | cons reception rest ih =>
      rcases reception with _ | ⟨sender, packet⟩
      · refine ⟨[], ?_⟩
        show [] ++ getCopies host env location (.finished ⟨-1, none⟩) rest = []
        rw [hidle, List.append_nil]
      · by_cases hsender : sender = location.peer
        · have hone : ∀ packets, (runReceiver host receiver (packet :: packets)).copies =
              (srReceiverHandleData host receiver packet.bytes).copies ++
                (runReceiver host (srReceiverHandleData host receiver packet.bytes).receiver
                  packets).copies := by
            intro packets
            rw [runReceiver, List.foldl_cons, foldl_handle_copies]
            rfl
          by_cases hcomplete : srReceiverIsComplete
              (srReceiverHandleData host receiver packet.bytes).receiver = true
          · refine ⟨[packet], ?_⟩
            rw [hone []]
            simp [getCopies, getReceive, hsender, continueGet, hcomplete, hidle, runReceiver]
          · obtain ⟨packets, hpackets⟩ :=
              ih (srReceiverHandleData host receiver packet.bytes).receiver
            refine ⟨packet :: packets, ?_⟩
            rw [hone packets, ← hpackets]
            simp [getCopies, getReceive, hsender, continueGet, hcomplete]
        · obtain ⟨packets, hpackets⟩ := ih receiver
          refine ⟨packets, ?_⟩
          rw [← hpackets]
          simp [getCopies, getReceive, hsender]

/-! ## Which announcements keep the copies inside -/

/-- The copy ends inside a buffer of `fileSize` bytes, computed without wrap. -/
def CopyInside (fileSize : Nat) (copy : DeliveryCopy) : Prop :=
  copy.base * chunkSize + copy.dataLen ≤ fileSize

/-- A datagram that carries a full chunk numbered `q`. -/
def fullChunk (host : ByteOrder) (q : Nat) : Datagram where
  bytes := buildDataPacket host q (List.replicate chunkSize 0) chunkSize
  length_le := by
    rw [buildDataPacket_length host q (by simp)]

theorem decodeData_fullChunk (host : ByteOrder) {q : Nat} (hq : q < 2 ^ 32) :
    decodeData host (fullChunk host q).bytes = some (q, List.replicate chunkSize 0) := by
  have hdecode : decodeData host (fullChunk host q).bytes =
      some (q, (List.replicate chunkSize 0).take chunkSize) :=
    decodeData_buildDataPacket host hq (by decide) (by simp)
  rwa [List.take_of_length_le (by simp)] at hdecode

variable {host : ByteOrder} {receiver : Receiver}

/-- The copies of a run, read off its history: chunk `q` is copied once the
base has passed it, with the payload that was accepted first. -/
theorem mem_copies_iff {history : ReceiverHistory}
    (hinv : ReceiverHistoryInv host receiver history) (copy : DeliveryCopy) :
    copy ∈ history.copies ↔ ∃ q < history.receiver.base,
      copy = deliveryOf (contentOf history.accepted) q := by
  rw [hinv.copies, List.mem_map]
  constructor
  · rintro ⟨q, hq, rfl⟩
    exact ⟨q, List.mem_range.mp hq, rfl⟩
  · rintro ⟨q, hq, rfl⟩
    exact ⟨q, List.mem_range.mpr hq, rfl⟩

/-- If the announced chunks do not fit into the announced size, full chunks in
order make a copy that leaves the buffer. -/
theorem exists_copy_outside (hinv : ReceiverInv receiver ∅ (contentOf []))
    (hbase : receiver.base = 0) {fileSize : Nat} (hsize : fileSize < 2 ^ 32)
    (hbig : fileSize < receiver.numChunks * chunkSize) :
    ∃ packets : List Datagram, ∃ copy ∈ (runReceiver host receiver packets).copies,
      ¬ CopyInside fileSize copy := by
  -- the first chunk that does not fit as a whole
  have hlast : fileSize / chunkSize < receiver.numChunks :=
    Nat.div_lt_of_lt_mul (by rwa [Nat.mul_comm] at hbig)
  have hfloor : fileSize < fileSize / chunkSize * chunkSize + chunkSize := by
    unfold chunkSize
    omega
  have hroom : fileSize / chunkSize + 1 + windowSize < 2 ^ 32 := by
    unfold chunkSize windowSize
    omega
  let packets := (List.range (fileSize / chunkSize + 1)).map (fullChunk host)
  have hstored : ∀ q, q ∈ (runReceiver host receiver packets).stored ↔ _ :=
    stored_inOrder hinv hbase hlast hroom.le fun q hq => decodeData_fullChunk host (by omega)
  have hhistory := receiverHistoryInv_run host hinv hbase packets
  have hpassed : fileSize / chunkSize < (runReceiver host receiver packets).receiver.base := by
    by_contra hnot
    apply hhistory.settled
    rw [List.mem_toFinset, hstored]
    omega
  have hcontent : (contentOf (runReceiver host receiver packets).accepted
      (fileSize / chunkSize)).length = chunkSize := by
    have hmem := hhistory.mem_accepted
      ((hstored (fileSize / chunkSize)).mpr (Nat.lt_succ_self _))
    obtain ⟨packet, hpacket, hdecode⟩ := mem_accepted_run hmem
    obtain ⟨q, hq, rfl⟩ := List.mem_map.mp hpacket
    have hq' := List.mem_range.mp hq
    rw [decodeData_fullChunk host (by omega)] at hdecode
    obtain ⟨-, hpayload⟩ := Prod.mk.inj (Option.some.inj hdecode)
    rw [← hpayload, List.length_replicate]
  refine ⟨packets, _, (mem_copies_iff hhistory _).mpr ⟨_, hpassed, rfl⟩, ?_⟩
  show ¬ fileSize / chunkSize * chunkSize +
    (contentOf (runReceiver host receiver packets).accepted _).length ≤ fileSize
  rw [hcontent]
  omega

/-- A run stays inside when every valid datagram of it fits, at its own place,
into the announced size. -/
theorem copies_inside_of_fitting (hinv : ReceiverInv receiver ∅ (contentOf []))
    (hbase : receiver.base = 0) {fileSize : Nat} {packets : List Datagram}
    (hfit : ∀ packet ∈ packets, ∀ q payload,
      decodeData host packet.bytes = some (q, payload) → q < receiver.numChunks →
        q * chunkSize + payload.length ≤ fileSize) :
    ∀ copy ∈ (runReceiver host receiver packets).copies, CopyInside fileSize copy := by
  have hhistory := receiverHistoryInv_run host hinv hbase packets
  intro copy hcopy
  obtain ⟨q, hq, rfl⟩ := (mem_copies_iff hhistory copy).mp hcopy
  have hstored := hhistory.inv.below_base q hq
  obtain ⟨packet, hpacket, hdecode⟩ :=
    mem_accepted_run (hhistory.mem_accepted (List.mem_toFinset.mp hstored))
  have hlt := hhistory.inv.stored_lt q hstored
  rw [hhistory.numChunks] at hlt
  exact hfit packet hpacket q _ hdecode hlt

/-- For every announcement a peer can make, and `get` accepts them all: every
sequence of datagrams keeps every copy inside `file_buffer` exactly when the
announced number of chunks, each of full size, fits into the announced size. -/
theorem receiver_in_bounds_iff (host : ByteOrder) (location : FileLocation)
    (link : LossyLink) (heap : Nat → UInt8) (fileSize numChunks : UInt32) :
    receiveFileStart host location
        (some (location.peer,
          Datagram.recv (buildFileStart host fileSize.toNat numChunks.toNat))) =
        .ok ⟨fileSize, numChunks⟩ ∧
      ∃ receiver,
        srReceiverInit (some location.peer) fileSize numChunks (some link) (some heap) =
          some receiver ∧
        ((∀ packets : List Datagram, ∀ copy ∈ (runReceiver host receiver packets).copies,
            CopyInside fileSize.toNat copy) ↔
          numChunks.toNat * chunkSize ≤ fileSize.toNat) := by
  obtain ⟨receiver, hinit, -, -, hchunks, hbase, -, hinv⟩ :=
    srReceiverInit_inv location.peer link fileSize numChunks heap
  refine ⟨receiveFileStart_build host location fileSize numChunks, receiver, hinit, ?_⟩
  constructor
  · intro hinside
    by_contra hbig
    rw [← hchunks, not_le] at hbig
    obtain ⟨packets, copy, hcopy, hout⟩ :=
      exists_copy_outside hinv hbase fileSize.toNat_lt hbig
    exact hout (hinside packets copy hcopy)
  · intro hfits packets
    apply copies_inside_of_fitting hinv hbase
    intro packet _ q payload hdecode hq
    have hlength := decodeData_payload_length hdecode
    have hpacket := packet.length_le
    rw [hchunks] at hq
    have hnext : (q + 1) * chunkSize ≤ numChunks.toNat * chunkSize :=
      Nat.mul_le_mul_right chunkSize hq
    rw [Nat.add_mul, Nat.one_mul] at hnext
    omega

/-- A peer announces one byte in one chunk and sends two. -/
theorem receiver_leaves_one_byte_buffer :
    ∃ (location : FileLocation) (start packet : Datagram) (receiver : Receiver),
      receiveFileStart .little location (some (location.peer, start)) = .ok ⟨1, 1⟩ ∧
      srReceiverInit (some location.peer) 1 1 (some ⟨0, 0, 1⟩) (some fun _ => 0) =
        some receiver ∧
      ∃ copy ∈ (runReceiver .little receiver [packet]).copies, ¬ CopyInside 1 copy := by
  obtain ⟨copy, hcopy, hbase, hlen⟩ : ∃ copy ∈ (runReceiver .little
      ((srReceiverInit (some ⟨0, 0⟩) 1 1 (some ⟨0, 0, 1⟩) (some fun _ => 0)).get rfl)
      [Datagram.recv (buildDataPacket .little 0 [1, 2] 2)]).copies,
      copy.base = 0 ∧ copy.dataLen = 2 :=
    ⟨⟨0, 0, 2, [1, 2]⟩, by decide +kernel, rfl, rfl⟩
  refine ⟨⟨1, 1, HashBytes.ofImage [], ⟨0, 0⟩, NameField.ofImage []⟩,
    Datagram.recv (buildFileStart .little 1 1), _, _,
    receiveFileStart_build .little _ 1 1, rfl, copy, hcopy, ?_⟩
  unfold CopyInside
  rw [hbase, hlen]
  decide

end Client
end PeerShare
