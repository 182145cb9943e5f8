import PeerShare.Client.Resources

/-!
# The memory that the owner's loop touches

The owner copies with `memcpy` and lengths it has computed: out of the file buffer
into a packet and into a slot of the window, and out of a slot into a packet when it
sends again.  Of a datagram it reads a header, and behind it what the length of the
datagram was checked for.  Every such access is listed with the object it goes to,
next to the branch that makes it.

No access leaves its object, in any run.  For the file buffer this needs the chunk
numbers of a whole transfer, since the offset is computed in 32 bits.  The buffer is
the one that `global_file_buffer` holds, so it has not been freed.
-/

namespace PeerShare
namespace Client

open Foundation Wire SelectiveRepeat

/-- `length` bytes are read or written from `offset` on, in an object of `size` bytes. -/
structure Access where
  size : Nat
  offset : Nat
  length : Nat
  deriving DecidableEq, Repr

def Access.Inside (access : Access) : Prop :=
  access.offset + access.length ≤ access.size

/-- The `packet[sizeof(udp_header_t) + CHUNK_SIZE]` of a call: the payload goes in
behind the header, then all of it is read for the checksum and for the link. -/
def packetAccesses (dataLen : Nat) : List Access :=
  [⟨udpHeaderSize + chunkSize, 0, udpHeaderSize⟩,
    ⟨udpHeaderSize + chunkSize, udpHeaderSize, dataLen⟩,
    ⟨udpHeaderSize + chunkSize, 0, udpHeaderSize + dataLen⟩]

/-- One round of the send loop: the chunk is read twice, for the packet and for the slot. -/
def sendChunkAccesses (sender : Sender) : List Access :=
  let offset := u32 (sender.nextSeq * chunkSize)
  let len := chunkLen sender.fileSize offset
  ⟨sender.fileData.length, offset, len⟩ :: packetAccesses len ++
    [⟨sender.fileData.length, offset, len⟩, ⟨chunkSize, 0, len⟩]

/-- The rounds of `sendWindowLoop`. -/
def sendLoopAccesses (host : ByteOrder) (now : UInt64) : Nat → Sender → List Access
  | 0, _ => []
  | rounds + 1, sender =>
      if sender.nextSeq < u32 (sender.base + windowSize) ∧
          sender.nextSeq < sender.numChunks then
        if (sender.window.read sender.nextSeq).state ≠ .empty then
          []
        else
          sendChunkAccesses sender ++
            sendLoopAccesses host now rounds (sendChunk host now sender).1
      else
        []

/-- `sr_sender_send_window`. -/
def sendWindowAccesses (host : ByteOrder) (sender : Sender) (now : UInt64) : List Access :=
  sendLoopAccesses host now (sender.numChunks - sender.nextSeq) sender

/-- A retransmission reads the slot. -/
def retransmitAccesses (entry : SendWindowEntry) : List Access :=
  ⟨chunkSize, 0, entry.dataLen⟩ :: packetAccesses entry.dataLen

/-- The rounds of `checkTimeoutsLoop`. -/
def scanLoopAccesses (now : UInt64) : Nat → Nat → Sender → List Access
  | 0, _, _ => []
  | rounds + 1, seq, sender =>
      let entry := sender.window.read seq
      if entry.state ≠ .pending then
        scanLoopAccesses now rounds (seq + 1) sender
      else if entry.seqNum ≠ seq then
        scanLoopAccesses now rounds (seq + 1) sender
      else if timeoutMs ≤ now - entry.sendTimeMs then
        if maxRetries ≤ entry.retries then
          []
        else
          retransmitAccesses entry ++
            scanLoopAccesses now rounds (seq + 1)
              { sender with
                window := sender.window.write seq
                  { entry with sendTimeMs := now, retries := entry.retries + 1 } }
      else
        scanLoopAccesses now rounds (seq + 1) sender

/-- `sr_sender_check_timeouts`. -/
def checkTimeoutsAccesses (sender : Sender) (now : UInt64) : List Access :=
  scanLoopAccesses now (sender.nextSeq - sender.base) sender.base sender

/-- The body of a request that is read before its branch is left: the number, and the
hash once the number is found. -/
def bodyAccesses (received : Nat) : RequestExit → List Access
  | .tooShort | .lengthMismatch => []
  | .unknownFile => [⟨received, udpHeaderSize, 4⟩]
  | _ => [⟨received, udpHeaderSize, 4⟩, ⟨received, udpHeaderSize + 4, 32⟩]

/-- The `UDP_REQUEST_FILE` branch: the body, and the first window if it gets that far. -/
def requestAccesses (host : ByteOrder) (link : LossyLink) (owner : Owner) (peer : SockAddr)
    (packet : Datagram) (env : RequestEnv) (now : UInt64) : List Access :=
  let exit := (handleRequest host link owner peer packet env now).2
  let sender := env.fileEnd.bind fun actualSize =>
    srSenderInit (some peer) (some env.readBytes) (UInt32.ofNat (announcedSize actualSize))
      (some link)
  bodyAccesses packet.bytes.length exit ++
    if exit = .started then
      sender.elim [] fun sender => sendWindowAccesses host sender now
    else
      []

namespace Owner

/-- What one event of the loop touches.  The datagram is measured by what was received,
not by `udp_buffer`, so that no byte of an earlier one is read. -/
def accesses (host : ByteOrder) (link : LossyLink) (owner : Owner) : OwnerEvent → List Access
  | .shared _ _ _ _ => []
  | .datagram none _ _ => []
  | .datagram (some (peer, packet)) env now =>
      if packet.bytes.length < udpHeaderSize then
        []
      else
        ⟨packet.bytes.length, 0, udpHeaderSize⟩ ::
          if (UdpHeader.ofImage host packet.bytes).msgType = udpRequestFile then
            requestAccesses host link owner peer packet env now
          else
            []
  | .driver sendNow scanNow =>
      if owner.transferActive then
        sendWindowAccesses host owner.globalSender sendNow ++
          checkTimeoutsAccesses (srSenderSendWindow host owner.globalSender sendNow).sender
            scanNow
      else
        []

end Owner

section Sender

variable {file : FileImage} {sender : Sender} {acked : Finset Nat}

theorem packetAccesses_inside {dataLen : Nat} (hfits : dataLen ≤ chunkSize) :
    ∀ access ∈ packetAccesses dataLen, access.Inside := by
  intro access haccess
  simp only [packetAccesses, List.mem_cons, List.not_mem_nil, or_false] at haccess
  rcases haccess with rfl | rfl | rfl
  · exact Nat.le_add_right _ _
  · exact Nat.add_le_add_left hfits _
  · simpa [Access.Inside] using hfits

/-- A round of the send loop stays in the file, the packet and the slot. -/
theorem sendChunkAccesses_inside (hinv : SenderInv file sender acked)
    (hchunks : sender.nextSeq < sender.numChunks) :
    ∀ access ∈ sendChunkAccesses sender, access.Inside := by
  have hq : sender.nextSeq < file.numChunks := by
    rw [← hinv.numChunks]
    exact hchunks
  have hlen : chunkLen sender.fileSize (sender.nextSeq * chunkSize) =
      (file.chunk sender.nextSeq).length := by
    rw [hinv.fileSize, file.chunkLen_eq hq]
  have hsmall := file.chunk_length_le sender.nextSeq
  -- the chunk ends in the file, and the file in its buffer
  have hread : Access.Inside ⟨sender.fileData.length, sender.nextSeq * chunkSize,
      (file.chunk sender.nextSeq).length⟩ := by
    rw [hinv.fileData]
    exact (file.chunk_end_le hq).trans file.size_le
  intro access haccess
  simp only [sendChunkAccesses, file.offset_eq hq, hlen, List.cons_append, List.mem_cons,
    List.mem_append, List.not_mem_nil, or_false] at haccess
  rcases haccess with rfl | hpacket | rfl | rfl
  · exact hread
  · exact packetAccesses_inside hsmall access hpacket
  · exact hread
  · simpa [Access.Inside] using hsmall

theorem sendLoopAccesses_inside (hinv : SenderInv file sender acked) (host : ByteOrder)
    (now : UInt64) (rounds : Nat) :
    ∀ access ∈ sendLoopAccesses host now rounds sender, access.Inside := by
  induction rounds generalizing sender with
  | zero =>
      intro access haccess
      contradiction
  | succ rounds ih =>
      rw [sendLoopAccesses, hinv.window_end_eq]
      split
      · next hcond =>
          split
          · intro access haccess
            contradiction
          · intro access haccess
            rcases List.mem_append.mp haccess with hround | hrest
            · exact sendChunkAccesses_inside hinv hcond.2 access hround
            · rw [hinv.sendChunk_eq host now hcond.2] at hrest
              exact ih (hinv.keeps_sendChunk now hcond.1 hcond.2) access hrest
      · intro access haccess
        contradiction

theorem scanLoopAccesses_inside (hinv : SenderInv file sender acked) (now : UInt64)
    {rounds seq : Nat} (hlow : sender.base ≤ seq) (hend : seq + rounds = sender.nextSeq) :
    ∀ access ∈ scanLoopAccesses now rounds seq sender, access.Inside := by
  induction rounds generalizing sender seq with
  | zero =>
      intro access haccess
      contradiction
  | succ rounds ih =>
      have hnext : seq < sender.nextSeq := by omega
      have hsmall : (sender.window.read seq).dataLen ≤ chunkSize := by
        rw [(hinv.live seq hlow hnext).dataLen]
        exact file.chunk_length_le seq
      have hskip := ih hinv (Nat.le_succ_of_le hlow) (by omega)
      simp only [scanLoopAccesses]
      split
      · exact hskip
      split
      · exact hskip
      split
      · split
        · intro access haccess
          contradiction
        · intro access haccess
          rcases List.mem_append.mp haccess with hround | hrest
          · rcases List.mem_cons.mp hround with rfl | hpacket
            · simpa [Access.Inside] using hsmall
            · exact packetAccesses_inside hsmall access hpacket
          · have hrestart := hinv.keeps_restart hlow hnext now
              ((sender.window.read seq).retries + 1)
            exact ih hrestart (Nat.le_succ_of_le hlow) (by simp only; omega) access hrest
      · exact hskip

/-- The two halves of the driver. -/
theorem driverAccesses_inside (hinv : SenderInv file sender acked) (host : ByteOrder)
    (sendNow scanNow : UInt64) :
    ∀ access ∈ sendWindowAccesses host sender sendNow ++
        checkTimeoutsAccesses (srSenderSendWindow host sender sendNow).sender scanNow,
      access.Inside := by
  obtain ⟨hsent, -⟩ := hinv.sendWindow_spec host sendNow
  have hbase := hsent.base_le
  intro access haccess
  rcases List.mem_append.mp haccess with hwindow | hscan
  · exact sendLoopAccesses_inside hinv host sendNow _ access hwindow
  · exact scanLoopAccesses_inside hsent scanNow le_rfl (by omega) access hscan

end Sender

/-! ## The whole loop -/

/-- The running transfer reads the buffer that `global_file_buffer` holds. -/
def BufferHeld (owner : Owner) : Prop :=
  owner.transferActive = true →
    owner.globalFileBuffer = some owner.globalSender.fileData

section Steps

variable {host : ByteOrder} {link : LossyLink} {owner owner' : Owner}

/-- The body of a request is read only where it has been received. -/
theorem length_of_exit {peer : SockAddr} {packet : Datagram} {env : RequestEnv} {now : UInt64}
    (hlong : (handleRequest host link owner peer packet env now).2 ≠ .tooShort) :
    udpHeaderSize + udpRequestFileSize ≤ packet.bytes.length := by
  by_contra hshort
  have hfile : requestedFile host owner.table packet = .error .tooShort :=
    if_pos (not_le.mp hshort)
  rw [handleRequest, hfile] at hlong
  exact hlong rfl

theorem bodyAccesses_inside {received : Nat} {exit : RequestExit}
    (hlong : exit ≠ .tooShort → udpHeaderSize + udpRequestFileSize ≤ received) :
    ∀ access ∈ bodyAccesses received exit, access.Inside := by
  intro access haccess
  by_cases hshort : exit = .tooShort
  · subst hshort
    contradiction
  have hlength : 52 ≤ received := hlong hshort
  have hsub : bodyAccesses received exit ⊆
      [⟨received, udpHeaderSize, 4⟩, ⟨received, udpHeaderSize + 4, 32⟩] := by
    cases exit <;> simp [bodyAccesses]
  rcases List.mem_cons.mp (hsub haccess) with rfl | hhash
  · show 16 + 4 ≤ received
    omega
  · rw [List.mem_singleton.mp hhash]
    show 20 + 32 ≤ received
    omega

theorem requestAccesses_inside (peer : SockAddr) (packet : Datagram) (env : RequestEnv)
    (now : UInt64) :
    ∀ access ∈ requestAccesses host link owner peer packet env now, access.Inside := by
  intro access haccess
  rcases List.mem_append.mp haccess with hbody | hwindow
  · exact bodyAccesses_inside length_of_exit access hbody
  · split at hwindow
    · next hstarted =>
        obtain ⟨actualSize, hend, hread⟩ := (requestGranted_of_started hstarted).opened
        obtain ⟨file, hdata, hsize⟩ := exists_fileImage hread
        obtain ⟨sender, hinit, -, hinv, -⟩ := srSenderInit_inv peer link file
        rw [hdata, hsize] at hinit
        rw [hend, Option.bind_some, hinit] at hwindow
        exact sendLoopAccesses_inside hinv host now _ access hwindow
    · contradiction

theorem accesses_inside (hinv : OwnerInv owner) (event : OwnerEvent) :
    ∀ access ∈ owner.accesses host link event, access.Inside := by
  obtain ⟨file, acked, hsender, -⟩ := hinv
  intro access haccess
  rcases event with _ | ⟨_ | ⟨peer, packet⟩, env, now⟩ | ⟨sendNow, scanNow⟩
  · contradiction
  · contradiction
  · simp only [Owner.accesses] at haccess
    split at haccess
    · contradiction
    · next hlong =>
        rcases List.mem_cons.mp haccess with rfl | hbody
        · exact (Nat.zero_add _).trans_le (not_lt.mp hlong)
        · split at hbody
          · exact requestAccesses_inside peer packet env now access hbody
          · contradiction
  · simp only [Owner.accesses] at haccess
    split at haccess
    · exact driverAccesses_inside hsender host sendNow scanNow access haccess
    · contradiction

/-- A file is read from the same buffer for as long as it is sent. -/
theorem fileData_eq_of_inv {file : FileImage} {before after : Sender} {acked acked' : Finset Nat}
    (hbefore : SenderInv file before acked) (hafter : SenderInv file after acked') :
    after.fileData = before.fileData := by
  rw [hafter.fileData, hbefore.fileData]

theorem bufferHeld_drive (hinv : OwnerInv owner) (hheld : BufferHeld owner)
    (sendNow scanNow : UInt64) : BufferHeld (drive host owner sendNow scanNow).owner := by
  obtain ⟨file, acked, hsender, hsettled⟩ := hinv
  obtain ⟨-, hscan, -⟩ := drive_sender hsender hsettled host sendNow scanNow
  have hsame := fileData_eq_of_inv hsender hscan
  unfold drive
  split
  · next hactive =>
      simp only
      split
      · intro hreleased
        contradiction
      split
      · intro hreleased
        contradiction
      · intro _
        simp only [hsame]
        exact hheld hactive
  · exact hheld

theorem bufferHeld_request (hheld : BufferHeld owner) (peer : SockAddr) (packet : Datagram)
    (env : RequestEnv) (now : UInt64) :
    BufferHeld (handleRequest host link owner peer packet env now).1.owner := by
  by_cases hgranted : RequestGranted host owner.table packet env
  · obtain ⟨actualSize, hend, hread⟩ := hgranted.opened
    obtain ⟨file, hdata, hsize⟩ := exists_fileImage hread
    obtain ⟨sender, hinit, -, hinv, -⟩ := srSenderInit_inv peer link file
    obtain ⟨hsent, -⟩ := hinv.sendWindow_spec host now
    rw [handleRequest_eq_started hgranted hend hdata hsize hinit now]
    intro _
    simp only [hsent.fileData, hdata]
  · rw [(handleRequest_of_refused hgranted link peer now).1]
    exact hheld

theorem bufferHeld_ack (hinv : OwnerInv owner) (hheld : BufferHeld owner) (packet : Datagram) :
    BufferHeld (handleAck host owner packet).owner := by
  obtain ⟨file, acked, hsender, hsettled⟩ := hinv
  obtain ⟨hacked, -⟩ := hsender.handleAck_spec hsettled host (UdpHeader.ofImage host packet.bytes)
  unfold handleAck
  split
  · intro hactive
    simp only [fileData_eq_of_inv hsender hacked]
    exact hheld hactive
  · exact hheld

theorem bufferHeld_step (hinv : OwnerInv owner) (hheld : BufferHeld owner) {event : OwnerEvent}
    (hstep : OwnerStep host link owner event owner') : BufferHeld owner' := by
  rw [hstep]
  rcases event with _ | ⟨_ | ⟨peer, packet⟩, env, now⟩ | ⟨sendNow, scanNow⟩
  · exact hheld
  · exact hheld
  · simp only [Owner.apply, receiveDatagram]
    split
    · exact hheld
    split
    · exact bufferHeld_request hheld peer packet env now
    split
    · exact bufferHeld_ack hinv hheld packet
    · exact hheld
  · exact bufferHeld_drive hinv hheld sendNow scanNow

end Steps

/-- In every run of the owner's loop, whatever arrives and whatever the system calls return:
each access of the next event stays inside its object, the file buffer, a slot, a packet or
the bytes that were received, and the file buffer that a transfer reads is the one that
`global_file_buffer` holds. -/
theorem owner_accesses_in_bounds {host : ByteOrder} {link : LossyLink} {events : List OwnerEvent}
    {owner : Owner} (hrun : Run (OwnerStep host link) Owner.initial events owner) :
    (∀ event, ∀ access ∈ owner.accesses host link event, access.Inside) ∧
      (owner.transferActive = true →
        owner.globalFileBuffer = some owner.globalSender.fileData) := by
  obtain ⟨hinv, hheld⟩ := hrun.invariant
    (fun _ _ _ (h : OwnerInv _ ∧ BufferHeld _) hstep =>
      ⟨ownerInv_step h.1 hstep, bufferHeld_step h.1 h.2 hstep⟩)
    ⟨ownerInv_initial, fun hactive => absurd hactive (by decide)⟩
  exact ⟨accesses_inside hinv, hheld⟩

/-- When the only chunk of a file of one byte is sent again, one byte of its slot is read. -/
theorem owner_accesses_in_bounds_one_byte :
    servingOwner.transferActive = true ∧
      servingOwner.accesses .little ⟨3, 0, 1⟩ (.driver 600 600) =
        [⟨1024, 0, 1⟩, ⟨1040, 0, 16⟩, ⟨1040, 16, 1⟩, ⟨1040, 0, 17⟩] ∧
      (∀ access ∈ servingOwner.accesses .little ⟨3, 0, 1⟩ (.driver 600 600), access.Inside) ∧
      servingOwner.globalFileBuffer = some servingOwner.globalSender.fileData := by
  have hactive : servingOwner.transferActive = true := by decide +kernel
  obtain ⟨hinside, hheld⟩ := owner_accesses_in_bounds servingOwner_run
  exact ⟨hactive, by decide +kernel, hinside _, hheld hactive⟩

end Client
end PeerShare
