import PeerShare.Foundation.SlotRing
import PeerShare.Wire.LossyUdp
import PeerShare.Wire.PacketCodec

/-!
# The sender half of `selective_repeat.c`

A direct transcription.  The three loops recurse on their variants
(`num_chunks - next_seq`, `num_chunks - base`, `next_seq - base`), which the
loop conditions bound, so no iteration is cut short.  An operation returns the
new sender together with the datagrams it hands to the link; whether the link
or the network loses one is decided elsewhere.
-/

namespace PeerShare
namespace SelectiveRepeat

open Foundation Wire

/-- The `uint8_t data[CHUNK_SIZE]` of a window entry. -/
structure ChunkBuffer where
  bytes : Bytes
  length_eq : bytes.length = chunkSize
  deriving DecidableEq

namespace ChunkBuffer

def zero : ChunkBuffer where
  bytes := List.replicate chunkSize 0
  length_eq := by simp

/-- `memcpy(entry->data, source, n)`. -/
def copyIn (buffer : ChunkBuffer) (source : Bytes) : ChunkBuffer where
  bytes := memcpy buffer.bytes 0 source
  length_eq := by rw [memcpy_length, buffer.length_eq]

theorem copyIn_take (buffer : ChunkBuffer) {source : Bytes}
    (hfits : source.length ≤ chunkSize) :
    (buffer.copyIn source).bytes.take source.length = source := by
  have hinside : 0 + source.length ≤ buffer.bytes.length := by
    rw [buffer.length_eq]
    omega
  simpa [copyIn] using memcpy_take buffer.bytes source hinside

end ChunkBuffer

/-- `packet_state_t`. -/
inductive PacketState where
  | empty
  | pending
  | acked
  deriving DecidableEq, Repr

/-- `send_window_entry_t`. -/
structure SendWindowEntry where
  state : PacketState
  seqNum : Nat
  data : ChunkBuffer
  dataLen : Nat
  sendTimeMs : UInt64
  retries : Nat
  deriving DecidableEq

/-- `sr_sender_t`; the socket and the link are left to the environment. -/
structure Sender where
  peerAddr : SockAddr
  base : Nat
  nextSeq : Nat
  window : SlotRing windowSize SendWindowEntry
  fileData : Bytes
  fileSize : Nat
  numChunks : Nat
  chunksAcked : Nat
  deriving DecidableEq

def SendWindowEntry.cleared : SendWindowEntry where
  state := .empty
  seqNum := 0
  data := ChunkBuffer.zero
  dataLen := 0
  sendTimeMs := 0
  retries := 0

/-- `sr_sender_init`; a `none` argument is a null pointer, a `none` result the
return code `-1`. -/
def srSenderInit (peerAddr : Option SockAddr) (fileData : Option Bytes)
    (fileSize : UInt32) (lossyLink : Option LossyLink) : Option Sender :=
  match peerAddr, fileData, lossyLink with
  | some peerAddr, some fileData, some _ =>
      some
        { peerAddr := peerAddr
          base := 0
          nextSeq := 0
          window := SlotRing.filled SendWindowEntry.cleared
          fileData := fileData
          fileSize := fileSize.toNat
          -- `file_size + CHUNK_SIZE - 1` is evaluated in 32 bits
          numChunks := u32 (fileSize.toNat + chunkSize - 1) / chunkSize
          chunksAcked := 0 }
  | _, _, _ => none

/-! ## Sending the window -/

/-- `chunk_len` of `sr_sender_send_window`, all in unsigned 32-bit arithmetic
and then narrowed to 16 bits. -/
def chunkLen (fileSize offset : Nat) : Nat :=
  if u32 (offset + chunkSize) > fileSize then
    u16 (u32 (fileSize + 2 ^ 32 - offset))
  else
    chunkSize

/-- The body of the send loop: one new chunk is sent and buffered. -/
def sendChunk (host : ByteOrder) (now : UInt64) (sender : Sender) : Sender × Bytes :=
  let entry := sender.window.read sender.nextSeq
  let offset := u32 (sender.nextSeq * chunkSize)
  let len := chunkLen sender.fileSize offset
  let chunk := (sender.fileData.drop offset).take len
  ({ sender with
      window := sender.window.write sender.nextSeq
        { state := .pending
          seqNum := sender.nextSeq
          data := entry.data.copyIn chunk
          dataLen := len
          sendTimeMs := now
          retries := 0 }
      nextSeq := u32 (sender.nextSeq + 1) },
    buildDataPacket host sender.nextSeq (sender.fileData.drop offset) len)

/-- How the send loop is left. -/
inductive SendExit where
  | condition
  | slotOccupied
  deriving DecidableEq, Repr

structure SendWindowResult where
  sender : Sender
  packets : List Bytes
  exit : SendExit
  deriving DecidableEq

def sendWindowLoop (host : ByteOrder) (now : UInt64) : Nat → Sender → SendWindowResult
  | 0, sender => ⟨sender, [], .condition⟩
  | rounds + 1, sender =>
      if sender.nextSeq < u32 (sender.base + windowSize) ∧
          sender.nextSeq < sender.numChunks then
        if (sender.window.read sender.nextSeq).state ≠ .empty then
          ⟨sender, [], .slotOccupied⟩
        else
          let (sent, packet) := sendChunk host now sender
          let rest := sendWindowLoop host now rounds sent
          { rest with packets := packet :: rest.packets }
      else
        ⟨sender, [], .condition⟩

/-- `sr_sender_send_window`; its return value is the number of packets. -/
def srSenderSendWindow (host : ByteOrder) (sender : Sender) (now : UInt64) :
    SendWindowResult :=
  sendWindowLoop host now (sender.numChunks - sender.nextSeq) sender

/-! ## Handling acknowledgements -/

/-- The sliding loop of `sr_sender_handle_ack`. -/
def senderSlide : Nat → Sender → Sender
  | 0, sender => sender
  | rounds + 1, sender =>
      if sender.base < sender.numChunks then
        let entry := sender.window.read sender.base
        if entry.state ≠ .acked then
          sender
        else
          senderSlide rounds
            { sender with
              window := sender.window.write sender.base { entry with state := .empty }
              base := u32 (sender.base + 1) }
      else
        sender

/-- The header passes the three early returns of `sr_sender_handle_ack`. -/
def AckInWindow (host : ByteOrder) (sender : Sender) (hdr : UdpHeader) : Prop :=
  sender.base ≤ ackNumber host hdr ∧ hdr.msgType = udpAck ∧
    ackNumber host hdr < u32 (sender.base + windowSize) ∧
    ackNumber host hdr < sender.numChunks

/-- The slot of `ackNum` waits for exactly this acknowledgement. -/
def PendingAt (sender : Sender) (ackNum : Nat) : Prop :=
  (sender.window.read ackNum).state = .pending ∧
    (sender.window.read ackNum).seqNum = ackNum

instance (host : ByteOrder) (sender : Sender) (hdr : UdpHeader) :
    Decidable (AckInWindow host sender hdr) :=
  inferInstanceAs (Decidable (_ ∧ _ ∧ _ ∧ _))

instance (sender : Sender) (ackNum : Nat) : Decidable (PendingAt sender ackNum) :=
  inferInstanceAs (Decidable (_ ∧ _))

/-- Mark one pending chunk as acknowledged and count it. -/
def markAcked (sender : Sender) (ackNum : Nat) : Sender :=
  if PendingAt sender ackNum then
    { sender with
      window := sender.window.write ackNum
        { sender.window.read ackNum with state := .acked }
      chunksAcked := u32 (sender.chunksAcked + 1) }
  else
    sender

/-- `sr_sender_handle_ack`. -/
def srSenderHandleAck (host : ByteOrder) (sender : Sender) (hdr : UdpHeader) : Sender :=
  if AckInWindow host sender hdr then
    let marked := markAcked sender (ackNumber host hdr)
    senderSlide (marked.numChunks - marked.base) marked
  else
    sender

/-- The chunk that `sr_sender_handle_ack` counts as acknowledged in this call,
if it counts one. -/
def ackCounted (host : ByteOrder) (sender : Sender) (hdr : UdpHeader) : Option Nat :=
  if AckInWindow host sender hdr ∧ PendingAt sender (ackNumber host hdr) then
    some (ackNumber host hdr)
  else
    none

/-! ## Timeouts -/

structure TimeoutResult where
  sender : Sender
  packets : List Bytes
  exceeded : Bool
  deriving DecidableEq

/-- The return value of `sr_sender_check_timeouts`. -/
def TimeoutResult.returned (result : TimeoutResult) : Int :=
  if result.exceeded then -1 else result.packets.length

def checkTimeoutsLoop (host : ByteOrder) (now : UInt64) :
    Nat → Nat → Sender → TimeoutResult
  | 0, _, sender => ⟨sender, [], false⟩
  | rounds + 1, seq, sender =>
      let entry := sender.window.read seq
      if entry.state ≠ .pending then
        checkTimeoutsLoop host now rounds (seq + 1) sender
      else if entry.seqNum ≠ seq then
        checkTimeoutsLoop host now rounds (seq + 1) sender
      -- unsigned 64-bit subtraction, as in the source
      else if timeoutMs ≤ now - entry.sendTimeMs then
        if maxRetries ≤ entry.retries then
          ⟨sender, [], true⟩
        else
          let packet := buildDataPacket host entry.seqNum entry.data.bytes entry.dataLen
          let rest := checkTimeoutsLoop host now rounds (seq + 1)
            { sender with
              window := sender.window.write seq
                { entry with sendTimeMs := now, retries := entry.retries + 1 } }
          { rest with packets := packet :: rest.packets }
      else
        checkTimeoutsLoop host now rounds (seq + 1) sender

/-- `sr_sender_check_timeouts`. -/
def srSenderCheckTimeouts (host : ByteOrder) (sender : Sender) (now : UInt64) :
    TimeoutResult :=
  checkTimeoutsLoop host now (sender.nextSeq - sender.base) sender.base sender

/-- `sr_sender_is_complete`. -/
def srSenderIsComplete (sender : Sender) : Bool :=
  decide (sender.numChunks ≤ sender.chunksAcked)

end SelectiveRepeat
end PeerShare
