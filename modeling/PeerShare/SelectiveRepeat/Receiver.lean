import PeerShare.SelectiveRepeat.Sender

/-!
# The receiver half of `selective_repeat.c`

A direct transcription.  `file_buffer` is a block of `file_size` bytes with
arbitrary initial contents.  A delivery copy is carried out on the block and
also reported, with the sequence number it belongs to and the wrapped offset
the code computes, so that a copy which would leave the block is visible.
-/

namespace PeerShare
namespace SelectiveRepeat

open Foundation Wire

/-- `recv_window_entry_t`. -/
structure RecvWindowEntry where
  received : Bool
  seqNum : Nat
  data : ChunkBuffer
  dataLen : Nat
  deriving DecidableEq

/-- `sr_receiver_t`; the socket and the link are left to the environment. -/
structure Receiver where
  peerAddr : SockAddr
  base : Nat
  window : SlotRing windowSize RecvWindowEntry
  fileBuffer : Bytes
  fileSize : Nat
  numChunks : Nat
  chunksReceived : Nat
  deriving DecidableEq

def RecvWindowEntry.cleared : RecvWindowEntry where
  received := false
  seqNum := 0
  data := ChunkBuffer.zero
  dataLen := 0

/-- `sr_receiver_init`; a `none` argument is a null pointer.  `heap` is the
outcome of `malloc(file_size)`: null, or a fresh block with whatever it
contains. -/
def srReceiverInit (peerAddr : Option SockAddr) (fileSize numChunks : UInt32)
    (lossyLink : Option LossyLink) (heap : Option (Nat → UInt8)) : Option Receiver :=
  match peerAddr, lossyLink, heap with
  | some peerAddr, some _, some heap =>
      some
        { peerAddr := peerAddr
          base := 0
          window := SlotRing.filled RecvWindowEntry.cleared
          fileBuffer := (List.range fileSize.toNat).map heap
          fileSize := fileSize.toNat
          numChunks := numChunks.toNat
          chunksReceived := 0 }
  | _, _, _ => none

/-- What a receive into the 1040-byte packet buffers of the program can leave
there. -/
structure Datagram where
  bytes : Bytes
  length_le : bytes.length ≤ udpHeaderSize + chunkSize
  deriving DecidableEq

/-- `recvfrom` into such a buffer cuts a longer message. -/
def Datagram.recv (message : Bytes) : Datagram where
  bytes := message.take (udpHeaderSize + chunkSize)
  length_le := by simp

theorem Datagram.recv_bytes {message : Bytes}
    (hfits : message.length ≤ udpHeaderSize + chunkSize) :
    (Datagram.recv message).bytes = message :=
  List.take_of_length_le hfits

/-- One `memcpy(file_buffer + offset, slot->data, slot->data_len)`. -/
structure DeliveryCopy where
  base : Nat
  offset : Nat
  dataLen : Nat
  data : Bytes
  deriving DecidableEq

def DeliveryCopy.apply (buffer : Bytes) (copy : DeliveryCopy) : Bytes :=
  memcpy buffer copy.offset copy.data

/-- The sliding loop of `sr_receiver_handle_data`. -/
def receiverSlide : Nat → Receiver → Receiver × List DeliveryCopy
  | 0, receiver => (receiver, [])
  | rounds + 1, receiver =>
      if receiver.base < receiver.numChunks then
        let slot := receiver.window.read receiver.base
        if slot.received then
          let copy : DeliveryCopy :=
            { base := receiver.base
              offset := u32 (receiver.base * chunkSize)
              dataLen := slot.dataLen
              data := slot.data.bytes.take slot.dataLen }
          let (slid, copies) := receiverSlide rounds
            { receiver with
              fileBuffer := copy.apply receiver.fileBuffer
              window := receiver.window.write receiver.base { slot with received := false }
              base := u32 (receiver.base + 1) }
          (slid, copy :: copies)
        else
          (receiver, [])
      else
        (receiver, [])

/-- Buffer a chunk unless its slot is taken. -/
def storeChunk (receiver : Receiver) (seqNum : Nat) (payload : Bytes) : Receiver :=
  let slot := receiver.window.read seqNum
  if slot.received then
    receiver
  else
    { receiver with
      window := receiver.window.write seqNum
        { received := true
          seqNum := seqNum
          data := slot.data.copyIn payload
          dataLen := payload.length }
      chunksReceived := u32 (receiver.chunksReceived + 1) }

structure ReceiveResult where
  receiver : Receiver
  acks : List Bytes
  copies : List DeliveryCopy
  deriving DecidableEq

/-- `sr_receiver_handle_data`; every path returns `0`. -/
def srReceiverHandleData (host : ByteOrder) (receiver : Receiver) (packet : Bytes) :
    ReceiveResult :=
  match decodeData host packet with
  | none => ⟨receiver, [], []⟩
  | some (seqNum, payload) =>
      if receiver.numChunks ≤ seqNum then
        ⟨receiver, [], []⟩
      else if seqNum < receiver.base then
        -- already delivered: acknowledge again
        ⟨receiver, [buildAckPacket host seqNum], []⟩
      else if u32 (receiver.base + windowSize) ≤ seqNum then
        ⟨receiver, [], []⟩
      else
        let stored := storeChunk receiver seqNum payload
        let (slid, copies) := receiverSlide (stored.numChunks - stored.base) stored
        ⟨slid, [buildAckPacket host seqNum], copies⟩

/-- The datagram is one that `sr_receiver_handle_data` acknowledges. -/
def accepts (host : ByteOrder) (receiver : Receiver) (packet : Bytes) :
    Option (Nat × Bytes) :=
  match decodeData host packet with
  | none => none
  | some (seqNum, payload) =>
      if seqNum < receiver.numChunks ∧
          (seqNum < receiver.base ∨ seqNum < u32 (receiver.base + windowSize)) then
        some (seqNum, payload)
      else
        none

/-- The chunk that `sr_receiver_handle_data` stores in this call, if it stores
one. -/
def storesChunk (host : ByteOrder) (receiver : Receiver) (packet : Bytes) :
    Option Nat :=
  match accepts host receiver packet with
  | none => none
  | some (seqNum, _) =>
      if receiver.base ≤ seqNum ∧ (receiver.window.read seqNum).received = false then
        some seqNum
      else
        none

/-- `sr_receiver_is_complete`. -/
def srReceiverIsComplete (receiver : Receiver) : Bool :=
  decide (receiver.numChunks ≤ receiver.base)

/-- `sr_receiver_get_file`. -/
def srReceiverGetFile (receiver : Receiver) : Bytes × Nat :=
  (receiver.fileBuffer, receiver.fileSize)

end SelectiveRepeat
end PeerShare
