import PeerShare.Foundation.LabelledRun
import PeerShare.SelectiveRepeat.ReceiverRun
import PeerShare.SelectiveRepeat.SenderRun

/-!
# One transfer over an unreliable network

One sender, one receiver and the datagrams between them.  A datagram in flight
may be delivered at any time and stays in flight when it is, so it may also be
delivered late, again, or after a later one; it may be lost at any time.  The
loss drawn by `lossy_send` is such a loss.  Both ends run on hosts of one byte
order.

The invariant ties both rings and everything in flight to two sets: the chunks
the receiver has stored contain the chunks the sender has counted, and were all
sent.  The order of the two bases and the window bound are consequences.
-/

namespace PeerShare
namespace SelectiveRepeat

open Foundation Wire

/-- The two ends, the datagrams in flight and the copies made so far. -/
structure Transfer where
  sender : Sender
  receiver : Receiver
  data : List Bytes
  acks : List Bytes
  writes : List DeliveryCopy

inductive TransferAction where
  | sendWindow (now : UInt64)
  | checkTimeouts (now : UInt64)
  | deliverData (packet : Bytes)
  | deliverAck (packet : Bytes)
  | loseData (packet : Bytes)
  | loseAck (packet : Bytes)

/-- The transitions of the composed system. -/
inductive TransferStep (host : ByteOrder) : Transfer → TransferAction → Transfer → Prop
  | sendWindow (s : Transfer) (now : UInt64) :
      TransferStep host s (.sendWindow now)
        { s with
          sender := (srSenderSendWindow host s.sender now).sender
          data := s.data ++ (srSenderSendWindow host s.sender now).packets }
  | checkTimeouts (s : Transfer) (now : UInt64) :
      TransferStep host s (.checkTimeouts now)
        { s with
          sender := (srSenderCheckTimeouts host s.sender now).sender
          data := s.data ++ (srSenderCheckTimeouts host s.sender now).packets }
  | deliverData (s : Transfer) (packet : Bytes) (hpacket : packet ∈ s.data) :
      TransferStep host s (.deliverData packet)
        { s with
          receiver := (srReceiverHandleData host s.receiver packet).receiver
          acks := s.acks ++ (srReceiverHandleData host s.receiver packet).acks
          writes := s.writes ++ (srReceiverHandleData host s.receiver packet).copies }
  | deliverAck (s : Transfer) (packet : Bytes) (hpacket : packet ∈ s.acks) :
      TransferStep host s (.deliverAck packet)
        { s with
          sender := srSenderHandleAck host s.sender (UdpHeader.ofImage host packet) }
  | loseData (s : Transfer) (packet : Bytes) :
      TransferStep host s (.loseData packet) { s with data := s.data.erase packet }
  | loseAck (s : Transfer) (packet : Bytes) :
      TransferStep host s (.loseAck packet) { s with acks := s.acks.erase packet }

/-- Both ends freshly initialised for `file`, nothing in flight. -/
structure TransferInit (file : FileImage) (s : Transfer) : Prop where
  sender : ∃ peerAddr link,
    srSenderInit (some peerAddr) (some file.data) file.size (some link) = some s.sender
  receiver : ∃ peerAddr link heap,
    srReceiverInit (some peerAddr) file.size
      (UInt32.ofNat ((file.size.toNat + chunkSize - 1) / chunkSize))
      (some link) (some heap) = some s.receiver
  data : s.data = []
  acks : s.acks = []
  writes : s.writes = []

/-- The invariant of the composed system. -/
structure TransferInv (host : ByteOrder) (file : FileImage) (s : Transfer)
    (acked stored : Finset Nat) : Prop where
  sender : SenderInv file s.sender acked
  senderSettled : Settled s.sender acked
  receiver : ReceiverInv s.receiver stored file.chunk
  receiverSettled : s.receiver.base ∉ stored
  numChunks : s.receiver.numChunks = file.numChunks
  fileSize : s.receiver.fileSize = file.size.toNat
  bufferLength : s.receiver.fileBuffer.length = file.size.toNat
  acked_sub : acked ⊆ stored
  stored_sent : ∀ q ∈ stored, q < s.sender.nextSeq
  data : ∀ packet ∈ s.data, ∃ q < s.sender.nextSeq, packet = file.packet host q
  acks : ∀ packet ∈ s.acks, ∃ q ∈ stored, packet = buildAckPacket host q
  delivered : s.receiver.fileBuffer.take (min (s.receiver.base * chunkSize) file.size.toNat) =
    file.contents.take (min (s.receiver.base * chunkSize) file.size.toNat)
  writes : ∀ copy ∈ s.writes, copy.offset = copy.base * chunkSize ∧
    copy.offset + copy.dataLen ≤ file.size.toNat

/-! ## The file buffer -/

/-- Delivering the next chunk extends the correct prefix of the buffer by it. -/
theorem delivered_step (file : FileImage) {buffer : Bytes} {q : Nat}
    (hlength : buffer.length = file.size.toNat) (hq : q < file.numChunks)
    (hsofar : buffer.take (min (q * chunkSize) file.size.toNat) =
      file.contents.take (min (q * chunkSize) file.size.toNat)) :
    ((deliveryOf file.chunk q).apply buffer).take
        (min ((q + 1) * chunkSize) file.size.toNat) =
      file.contents.take (min ((q + 1) * chunkSize) file.size.toNat) := by
  obtain ⟨hstart, -⟩ := file.chunk_start_lt hq
  have hend := file.chunk_end_le hq
  have hlen := file.chunk_length q
  have hhere : min (q * chunkSize) file.size.toNat = q * chunkSize := by omega
  have hthere : min ((q + 1) * chunkSize) file.size.toNat =
      q * chunkSize + (file.chunk q).length := by
    rw [hlen, Nat.add_mul, Nat.one_mul]
    omega
  rw [hhere] at hsofar
  rw [hthere, DeliveryCopy.apply, deliveryOf, file.offset_eq hq,
    memcpy_take buffer (file.chunk q) (by omega), hsofar, List.take_add]
  congr 1
  rw [hlen, FileImage.chunk, List.take_eq_take_iff, List.length_drop,
    file.contents_length]
  omega

/-- Delivering consecutive chunks extends the correct prefix by all of them. -/
theorem delivered_fold (file : FileImage) (count : Nat) {buffer : Bytes} {base : Nat}
    (hlength : buffer.length = file.size.toNat) (hchunks : base + count ≤ file.numChunks)
    (hsofar : buffer.take (min (base * chunkSize) file.size.toNat) =
      file.contents.take (min (base * chunkSize) file.size.toNat)) :
    let buffer' := ((List.range' base count).map (deliveryOf file.chunk)).foldl
      DeliveryCopy.apply buffer
    buffer'.length = file.size.toNat ∧
      buffer'.take (min ((base + count) * chunkSize) file.size.toNat) =
        file.contents.take (min ((base + count) * chunkSize) file.size.toNat) := by
  induction count generalizing base buffer with
  | zero => exact ⟨hlength, hsofar⟩
  | succ count ih =>
      have hstep := delivered_step file hlength (by omega) hsofar
      have hlength' : ((deliveryOf file.chunk base).apply buffer).length =
          file.size.toNat := by
        rw [DeliveryCopy.apply, memcpy_length]
        exact hlength
      have hrest := ih hlength' (by omega) hstep
      rw [List.range'_succ, List.map_cons, List.foldl_cons]
      rwa [show base + 1 + count = base + (count + 1) by omega] at hrest

/-- Past the last chunk the correct prefix is the whole buffer. -/
theorem buffer_eq_contents (file : FileImage) {buffer : Bytes} {base : Nat}
    (hsize : file.size.toNat + 1023 < 2 ^ 32) (hlength : buffer.length = file.size.toNat)
    (hbase : file.numChunks ≤ base)
    (hsofar : buffer.take (min (base * chunkSize) file.size.toNat) =
      file.contents.take (min (base * chunkSize) file.size.toNat)) :
    buffer = file.contents := by
  have hcover := file.size_le_numChunks hsize
  have hall : min (base * chunkSize) file.size.toNat = file.size.toNat := by
    have hmul := Nat.mul_le_mul_right chunkSize hbase
    omega
  rwa [hall, List.take_of_length_le hlength.le,
    List.take_of_length_le file.contents_length.le] at hsofar

/-! ## Consequences of the invariant -/

namespace TransferInv

variable {host : ByteOrder} {file : FileImage} {s : Transfer} {acked stored : Finset Nat}

theorem sender_base_le (hinv : TransferInv host file s acked stored) :
    s.sender.base ≤ s.receiver.base :=
  isLeast_missing_mono (hinv.sender.base_least hinv.senderSettled)
    (hinv.receiver.base_least hinv.receiverSettled) hinv.acked_sub

theorem receiver_base_le (hinv : TransferInv host file s acked stored) :
    s.receiver.base ≤ s.sender.nextSeq :=
  isLeast_missing_le (hinv.receiver.base_least hinv.receiverSettled) hinv.stored_sent

/-- A sent chunk is never ahead of the receiver's window, and the 32-bit sum
that bounds the window is exact. -/
theorem sent_in_window (hinv : TransferInv host file s acked stored) {q : Nat}
    (hq : q < s.sender.nextSeq) :
    q < u32 (s.receiver.base + windowSize) ∧
      u32 (s.receiver.base + windowSize) = s.receiver.base + windowSize := by
  have hbase := hinv.sender_base_le
  have hwindow := hinv.sender.next_le_window
  have hreceiver := hinv.receiver.base_le
  have hsmall := file.numChunks_lt
  rw [hinv.numChunks] at hreceiver
  have hexact : u32 (s.receiver.base + windowSize) = s.receiver.base + windowSize := by
    apply u32_of_lt
    unfold windowSize
    omega
  exact ⟨by omega, hexact⟩

theorem sent_lt_numChunks (hinv : TransferInv host file s acked stored) {q : Nat}
    (hq : q < s.sender.nextSeq) : q < file.numChunks := by
  rw [← hinv.sender.numChunks]
  exact hq.trans_le hinv.sender.next_le_chunks

/-- Every datagram of the sender is accepted by the receiver. -/
theorem accepts_packet (hinv : TransferInv host file s acked stored) {q : Nat}
    (hq : q < s.sender.nextSeq) :
    accepts host s.receiver (file.packet host q) = some (q, file.chunk q) := by
  have hchunks := hinv.sent_lt_numChunks hq
  obtain ⟨hwindow, -⟩ := hinv.sent_in_window hq
  simp [accepts, file.decodeData_packet host hchunks, hinv.numChunks, hchunks, hwindow]

/-- Every acknowledgement in flight reads as the number of a stored chunk. -/
theorem ackNumber_eq (hinv : TransferInv host file s acked stored) {q : Nat}
    (hq : q ∈ stored) :
    ackNumber host (UdpHeader.ofImage host (buildAckPacket host q)) = q := by
  have hlt := hinv.receiver.stored_lt q hq
  have hsmall := hinv.receiver.numChunks_lt
  exact ackNumber_buildAckPacket host (hlt.trans hsmall)

end TransferInv
end SelectiveRepeat
end PeerShare
