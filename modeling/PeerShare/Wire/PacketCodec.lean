import PeerShare.Wire.Protocol

/-!
# Building and decoding datagrams

`build_data_packet` and `build_ack_packet` of `selective_repeat.c`, and the two
ways a received buffer is decoded: `sr_receiver_handle_data` copies the header,
recomputes the checksum over the received length and only then trusts the
fields; `sr_sender_handle_ack` casts the buffer and trusts it.
-/

namespace PeerShare
namespace Wire

open Foundation

/-- The header `build_data_packet` fills in, checksum still zero. -/
def dataHeader (host : ByteOrder) (seqNum dataLen : Nat) : UdpHeader where
  msgType := udpData
  flags := 0
  checksum := 0
  seqNum := hton host 4 seqNum
  ackNum := 0
  dataLen := hton host 2 dataLen
  window := hton host 2 windowSize

/-- `build_data_packet`: the bytes of the packet that are sent. -/
def buildDataPacket (host : ByteOrder) (seqNum : Nat) (data : Bytes)
    (dataLen : Nat) : Bytes :=
  let packet := (dataHeader host seqNum dataLen).image host ++ data.take dataLen
  -- stored in host order: no `htons` around the checksum
  setChecksum host packet (calculateChecksum packet)

/-- The header `build_ack_packet` fills in, checksum still zero. -/
def ackHeader (host : ByteOrder) (ackNum : Nat) : UdpHeader where
  msgType := udpAck
  flags := 0
  checksum := 0
  seqNum := hton host 4 0
  ackNum := hton host 4 ackNum
  dataLen := hton host 2 0
  window := hton host 2 windowSize

def buildAckPacket (host : ByteOrder) (ackNum : Nat) : Bytes :=
  let packet := (ackHeader host ackNum).image host
  setChecksum host packet (calculateChecksum packet)

/-- The validation at the head of `sr_receiver_handle_data`: the sequence
number and payload of a buffer that passes every check which does not depend on
the receiver. -/
def decodeData (host : ByteOrder) (packet : Bytes) : Option (Nat × Bytes) :=
  if packet.length < udpHeaderSize then none
  else
    let hdr := UdpHeader.ofImage host packet
    if hdr.checksum ≠ calculateChecksum (setChecksum host packet 0) then none
    else if hdr.msgType ≠ udpData then none
    else
      let seqNum := ntoh host 4 hdr.seqNum
      let dataLen := ntoh host 2 hdr.dataLen
      if packet.length < udpHeaderSize + dataLen then none
      else some (seqNum, (packet.drop udpHeaderSize).take dataLen)

/-- The number `sr_sender_handle_ack` reads from a header. -/
def ackNumber (host : ByteOrder) (hdr : UdpHeader) : Nat :=
  ntoh host 4 hdr.ackNum

theorem hton_lt (host : ByteOrder) (width value : Nat) :
    hton host width value < 256 ^ width := by
  simpa [hton] using loadWord_lt host (storeWord .big width value)

@[simp] theorem ntoh_hton (host : ByteOrder) (width value : Nat) :
    ntoh host width (hton host width value) = value % 256 ^ width := by
  rw [ntoh, storeWord_hton, loadWord_storeWord]

theorem dataHeader_inRange (host : ByteOrder) (seqNum dataLen : Nat)
    {checksum : Nat} (hchecksum : checksum < 2 ^ 16) :
    { dataHeader host seqNum dataLen with checksum := checksum }.InRange := by
  refine ⟨hchecksum, ?_, by simp [dataHeader], ?_, ?_⟩
  · exact hton_lt host 4 seqNum
  · exact hton_lt host 2 dataLen
  · exact hton_lt host 2 windowSize

theorem ackHeader_inRange (host : ByteOrder) (ackNum : Nat)
    {checksum : Nat} (hchecksum : checksum < 2 ^ 16) :
    { ackHeader host ackNum with checksum := checksum }.InRange := by
  refine ⟨hchecksum, ?_, ?_, ?_, ?_⟩
  · exact hton_lt host 4 0
  · exact hton_lt host 4 ackNum
  · exact hton_lt host 2 0
  · exact hton_lt host 2 windowSize

theorem buildDataPacket_eq (host : ByteOrder) (seqNum : Nat) (data : Bytes)
    (dataLen : Nat) :
    buildDataPacket host seqNum data dataLen =
      { dataHeader host seqNum dataLen with
        checksum := calculateChecksum
          ((dataHeader host seqNum dataLen).image host ++ data.take dataLen) }.image host ++
        data.take dataLen := by
  rw [buildDataPacket, setChecksum_image]

theorem buildAckPacket_eq (host : ByteOrder) (ackNum : Nat) :
    buildAckPacket host ackNum =
      { ackHeader host ackNum with
        checksum := calculateChecksum ((ackHeader host ackNum).image host) }.image host := by
  have hset := setChecksum_image host (ackHeader host ackNum) []
    (calculateChecksum ((ackHeader host ackNum).image host))
  simpa [buildAckPacket] using hset

theorem buildDataPacket_length (host : ByteOrder) (seqNum : Nat) {data : Bytes}
    {dataLen : Nat} (hlen : dataLen ≤ data.length) :
    (buildDataPacket host seqNum data dataLen).length = udpHeaderSize + dataLen := by
  rw [buildDataPacket_eq]
  simp [hlen]

theorem buildAckPacket_length (host : ByteOrder) (ackNum : Nat) :
    (buildAckPacket host ackNum).length = udpHeaderSize := by
  rw [buildAckPacket_eq, UdpHeader.image_length]

/-- The header that a receiver of the same byte order sees. -/
theorem ofImage_buildDataPacket (host : ByteOrder) (seqNum : Nat) (data : Bytes)
    (dataLen : Nat) :
    UdpHeader.ofImage host (buildDataPacket host seqNum data dataLen) =
      { dataHeader host seqNum dataLen with
        checksum := calculateChecksum
          ((dataHeader host seqNum dataLen).image host ++ data.take dataLen) } := by
  rw [buildDataPacket_eq]
  exact ofImage_image_append host _ _
    (dataHeader_inRange host seqNum dataLen (calculateChecksum_lt _))

/-- Zeroing the checksum again leaves what it was computed over. -/
theorem setChecksum_buildDataPacket (host : ByteOrder) (seqNum : Nat) (data : Bytes)
    (dataLen : Nat) :
    setChecksum host (buildDataPacket host seqNum data dataLen) 0 =
      (dataHeader host seqNum dataLen).image host ++ data.take dataLen := by
  rw [buildDataPacket_eq, setChecksum_image]
  rfl

theorem ofImage_buildAckPacket (host : ByteOrder) (ackNum : Nat) :
    UdpHeader.ofImage host (buildAckPacket host ackNum) =
      { ackHeader host ackNum with
        checksum := calculateChecksum ((ackHeader host ackNum).image host) } := by
  have hheader := ofImage_image_append host _ []
    (ackHeader_inRange host ackNum
      (calculateChecksum_lt ((ackHeader host ackNum).image host)))
  rw [List.append_nil] at hheader
  rw [buildAckPacket_eq, hheader]

theorem setChecksum_buildAckPacket (host : ByteOrder) (ackNum : Nat) :
    setChecksum host (buildAckPacket host ackNum) 0 = (ackHeader host ackNum).image host := by
  have hset := setChecksum_image host
    { ackHeader host ackNum with
      checksum := calculateChecksum ((ackHeader host ackNum).image host) } [] 0
  rw [List.append_nil, List.append_nil] at hset
  rw [buildAckPacket_eq, hset]
  rfl

/-- What one host builds, a host of the same byte order decodes: the number,
the length and the payload survive. -/
theorem decodeData_buildDataPacket (host : ByteOrder) {seqNum : Nat} {data : Bytes}
    {dataLen : Nat} (hseq : seqNum < 2 ^ 32) (hshort : dataLen < 2 ^ 16)
    (hlen : dataLen ≤ data.length) :
    decodeData host (buildDataPacket host seqNum data dataLen) =
      some (seqNum, data.take dataLen) := by
  have hlength := buildDataPacket_length host seqNum hlen
  have hseq' : ntoh host 4 (dataHeader host seqNum dataLen).seqNum = seqNum := by
    simpa [dataHeader] using hseq
  have hlen' : ntoh host 2 (dataHeader host seqNum dataLen).dataLen = dataLen := by
    simpa [dataHeader] using hshort
  have hpayload : (buildDataPacket host seqNum data dataLen).drop udpHeaderSize =
      data.take dataLen := by
    rw [buildDataPacket_eq]
    exact List.drop_left' (by simp)
  unfold decodeData
  rw [if_neg (by omega), ofImage_buildDataPacket, setChecksum_buildDataPacket]
  simp only [ne_eq, not_true_eq_false, if_false]
  rw [hseq', hlen', hlength, hpayload, if_neg (by simp [dataHeader]), if_neg (by omega)]
  simp

/-- The number in an acknowledgement survives the wire. -/
theorem ackNumber_buildAckPacket (host : ByteOrder) {ackNum : Nat}
    (hack : ackNum < 2 ^ 32) :
    ackNumber host (UdpHeader.ofImage host (buildAckPacket host ackNum)) = ackNum := by
  rw [ofImage_buildAckPacket, ackNumber]
  simpa [ackHeader] using hack

theorem msgType_buildAckPacket (host : ByteOrder) (ackNum : Nat) :
    (UdpHeader.ofImage host (buildAckPacket host ackNum)).msgType = udpAck := by
  rw [buildAckPacket_eq]
  rfl

/-- Everything `decodeData` has checked about a datagram it lets through. -/
theorem decodeData_eq_some {host : ByteOrder} {packet payload : Bytes} {seqNum : Nat}
    (hdecode : decodeData host packet = some (seqNum, payload)) :
    udpHeaderSize + ntoh host 2 (UdpHeader.ofImage host packet).dataLen ≤ packet.length ∧
      (UdpHeader.ofImage host packet).checksum =
        calculateChecksum (setChecksum host packet 0) ∧
      (UdpHeader.ofImage host packet).msgType = udpData ∧
      seqNum = ntoh host 4 (UdpHeader.ofImage host packet).seqNum ∧
      payload = (packet.drop udpHeaderSize).take
        (ntoh host 2 (UdpHeader.ofImage host packet).dataLen) := by
  unfold decodeData at hdecode
  by_cases hheader : packet.length < udpHeaderSize
  · rw [if_pos hheader] at hdecode
    contradiction
  rw [if_neg hheader] at hdecode
  by_cases hchecksum : (UdpHeader.ofImage host packet).checksum =
      calculateChecksum (setChecksum host packet 0)
  swap
  · simp [hchecksum] at hdecode
  by_cases htype : (UdpHeader.ofImage host packet).msgType = udpData
  swap
  · simp [hchecksum, htype] at hdecode
  by_cases hshort : packet.length <
      udpHeaderSize + ntoh host 2 (UdpHeader.ofImage host packet).dataLen
  · simp [hchecksum, htype, hshort] at hdecode
  simp [hchecksum, htype, hshort] at hdecode
  exact ⟨by omega, hchecksum, htype, hdecode.1.symm, hdecode.2.symm⟩

theorem decodeData_seq_lt {host : ByteOrder} {packet payload : Bytes} {seqNum : Nat}
    (hdecode : decodeData host packet = some (seqNum, payload)) : seqNum < 2 ^ 32 := by
  obtain ⟨-, -, -, hseq, -⟩ := decodeData_eq_some hdecode
  rw [hseq]
  exact ntoh_lt host 4 _

theorem decodeData_payload_length {host : ByteOrder} {packet payload : Bytes}
    {seqNum : Nat} (hdecode : decodeData host packet = some (seqNum, payload)) :
    payload.length + udpHeaderSize ≤ packet.length := by
  obtain ⟨hfits, -, -, -, hpayload⟩ := decodeData_eq_some hdecode
  rw [hpayload]
  simp only [List.length_take, List.length_drop]
  omega

end Wire
end PeerShare
