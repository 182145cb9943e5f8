import PeerShare.Wire.Checksum
import PeerShare.Wire.Handshake

/-!
# Datagrams between hosts of different byte order

Every field of a datagram is converted to network order, except the checksum, which
each of the four builders stores as the host has it.  The bytes that the checksum is
computed over are therefore the same everywhere, and so is its value; what differs is
the order of its two bytes.  The datagrams of two hosts agree, and pass the test of
the other, exactly when these two bytes are equal: when `257` divides the sum of all
other bytes.
-/

namespace PeerShare
namespace Wire

open Foundation

/-- The four datagrams of the program, with what goes into them. -/
inductive Outgoing where
  | data (seqNum : UInt32) (bytes : Bytes) (dataLen : UInt16)
  | ack (ackNum : UInt32)
  | requestFile (fileId : UInt32) (hash : HashBytes)
  | fileStart (fileSize numChunks : UInt32)

namespace Outgoing

/-- The bytes that a host sends. -/
def build (host : ByteOrder) : Outgoing → Bytes
  | data seqNum bytes dataLen => buildDataPacket host seqNum.toNat bytes dataLen.toNat
  | ack ackNum => buildAckPacket host ackNum.toNat
  | requestFile fileId hash => buildRequestFile host fileId.toNat hash
  | fileStart fileSize numChunks => buildFileStart host fileSize.toNat numChunks.toNat

/-- The sum of the bytes of a number. -/
def wordSum (width value : Nat) : Nat := byteSum (storeWord .big width value)

/-- The sum of all bytes outside the checksum: message type, length of the payload
and window size are the constants, `hash` and the numbers come from the caller. -/
def byteTotal : Outgoing → Nat
  | data seqNum bytes dataLen =>
      1 + wordSum 4 seqNum.toNat + wordSum 2 dataLen.toNat + 64 +
        byteSum (bytes.take dataLen.toNat)
  | ack ackNum => 2 + wordSum 4 ackNum.toNat + 64
  | requestFile fileId hash => 3 + 36 + 64 + wordSum 4 fileId.toNat + byteSum hash.bytes
  | fileStart fileSize numChunks =>
      4 + 8 + 64 + wordSum 4 fileSize.toNat + wordSum 4 numChunks.toNat

end Outgoing

/-! ## Words that read the same on every host -/

theorem storeWord_zero (host : ByteOrder) (width : Nat) :
    storeWord host width 0 = List.replicate width 0 := by
  have hbytes : ∀ width, bytesLE width 0 = List.replicate width 0 := by
    intro width
    induction width with
    | zero => rfl
    | succ width ih =>
        rw [bytesLE, Nat.zero_div, ih]
        rfl
  cases host with
  | little => exact hbytes width
  | big => rw [storeWord, hbytes, List.reverse_replicate]

/-- A host reads a number that another one stored iff it would store it alike. -/
theorem loadWord_storeWord_iff (host reader : ByteOrder) {width value : Nat}
    (hvalue : value < 256 ^ width) :
    loadWord reader (storeWord host width value) = value ↔
      storeWord host width value = storeWord reader width value := by
  constructor
  · intro hread
    have himage := storeWord_loadWord reader (storeWord host width value)
    rw [storeWord_length, hread] at himage
    exact himage.symm
  · intro hsame
    rw [hsame, loadWord_storeWord, Nat.mod_eq_of_lt hvalue]

/-- Two bytes are the same in either order iff they are equal. -/
theorem storeWord_two_agree_iff {value : Nat} (hvalue : value < 2 ^ 16) :
    (∀ host other, storeWord host 2 value = storeWord other 2 value) ↔ 257 ∣ value := by
  have hlittle : storeWord .little 2 value = [UInt8.ofNat value, UInt8.ofNat (value / 256)] := rfl
  have hbig : storeWord .big 2 value = [UInt8.ofNat (value / 256), UInt8.ofNat value] := rfl
  have hbytes : UInt8.ofNat value = UInt8.ofNat (value / 256) ↔ 257 ∣ value := by
    have hhigh : value / 256 < 256 := by omega
    have hsplit : value = 256 * (value / 256) + value % 256 := (Nat.div_add_mod value 256).symm
    rw [← UInt8.toNat_inj, UInt8.toNat_ofNat', UInt8.toNat_ofNat', Nat.mod_eq_of_lt hhigh]
    omega
  rw [← hbytes]
  constructor
  · intro hagree
    have hsame := hagree .little .big
    rw [hlittle, hbig, List.cons.injEq] at hsame
    exact hsame.1
  · intro hsame
    have horders : storeWord .little 2 value = storeWord .big 2 value := by
      rw [hlittle, hbig, hsame]
    intro host other
    cases host <;> cases other <;> simp [horders]

/-- Folding the carry and complementing keep divisibility by `257`, a divisor of
`65535`. -/
theorem dvd_calculateChecksum_iff {data : Bytes} (hpos : 0 < byteSum data)
    (hfits : byteSum data < 2 ^ 32) : 257 ∣ calculateChecksum data ↔ 257 ∣ byteSum data := by
  rw [calculateChecksum_eq hpos hfits]
  omega

/-! ## The bytes under the checksum -/

namespace Outgoing

/-- The header before its checksum is filled in. -/
def header (host : ByteOrder) : Outgoing → UdpHeader
  | data seqNum _ dataLen => dataHeader host seqNum.toNat dataLen.toNat
  | ack ackNum => ackHeader host ackNum.toNat
  | requestFile _ _ => requestHeader host
  | fileStart _ _ => fileStartHeader host

def payload (host : ByteOrder) : Outgoing → Bytes
  | data _ bytes dataLen => bytes.take dataLen.toNat
  | ack _ => []
  | requestFile fileId hash => storeWord host 4 (hton host 4 fileId.toNat) ++ hash.bytes
  | fileStart fileSize numChunks =>
      storeWord host 4 (hton host 4 fileSize.toNat) ++
        storeWord host 4 (hton host 4 numChunks.toNat)

theorem header_checksum (host : ByteOrder) (message : Outgoing) :
    (message.header host).checksum = 0 := by
  cases message <;> rfl

/-- All four are sealed in the same way. -/
theorem build_eq (host : ByteOrder) (message : Outgoing) :
    message.build host = sealPacket host (message.header host) (message.payload host) := by
  cases message with
  | data seqNum bytes dataLen => rfl
  | ack ackNum =>
      show buildAckPacket host _ = sealPacket host _ []
      rw [buildAckPacket, sealPacket, List.append_nil]
      rfl
  | requestFile fileId hash => rfl
  | fileStart fileSize numChunks => rfl

/-- What the checksum is computed over. -/
def unsealed (host : ByteOrder) (message : Outgoing) : Bytes :=
  (message.header host).image host ++ message.payload host

/-- It is the same on every host. -/
theorem unsealed_eq (host other : ByteOrder) (message : Outgoing) :
    message.unsealed host = message.unsealed other := by
  cases message <;>
    simp only [unsealed, header, payload, dataHeader, ackHeader, requestHeader,
      fileStartHeader, UdpHeader.image, UdpHeader.tailImage, storeWord_hton, storeWord_zero]

theorem byteSum_unsealed (host : ByteOrder) (message : Outgoing) :
    byteSum (message.unsealed host) = message.byteTotal := by
  have hwindow : byteSum (storeWord .big 2 windowSize) = 64 := rfl
  rw [unsealed_eq host .big]
  cases message with
  | data seqNum bytes dataLen =>
      have htype : udpData.toNat = 1 := rfl
      simp [unsealed, header, payload, dataHeader, UdpHeader.image, UdpHeader.tailImage,
        storeWord_zero, byteTotal, wordSum, htype, hwindow]
      omega
  | ack ackNum =>
      have htype : udpAck.toNat = 2 := rfl
      simp [unsealed, header, payload, ackHeader, UdpHeader.image, UdpHeader.tailImage,
        storeWord_zero, byteTotal, wordSum, htype, hwindow]
      omega
  | requestFile fileId hash =>
      have htype : udpRequestFile.toNat = 3 := rfl
      have hlength : byteSum (storeWord .big 2 udpRequestFileSize) = 36 := rfl
      simp [unsealed, header, payload, requestHeader, UdpHeader.image, UdpHeader.tailImage,
        storeWord_zero, byteTotal, wordSum, htype, hlength, hwindow]
      omega
  | fileStart fileSize numChunks =>
      have htype : udpFileStart.toNat = 4 := rfl
      have hlength : byteSum (storeWord .big 2 udpFileStartSize) = 8 := rfl
      simp [unsealed, header, payload, fileStartHeader, UdpHeader.image, UdpHeader.tailImage,
        storeWord_zero, byteTotal, wordSum, htype, hlength, hwindow]
      omega

/-- The 32-bit accumulator of `calculate_checksum` holds the sum. -/
theorem byteTotal_lt (message : Outgoing) : message.byteTotal < 2 ^ 32 := by
  have hword : ∀ width value, wordSum width value ≤ 255 * width := by
    intro width value
    have hle := byteSum_le (storeWord .big width value)
    rwa [storeWord_length] at hle
  cases message with
  | data seqNum bytes dataLen =>
      have hseq := hword 4 seqNum.toNat
      have hlength := hword 2 dataLen.toNat
      have hbytes := byteSum_le (bytes.take dataLen.toNat)
      have htake := List.length_take_le dataLen.toNat bytes
      have hshort : dataLen.toNat < 2 ^ 16 := dataLen.toNat_lt
      simp only [byteTotal]
      omega
  | ack ackNum =>
      have hack := hword 4 ackNum.toNat
      simp only [byteTotal]
      omega
  | requestFile fileId hash =>
      have hid := hword 4 fileId.toNat
      have hhash := byteSum_le hash.bytes
      rw [hash.length_eq] at hhash
      simp only [byteTotal]
      omega
  | fileStart fileSize numChunks =>
      have hsize := hword 4 fileSize.toNat
      have hchunks := hword 4 numChunks.toNat
      simp only [byteTotal]
      omega

theorem byteTotal_pos (message : Outgoing) : 0 < message.byteTotal := by
  cases message <;> simp only [byteTotal] <;> omega

/-- The value of the checksum, the same on every host. -/
def checksum (message : Outgoing) : Nat := calculateChecksum (message.unsealed .big)

theorem dvd_checksum_iff (message : Outgoing) :
    257 ∣ message.checksum ↔ 257 ∣ message.byteTotal := by
  have hsum := byteSum_unsealed .big message
  rw [checksum, dvd_calculateChecksum_iff, hsum]
  · rw [hsum]
    exact message.byteTotal_pos
  · rw [hsum]
    exact message.byteTotal_lt

theorem header_le_length_unsealed (host : ByteOrder) (message : Outgoing) :
    udpHeaderSize ≤ (message.unsealed host).length := by
  rw [unsealed, List.length_append, UdpHeader.image_length]
  exact Nat.le_add_right _ _

/-- The only place where the host shows. -/
theorem build_split (host : ByteOrder) (message : Outgoing) :
    message.build host = (message.unsealed .big).take 2 ++
      storeWord host 2 message.checksum ++ (message.unsealed .big).drop 4 := by
  have hlength := message.header_le_length_unsealed .big
  rw [build_eq, ← setChecksum_eq host hlength]
  show setChecksum host (message.unsealed host) (calculateChecksum (message.unsealed host)) = _
  rw [unsealed_eq host .big]
  rfl

theorem build_eq_iff (host other : ByteOrder) (message : Outgoing) :
    message.build host = message.build other ↔
      storeWord host 2 message.checksum = storeWord other 2 message.checksum := by
  rw [build_split, build_split, List.append_left_inj, List.append_right_inj]

/-- The test of one host on the datagram of another compares the two orders. -/
theorem checksumPasses_build_iff (host reader : ByteOrder) (message : Outgoing) :
    checksumPasses reader (message.build host) = true ↔
      storeWord host 2 message.checksum = storeWord reader 2 message.checksum := by
  have hlength := message.header_le_length_unsealed .big
  have hbuild : udpHeaderSize ≤ (message.build host).length := by
    rw [build_split, ← setChecksum_eq host hlength, setChecksum_length]
    exact hlength
  have hfield : (message.build host).drop 2 =
      storeWord host 2 message.checksum ++ (message.unsealed .big).drop 4 := by
    have hfront : ((message.unsealed .big).take 2).length = 2 := by
      rw [List.length_take, Nat.min_eq_left (le_trans (by decide) hlength)]
    rw [build_split, List.append_assoc]
    exact List.drop_left' hfront
  have hread : (UdpHeader.ofImage reader (message.build host)).checksum =
      loadWord reader (storeWord host 2 message.checksum) := by
    show loadWord reader (((message.build host).drop 2).take 2) = _
    rw [hfield, List.take_left' (storeWord_length host 2 _)]
  have hzeroed : setChecksum reader (message.build host) 0 = message.unsealed .big := by
    rw [setChecksum_zero reader hbuild, ← setChecksum_zero host hbuild, build_eq,
      setChecksum_sealPacket host _ _ (message.header_checksum host)]
    exact message.unsealed_eq host .big
  rw [checksumPasses, beq_iff_eq, hread, hzeroed]
  exact loadWord_storeWord_iff host reader (calculateChecksum_lt _)

end Outgoing

/-- For each datagram: all hosts build the same bytes iff `257` divides the sum of
the bytes outside the checksum, and under the same condition every host accepts the
checksum that any other has stored. -/
theorem wire_bytes_host_independent_iff (message : Outgoing) :
    ((∀ host other, message.build host = message.build other) ↔ 257 ∣ message.byteTotal) ∧
      ((∀ host reader, checksumPasses reader (message.build host) = true) ↔
        257 ∣ message.byteTotal) := by
  have hagree := storeWord_two_agree_iff (calculateChecksum_lt (message.unsealed .big))
  rw [← message.dvd_checksum_iff]
  constructor
  · simp only [Outgoing.build_eq_iff]
    exact hagree
  · simp only [Outgoing.checksumPasses_build_iff]
    exact hagree

example : (Outgoing.ack 191).build .little = (Outgoing.ack 191).build .big := by decide +kernel

/-- The acknowledgement of chunk 0 and a chunk of one byte, from a little-endian to a
big-endian host: the bytes differ and the receiver drops the chunk. -/
theorem wire_bytes_depend_on_host :
    (Outgoing.ack 0).build .little ≠ (Outgoing.ack 0).build .big ∧
      checksumPasses .big ((Outgoing.ack 0).build .little) = false ∧
      (Outgoing.data 0 [7] 1).build .little ≠ (Outgoing.data 0 [7] 1).build .big ∧
      decodeData .little ((Outgoing.data 0 [7] 1).build .little) = some (0, [7]) ∧
      decodeData .big ((Outgoing.data 0 [7] 1).build .little) = none := by
  decide +kernel

end Wire
end PeerShare
