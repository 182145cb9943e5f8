import PeerShare.Wire.PacketCodec

/-!
# The two datagrams that open a transfer

`UDP_REQUEST_FILE` names a file by id and hash, `UDP_FILE_START` announces its
size and number of chunks.  Both are built on the stack of `client.c` in the
same way: a header with a zero checksum, the payload behind it, then the
checksum of the whole stored into the header in host order.
-/

namespace PeerShare
namespace Wire

open Foundation

/-- A `uint8_t hash[32]`. -/
structure HashBytes where
  bytes : Bytes
  length_eq : bytes.length = 32
  deriving DecidableEq

/-- The hash at the start of a memory image; an image in use is long enough. -/
def HashBytes.ofImage (image : Bytes) : HashBytes where
  bytes := (image ++ List.replicate 32 0).take 32
  length_eq := by simp

theorem HashBytes.ofImage_append (hash : HashBytes) (rest : Bytes) :
    HashBytes.ofImage (hash.bytes ++ rest) = hash := by
  have htake : (hash.bytes ++ rest ++ List.replicate 32 0).take 32 = hash.bytes := by
    rw [List.append_assoc]
    exact List.take_left' hash.length_eq
  cases hash
  simp only [HashBytes.ofImage, HashBytes.mk.injEq]
  exact htake

/-- The integer field of `width` bytes at `offset` of a buffer. -/
def fieldAt (host : ByteOrder) (buffer : Bytes) (offset width : Nat) : Nat :=
  loadWord host ((buffer.drop offset).take width)

/-- Header and payload in one buffer, with the checksum of both filled in. -/
def sealPacket (host : ByteOrder) (hdr : UdpHeader) (payload : Bytes) : Bytes :=
  let buffer := hdr.image host ++ payload
  setChecksum host buffer (calculateChecksum buffer)

/-- `sizeof(udp_request_file_t)`. -/
def udpRequestFileSize : Nat := 36

/-- `sizeof(udp_file_start_t)`. -/
def udpFileStartSize : Nat := 8

/-- The header `get` fills in for its request. -/
def requestHeader (host : ByteOrder) : UdpHeader where
  msgType := udpRequestFile
  flags := 0
  checksum := 0
  seqNum := 0
  ackNum := 0
  dataLen := hton host 2 udpRequestFileSize
  window := hton host 2 windowSize

/-- The `UDP_REQUEST_FILE` datagram of `get`. -/
def buildRequestFile (host : ByteOrder) (fileId : Nat) (hash : HashBytes) : Bytes :=
  sealPacket host (requestHeader host) (storeWord host 4 (hton host 4 fileId) ++ hash.bytes)

/-- The header the owner fills in for its answer. -/
def fileStartHeader (host : ByteOrder) : UdpHeader where
  msgType := udpFileStart
  flags := 0
  checksum := 0
  seqNum := 0
  ackNum := 0
  dataLen := hton host 2 udpFileStartSize
  window := hton host 2 windowSize

/-- The `UDP_FILE_START` datagram of the owner. -/
def buildFileStart (host : ByteOrder) (fileSize numChunks : Nat) : Bytes :=
  sealPacket host (fileStartHeader host)
    (storeWord host 4 (hton host 4 fileSize) ++ storeWord host 4 (hton host 4 numChunks))

section Sealed

variable (host : ByteOrder) (hdr : UdpHeader) (payload : Bytes)

theorem sealPacket_eq :
    sealPacket host hdr payload =
      { hdr with checksum := calculateChecksum (hdr.image host ++ payload) }.image host ++
        payload := by
  rw [sealPacket, setChecksum_image]

@[simp] theorem sealPacket_length :
    (sealPacket host hdr payload).length = udpHeaderSize + payload.length := by
  simp [sealPacket_eq]

theorem sealPacket_drop : (sealPacket host hdr payload).drop udpHeaderSize = payload := by
  rw [sealPacket_eq]
  exact List.drop_left' (by simp)

/-- The receiver of a sealed packet sees the header with its checksum. -/
theorem ofImage_sealPacket (hrange : hdr.InRange) :
    UdpHeader.ofImage host (sealPacket host hdr payload) =
      { hdr with checksum := calculateChecksum (hdr.image host ++ payload) } := by
  rw [sealPacket_eq]
  apply ofImage_image_append
  obtain ⟨-, hseq, hack, hlen, hwindow⟩ := hrange
  exact ⟨calculateChecksum_lt _, hseq, hack, hlen, hwindow⟩

/-- The type of a sealed packet is that of its header. -/
theorem msgType_sealPacket :
    (UdpHeader.ofImage host (sealPacket host hdr payload)).msgType = hdr.msgType := by
  rw [sealPacket_eq]
  rfl

/-- Zeroing the checksum again leaves what it was computed over. -/
theorem setChecksum_sealPacket (hzero : hdr.checksum = 0) :
    setChecksum host (sealPacket host hdr payload) 0 = hdr.image host ++ payload := by
  rw [sealPacket_eq, setChecksum_image]
  cases hdr
  simp only at hzero
  rw [hzero]

end Sealed

/-- The field stored at the start of the payload is read back. -/
theorem fieldAt_sealPacket (host : ByteOrder) (hdr : UdpHeader) (before rest : Bytes)
    (width value : Nat) {offset : Nat} (hoffset : udpHeaderSize + before.length = offset) :
    fieldAt host (sealPacket host hdr (before ++ (storeWord host width value ++ rest)))
      offset width = value % 256 ^ width := by
  have hdrop : (sealPacket host hdr (before ++ (storeWord host width value ++ rest))).drop
      offset = storeWord host width value ++ rest := by
    rw [← hoffset, ← List.drop_drop, sealPacket_drop, List.drop_left]
  rw [fieldAt, hdrop, List.take_left' (storeWord_length host width value),
    loadWord_storeWord]

/-- The two fields of an announcement. -/
theorem fieldAt_buildFileStart (host : ByteOrder) (fileSize numChunks : Nat) :
    fieldAt host (buildFileStart host fileSize numChunks) 16 4 = hton host 4 fileSize ∧
      fieldAt host (buildFileStart host fileSize numChunks) 20 4 = hton host 4 numChunks := by
  constructor
  · have hfield := fieldAt_sealPacket host (fileStartHeader host) []
      (storeWord host 4 (hton host 4 numChunks)) 4 (hton host 4 fileSize)
      (show udpHeaderSize + 0 = 16 from rfl)
    rw [Nat.mod_eq_of_lt (hton_lt host 4 _)] at hfield
    exact hfield
  · have hfield := fieldAt_sealPacket host (fileStartHeader host)
      (storeWord host 4 (hton host 4 fileSize)) [] 4 (hton host 4 numChunks)
      (show udpHeaderSize + _ = 20 by simp [udpHeaderSize])
    rw [Nat.mod_eq_of_lt (hton_lt host 4 _), List.append_nil] at hfield
    exact hfield

/-- A 32-bit number survives both conversions. -/
theorem ofNat_ntoh_hton (host : ByteOrder) (value : UInt32) :
    UInt32.ofNat (ntoh host 4 (hton host 4 value.toNat)) = value := by
  have hlt : value.toNat < 256 ^ 4 := value.toNat_lt
  rw [ntoh_hton, Nat.mod_eq_of_lt hlt]
  exact UInt32.ofNat_toNat

theorem requestHeader_inRange (host : ByteOrder) : (requestHeader host).InRange :=
  ⟨by simp [requestHeader], by simp [requestHeader], by simp [requestHeader],
    hton_lt host 2 udpRequestFileSize, hton_lt host 2 windowSize⟩

theorem fileStartHeader_inRange (host : ByteOrder) : (fileStartHeader host).InRange :=
  ⟨by simp [fileStartHeader], by simp [fileStartHeader], by simp [fileStartHeader],
    hton_lt host 2 udpFileStartSize, hton_lt host 2 windowSize⟩

end Wire
end PeerShare
