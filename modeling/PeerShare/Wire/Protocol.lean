import PeerShare.Foundation.HostBytes

/-!
# The datagram format of `protocol.h`

The UDP half of the protocol: its constants, the packed 16-byte header and the
additive checksum.  A header field of the model holds what the C field holds,
the value the host reads from memory.  Code that leaves a field in host order,
as every writer of `checksum` does, therefore differs here from code that
converts it.
-/

namespace PeerShare
namespace Wire

open Foundation

/-- `CHUNK_SIZE`, in bytes. -/
def chunkSize : Nat := 1024

/-- `WINDOW_SIZE`, in packets. -/
def windowSize : Nat := 64

/-- `TIMEOUT_MS`. -/
def timeoutMs : UInt64 := 500

/-- `MAX_RETRIES`. -/
def maxRetries : Nat := 10

def udpData : UInt8 := 1
def udpAck : UInt8 := 2
def udpRequestFile : UInt8 := 3
def udpFileStart : UInt8 := 4

/-- `sizeof(udp_header_t)`. -/
def udpHeaderSize : Nat := 16

instance : NeZero windowSize := ⟨by decide⟩

/-- The value kept by a `uint32_t`. -/
def u32 (value : Nat) : Nat := value % 2 ^ 32

/-- The value kept by a `uint16_t`. -/
def u16 (value : Nat) : Nat := value % 2 ^ 16

theorem u32_of_lt {value : Nat} (hvalue : value < 2 ^ 32) : u32 value = value :=
  Nat.mod_eq_of_lt hvalue

/-- An IPv4 socket address; both members are opaque to the program, which only
compares them. -/
structure SockAddr where
  ip : UInt32
  port : UInt16
  deriving DecidableEq, Repr

/-- `udp_header_t`, field by field as the host sees it. -/
structure UdpHeader where
  msgType : UInt8
  flags : UInt8
  checksum : Nat
  seqNum : Nat
  ackNum : Nat
  dataLen : Nat
  window : Nat
  deriving DecidableEq, Repr

namespace UdpHeader

/-- The packed header bytes behind the checksum field. -/
def tailImage (host : ByteOrder) (hdr : UdpHeader) : Bytes :=
  storeWord host 4 hdr.seqNum ++ storeWord host 4 hdr.ackNum ++
    storeWord host 2 hdr.dataLen ++ storeWord host 2 hdr.window

/-- The packed memory image of a header. -/
def image (host : ByteOrder) (hdr : UdpHeader) : Bytes :=
  [hdr.msgType, hdr.flags] ++ storeWord host 2 hdr.checksum ++ hdr.tailImage host

/-- The header a cast of a buffer to `udp_header_t *` shows. -/
def ofImage (host : ByteOrder) (buffer : Bytes) : UdpHeader where
  msgType := buffer.getD 0 0
  flags := buffer.getD 1 0
  checksum := loadWord host ((buffer.drop 2).take 2)
  seqNum := loadWord host ((buffer.drop 4).take 4)
  ackNum := loadWord host ((buffer.drop 8).take 4)
  dataLen := loadWord host ((buffer.drop 12).take 2)
  window := loadWord host ((buffer.drop 14).take 2)

/-- The fields fit their C types. -/
def InRange (hdr : UdpHeader) : Prop :=
  hdr.checksum < 2 ^ 16 ∧ hdr.seqNum < 2 ^ 32 ∧ hdr.ackNum < 2 ^ 32 ∧
    hdr.dataLen < 2 ^ 16 ∧ hdr.window < 2 ^ 16

@[simp] theorem image_length (host : ByteOrder) (hdr : UdpHeader) :
    (hdr.image host).length = udpHeaderSize := by
  simp [image, tailImage, udpHeaderSize]

end UdpHeader

/-- Store into the `checksum` field of a buffer holding a header. -/
def setChecksum (host : ByteOrder) (buffer : Bytes) (checksum : Nat) : Bytes :=
  memcpy buffer 2 (storeWord host 2 checksum)

/-- The `while (sum >> 16)` loop of `calculate_checksum`.  The sum shrinks in
every round, so the sum itself bounds the number of rounds. -/
def foldCarry : Nat → Nat → Nat
  | 0, sum => sum
  | rounds + 1, sum =>
      if sum / 2 ^ 16 = 0 then sum
      else foldCarry rounds (sum % 2 ^ 16 + sum / 2 ^ 16)

/-- `calculate_checksum`: a 32-bit byte sum, folded to 16 bits and
complemented. -/
def calculateChecksum (data : Bytes) : Nat :=
  let sum := data.foldl (fun sum byte => u32 (sum + byte.toNat)) 0
  u16 (2 ^ 32 - 1 - foldCarry sum sum)

/-- `verify_checksum`. -/
def verifyChecksum (data : Bytes) (expected : Nat) : Bool :=
  calculateChecksum data == expected

theorem calculateChecksum_lt (data : Bytes) : calculateChecksum data < 2 ^ 16 :=
  Nat.mod_lt _ (by norm_num)

@[simp] theorem setChecksum_length (host : ByteOrder) (buffer : Bytes)
    (checksum : Nat) : (setChecksum host buffer checksum).length = buffer.length := by
  simp [setChecksum]

/-- Storing the checksum of a packet is storing it in its header. -/
theorem setChecksum_image (host : ByteOrder) (hdr : UdpHeader) (payload : Bytes)
    (checksum : Nat) :
    setChecksum host (hdr.image host ++ payload) checksum =
      { hdr with checksum := checksum }.image host ++ payload := by
  have hlength : (hdr.image host ++ payload).length = 16 + payload.length := by
    simp [udpHeaderSize]
  have hsource : (storeWord host 2 checksum).take (16 + payload.length - 2) =
      storeWord host 2 checksum :=
    List.take_of_length_le (by simp; omega)
  rw [setChecksum, memcpy, hlength, hsource]
  simp [UdpHeader.image, UdpHeader.tailImage]

/-- Casting the bytes of a header back yields the header. -/
theorem ofImage_image_append (host : ByteOrder) (hdr : UdpHeader) (payload : Bytes)
    (hrange : hdr.InRange) :
    UdpHeader.ofImage host (hdr.image host ++ payload) = hdr := by
  obtain ⟨hchecksum, hseq, hack, hlen, hwindow⟩ := hrange
  cases hdr with
  | mk msgType flags checksum seqNum ackNum dataLen window =>
      norm_num at hchecksum hseq hack hlen hwindow
      simp [UdpHeader.ofImage, UdpHeader.image, UdpHeader.tailImage,
        List.drop_append, *]

end Wire
end PeerShare
