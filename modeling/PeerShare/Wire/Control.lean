import Mathlib.Data.List.TakeWhile
import PeerShare.Wire.Handshake

/-!
# The control messages of `protocol.h`

The TCP half of the protocol: a packed 4-byte header and one packed record per
message type.  Records are given by their memory image, with `hton` and `ntoh`
where the code converts.  An IPv4 address is only copied, never converted, so it
travels as the four bytes it has in memory.

File names travel in 256-byte fields that are filled with `strncpy` and a final
zero byte.
-/

namespace PeerShare
namespace Wire

open Foundation

def tcpRegister : UInt8 := 1
def tcpRegisterAck : UInt8 := 2
def tcpShareFile : UInt8 := 3
def tcpShareAck : UInt8 := 4
def tcpListFiles : UInt8 := 5
def tcpFileList : UInt8 := 6
def tcpRequestFile : UInt8 := 7
def tcpFileLocation : UInt8 := 8
def tcpUnregister : UInt8 := 9
def tcpError : UInt8 := 10

def errNone : UInt8 := 0
def errFileNotFound : UInt8 := 1
def errNoPeers : UInt8 := 2
def errInvalidMsg : UInt8 := 3

/-- `sizeof(tcp_header_t)`. -/
def tcpHeaderSize : Nat := 4

/-- `sizeof(tcp_register_t)`. -/
def tcpRegisterSize : Nat := 2

/-- `sizeof(tcp_register_ack_t)`. -/
def tcpRegisterAckSize : Nat := 4

/-- `sizeof(tcp_share_file_t)`. -/
def tcpShareFileSize : Nat := 292

/-- `sizeof(tcp_share_ack_t)`. -/
def tcpShareAckSize : Nat := 4

/-- `sizeof(file_info_t)`. -/
def fileInfoSize : Nat := 297

/-- `sizeof(tcp_request_file_t)`. -/
def tcpRequestFileSize : Nat := 4

/-- `sizeof(tcp_file_location_t)`. -/
def tcpFileLocationSize : Nat := 302

/-! ## File name fields -/

/-- A `char filename[256]`. -/
structure NameField where
  bytes : Bytes
  length_eq : bytes.length = 256
  deriving DecidableEq

/-- The C string that starts a buffer. -/
def cString (buffer : Bytes) : Bytes := buffer.takeWhile (· ≠ 0)

namespace NameField

/-- `strncpy(field, source, 255); field[255] = 0`. -/
def strncpy (source : Bytes) : NameField where
  bytes := (cString source).take 255 ++
    List.replicate (256 - ((cString source).take 255).length) 0
  length_eq := by
    simp only [List.length_append, List.length_take, List.length_replicate]
    omega

/-- The field at the start of a memory image; an image in use is long enough. -/
def ofImage (image : Bytes) : NameField where
  bytes := (image ++ List.replicate 256 0).take 256
  length_eq := by
    rw [List.length_take, List.length_append, List.length_replicate]
    omega

theorem ofImage_append (name : NameField) (rest : Bytes) :
    NameField.ofImage (name.bytes ++ rest) = name := by
  have htake : (name.bytes ++ rest ++ List.replicate 256 0).take 256 = name.bytes := by
    rw [List.append_assoc]
    exact List.take_left' name.length_eq
  cases name
  simp only [NameField.ofImage, NameField.mk.injEq]
  exact htake

/-- Zeros behind clean bytes do not change the string. -/
theorem cString_append_zeros {name : Bytes} {count : Nat}
    (hclean : ∀ byte ∈ name, byte ≠ 0) (hcount : count ≠ 0) :
    cString (name ++ List.replicate count 0) = name := by
  obtain ⟨zeros, rfl⟩ := Nat.exists_eq_succ_of_ne_zero hcount
  have hall : ∀ byte ∈ name, (fun byte : UInt8 => decide (byte ≠ 0)) byte = true := by
    intro byte hbyte
    exact decide_eq_true (hclean byte hbyte)
  rw [cString, List.takeWhile_append_of_pos hall, List.replicate_succ]
  simp

/-- A field filled by `strncpy` holds the string, cut to 255 bytes. -/
theorem cString_strncpy (source : Bytes) :
    cString (strncpy source).bytes = (cString source).take 255 := by
  apply cString_append_zeros
  · intro byte hbyte
    have hmem : byte ∈ source.takeWhile (· ≠ 0) := List.mem_of_mem_take hbyte
    have hclean := List.mem_takeWhile_imp hmem
    exact of_decide_eq_true hclean
  · rw [List.length_take]
    omega

/-- Copying a filled field once more changes nothing. -/
@[simp] theorem strncpy_strncpy (source : Bytes) :
    strncpy (strncpy source).bytes = strncpy source := by
  have hcut : (cString (strncpy source).bytes).take 255 = (cString source).take 255 := by
    rw [cString_strncpy, List.take_take, min_self]
  simp only [strncpy] at hcut ⊢
  simp only [hcut]

end NameField

/-! ## Headers and records -/

/-- `tcp_header_t`, field by field as the host sees it. -/
structure TcpHeader where
  msgType : UInt8
  errorCode : UInt8
  dataLen : Nat
  deriving DecidableEq

namespace TcpHeader

def image (host : ByteOrder) (hdr : TcpHeader) : Bytes :=
  [hdr.msgType, hdr.errorCode] ++ storeWord host 2 hdr.dataLen

def ofImage (host : ByteOrder) (buffer : Bytes) : TcpHeader where
  msgType := buffer.getD 0 0
  errorCode := buffer.getD 1 0
  dataLen := fieldAt host buffer 2 2

@[simp] theorem image_length (host : ByteOrder) (hdr : TcpHeader) :
    (hdr.image host).length = tcpHeaderSize := by
  simp [image, tcpHeaderSize]

theorem ofImage_image_append (host : ByteOrder) (hdr : TcpHeader) (payload : Bytes)
    (hlen : hdr.dataLen < 2 ^ 16) :
    TcpHeader.ofImage host (hdr.image host ++ payload) = hdr := by
  cases hdr with
  | mk msgType errorCode dataLen =>
      norm_num at hlen
      simp [TcpHeader.ofImage, TcpHeader.image, fieldAt, hlen]

end TcpHeader

/-- A message: header, then a payload whose length the header announces. -/
def controlMessage (host : ByteOrder) (msgType errorCode : UInt8) (payload : Bytes) : Bytes :=
  ({ msgType := msgType
     errorCode := errorCode
     dataLen := hton host 2 payload.length } : TcpHeader).image host ++ payload

/-- The payload of `TCP_REGISTER`. -/
def registerImage (host : ByteOrder) (udpPort : Nat) : Bytes :=
  storeWord host 2 (hton host 2 udpPort)

/-- The payload of `TCP_REGISTER_ACK`, `TCP_SHARE_ACK` and `TCP_REQUEST_FILE`:
one id. -/
def idImage (host : ByteOrder) (id : Nat) : Bytes :=
  storeWord host 4 (hton host 4 id)

/-- `tcp_share_file_t`, with the size in host order. -/
structure ShareFile where
  fileSize : Nat
  hash : HashBytes
  filename : NameField
  deriving DecidableEq

namespace ShareFile

def image (host : ByteOrder) (share : ShareFile) : Bytes :=
  storeWord host 4 (hton host 4 share.fileSize) ++ share.hash.bytes ++ share.filename.bytes

def ofImage (host : ByteOrder) (payload : Bytes) : ShareFile where
  fileSize := ntoh host 4 (fieldAt host payload 0 4)
  hash := HashBytes.ofImage (payload.drop 4)
  filename := NameField.ofImage (payload.drop 36)

end ShareFile

/-- `tcp_file_location_t`, with the numbers in host order. -/
structure FileLocation where
  fileId : Nat
  fileSize : Nat
  hash : HashBytes
  peer : SockAddr
  filename : NameField
  deriving DecidableEq

namespace FileLocation

def image (host : ByteOrder) (location : FileLocation) : Bytes :=
  storeWord host 4 (hton host 4 location.fileId) ++
    storeWord host 4 (hton host 4 location.fileSize) ++ location.hash.bytes ++
    storeWord .big 4 location.peer.ip.toNat ++
    storeWord host 2 (hton host 2 location.peer.port.toNat) ++ location.filename.bytes

def ofImage (host : ByteOrder) (payload : Bytes) : FileLocation where
  fileId := ntoh host 4 (fieldAt host payload 0 4)
  fileSize := ntoh host 4 (fieldAt host payload 4 4)
  hash := HashBytes.ofImage (payload.drop 8)
  peer :=
    { ip := UInt32.ofNat (fieldAt .big payload 40 4)
      port := UInt16.ofNat (ntoh host 2 (fieldAt host payload 44 2)) }
  filename := NameField.ofImage (payload.drop 46)

end FileLocation
/-! ## Reading back what was written -/

@[simp] theorem fieldAt_storeWord_append (host : ByteOrder) (width value : Nat) (rest : Bytes) :
    fieldAt host (storeWord host width value ++ rest) 0 width = value % 256 ^ width := by
  rw [fieldAt, List.drop_zero, List.take_left' (storeWord_length host width value),
    loadWord_storeWord]

/-- The field behind a known number of bytes. -/
theorem fieldAt_append (host : ByteOrder) (before rest : Bytes) (width : Nat) {offset : Nat}
    (hoffset : before.length = offset) :
    fieldAt host (before ++ rest) offset width = fieldAt host rest 0 width := by
  rw [fieldAt, fieldAt, List.drop_left' hoffset, List.drop_zero]

@[simp] theorem hton_mod (host : ByteOrder) (width value : Nat) :
    hton host width value % 256 ^ width = hton host width value :=
  Nat.mod_eq_of_lt (hton_lt host width value)

@[simp] theorem ShareFile.image_length (host : ByteOrder) (share : ShareFile) :
    (share.image host).length = tcpShareFileSize := by
  simp [ShareFile.image, share.hash.length_eq, share.filename.length_eq, tcpShareFileSize]

@[simp] theorem FileLocation.image_length (host : ByteOrder) (location : FileLocation) :
    (location.image host).length = tcpFileLocationSize := by
  simp [FileLocation.image, location.hash.length_eq, location.filename.length_eq,
    tcpFileLocationSize]

theorem ShareFile.ofImage_image (host : ByteOrder) (share : ShareFile)
    (hsize : share.fileSize < 2 ^ 32) :
    ShareFile.ofImage host (share.image host) = share := by
  cases share with
  | mk fileSize hash filename =>
      simp only [ShareFile.ofImage, ShareFile.image, ShareFile.mk.injEq, List.append_assoc]
      refine ⟨?_, ?_, ?_⟩
      · rw [fieldAt_storeWord_append, hton_mod, ntoh_hton]
        exact Nat.mod_eq_of_lt hsize
      · rw [List.drop_left' (storeWord_length _ _ _)]
        exact HashBytes.ofImage_append hash _
      · rw [← List.append_assoc, List.drop_left' (by simp [hash.length_eq]),
          ← List.append_nil filename.bytes]
        exact NameField.ofImage_append filename []

theorem FileLocation.ofImage_image (host : ByteOrder) (location : FileLocation)
    (hid : location.fileId < 2 ^ 32) (hsize : location.fileSize < 2 ^ 32) :
    FileLocation.ofImage host (location.image host) = location := by
  cases location with
  | mk fileId fileSize hash peer filename =>
      rcases peer with ⟨ip, port⟩
      simp only [FileLocation.ofImage, FileLocation.image, FileLocation.mk.injEq,
        SockAddr.mk.injEq]
      refine ⟨?_, ?_, ?_, ⟨?_, ?_⟩, ?_⟩
      · simp only [List.append_assoc]
        rw [fieldAt_storeWord_append, hton_mod, ntoh_hton]
        exact Nat.mod_eq_of_lt hid
      · simp only [List.append_assoc]
        rw [fieldAt_append _ _ _ _ (storeWord_length _ _ _), fieldAt_storeWord_append, hton_mod,
          ntoh_hton]
        exact Nat.mod_eq_of_lt hsize
      · simp only [List.append_assoc]
        rw [← List.append_assoc, List.drop_left' (by simp)]
        exact HashBytes.ofImage_append hash _
      · rw [List.append_assoc, List.append_assoc, fieldAt_append _ _ _ _ (by simp [hash.length_eq]),
          fieldAt_storeWord_append]
        have hlt : ip.toNat < 256 ^ 4 := ip.toNat_lt
        rw [Nat.mod_eq_of_lt hlt]
        exact UInt32.ofNat_toNat
      · rw [List.append_assoc, fieldAt_append _ _ _ _ (by simp [hash.length_eq]),
          fieldAt_storeWord_append, hton_mod, ntoh_hton]
        have hlt : port.toNat < 256 ^ 2 := port.toNat_lt
        rw [Nat.mod_eq_of_lt hlt]
        exact UInt16.ofNat_toNat
      · rw [List.drop_left' (by simp [hash.length_eq]), ← List.append_nil filename.bytes]
        exact NameField.ofImage_append filename []

@[simp] theorem controlMessage_length (host : ByteOrder) (msgType errorCode : UInt8) (payload : Bytes) :
    (controlMessage host msgType errorCode payload).length = tcpHeaderSize + payload.length := by
  simp [controlMessage]

theorem controlMessage_drop (host : ByteOrder) (msgType errorCode : UInt8) (payload : Bytes) :
    (controlMessage host msgType errorCode payload).drop tcpHeaderSize = payload :=
  List.drop_left' (TcpHeader.image_length _ _)

theorem ofImage_controlMessage (host : ByteOrder) (msgType errorCode : UInt8)
    (payload : Bytes) :
    TcpHeader.ofImage host (controlMessage host msgType errorCode payload) =
      { msgType := msgType
        errorCode := errorCode
        dataLen := hton host 2 payload.length } :=
  TcpHeader.ofImage_image_append host _ _ (hton_lt host 2 _)

/-- The length a receiver reads from a header is the real one if 16 bits hold
it. -/
theorem dataLen_controlMessage (host : ByteOrder) {payload : Bytes}
    (hfits : payload.length < 2 ^ 16) :
    ntoh host 2 (hton host 2 payload.length) = payload.length := by
  rw [ntoh_hton]
  exact Nat.mod_eq_of_lt hfits

end Wire
end PeerShare
