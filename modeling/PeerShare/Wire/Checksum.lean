import PeerShare.Wire.PacketCodec

/-!
# What the checksum of `protocol.h` tells apart

The end-around carry keeps a sum modulo `65535` and never turns a positive sum
into zero, so two packets whose byte sums are positive have the same checksum
exactly when the sums agree modulo `65535`.  Changing one byte moves a sum by
less than `256`, which no multiple of `65535` hides.
-/

namespace PeerShare
namespace Wire

open Foundation

/-- The sum that `calculate_checksum` folds, without a word size. -/
def byteSum (data : Bytes) : Nat :=
  (data.map UInt8.toNat).sum

@[simp] theorem byteSum_nil : byteSum [] = 0 := rfl

@[simp] theorem byteSum_cons (byte : UInt8) (data : Bytes) :
    byteSum (byte :: data) = byte.toNat + byteSum data := by
  simp [byteSum]

@[simp] theorem byteSum_append (first second : Bytes) :
    byteSum (first ++ second) = byteSum first + byteSum second := by
  simp [byteSum]

theorem byteSum_le (data : Bytes) : byteSum data ≤ 255 * data.length := by
  induction data with
  | nil => simp
  | cons byte data ih =>
      have hbyte : byte.toNat < 256 := byte.toNat_lt
      rw [byteSum_cons, List.length_cons]
      omega

/-- Overwriting a byte trades its share of the sum for that of the new one. -/
theorem byteSum_set {data : Bytes} {i : Nat} {old : UInt8} (hold : data[i]? = some old)
    (byte : UInt8) : byteSum (data.set i byte) + old.toNat = byteSum data + byte.toNat := by
  induction data generalizing i with
  | nil => simp at hold
  | cons first data ih =>
      cases i with
      | zero =>
          rw [List.getElem?_cons_zero, Option.some.injEq] at hold
          rw [List.set_cons_zero, byteSum_cons, byteSum_cons, hold]
          omega
      | succ i =>
          rw [List.getElem?_cons_succ] at hold
          rw [List.set_cons_succ, byteSum_cons, byteSum_cons]
          have hrest := ih hold
          omega

/-- The loop ends with the representative of the sum between `1` and `65535`. -/
theorem foldCarry_eq {rounds sum : Nat} (hrounds : sum ≤ rounds) (hpos : 0 < sum) :
    foldCarry rounds sum = (sum - 1) % 65535 + 1 := by
  induction rounds generalizing sum with
  | zero => omega
  | succ rounds ih =>
      unfold foldCarry
      split
      · next hsmall => omega
      · next hlarge =>
          -- a round takes away a multiple of 65535 and leaves something
          have hsmaller : sum % 2 ^ 16 + sum / 2 ^ 16 ≤ rounds := by omega
          have hleft : 0 < sum % 2 ^ 16 + sum / 2 ^ 16 := by omega
          rw [ih hsmaller hleft]
          omega

/-- As long as the sum fits 32 bits, the accumulator holds it. -/
theorem foldl_u32_eq (data : Bytes) (start : Nat) (hfits : start + byteSum data < 2 ^ 32) :
    data.foldl (fun sum byte => u32 (sum + byte.toNat)) start = start + byteSum data := by
  induction data generalizing start with
  | nil => simp
  | cons byte data ih =>
      rw [byteSum_cons] at hfits ⊢
      rw [List.foldl_cons, u32_of_lt (by omega), ih _ (by omega)]
      omega

/-- The checksum of a packet in terms of its byte sum. -/
theorem calculateChecksum_eq {data : Bytes} (hpos : 0 < byteSum data)
    (hfits : byteSum data < 2 ^ 32) :
    calculateChecksum data = 65534 - (byteSum data - 1) % 65535 := by
  have hsum := foldl_u32_eq data 0 (by omega)
  rw [calculateChecksum, hsum, Nat.zero_add, foldCarry_eq (le_refl _) hpos, u16]
  omega

/-- Equal checksums are equal sums modulo `65535`. -/
theorem calculateChecksum_eq_iff {data other : Bytes} (hdata : 0 < byteSum data)
    (hother : 0 < byteSum other) (hdata' : byteSum data < 2 ^ 32)
    (hother' : byteSum other < 2 ^ 32) :
    calculateChecksum data = calculateChecksum other ↔
      byteSum data ≡ byteSum other [MOD 65535] := by
  rw [calculateChecksum_eq hdata hdata', calculateChecksum_eq hother hother', Nat.ModEq]
  omega

/-! ## The checksum field of a buffer -/

/-- The comparison in `sr_receiver_handle_data`: the field against the checksum
of the packet with the field zeroed. -/
def checksumPasses (host : ByteOrder) (packet : Bytes) : Bool :=
  (UdpHeader.ofImage host packet).checksum == calculateChecksum (setChecksum host packet 0)

/-- The two bytes of the checksum field. -/
def checksumField (packet : Bytes) : Bytes :=
  (packet.drop 2).take 2

/-- Storing into the field leaves the bytes around it. -/
theorem setChecksum_eq (host : ByteOrder) {packet : Bytes}
    (hlength : udpHeaderSize ≤ packet.length) (checksum : Nat) :
    setChecksum host packet checksum =
      packet.take 2 ++ storeWord host 2 checksum ++ packet.drop 4 := by
  rw [udpHeaderSize] at hlength
  have hwhole : (storeWord host 2 checksum).take (packet.length - 2) =
      storeWord host 2 checksum := by
    apply List.take_of_length_le
    rw [storeWord_length]
    omega
  rw [setChecksum, memcpy, hwhole, storeWord_length]

theorem setChecksum_zero (host : ByteOrder) {packet : Bytes}
    (hlength : udpHeaderSize ≤ packet.length) :
    setChecksum host packet 0 = packet.take 2 ++ [0, 0] ++ packet.drop 4 := by
  have hzero : storeWord host 2 0 = [0, 0] := by
    cases host <;> rfl
  rw [setChecksum_eq host hlength, hzero]

/-- Clearing the field, byte by byte. -/
theorem setChecksum_zero_getElem? (host : ByteOrder) {packet : Bytes}
    (hlength : udpHeaderSize ≤ packet.length) (k : Nat) :
    (setChecksum host packet 0)[k]? = if k = 2 ∨ k = 3 then some 0 else packet[k]? := by
  have hlong : 4 ≤ packet.length := by
    rw [udpHeaderSize] at hlength
    omega
  rw [setChecksum_zero host hlength]
  -- the field is bytes 2 and 3, so four bytes have to be seen
  rcases packet with _ | ⟨first, _ | ⟨second, _ | ⟨third, _ | ⟨fourth, rest⟩⟩⟩⟩
  · simp at hlong
  · simp at hlong
  · simp at hlong
  · simp at hlong
  · rcases k with _ | _ | _ | _ | k
    · rfl
    · rfl
    · rfl
    · rfl
    · simp

/-- The field tells its two bytes. -/
theorem checksum_eq_iff (host : ByteOrder) {packet other : Bytes}
    (hpacket : udpHeaderSize ≤ packet.length) (hother : udpHeaderSize ≤ other.length) :
    (UdpHeader.ofImage host packet).checksum = (UdpHeader.ofImage host other).checksum ↔
      checksumField packet = checksumField other := by
  rw [udpHeaderSize] at hpacket hother
  have hlength : (checksumField packet).length = (checksumField other).length := by
    simp only [checksumField, List.length_take, List.length_drop]
    omega
  -- storing what was loaded gives the bytes back
  constructor
  · intro hsame
    have hstored := storeWord_loadWord host (checksumField packet)
    change loadWord host (checksumField packet) = loadWord host (checksumField other) at hsame
    rw [hsame, hlength, storeWord_loadWord] at hstored
    exact hstored.symm
  · intro hsame
    change loadWord host (checksumField packet) = loadWord host (checksumField other)
    rw [hsame]

/-- A packet that begins with its message type has a positive sum, and no
packet the program handles is long enough to overflow 32 bits. -/
theorem byteSum_zeroed_pos (host : ByteOrder) {packet : Bytes}
    (hlength : udpHeaderSize ≤ packet.length)
    (htype : (UdpHeader.ofImage host packet).msgType ≠ 0) :
    0 < byteSum (setChecksum host packet 0) := by
  rw [setChecksum_zero host hlength]
  cases packet with
  | nil => simp [udpHeaderSize] at hlength
  | cons msgType rest =>
      change msgType ≠ 0 at htype
      have hpos : 0 < msgType.toNat := by
        rw [Nat.pos_iff_ne_zero]
        intro hzero
        exact htype (UInt8.toNat_inj.mp hzero)
      rw [byteSum_append, byteSum_append, List.take_succ_cons, byteSum_cons]
      omega

theorem byteSum_zeroed_lt (host : ByteOrder) {packet : Bytes}
    (hshort : packet.length ≤ udpHeaderSize + chunkSize) :
    byteSum (setChecksum host packet 0) < 2 ^ 32 := by
  have hle := byteSum_le (setChecksum host packet 0)
  rw [setChecksum_length] at hle
  rw [udpHeaderSize, chunkSize] at hshort
  omega

end Wire
end PeerShare
