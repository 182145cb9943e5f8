import PeerShare.SelectiveRepeat.Receiver
import PeerShare.Wire.Checksum

/-!
# Damaged DATA packets

What the checksum test of `sr_receiver_handle_data` lets through when the
network changes bytes of a packet built by `build_data_packet`.
-/

namespace PeerShare
namespace SelectiveRepeat

open Foundation Wire

/-- A packet whose checksum test fails is dropped before anything is done. -/
theorem srReceiverHandleData_of_checksum {host : ByteOrder} {packet : Bytes}
    (hbad : checksumPasses host packet = false) (receiver : Receiver) :
    srReceiverHandleData host receiver packet = ⟨receiver, [], []⟩ := by
  have hdecode : decodeData host packet = none := by
    cases hsome : decodeData host packet with
    | none => rfl
    | some decoded =>
        obtain ⟨-, hchecksum, -⟩ := decodeData_eq_some hsome
        rw [checksumPasses, hchecksum] at hbad
        simp at hbad
  rw [srReceiverHandleData, hdecode]

theorem srReceiverHandleData_of_msgType {host : ByteOrder} {packet : Bytes}
    (hbad : (UdpHeader.ofImage host packet).msgType ≠ udpData) (receiver : Receiver) :
    srReceiverHandleData host receiver packet = ⟨receiver, [], []⟩ := by
  have hdecode : decodeData host packet = none := by
    cases hsome : decodeData host packet with
    | none => rfl
    | some decoded =>
        obtain ⟨-, -, htype, -⟩ := decodeData_eq_some hsome
        exact absurd htype hbad
  rw [srReceiverHandleData, hdecode]

section Packet

variable (host : ByteOrder) (seqNum : Nat) (payload : Bytes)

/-- The packet for a whole payload. -/
def dataPacket : Bytes :=
  buildDataPacket host seqNum payload payload.length

theorem dataPacket_length :
    (dataPacket host seqNum payload).length = udpHeaderSize + payload.length :=
  buildDataPacket_length host seqNum (le_refl _)

theorem dataPacket_msgType :
    (UdpHeader.ofImage host (dataPacket host seqNum payload)).msgType = udpData := by
  rw [dataPacket, buildDataPacket_eq]
  rfl

/-- The field holds the checksum of the packet without it. -/
theorem dataPacket_checksum :
    (UdpHeader.ofImage host (dataPacket host seqNum payload)).checksum =
      calculateChecksum (setChecksum host (dataPacket host seqNum payload) 0) := by
  rw [dataPacket, ofImage_buildDataPacket, setChecksum_buildDataPacket]

variable {host seqNum payload}

theorem le_length_of_dataPacket {packet : Bytes}
    (hlength : packet.length = (dataPacket host seqNum payload).length) :
    udpHeaderSize ≤ packet.length := by
  rw [hlength, dataPacket_length]
  exact Nat.le_add_right _ _

/-- With the field untouched, the test compares byte sums modulo `65535`. -/
theorem checksumPasses_iff (hpayload : payload.length ≤ chunkSize) {packet : Bytes}
    (hlength : packet.length = (dataPacket host seqNum payload).length)
    (hfield : checksumField packet = checksumField (dataPacket host seqNum payload))
    (htype : (UdpHeader.ofImage host packet).msgType = udpData) :
    checksumPasses host packet = true ↔
      byteSum (setChecksum host packet 0) ≡
        byteSum (setChecksum host (dataPacket host seqNum payload) 0) [MOD 65535] := by
  have hlong := le_length_of_dataPacket hlength
  have hlong' := le_length_of_dataPacket (rfl : (dataPacket host seqNum payload).length = _)
  have hshort : (dataPacket host seqNum payload).length ≤ udpHeaderSize + chunkSize := by
    rw [dataPacket_length]
    exact Nat.add_le_add_left hpayload _
  have hnonzero : udpData ≠ 0 := by decide
  have hpos : 0 < byteSum (setChecksum host packet 0) :=
    byteSum_zeroed_pos host hlong (by rw [htype]; exact hnonzero)
  have hpos' : 0 < byteSum (setChecksum host (dataPacket host seqNum payload) 0) :=
    byteSum_zeroed_pos host hlong' (by rw [dataPacket_msgType]; exact hnonzero)
  rw [← calculateChecksum_eq_iff hpos hpos' (byteSum_zeroed_lt host (by omega))
    (byteSum_zeroed_lt host hshort)]
  rw [checksumPasses, (checksum_eq_iff host hlong hlong').mpr hfield, dataPacket_checksum,
    beq_iff_eq]
  exact eq_comm

/-- Damage inside the field alone is always seen. -/
theorem checksumPasses_of_field {packet : Bytes}
    (hlength : packet.length = (dataPacket host seqNum payload).length)
    (hbefore : packet.take 2 = (dataPacket host seqNum payload).take 2)
    (hafter : packet.drop 4 = (dataPacket host seqNum payload).drop 4)
    (hne : packet ≠ dataPacket host seqNum payload) : checksumPasses host packet = false := by
  have hlong := le_length_of_dataPacket hlength
  have hlong' := le_length_of_dataPacket (rfl : (dataPacket host seqNum payload).length = _)
  -- without the field both packets are the same
  have hzeroed : setChecksum host packet 0 =
      setChecksum host (dataPacket host seqNum payload) 0 := by
    rw [setChecksum_zero host hlong, setChecksum_zero host hlong', hbefore, hafter]
  have hsplit : ∀ bytes : Bytes, bytes = bytes.take 2 ++ (checksumField bytes ++ bytes.drop 4) := by
    intro bytes
    have hrest : bytes.drop 4 = (bytes.drop 2).drop 2 := by
      rw [List.drop_drop]
    rw [checksumField, hrest, List.take_append_drop, List.take_append_drop]
  have hfield : checksumField packet ≠ checksumField (dataPacket host seqNum payload) := by
    intro hsame
    apply hne
    rw [hsplit packet, hsplit (dataPacket host seqNum payload), hbefore, hsame, hafter]
  rw [checksumPasses, hzeroed, ← dataPacket_checksum, beq_eq_false_iff_ne]
  intro hsame
  exact hfield ((checksum_eq_iff host hlong hlong').mp hsame)

/-- One changed byte outside the type and the field is seen. -/
theorem checksumPasses_of_set (hpayload : payload.length ≤ chunkSize) {i : Nat} {old byte : UInt8}
    (hold : (dataPacket host seqNum payload)[i]? = some old) (hne : byte ≠ old)
    (hi : i = 1 ∨ 4 ≤ i) :
    checksumPasses host ((dataPacket host seqNum payload).set i byte) = false := by
  have hlong := le_length_of_dataPacket (rfl : (dataPacket host seqNum payload).length = _)
  have hlength : ((dataPacket host seqNum payload).set i byte).length =
      (dataPacket host seqNum payload).length := List.length_set ..
  have hlong' := le_length_of_dataPacket hlength
  have hfield : checksumField ((dataPacket host seqNum payload).set i byte) =
      checksumField (dataPacket host seqNum payload) := by
    apply List.ext_getElem?
    intro k
    simp only [checksumField, List.getElem?_take, List.getElem?_drop]
    split
    · rw [List.getElem?_set_ne (by omega)]
    · rfl
  have htype : (UdpHeader.ofImage host ((dataPacket host seqNum payload).set i byte)).msgType =
      udpData := by
    have hhead : ((dataPacket host seqNum payload).set i byte)[0]? =
        (dataPacket host seqNum payload)[0]? := List.getElem?_set_ne (by omega)
    rw [← dataPacket_msgType host seqNum payload]
    simp only [UdpHeader.ofImage, List.getD_eq_getElem?_getD, hhead]
  have hzeroed : setChecksum host ((dataPacket host seqNum payload).set i byte) 0 =
      (setChecksum host (dataPacket host seqNum payload) 0).set i byte := by
    apply List.ext_getElem?
    intro k
    rw [setChecksum_zero_getElem? host hlong', List.getElem?_set, List.getElem?_set,
      setChecksum_zero_getElem? host hlong, setChecksum_length]
    split
    · rw [if_neg (by omega)]
    · rfl
  have hkept : (setChecksum host (dataPacket host seqNum payload) 0)[i]? = some old := by
    rw [setChecksum_zero_getElem? host hlong, if_neg (by omega), hold]
  have hsum := byteSum_set hkept byte
  have hbytes : byte.toNat ≠ old.toNat := fun hsame => hne (UInt8.toNat_inj.mp hsame)
  have hbyte := byte.toNat_lt
  have hold' := old.toNat_lt
  rw [Bool.eq_false_iff]
  intro hpasses
  rw [checksumPasses_iff hpayload hlength hfield htype, hzeroed, Nat.ModEq] at hpasses
  omega

/-- One changed byte anywhere makes the receiver drop the packet. -/
theorem srReceiverHandleData_of_set (hpayload : payload.length ≤ chunkSize) {i : Nat}
    {old byte : UInt8} (hold : (dataPacket host seqNum payload)[i]? = some old)
    (hne : byte ≠ old) (receiver : Receiver) :
    srReceiverHandleData host receiver ((dataPacket host seqNum payload).set i byte) =
      ⟨receiver, [], []⟩ := by
  have hi : i < (dataPacket host seqNum payload).length := (List.getElem?_eq_some_iff.mp hold).1
  by_cases htype : i = 0
  · -- the type itself is checked
    subst htype
    have hdata := dataPacket_msgType host seqNum payload
    simp only [UdpHeader.ofImage, List.getD_eq_getElem?_getD, hold, Option.getD_some] at hdata
    apply srReceiverHandleData_of_msgType
    simp only [UdpHeader.ofImage, List.getD_eq_getElem?_getD, List.getElem?_set_self hi,
      Option.getD_some]
    rw [← hdata]
    exact hne
  by_cases hfield : i = 2 ∨ i = 3
  · apply srReceiverHandleData_of_checksum
    refine checksumPasses_of_field (List.length_set ..) ?_ ?_ ?_
    · exact List.take_set_of_le (by omega)
    · exact List.drop_set_of_lt (by omega)
    · intro hsame
      have hbyte : ((dataPacket host seqNum payload).set i byte)[i]? = some byte :=
        List.getElem?_set_self hi
      rw [hsame, hold, Option.some.injEq] at hbyte
      exact hne hbyte.symm
  · exact srReceiverHandleData_of_checksum
      (checksumPasses_of_set hpayload hold hne (by omega)) receiver

end Packet

/-- Which damage to a DATA packet is detected: with the checksum field intact,
exactly the damage that changes the byte sum modulo `65535`; damage to the
field alone always; a single changed byte always. -/
theorem data_corruption_detection (host : ByteOrder) (seqNum : Nat) (payload : Bytes)
    (hpayload : payload.length ≤ chunkSize) :
    (∀ packet : Bytes, packet.length = (dataPacket host seqNum payload).length →
      (checksumField packet = checksumField (dataPacket host seqNum payload) →
        (UdpHeader.ofImage host packet).msgType = udpData →
        (checksumPasses host packet = true ↔
          byteSum (setChecksum host packet 0) ≡
            byteSum (setChecksum host (dataPacket host seqNum payload) 0) [MOD 65535])) ∧
      (packet.take 2 = (dataPacket host seqNum payload).take 2 →
        packet.drop 4 = (dataPacket host seqNum payload).drop 4 →
        packet ≠ dataPacket host seqNum payload →
        ∀ receiver, srReceiverHandleData host receiver packet = ⟨receiver, [], []⟩)) ∧
    ∀ (i : Nat) (old byte : UInt8), (dataPacket host seqNum payload)[i]? = some old →
      byte ≠ old → ∀ receiver,
        srReceiverHandleData host receiver ((dataPacket host seqNum payload).set i byte) =
          ⟨receiver, [], []⟩ := by
  constructor
  · intro packet hlength
    constructor
    · intro hfield htype
      exact checksumPasses_iff hpayload hlength hfield htype
    · intro hbefore hafter hne receiver
      exact srReceiverHandleData_of_checksum
        (checksumPasses_of_field hlength hbefore hafter hne) receiver
  · intro i old byte hold hne receiver
    exact srReceiverHandleData_of_set hpayload hold hne receiver

/-- A receiver that waits for a file of one byte. -/
def waitingReceiver : Receiver :=
  (srReceiverInit (some ⟨0, 0⟩) 1 1 (some ⟨0, 0, 1⟩) (some fun _ => 0)).get rfl

/-- The chunk it waits for is acknowledged, and dropped when its one payload byte
is damaged on the way. -/
theorem data_corruption_detection_one_byte :
    (srReceiverHandleData .little waitingReceiver (dataPacket .little 0 [7])).acks =
        [buildAckPacket .little 0] ∧
      srReceiverHandleData .little waitingReceiver ((dataPacket .little 0 [7]).set 16 8) =
        ⟨waitingReceiver, [], []⟩ :=
  ⟨by decide +kernel,
    (data_corruption_detection .little 0 [7] (by decide)).2 16 7 8 (by decide) (by decide) _⟩

end SelectiveRepeat
end PeerShare
