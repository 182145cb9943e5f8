import PeerShare.Client.RunningTransfer
import PeerShare.Wire.Checksum

/-!
# Damaged acknowledgements

The receiver recomputes the checksum of a DATA packet.  The `UDP_ACK` branch of
the owner's loop does not: a damaged acknowledgement counts like any other if
the number it carries is that of a chunk waiting for one.
-/

namespace PeerShare
namespace Client

open Foundation Wire SelectiveRepeat

/-- The chunk is in the window and waits for its acknowledgement. -/
def Awaited (sender : Sender) (seqNum : Nat) : Prop :=
  sender.base ≤ seqNum ∧ seqNum < u32 (sender.base + windowSize) ∧
    seqNum < sender.numChunks ∧ PendingAt sender seqNum

instance (sender : Sender) (seqNum : Nat) : Decidable (Awaited sender seqNum) :=
  inferInstanceAs (Decidable (_ ∧ _ ∧ _ ∧ _))

/-- An acknowledgement in which one byte was replaced on the way. -/
def damagedAck (host : ByteOrder) (ackNum i : Nat) (byte : UInt8) : Datagram :=
  Datagram.recv ((buildAckPacket host ackNum).set i byte)

/-- The number the damaged acknowledgement carries. -/
def damagedNumber (host : ByteOrder) (ackNum i : Nat) (byte : UInt8) : Nat :=
  ackNumber host (UdpHeader.ofImage host (damagedAck host ackNum i byte).bytes)

theorem ackCounted_eq_none_iff {host : ByteOrder} {sender : Sender} {hdr : UdpHeader}
    (htype : hdr.msgType = udpAck) :
    ackCounted host sender hdr = none ↔ ¬ Awaited sender (ackNumber host hdr) := by
  unfold ackCounted Awaited AckInWindow
  split
  · next hcounted =>
      obtain ⟨⟨hlow, -, hhigh, hchunks⟩, hpending⟩ := hcounted
      constructor
      · intro hnone
        cases hnone
      · intro hnot
        exact absurd ⟨hlow, hhigh, hchunks, hpending⟩ hnot
  · next hcounted =>
      refine ⟨fun _ => ?_, fun _ => rfl⟩
      rintro ⟨hlow, hhigh, hchunks, hpending⟩
      exact hcounted ⟨⟨hlow, htype, hhigh, hchunks⟩, hpending⟩

section Damage

variable {host : ByteOrder} {ackNum i : Nat} {old byte : UInt8}

theorem damagedAck_bytes :
    (damagedAck host ackNum i byte).bytes = (buildAckPacket host ackNum).set i byte := by
  apply Datagram.recv_bytes
  rw [List.length_set, buildAckPacket_length]
  exact Nat.le_add_right _ _

theorem damagedAck_length :
    (damagedAck host ackNum i byte).bytes.length = udpHeaderSize := by
  rw [damagedAck_bytes, List.length_set, buildAckPacket_length]

/-- The type is damaged exactly when the first byte is. -/
theorem damagedAck_msgType (hold : (buildAckPacket host ackNum)[i]? = some old)
    (hne : byte ≠ old) :
    (UdpHeader.ofImage host (damagedAck host ackNum i byte).bytes).msgType = udpAck ↔ i ≠ 0 := by
  have htype := msgType_buildAckPacket host ackNum
  simp only [UdpHeader.ofImage, List.getD_eq_getElem?_getD] at htype
  simp only [UdpHeader.ofImage, List.getD_eq_getElem?_getD, damagedAck_bytes]
  by_cases hi : i = 0
  · subst hi
    have hlength := (List.getElem?_eq_some_iff.mp hold).1
    rw [hold, Option.getD_some] at htype
    rw [List.getElem?_set_self hlength, Option.getD_some, ← htype]
    simp [hne]
  · rw [List.getElem?_set_ne hi]
    exact ⟨fun _ => hi, fun _ => htype⟩

/-- An acknowledgement is too short to be a request. -/
theorem not_granted_damagedAck (table : SharedTable) (env : RequestEnv) :
    ¬ RequestGranted host table (damagedAck host ackNum i byte) env := by
  intro hgranted
  have hlength := hgranted.length
  rw [damagedAck_length, udpRequestFileSize] at hlength
  omega

/-- What the datagram branch does with a damaged acknowledgement. -/
theorem receive_damagedAck (hold : (buildAckPacket host ackNum)[i]? = some old)
    (hne : byte ≠ old) {owner : Owner} (hactive : owner.transferActive = true)
    (link : LossyLink) (peer : SockAddr) (env : RequestEnv) (now : UInt64) :
    (receiveDatagram host link owner (some (peer, damagedAck host ackNum i byte)) env
        now).owner.globalSender =
      if i = 0 then owner.globalSender
      else srSenderHandleAck host owner.globalSender
        (UdpHeader.ofImage host (damagedAck host ackNum i byte).bytes) := by
  have htype := damagedAck_msgType hold hne
  unfold receiveDatagram
  simp only
  rw [if_neg (by rw [damagedAck_length]; exact lt_irrefl _)]
  by_cases hi : i = 0
  · have hnotAck : (UdpHeader.ofImage host (damagedAck host ackNum i byte).bytes).msgType ≠
        udpAck := by
      rw [ne_eq, htype]
      exact not_not.mpr hi
    rw [if_pos hi, if_neg hnotAck]
    split
    · rw [(handleRequest_of_refused (not_granted_damagedAck owner.table env) link peer now).1]
    · rfl
  · have hAck := htype.mpr hi
    have hnotRequest : (UdpHeader.ofImage host (damagedAck host ackNum i byte).bytes).msgType ≠
        udpRequestFile := by
      rw [hAck]
      decide
    rw [if_neg hi, if_neg hnotRequest, if_pos hAck, handleAck, if_pos hactive]

end Damage

/-- In every reachable state with an active transfer, an acknowledgement with one
changed byte leaves the global sender alone exactly when the byte is the message
type or the number in the datagram is not that of a chunk waiting for its
acknowledgement. -/
theorem damaged_ack_ignored_iff {host : ByteOrder} {link : LossyLink} {owner : Owner}
    {events : List OwnerEvent}
    (hrun : Run (OwnerStep host link) Owner.initial events owner)
    (hactive : owner.transferActive = true) {ackNum i : Nat} {old byte : UInt8}
    (hold : (buildAckPacket host ackNum)[i]? = some old) (hne : byte ≠ old)
    (peer : SockAddr) (env : RequestEnv) (now : UInt64) :
    (receiveDatagram host link owner (some (peer, damagedAck host ackNum i byte)) env
        now).owner.globalSender = owner.globalSender ↔
      i = 0 ∨ ¬ Awaited owner.globalSender (damagedNumber host ackNum i byte) := by
  obtain ⟨file, acked, hinv, hsettled⟩ :=
    hrun.invariant (fun _ _ _ hinv hstep => ownerInv_step hinv hstep) ownerInv_initial
  rw [receive_damagedAck hold hne hactive link peer env now]
  by_cases hi : i = 0
  · rw [if_pos hi]
    exact ⟨fun _ => Or.inl hi, fun _ => rfl⟩
  · have htype := (damagedAck_msgType hold hne).mpr hi
    rw [if_neg hi, hinv.handleAck_eq_iff hsettled, ackCounted_eq_none_iff htype]
    constructor
    · exact Or.inr
    · intro hcondition
      exact hcondition.resolve_left hi

/-- The acknowledgement of chunk 1 reaches an owner that serves a file of one
chunk, with the number damaged to 0: chunk 0 counts as received. -/
theorem damaged_ack_counted :
    Run (OwnerStep .little ⟨3, 0, 1⟩) Owner.initial servingEvents servingOwner ∧
      servingOwner.transferActive = true ∧
      (buildAckPacket .little 1)[11]? = some 1 ∧
      checksumPasses .little (damagedAck .little 1 11 0).bytes = false ∧
      (receiveDatagram .little ⟨3, 0, 1⟩ servingOwner
        (some (⟨1, 1⟩, damagedAck .little 1 11 0)) oneByteEnv 1).owner.globalSender ≠
          servingOwner.globalSender ∧
      (receiveDatagram .little ⟨3, 0, 1⟩ servingOwner
        (some (⟨1, 1⟩, damagedAck .little 1 11 0)) oneByteEnv 1).owner.globalSender.chunksAcked =
          servingOwner.globalSender.chunksAcked + 1 := by
  have hcounted : (receiveDatagram .little ⟨3, 0, 1⟩ servingOwner
      (some (⟨1, 1⟩, damagedAck .little 1 11 0)) oneByteEnv 1).owner.globalSender.chunksAcked =
        servingOwner.globalSender.chunksAcked + 1 := by decide +kernel
  refine ⟨servingOwner_run, by decide +kernel, by decide +kernel, by decide +kernel, ?_,
    hcounted⟩
  intro hsame
  rw [hsame] at hcounted
  omega

/-- With the number damaged to 2 instead, nothing happens. -/
theorem damaged_ack_outside_window :
    servingOwner.transferActive = true ∧
      (receiveDatagram .little ⟨3, 0, 1⟩ servingOwner
        (some (⟨1, 1⟩, damagedAck .little 1 11 2)) oneByteEnv 1).owner.globalSender =
          servingOwner.globalSender := by
  have hactive : servingOwner.transferActive = true := by decide +kernel
  have hold : (buildAckPacket .little 1)[11]? = some 1 := by decide +kernel
  exact ⟨hactive, (damaged_ack_ignored_iff servingOwner_run hactive hold (by decide) ⟨1, 1⟩
    oneByteEnv 1).mpr (Or.inr (by decide +kernel))⟩

end Client
end PeerShare
