import PeerShare.SelectiveRepeat.CorruptData

/-!
# From `build_data_packet` to the file buffer, and from `build_ack_packet` to the sender

What a host builds, a host of the same byte order reads: the number, the length and
the payload of a DATA packet, and the number of an acknowledgement.  A receiver that
has room for the chunk then keeps exactly the payload, in the slot of its number or,
when the window slides over it in the same call, in the file buffer.  Nothing is
assumed about the receiver: whatever its slots hold, one call passes each of them at
most once.
-/

namespace PeerShare
namespace SelectiveRepeat

open Foundation Wire

/-- The slot of `seqNum` holds the payload and waits for its turn. -/
structure SlotHolds (receiver : Receiver) (seqNum : Nat) (payload : Bytes) : Prop where
  received : (receiver.window.read seqNum).received = true
  seqNum_eq : (receiver.window.read seqNum).seqNum = seqNum
  dataLen : (receiver.window.read seqNum).dataLen = payload.length
  data : (receiver.window.read seqNum).data.bytes.take payload.length = payload

/-- The target of the copy of a chunk. -/
def chunkOffset (seqNum : Nat) : Nat := u32 (seqNum * chunkSize)

/-- The file buffer holds the payload where the chunk belongs, as far as the buffer
reaches. -/
def BufferHolds (receiver : Receiver) (seqNum : Nat) (payload : Bytes) : Prop :=
  ∀ k < payload.length, chunkOffset seqNum + k < receiver.fileBuffer.length →
    receiver.fileBuffer[chunkOffset seqNum + k]? = payload[k]?

/-- The copy of a chunk. -/
def chunkCopy (seqNum : Nat) (payload : Bytes) : DeliveryCopy :=
  ⟨seqNum, chunkOffset seqNum, payload.length, payload⟩

/-- The copy does not touch the place of the chunk. -/
def CopiesElsewhere (seqNum : Nat) (payload : Bytes) (copy : DeliveryCopy) : Prop :=
  chunkOffset seqNum + payload.length ≤ copy.offset ∨
    copy.offset + copy.data.length ≤ chunkOffset seqNum

/-- The whole payload was copied to its place, which no other copy touches. -/
structure Copied (copies : List DeliveryCopy) (seqNum : Nat) (payload : Bytes) : Prop where
  copied : chunkCopy seqNum payload ∈ copies
  apart : ∀ copy ∈ copies, copy = chunkCopy seqNum payload ∨
    CopiesElsewhere seqNum payload copy

/-! ## One call of the sliding loop -/

/-- The loop has come from `low` to the base and has cleared what it passed. -/
structure PassedFrom (low : Nat) (receiver : Receiver) : Prop where
  low_le : low ≤ receiver.base
  base_le : receiver.base ≤ low + windowSize
  cleared : ∀ k, low ≤ k → k < receiver.base → (receiver.window.read k).received = false

/-- The copy of one round. -/
def baseCopy (receiver : Receiver) : DeliveryCopy where
  base := receiver.base
  offset := chunkOffset receiver.base
  dataLen := (receiver.window.read receiver.base).dataLen
  data := (receiver.window.read receiver.base).data.bytes.take
    (receiver.window.read receiver.base).dataLen

/-- The receiver after one round. -/
def passBase (receiver : Receiver) : Receiver :=
  { receiver with
    fileBuffer := (baseCopy receiver).apply receiver.fileBuffer
    window := receiver.window.write receiver.base
      { receiver.window.read receiver.base with received := false }
    base := receiver.base + 1 }

theorem passBase_buffer_length (receiver : Receiver) :
    (passBase receiver).fileBuffer.length = receiver.fileBuffer.length :=
  memcpy_length ..

section Sliding

variable {low : Nat} {receiver : Receiver} {seqNum : Nat} {payload : Bytes}

/-- The slot behind the window is the first one that was passed. -/
theorem PassedFrom.base_lt (hpassed : PassedFrom low receiver)
    (hreceived : (receiver.window.read receiver.base).received = true) :
    receiver.base < low + windowSize := by
  by_contra hend
  have hbase := hpassed.base_le
  have heq : receiver.base = low + windowSize := by omega
  have hfirst := hpassed.cleared low le_rfl (by unfold windowSize at heq; omega)
  have hslot : receiver.window.read receiver.base = receiver.window.read low := by
    rw [heq, SlotRing.read, SlotRing.index_add_size]
    rfl
  rw [hslot, hfirst] at hreceived
  contradiction

/-- A round ends the loop or passes the base. -/
theorem receiverSlide_round (hwindow : low + windowSize < 2 ^ 32)
    (hpassed : PassedFrom low receiver) (rounds : Nat) :
    receiverSlide (rounds + 1) receiver = (receiver, []) ∨
      (receiver.window.read receiver.base).received = true ∧
        receiverSlide (rounds + 1) receiver =
          ((receiverSlide rounds (passBase receiver)).1,
            baseCopy receiver :: (receiverSlide rounds (passBase receiver)).2) := by
  by_cases hcond : receiver.base < receiver.numChunks
  swap
  · left
    simp only [receiverSlide, hcond, if_false]
  by_cases hreceived : (receiver.window.read receiver.base).received = true
  swap
  · left
    simp only [receiverSlide, hcond, hreceived, if_true]
    rfl
  have hlt := hpassed.base_lt hreceived
  have hinc : u32 (receiver.base + 1) = receiver.base + 1 := u32_of_lt (by omega)
  right
  refine ⟨hreceived, ?_⟩
  simp only [receiverSlide, hcond, hreceived, if_true, hinc]
  rfl

/-- Reading the other slots after a round. -/
theorem read_passBase (hpassed : PassedFrom low receiver)
    (hreceived : (receiver.window.read receiver.base).received = true) {k : Nat}
    (hlow : low ≤ k) (hhigh : k < low + windowSize) (hne : k ≠ receiver.base) :
    (passBase receiver).window.read k = receiver.window.read k :=
  SlotRing.read_write_of_window _ _ ⟨hpassed.low_le, hpassed.base_lt hreceived⟩
    ⟨hlow, hhigh⟩ hne

theorem PassedFrom.keeps_passBase (hpassed : PassedFrom low receiver)
    (hreceived : (receiver.window.read receiver.base).received = true) :
    PassedFrom low (passBase receiver) := by
  have hlow := hpassed.low_le
  have hlt := hpassed.base_lt hreceived
  refine ⟨Nat.le_succ_of_le hlow, hlt, ?_⟩
  intro k hk hbase
  by_cases heq : k = receiver.base
  · rw [heq]
    show ((receiver.window.write receiver.base _).read receiver.base).received = false
    rw [SlotRing.read_write_self]
  · have hbefore : k < receiver.base := by
      have hbase' : k < receiver.base + 1 := hbase
      omega
    rw [read_passBase hpassed hreceived hk (by omega) heq]
    exact hpassed.cleared k hk hbefore

/-! ### The chunk while the loop runs -/

/-- A round at another base leaves the slot alone. -/
theorem SlotHolds.keeps_passBase (hholds : SlotHolds receiver seqNum payload)
    (hpassed : PassedFrom low receiver)
    (hreceived : (receiver.window.read receiver.base).received = true) (hlow : low ≤ seqNum)
    (hhigh : seqNum < low + windowSize) (hne : seqNum ≠ receiver.base) :
    SlotHolds (passBase receiver) seqNum payload := by
  have hread := read_passBase hpassed hreceived hlow hhigh hne
  exact
    { received := by rw [hread, hholds.received]
      seqNum_eq := by rw [hread, hholds.seqNum_eq]
      dataLen := by rw [hread, hholds.dataLen]
      data := by rw [hread, hholds.data] }

/-- The round at its own base copies the payload. -/
theorem SlotHolds.baseCopy_eq (hholds : SlotHolds receiver receiver.base payload) :
    baseCopy receiver = chunkCopy receiver.base payload := by
  simp only [baseCopy, chunkCopy, hholds.dataLen, hholds.data]

theorem SlotHolds.bufferHolds (hholds : SlotHolds receiver receiver.base payload) :
    BufferHolds (passBase receiver) receiver.base payload := by
  intro k hk hinside
  rw [passBase_buffer_length] at hinside
  show ((baseCopy receiver).apply receiver.fileBuffer)[_]? = _
  rw [hholds.baseCopy_eq]
  exact memcpy_getElem?_of_inside _ _ hk hinside

/-- Two chunks of one window are copied to different places. -/
theorem chunkOffset_apart (other : Nat) (hne : other ≠ seqNum) (hlow : low ≤ seqNum)
    (hhigh : seqNum < low + windowSize) (hlow' : low ≤ other)
    (hhigh' : other < low + windowSize) :
    chunkOffset seqNum + chunkSize ≤ chunkOffset other ∨
      chunkOffset other + chunkSize ≤ chunkOffset seqNum := by
  unfold chunkOffset u32 chunkSize windowSize at *
  omega

/-- The round at another base copies elsewhere. -/
theorem PassedFrom.copiesElsewhere (hpassed : PassedFrom low receiver)
    (hreceived : (receiver.window.read receiver.base).received = true) (hlow : low ≤ seqNum)
    (hhigh : seqNum < low + windowSize) (hne : receiver.base ≠ seqNum)
    (hshort : payload.length ≤ chunkSize) :
    CopiesElsewhere seqNum payload (baseCopy receiver) := by
  have hapart := chunkOffset_apart receiver.base hne hlow hhigh hpassed.low_le
    (hpassed.base_lt hreceived)
  have hcopy : (baseCopy receiver).data.length ≤ chunkSize := by
    have hbuffer := (receiver.window.read receiver.base).data.length_eq
    rw [← hbuffer]
    exact List.length_take_le' ..
  show chunkOffset seqNum + payload.length ≤ chunkOffset receiver.base ∨
    chunkOffset receiver.base + (baseCopy receiver).data.length ≤ chunkOffset seqNum
  omega

/-- Such a round leaves the bytes of the chunk alone. -/
theorem BufferHolds.keeps_passBase (hholds : BufferHolds receiver seqNum payload)
    (helsewhere : CopiesElsewhere seqNum payload (baseCopy receiver)) :
    BufferHolds (passBase receiver) seqNum payload := by
  intro k hk hinside
  rw [passBase_buffer_length] at hinside
  rw [← hholds k hk hinside]
  apply memcpy_getElem?_of_outside
  unfold CopiesElsewhere at helsewhere
  omega

/-- The loop behind the chunk. -/
theorem receiverSlide_behind (hwindow : low + windowSize < 2 ^ 32)
    (hpassed : PassedFrom low receiver) (hlow : low ≤ seqNum)
    (hhigh : seqNum < low + windowSize) (hbehind : seqNum < receiver.base)
    (hshort : payload.length ≤ chunkSize) (hholds : BufferHolds receiver seqNum payload)
    (rounds : Nat) :
    BufferHolds (receiverSlide rounds receiver).1 seqNum payload ∧
      ∀ copy ∈ (receiverSlide rounds receiver).2, CopiesElsewhere seqNum payload copy := by
  induction rounds generalizing receiver with
  | zero => exact ⟨hholds, by simp [receiverSlide]⟩
  | succ rounds ih =>
      rcases receiverSlide_round hwindow hpassed rounds with hended | ⟨hreceived, hround⟩
      · rw [hended]
        exact ⟨hholds, by simp⟩
      have helsewhere : CopiesElsewhere seqNum payload (baseCopy receiver) :=
        hpassed.copiesElsewhere hreceived hlow hhigh hbehind.ne' hshort
      obtain ⟨hbuffer, hcopies⟩ := ih (hpassed.keeps_passBase hreceived)
        (Nat.lt_succ_of_lt hbehind) (hholds.keeps_passBase helsewhere)
      rw [hround]
      refine ⟨hbuffer, ?_⟩
      intro copy hcopy
      rcases List.mem_cons.mp hcopy with rfl | hlater
      · exact helsewhere
      · exact hcopies copy hlater

/-- The loop leaves the chunk in its slot or delivers it. -/
theorem receiverSlide_holds (hwindow : low + windowSize < 2 ^ 32)
    (hpassed : PassedFrom low receiver) (hbase : receiver.base ≤ seqNum)
    (hhigh : seqNum < low + windowSize) (hshort : payload.length ≤ chunkSize)
    (hholds : SlotHolds receiver seqNum payload) (rounds : Nat) :
    let slid := receiverSlide rounds receiver
    SlotHolds slid.1 seqNum payload ∨
      Copied slid.2 seqNum payload ∧ BufferHolds slid.1 seqNum payload := by
  induction rounds generalizing receiver with
  | zero => exact .inl hholds
  | succ rounds ih =>
      have hlow := hpassed.low_le
      rcases receiverSlide_round hwindow hpassed rounds with hended | ⟨hreceived, hround⟩
      · rw [hended]
        exact .inl hholds
      simp only [hround]
      by_cases hown : receiver.base = seqNum
      · subst hown
        obtain ⟨hbuffer, hcopies⟩ := receiverSlide_behind hwindow
          (hpassed.keeps_passBase hreceived) hlow hhigh (Nat.lt_succ_self _) hshort
          hholds.bufferHolds rounds
        rw [hholds.baseCopy_eq]
        refine .inr ⟨⟨List.mem_cons_self, ?_⟩, hbuffer⟩
        intro copy hcopy
        rcases List.mem_cons.mp hcopy with hfirst | hlater
        · exact .inl hfirst
        · exact .inr (hcopies copy hlater)
      · have hnext : (passBase receiver).base ≤ seqNum := by
          show receiver.base + 1 ≤ seqNum
          omega
        rcases ih (hpassed.keeps_passBase hreceived) hnext
          (hholds.keeps_passBase hpassed hreceived (by omega) hhigh (Ne.symm hown)) with
          hslot | ⟨hcopied, hbuffer⟩
        · exact .inl hslot
        refine .inr ⟨⟨List.mem_cons_of_mem _ hcopied.copied, ?_⟩, hbuffer⟩
        intro copy hcopy
        rcases List.mem_cons.mp hcopy with rfl | hlater
        · exact .inr (hpassed.copiesElsewhere hreceived (by omega) hhigh hown hshort)
        · exact hcopied.apart copy hlater

end Sliding

/-! ## The chunk in `sr_receiver_handle_data` -/

/-- The window of a receiver does not wrap where a number lies in it. -/
theorem window_lt_of_inside {base seqNum : Nat} (hlow : base ≤ seqNum)
    (hhigh : seqNum < u32 (base + windowSize)) :
    base + windowSize < 2 ^ 32 ∧ seqNum < base + windowSize := by
  unfold u32 windowSize at *
  omega

/-- A free slot takes the chunk. -/
theorem slotHolds_storeChunk {receiver : Receiver} {seqNum : Nat} {payload : Bytes}
    (hfree : (receiver.window.read seqNum).received = false)
    (hshort : payload.length ≤ chunkSize) :
    SlotHolds (storeChunk receiver seqNum payload) seqNum payload := by
  have hwindow : (storeChunk receiver seqNum payload).window.read seqNum =
      { received := true
        seqNum := seqNum
        data := (receiver.window.read seqNum).data.copyIn payload
        dataLen := payload.length } := by
    simp only [storeChunk, hfree, Bool.false_eq_true, if_false, SlotRing.read_write_self]
  exact
    { received := by rw [hwindow]
      seqNum_eq := by rw [hwindow]
      dataLen := by rw [hwindow]
      data := by
        rw [hwindow]
        exact ChunkBuffer.copyIn_take _ hshort }

theorem storeChunk_base (receiver : Receiver) (seqNum : Nat) (payload : Bytes) :
    (storeChunk receiver seqNum payload).base = receiver.base := by
  unfold storeChunk
  dsimp only
  split <;> rfl

/-- A decoded chunk of the window whose slot is free is acknowledged and kept. -/
theorem handleData_holds {host : ByteOrder} {packet payload : Bytes} {seqNum : Nat}
    (hdecode : decodeData host packet = some (seqNum, payload))
    (hshort : payload.length ≤ chunkSize) {receiver : Receiver}
    (hchunks : seqNum < receiver.numChunks) (hlow : receiver.base ≤ seqNum)
    (hhigh : seqNum < u32 (receiver.base + windowSize))
    (hfree : (receiver.window.read seqNum).received = false) :
    let result := srReceiverHandleData host receiver packet
    result.acks = [buildAckPacket host seqNum] ∧
      (SlotHolds result.receiver seqNum payload ∨
        Copied result.copies seqNum payload ∧ BufferHolds result.receiver seqNum payload) := by
  obtain ⟨hwindow, hinside⟩ := window_lt_of_inside hlow hhigh
  have hbase := storeChunk_base receiver seqNum payload
  have hresult : srReceiverHandleData host receiver packet =
      let stored := storeChunk receiver seqNum payload
      let slid := receiverSlide (stored.numChunks - stored.base) stored
      ⟨slid.1, [buildAckPacket host seqNum], slid.2⟩ := by
    simp only [srReceiverHandleData, hdecode, not_le.mpr hchunks, not_lt.mpr hlow,
      not_le.mpr hhigh, if_false]
  have hpassed : PassedFrom receiver.base (storeChunk receiver seqNum payload) := by
    refine ⟨hbase.ge, by rw [hbase]; exact Nat.le_add_right _ _, ?_⟩
    intro k hk hk'
    omega
  rw [hresult]
  refine ⟨rfl, ?_⟩
  exact receiverSlide_holds hwindow hpassed (hbase.le.trans hlow) hinside hshort
    (slotHolds_storeChunk hfree hshort) _

/-! ## Round trips -/

/-- A DATA packet on its way from `build_data_packet` into a receiver. -/
structure DataRoundTrip (host : ByteOrder) (seqNum : Nat) (payload : Bytes) : Prop where
  received : (Datagram.recv (dataPacket host seqNum payload)).bytes =
    dataPacket host seqNum payload
  decoded : decodeData host (dataPacket host seqNum payload) = some (seqNum, payload)
  dataLen : ntoh host 2 (UdpHeader.ofImage host (dataPacket host seqNum payload)).dataLen =
    payload.length
  kept : ∀ receiver : Receiver, seqNum < receiver.numChunks → receiver.base ≤ seqNum →
    seqNum < u32 (receiver.base + windowSize) →
    (receiver.window.read seqNum).received = false →
      let result := srReceiverHandleData host receiver (dataPacket host seqNum payload)
      result.acks = [buildAckPacket host seqNum] ∧
        (SlotHolds result.receiver seqNum payload ∨
          Copied result.copies seqNum payload ∧ BufferHolds result.receiver seqNum payload)

/-- An acknowledgement on its way from `build_ack_packet` into a sender. -/
structure AckRoundTrip (host : ByteOrder) (ackNum : Nat) : Prop where
  verified : verifyChecksum (setChecksum host (buildAckPacket host ackNum) 0)
    (UdpHeader.ofImage host (buildAckPacket host ackNum)).checksum = true
  read : ackNumber host (UdpHeader.ofImage host (buildAckPacket host ackNum)) = ackNum
  handled : ∀ sender : Sender,
    srSenderHandleAck host sender (UdpHeader.ofImage host (buildAckPacket host ackNum)) =
      if sender.base ≤ ackNum ∧ ackNum < u32 (sender.base + windowSize) ∧
          ackNum < sender.numChunks then
        let marked := markAcked sender ackNum
        senderSlide (marked.numChunks - marked.base) marked
      else
        sender

theorem dataRoundTrip (host : ByteOrder) {seqNum : Nat} (hseq : seqNum < 2 ^ 32)
    {payload : Bytes} (hshort : payload.length ≤ chunkSize) :
    DataRoundTrip host seqNum payload := by
  have hlen : payload.length < 2 ^ 16 := lt_of_le_of_lt hshort (by decide)
  have hdecoded : decodeData host (dataPacket host seqNum payload) = some (seqNum, payload) := by
    have hcut := decodeData_buildDataPacket host hseq hlen (le_refl payload.length)
    rwa [List.take_length] at hcut
  have hlength := dataPacket_length host seqNum payload
  refine
    { received := Datagram.recv_bytes (by omega)
      decoded := hdecoded
      dataLen := ?_
      kept := fun receiver => handleData_holds hdecoded hshort }
  rw [dataPacket, ofImage_buildDataPacket]
  show ntoh host 2 (hton host 2 payload.length) = payload.length
  rw [ntoh_hton]
  exact Nat.mod_eq_of_lt hlen

theorem ackRoundTrip (host : ByteOrder) {ackNum : Nat} (hack : ackNum < 2 ^ 32) :
    AckRoundTrip host ackNum := by
  have hread := ackNumber_buildAckPacket host hack
  refine { verified := ?_, read := hread, handled := ?_ }
  · rw [ofImage_buildAckPacket, setChecksum_buildAckPacket]
    exact beq_self_eq_true _
  · intro sender
    have htype := msgType_buildAckPacket host ackNum
    simp only [srSenderHandleAck, AckInWindow, hread, htype, true_and]

/-- On one byte order, for every 32-bit number and every payload of at most 1024
bytes: what `build_data_packet` produces is decoded to the same number, length and
payload and kept so by a receiver with room for it, and what `build_ack_packet`
produces is verified and read as the same number. -/
theorem packet_codec_round_trip (host : ByteOrder) (seqNum ackNum : UInt32) (payload : Bytes)
    (hshort : payload.length ≤ chunkSize) :
    DataRoundTrip host seqNum.toNat payload ∧ AckRoundTrip host ackNum.toNat :=
  ⟨dataRoundTrip host seqNum.toNat_lt hshort, ackRoundTrip host ackNum.toNat_lt⟩

/-- A chunk of one byte with the greatest number, and its acknowledgement. -/
theorem packet_codec_round_trip_one_byte :
    DataRoundTrip .little 4294967295 [7] ∧ AckRoundTrip .little 4294967295 :=
  packet_codec_round_trip .little 4294967295 4294967295 [7] (by decide)

end SelectiveRepeat
end PeerShare
