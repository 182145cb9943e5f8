import PeerShare.SelectiveRepeat.Transfer

/-!
# Safety of a transfer

Every action keeps the invariant of the composed system, so it holds in every
reachable state.  Window synchronisation and end-to-end correctness are read
off it.
-/

namespace PeerShare
namespace SelectiveRepeat

open Foundation Wire

variable {host : ByteOrder} {file : FileImage} {s t : Transfer} {acked stored : Finset Nat}

theorem transferInit_inv (hsize : file.size.toNat + 1023 < 2 ^ 32)
    (hinit : TransferInit file s) : TransferInv host file s ∅ ∅ := by
  obtain ⟨⟨peerAddr, link, hsender⟩, ⟨peerAddr', link', heap, hreceiver⟩, hdata, hacks,
    hwrites⟩ := hinit
  obtain ⟨sender, hsender', -, hsinv, hsettled⟩ := srSenderInit_inv peerAddr link file
  obtain ⟨receiver, hreceiver', -, hfileSize, hchunks, hbase, hlength, hrinv⟩ :=
    srReceiverInit_inv peerAddr' link' file.size
      (UInt32.ofNat ((file.size.toNat + chunkSize - 1) / chunkSize)) heap
  obtain rfl : sender = s.sender := Option.some.inj (hsender'.symm.trans hsender)
  obtain rfl : receiver = s.receiver := Option.some.inj (hreceiver'.symm.trans hreceiver)
  have hnumChunks : s.receiver.numChunks = file.numChunks := by
    rw [hchunks, FileImage.numChunks, u32_of_lt (by unfold chunkSize; omega)]
    have hsmall : (file.size.toNat + chunkSize - 1) / chunkSize < 2 ^ 32 := by
      unfold chunkSize
      omega
    exact Nat.mod_eq_of_lt hsmall
  exact
    { sender := hsinv
      senderSettled := hsettled
      receiver := hrinv.congr_content (by simp)
      receiverSettled := by simp
      numChunks := hnumChunks
      fileSize := hfileSize
      bufferLength := hlength
      acked_sub := Finset.Subset.refl _
      stored_sent := by simp
      data := by simp [hdata]
      acks := by simp [hacks]
      delivered := by simp [hbase]
      writes := by simp [hwrites] }

namespace TransferInv

/-- New datagrams of sent chunks may enter the network while the sender keeps
its set. -/
theorem keeps_send (hinv : TransferInv host file s acked stored) {sender : Sender}
    {packets : List Bytes} (hsender : SenderInv file sender acked)
    (hbase : sender.base = s.sender.base) (hnext : s.sender.nextSeq ≤ sender.nextSeq)
    (hpackets : ∀ packet ∈ packets, ∃ q < sender.nextSeq, packet = file.packet host q) :
    TransferInv host file { s with sender := sender, data := s.data ++ packets }
      acked stored :=
  { hinv with
    sender := hsender
    senderSettled := by
      show sender.base ∉ acked
      rw [hbase]
      exact hinv.senderSettled
    stored_sent := fun q hq => (hinv.stored_sent q hq).trans_le hnext
    data := by
      intro packet hpacket
      rcases List.mem_append.mp hpacket with hold | hnew
      · obtain ⟨q, hq, rfl⟩ := hinv.data packet hold
        exact ⟨q, hq.trans_le hnext, rfl⟩
      · exact hpackets packet hnew }

theorem keeps_sendWindow (hinv : TransferInv host file s acked stored) (now : UInt64) :
    TransferInv host file
      { s with
        sender := (srSenderSendWindow host s.sender now).sender
        data := s.data ++ (srSenderSendWindow host s.sender now).packets } acked stored := by
  obtain ⟨hsender, -, hbase, hnext, -, hpackets⟩ := hinv.sender.sendWindow_spec host now
  have hwindow := hinv.sender.next_le_window
  have hchunks := hinv.sender.next_le_chunks
  apply hinv.keeps_send hsender hbase
  · rw [hnext]
    omega
  · intro packet hpacket
    rw [hpackets] at hpacket
    obtain ⟨q, hq, rfl⟩ := List.mem_map.mp hpacket
    rw [List.mem_range'_1] at hq
    refine ⟨q, ?_, rfl⟩
    rw [hnext]
    omega

theorem keeps_checkTimeouts (hinv : TransferInv host file s acked stored) (now : UInt64) :
    TransferInv host file
      { s with
        sender := (srSenderCheckTimeouts host s.sender now).sender
        data := s.data ++ (srSenderCheckTimeouts host s.sender now).packets }
      acked stored := by
  obtain ⟨hsender, -, hbase, hnext, hpackets⟩ := hinv.sender.checkTimeouts_spec host now
  apply hinv.keeps_send hsender hbase
  · rw [hnext]
  · intro packet hpacket
    obtain ⟨q, -, hq, -, heq⟩ := hpackets packet hpacket
    refine ⟨q, ?_, heq⟩
    rw [hnext]
    exact hq

/-- Delivering a datagram of the sender stores its chunk, acknowledges it and
keeps the delivered prefix correct. -/
theorem keeps_deliverData (hinv : TransferInv host file s acked stored) {q : Nat}
    (hq : q < s.sender.nextSeq) :
    TransferInv host file
        { s with
          receiver := (srReceiverHandleData host s.receiver (file.packet host q)).receiver
          acks := s.acks ++ (srReceiverHandleData host s.receiver (file.packet host q)).acks
          writes := s.writes ++
            (srReceiverHandleData host s.receiver (file.packet host q)).copies }
        acked (insert q stored) ∧
      (srReceiverHandleData host s.receiver (file.packet host q)).acks =
        [buildAckPacket host q] := by
  have haccepts := hinv.accepts_packet hq
  -- a duplicate adds an acknowledgement and nothing else
  by_cases hstored : q ∈ stored
  · rw [hinv.receiver.handleData_of_stored hinv.receiverSettled haccepts hstored,
      Finset.insert_eq_of_mem hstored]
    refine ⟨{ hinv with acks := ?_, writes := by simpa using hinv.writes }, rfl⟩
    intro packet hpacket
    rcases List.mem_append.mp hpacket with hold | hnew
    · exact hinv.acks packet hold
    · exact ⟨q, hstored, List.mem_singleton.mp hnew⟩
  · obtain ⟨hrec, hgap, -, hle, -, hfileSize, hchunks, hacks, hcopies, hbuffer⟩ :=
      hinv.receiver.handleData_of_new haccepts hstored (file.chunk_length_le q)
    rw [Function.update_eq_self] at hrec hcopies
    have hbase := hrec.base_le
    rw [hchunks, hinv.numChunks] at hbase
    -- the copies of this call extend the delivered prefix up to the new base
    have hfold := delivered_fold file
      ((srReceiverHandleData host s.receiver (file.packet host q)).receiver.base -
        s.receiver.base) hinv.bufferLength (by omega) hinv.delivered
    rw [← hcopies, ← hbuffer, Nat.add_sub_cancel' hle] at hfold
    refine ⟨?_, hacks⟩
    refine
      { hinv with
        receiver := hrec
        receiverSettled := hgap
        numChunks := hchunks.trans hinv.numChunks
        fileSize := hfileSize.trans hinv.fileSize
        bufferLength := hfold.1
        acked_sub := hinv.acked_sub.trans (Finset.subset_insert q stored)
        stored_sent := ?_
        acks := ?_
        delivered := hfold.2
        writes := ?_ }
    · intro k hk
      rcases Finset.mem_insert.mp hk with rfl | hk
      · exact hq
      · exact hinv.stored_sent k hk
    · intro packet hpacket
      rcases List.mem_append.mp hpacket with hold | hnew
      · obtain ⟨k, hk, rfl⟩ := hinv.acks packet hold
        exact ⟨k, Finset.mem_insert_of_mem hk, rfl⟩
      · rw [hacks] at hnew
        exact ⟨q, Finset.mem_insert_self q stored, List.mem_singleton.mp hnew⟩
    · intro copy hcopy
      rcases List.mem_append.mp hcopy with hold | hnew
      · exact hinv.writes copy hold
      · rw [hcopies] at hnew
        obtain ⟨k, hk, rfl⟩ := List.mem_map.mp hnew
        rw [List.mem_range'_1] at hk
        -- a chunk of the file ends inside it, and so does its copy
        have hkChunks : k < file.numChunks := by omega
        have hend := file.chunk_end_le hkChunks
        refine ⟨file.offset_eq hkChunks, ?_⟩
        show u32 (k * chunkSize) + (file.chunk k).length ≤ file.size.toNat
        rw [file.offset_eq hkChunks]
        exact hend

/-- Delivering an acknowledgement of a stored chunk counts at most that chunk. -/
theorem keeps_deliverAck (hinv : TransferInv host file s acked stored) {q : Nat}
    (hq : q ∈ stored) :
    TransferInv host file
      { s with
        sender := srSenderHandleAck host s.sender
          (UdpHeader.ofImage host (buildAckPacket host q)) }
      (SenderInv.ackedAfter host s.sender
        (UdpHeader.ofImage host (buildAckPacket host q)) acked) stored := by
  obtain ⟨hsender, hsettled, hnext, -⟩ := hinv.sender.handleAck_spec hinv.senderSettled host
    (UdpHeader.ofImage host (buildAckPacket host q))
  have hsub : SenderInv.ackedAfter host s.sender
      (UdpHeader.ofImage host (buildAckPacket host q)) acked ⊆ stored := by
    unfold SenderInv.ackedAfter
    cases hcounted : ackCounted host s.sender
        (UdpHeader.ofImage host (buildAckPacket host q)) with
    | none => exact hinv.acked_sub
    | some k =>
        -- the chunk counted is the one acknowledged, and that one is stored
        obtain ⟨-, hk, -⟩ := hinv.sender.ackCounted_eq_some hcounted
        rw [hinv.ackNumber_eq hq] at hk
        subst hk
        exact Finset.insert_subset hq hinv.acked_sub
  refine
    { hinv with
      sender := hsender
      senderSettled := hsettled
      acked_sub := hsub
      stored_sent := ?_
      data := ?_ }
  · intro k hk
    show k < (srSenderHandleAck host s.sender _).nextSeq
    rw [hnext]
    exact hinv.stored_sent k hk
  · intro packet hpacket
    obtain ⟨k, hk, rfl⟩ := hinv.data packet hpacket
    refine ⟨k, ?_, rfl⟩
    show k < (srSenderHandleAck host s.sender _).nextSeq
    rw [hnext]
    exact hk

end TransferInv

/-- Every action keeps the invariant, for some sets. -/
theorem transferInv_step {action : TransferAction}
    (hinv : ∃ acked stored, TransferInv host file s acked stored)
    (hstep : TransferStep host s action t) :
    ∃ acked stored, TransferInv host file t acked stored := by
  obtain ⟨acked, stored, hinv⟩ := hinv
  cases hstep with
  | sendWindow now => exact ⟨_, _, hinv.keeps_sendWindow now⟩
  | checkTimeouts now => exact ⟨_, _, hinv.keeps_checkTimeouts now⟩
  | deliverData packet hpacket =>
      obtain ⟨q, hq, rfl⟩ := hinv.data packet hpacket
      exact ⟨_, _, (hinv.keeps_deliverData hq).1⟩
  | deliverAck packet hpacket =>
      obtain ⟨q, hq, rfl⟩ := hinv.acks packet hpacket
      exact ⟨_, _, hinv.keeps_deliverAck hq⟩
  | loseData packet =>
      refine ⟨acked, stored, { hinv with data := ?_ }⟩
      intro other hother
      exact hinv.data other (List.mem_of_mem_erase hother)
  | loseAck packet =>
      refine ⟨acked, stored, { hinv with acks := ?_ }⟩
      intro other hother
      exact hinv.acks other (List.mem_of_mem_erase hother)

theorem transferInv_run {labels : List TransferAction}
    (hsize : file.size.toNat + 1023 < 2 ^ 32) (hinit : TransferInit file s)
    (hrun : Run (TransferStep host) s labels t) :
    ∃ acked stored, TransferInv host file t acked stored :=
  hrun.invariant (fun _ _ _ hinv hstep => transferInv_step hinv hstep)
    ⟨∅, ∅, transferInit_inv hsize hinit⟩

/-! ## End-to-end correctness -/

/-- The chunks announced by the receiver cover the file, so a complete receiver
holds all of it. -/
theorem TransferInv.complete_file (hinv : TransferInv host file s acked stored)
    (hsize : file.size.toNat + 1023 < 2 ^ 32)
    (hcomplete : srReceiverIsComplete s.receiver = true) :
    srReceiverGetFile s.receiver = (file.contents, file.size.toNat) := by
  have hbase : file.numChunks ≤ s.receiver.base := by
    rw [← hinv.numChunks]
    exact of_decide_eq_true hcomplete
  rw [srReceiverGetFile, hinv.fileSize,
    buffer_eq_contents file hsize hinv.bufferLength hbase hinv.delivered]

/-- A sender that has counted every chunk faces a receiver that has them all. -/
theorem TransferInv.complete_receiver (hinv : TransferInv host file s acked stored)
    (hcomplete : srSenderIsComplete s.sender = true) :
    srReceiverIsComplete s.receiver = true := by
  have hbase := (hinv.sender.complete_iff hinv.senderSettled).mp hcomplete
  have hle := hinv.sender_base_le
  have hchunks := hinv.sender.numChunks
  rw [srReceiverIsComplete, decide_eq_true_eq, hinv.numChunks]
  omega

/-- End-to-end safety.  In every reachable state the delivered prefix of
`file_buffer` is that of the file and every copy stayed inside the buffer; a
complete receiver returns exactly the file; a complete sender faces a complete
receiver. -/
theorem transfer_end_to_end {labels : List TransferAction}
    (hsize : file.size.toNat + 1023 < 2 ^ 32) (hinit : TransferInit file s)
    (hrun : Run (TransferStep host) s labels t) :
    (t.receiver.fileBuffer.take (min (chunkSize * t.receiver.base) file.size.toNat) =
        file.contents.take (min (chunkSize * t.receiver.base) file.size.toNat) ∧
      ∀ copy ∈ t.writes, copy.offset + copy.dataLen ≤ t.receiver.fileBuffer.length) ∧
    (srReceiverIsComplete t.receiver = true →
      srReceiverGetFile t.receiver = (file.contents, file.size.toNat)) ∧
    (srSenderIsComplete t.sender = true → srReceiverIsComplete t.receiver = true) := by
  obtain ⟨acked, stored, hinv⟩ := transferInv_run hsize hinit hrun
  refine ⟨⟨?_, ?_⟩, hinv.complete_file hsize, hinv.complete_receiver⟩
  · rw [Nat.mul_comm]
    exact hinv.delivered
  · intro copy hcopy
    rw [hinv.bufferLength]
    exact (hinv.writes copy hcopy).2

/-- A file of one byte. -/
def oneByteFile : FileImage where
  data := [7]
  size := 1
  size_le := by decide

/-- Both ends at the start of a transfer of that file. -/
def oneByteStart : Transfer where
  sender := (srSenderInit (some ⟨0, 0⟩) (some oneByteFile.data) oneByteFile.size
    (some ⟨0, 0, 1⟩)).get rfl
  receiver := (srReceiverInit (some ⟨0, 0⟩) oneByteFile.size 1
    (some ⟨0, 0, 1⟩) (some fun _ => 0)).get rfl
  data := []
  acks := []
  writes := []

theorem oneByteStart_init : TransferInit oneByteFile oneByteStart where
  sender := ⟨⟨0, 0⟩, ⟨0, 0, 1⟩, rfl⟩
  receiver := ⟨⟨0, 0⟩, ⟨0, 0, 1⟩, fun _ => 0, rfl⟩
  data := rfl
  acks := rfl
  writes := rfl

/-- One chunk sent and delivered: the receiver is complete and returns the
byte. -/
theorem transfer_end_to_end_one_byte :
    ∃ s t, TransferInit oneByteFile s ∧
      Run (TransferStep .little) s
        [.sendWindow 0, .deliverData (oneByteFile.packet .little 0)] t ∧
      srReceiverIsComplete t.receiver = true ∧
      srReceiverGetFile t.receiver = ([7], 1) := by
  obtain ⟨t, hrun, hcomplete⟩ : ∃ t,
      Run (TransferStep .little) oneByteStart
        [.sendWindow 0, .deliverData (oneByteFile.packet .little 0)] t ∧
      srReceiverIsComplete t.receiver = true :=
    ⟨_, Run.snoc (Run.single (.sendWindow oneByteStart 0))
      (.deliverData _ (oneByteFile.packet .little 0) (by decide +kernel)),
      by decide +kernel⟩
  exact ⟨_, t, oneByteStart_init, hrun, hcomplete,
    (transfer_end_to_end (by decide) oneByteStart_init hrun).2.1 hcomplete⟩

/-! ## Window synchronisation -/

/-- A stored chunk is delivered or sits in its slot. -/
theorem TransferInv.stored_cases (hinv : TransferInv host file s acked stored) {q : Nat}
    (hq : q ∈ stored) :
    q < s.receiver.base ∨ (s.receiver.window.read q).received = true ∧
      (s.receiver.window.read q).seqNum = q := by
  by_cases hbase : q < s.receiver.base
  · exact Or.inl hbase
  · have hlow : s.receiver.base ≤ q := by omega
    have hhigh := hinv.receiver.stored_window q hq
    exact Or.inr ⟨(hinv.receiver.received_iff q hlow hhigh).mpr hq,
      (hinv.receiver.entry q hq hlow).seqNum⟩

/-- In every reachable state the two windows overlap as they must: no datagram
of the sender is ahead of the receiver's window, each one is acknowledged when
it is delivered, and every acknowledgement in flight names a chunk the receiver
has. -/
theorem window_synchronisation {labels : List TransferAction}
    (hsize : file.size.toNat + 1023 < 2 ^ 32) (hinit : TransferInit file s)
    (hrun : Run (TransferStep host) s labels t) :
    t.sender.base ≤ t.receiver.base ∧
      t.receiver.base ≤ t.sender.nextSeq ∧
      t.sender.nextSeq ≤ t.sender.base + windowSize ∧
      (∀ packet ∈ t.data, ∃ q payload, decodeData host packet = some (q, payload) ∧
        q < t.receiver.base + windowSize ∧
        ¬ u32 (t.receiver.base + windowSize) ≤ q ∧
        (srReceiverHandleData host t.receiver packet).acks = [buildAckPacket host q]) ∧
      ∀ packet ∈ t.acks,
        let k := ackNumber host (UdpHeader.ofImage host packet)
        k < t.receiver.base ∨ (t.receiver.window.read k).received = true ∧
          (t.receiver.window.read k).seqNum = k := by
  obtain ⟨acked, stored, hinv⟩ := transferInv_run hsize hinit hrun
  refine ⟨hinv.sender_base_le, hinv.receiver_base_le, hinv.sender.next_le_window, ?_, ?_⟩
  · intro packet hpacket
    obtain ⟨q, hq, rfl⟩ := hinv.data packet hpacket
    obtain ⟨hahead, hexact⟩ := hinv.sent_in_window hq
    exact ⟨q, file.chunk q, file.decodeData_packet host (hinv.sent_lt_numChunks hq),
      by omega, by omega, (hinv.keeps_deliverData hq).2⟩
  · intro packet hpacket
    obtain ⟨q, hq, rfl⟩ := hinv.acks packet hpacket
    simp only [hinv.ackNumber_eq hq]
    exact hinv.stored_cases hq

/-- In a transfer with one datagram and one acknowledgement in flight, the
datagram is acknowledged when it arrives again. -/
theorem window_synchronisation_one_byte :
    ∃ t, Run (TransferStep .little) oneByteStart
        [.sendWindow 0, .deliverData (oneByteFile.packet .little 0)] t ∧
      oneByteFile.packet .little 0 ∈ t.data ∧
      buildAckPacket .little 0 ∈ t.acks ∧
      ∃ q, (srReceiverHandleData .little t.receiver
        (oneByteFile.packet .little 0)).acks = [buildAckPacket .little q] := by
  obtain ⟨t, hrun, hdata, hacks⟩ : ∃ t,
      Run (TransferStep .little) oneByteStart
        [.sendWindow 0, .deliverData (oneByteFile.packet .little 0)] t ∧
      oneByteFile.packet .little 0 ∈ t.data ∧ buildAckPacket .little 0 ∈ t.acks :=
    ⟨_, Run.snoc (Run.single (.sendWindow oneByteStart 0))
      (.deliverData _ (oneByteFile.packet .little 0) (by decide +kernel)),
      by decide +kernel, by decide +kernel⟩
  obtain ⟨-, -, -, hall, -⟩ :=
    window_synchronisation (by decide) oneByteStart_init hrun
  obtain ⟨q, payload, -, -, -, hack⟩ := hall _ hdata
  exact ⟨t, hrun, hdata, hacks, q, hack⟩

end SelectiveRepeat
end PeerShare
