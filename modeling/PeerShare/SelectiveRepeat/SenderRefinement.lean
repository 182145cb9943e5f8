import PeerShare.Foundation.LeastGap
import PeerShare.SelectiveRepeat.FileChunks

/-!
# The sender refines a set of acknowledged chunks

The abstract sender is a finite set: the chunks whose acknowledgement has been
counted.  `SenderInv` ties the ring, both counters and `next_seq` to that set,
and holds also in the middle of the sliding loop, where `base` may still point
at an acknowledged chunk.  `Settled` is what the loop adds: between two calls
the base is the least chunk that is missing from the set.
-/

namespace PeerShare
namespace SelectiveRepeat

open Foundation Wire

/-- The slot of chunk `q` while `q` is between `base` and `next_seq`. -/
structure LiveEntry (file : FileImage) (acked : Finset Nat) (q : Nat)
    (entry : SendWindowEntry) : Prop where
  seqNum : entry.seqNum = q
  dataLen : entry.dataLen = (file.chunk q).length
  data : entry.data.bytes.take (file.chunk q).length = file.chunk q
  state : entry.state = if q ∈ acked then .acked else .pending

/-- The relation between a sender for `file` and the set of counted chunks. -/
structure SenderInv (file : FileImage) (sender : Sender) (acked : Finset Nat) : Prop where
  fileData : sender.fileData = file.data
  fileSize : sender.fileSize = file.size.toNat
  numChunks : sender.numChunks = file.numChunks
  count : sender.chunksAcked = acked.card
  acked_lt : ∀ q ∈ acked, q < sender.nextSeq
  below_base : ∀ q < sender.base, q ∈ acked
  base_le : sender.base ≤ sender.nextSeq
  next_le_window : sender.nextSeq ≤ sender.base + windowSize
  next_le_chunks : sender.nextSeq ≤ sender.numChunks
  live : ∀ q, sender.base ≤ q → q < sender.nextSeq →
    LiveEntry file acked q (sender.window.read q)
  idle : ∀ q, sender.nextSeq ≤ q → q < sender.base + windowSize →
    (sender.window.read q).state = .empty

/-- Between two calls the base is not acknowledged. -/
def Settled (sender : Sender) (acked : Finset Nat) : Prop := sender.base ∉ acked

namespace SenderInv

variable {file : FileImage} {sender : Sender} {acked : Finset Nat}

/-- The window bound is computed without wrap. -/
theorem window_end_eq (hinv : SenderInv file sender acked) :
    u32 (sender.base + windowSize) = sender.base + windowSize := by
  have hchunks := file.numChunks_lt
  have hbase := hinv.base_le
  have hnext := hinv.next_le_chunks
  rw [hinv.numChunks] at hnext
  apply u32_of_lt
  unfold windowSize
  omega

theorem base_least (hinv : SenderInv file sender acked)
    (hsettled : Settled sender acked) : IsLeast {k | k ∉ acked} sender.base :=
  isLeast_missing_iff.mpr ⟨hsettled, hinv.below_base⟩

theorem complete_iff (hinv : SenderInv file sender acked)
    (hsettled : Settled sender acked) :
    srSenderIsComplete sender = true ↔ sender.base = sender.numChunks := by
  have hbound : ∀ q ∈ acked, q < sender.numChunks := by
    intro q hq
    have hlt := hinv.acked_lt q hq
    have hnext := hinv.next_le_chunks
    omega
  rw [srSenderIsComplete, decide_eq_true_eq, hinv.count]
  exact bound_le_card_iff_gap_eq (hinv.base_least hsettled) hbound

/-- A pending slot of the window belongs to a sent chunk that is not counted. -/
theorem pendingAt_iff (hinv : SenderInv file sender acked) {q : Nat}
    (hlow : sender.base ≤ q) (hhigh : q < sender.base + windowSize) :
    PendingAt sender q ↔ q < sender.nextSeq ∧ q ∉ acked := by
  unfold PendingAt
  constructor
  · rintro ⟨hstate, -⟩
    by_cases hnext : q < sender.nextSeq
    · refine ⟨hnext, ?_⟩
      intro hmem
      rw [(hinv.live q hlow hnext).state, if_pos hmem] at hstate
      contradiction
    · rw [hinv.idle q (by omega) hhigh] at hstate
      contradiction
  · rintro ⟨hnext, hmem⟩
    have hlive := hinv.live q hlow hnext
    exact ⟨by rw [hlive.state, if_neg hmem], hlive.seqNum⟩

/-! ## Sending -/

/-- The entry that the send loop writes for chunk `q`. -/
def sentEntry (file : FileImage) (now : UInt64) (old : SendWindowEntry) (q : Nat) :
    SendWindowEntry where
  state := .pending
  seqNum := q
  data := old.data.copyIn (file.chunk q)
  dataLen := (file.chunk q).length
  sendTimeMs := now
  retries := 0

/-- One round of the send loop, with its machine arithmetic evaluated. -/
theorem sendChunk_eq (hinv : SenderInv file sender acked) (host : ByteOrder)
    (now : UInt64) (hchunks : sender.nextSeq < sender.numChunks) :
    sendChunk host now sender =
      ({ sender with
          window := sender.window.write sender.nextSeq
            (sentEntry file now (sender.window.read sender.nextSeq) sender.nextSeq)
          nextSeq := sender.nextSeq + 1 },
        file.packet host sender.nextSeq) := by
  have hq : sender.nextSeq < file.numChunks := by
    rw [← hinv.numChunks]
    exact hchunks
  have hsmall := file.numChunks_lt
  have hnext : u32 (sender.nextSeq + 1) = sender.nextSeq + 1 := u32_of_lt (by omega)
  have hlen : chunkLen sender.fileSize (sender.nextSeq * chunkSize) =
      (file.chunk sender.nextSeq).length := by
    rw [hinv.fileSize, file.chunkLen_eq hq]
  have hdata : (sender.fileData.drop (sender.nextSeq * chunkSize)).take
      (file.chunk sender.nextSeq).length = file.chunk sender.nextSeq := by
    rw [hinv.fileData, file.take_drop_data]
  simp only [sendChunk, file.offset_eq hq, hlen, hdata, hnext, sentEntry]
  rw [hinv.fileData, file.buildDataPacket_data]

/-- Buffering the next chunk keeps the relation. -/
theorem keeps_sendChunk (hinv : SenderInv file sender acked) (now : UInt64)
    (hwindow : sender.nextSeq < sender.base + windowSize)
    (hchunks : sender.nextSeq < sender.numChunks) :
    SenderInv file
      { sender with
        window := sender.window.write sender.nextSeq
          (sentEntry file now (sender.window.read sender.nextSeq) sender.nextSeq)
        nextSeq := sender.nextSeq + 1 } acked := by
  have hbase := hinv.base_le
  -- a chunk that was not sent cannot have been counted
  have hmissing : sender.nextSeq ∉ acked := by
    intro hmem
    exact absurd (hinv.acked_lt _ hmem) (lt_irrefl _)
  refine
    { fileData := hinv.fileData
      fileSize := hinv.fileSize
      numChunks := hinv.numChunks
      count := hinv.count
      acked_lt := ?_
      below_base := hinv.below_base
      base_le := Nat.le_succ_of_le hbase
      next_le_window := hwindow
      next_le_chunks := hchunks
      live := ?_
      idle := ?_ }
  · intro q hmem
    exact Nat.lt_succ_of_lt (hinv.acked_lt q hmem)
  · intro q hlow hhigh
    simp only at hlow hhigh ⊢
    by_cases heq : q = sender.nextSeq
    · subst heq
      rw [SlotRing.read_write_self]
      exact
        { seqNum := rfl
          dataLen := rfl
          data := ChunkBuffer.copyIn_take _ (file.chunk_length_le _)
          state := by simp [hmissing, sentEntry] }
    · rw [SlotRing.read_write_of_window _ _ ⟨hbase, hwindow⟩ ⟨hlow, by omega⟩ heq]
      exact hinv.live q hlow (by omega)
  · intro q hlow hhigh
    simp only at hlow hhigh ⊢
    rw [SlotRing.read_write_of_window _ _ ⟨hbase, hwindow⟩ ⟨by omega, hhigh⟩ (by omega)]
    exact hinv.idle q (by omega) hhigh

/-- The send loop fills the window, never meets an occupied slot, and sends the
new chunks in order. -/
theorem sendWindowLoop_spec (hinv : SenderInv file sender acked) (host : ByteOrder)
    (now : UInt64) {rounds : Nat}
    (hrounds : sender.numChunks - sender.nextSeq ≤ rounds) :
    let result := sendWindowLoop host now rounds sender
    SenderInv file result.sender acked ∧
      result.sender.peerAddr = sender.peerAddr ∧
      result.sender.base = sender.base ∧
      result.sender.nextSeq = min (sender.base + windowSize) sender.numChunks ∧
      result.exit = .condition ∧
      result.packets = (List.range' sender.nextSeq
        (min (sender.base + windowSize) sender.numChunks - sender.nextSeq)).map
          (file.packet host) := by
  have hwindow := hinv.next_le_window
  have hchunks := hinv.next_le_chunks
  -- by induction on the rounds left; the invariant says the next slot is empty
  induction rounds generalizing sender with
  | zero =>
      have hend : sender.nextSeq = min (sender.base + windowSize) sender.numChunks := by
        omega
      exact ⟨hinv, rfl, rfl, hend, rfl, by simp [sendWindowLoop, ← hend]⟩
  | succ rounds ih =>
      rw [sendWindowLoop, hinv.window_end_eq]
      by_cases hcond : sender.nextSeq < sender.base + windowSize ∧
          sender.nextSeq < sender.numChunks
      · have hempty := hinv.idle sender.nextSeq le_rfl hcond.1
        have hnext := hinv.keeps_sendChunk now hcond.1 hcond.2
        rw [if_pos hcond, if_neg (by simp [hempty]), hinv.sendChunk_eq host now hcond.2]
        obtain ⟨hinv', hpeer', hbase', hnext', hexit', hpackets'⟩ :=
          ih hnext (by simp only; omega) hnext.next_le_window hnext.next_le_chunks
        have hsplit : min (sender.base + windowSize) sender.numChunks - sender.nextSeq =
            min (sender.base + windowSize) sender.numChunks - (sender.nextSeq + 1) + 1 := by
          omega
        refine ⟨hinv', hpeer', hbase', hnext', hexit', ?_⟩
        simp only [hpackets', hsplit, List.range'_succ, List.map_cons]
      · rw [if_neg hcond]
        have hend : sender.nextSeq = min (sender.base + windowSize) sender.numChunks := by
          omega
        exact ⟨hinv, rfl, rfl, hend, rfl, by simp [← hend]⟩

theorem sendWindow_spec (hinv : SenderInv file sender acked) (host : ByteOrder)
    (now : UInt64) :
    let result := srSenderSendWindow host sender now
    SenderInv file result.sender acked ∧
      result.sender.peerAddr = sender.peerAddr ∧
      result.sender.base = sender.base ∧
      result.sender.nextSeq = min (sender.base + windowSize) sender.numChunks ∧
      result.exit = .condition ∧
      result.packets = (List.range' sender.nextSeq
        (min (sender.base + windowSize) sender.numChunks - sender.nextSeq)).map
          (file.packet host) :=
  hinv.sendWindowLoop_spec host now le_rfl

/-! ## Acknowledgements -/

/-- Releasing the slot of an acknowledged base keeps the relation: the slot is
also the slot of the number that enters the window at the other end. -/
theorem keeps_slide (hinv : SenderInv file sender acked) (hbase : sender.base ∈ acked) :
    SenderInv file
      { sender with
        window := sender.window.write sender.base
          { sender.window.read sender.base with state := .empty }
        base := sender.base + 1 } acked := by
  have hnext := hinv.acked_lt sender.base hbase
  have hwindow := hinv.next_le_window
  refine
    { fileData := hinv.fileData
      fileSize := hinv.fileSize
      numChunks := hinv.numChunks
      count := hinv.count
      acked_lt := hinv.acked_lt
      below_base := ?_
      base_le := hnext
      next_le_window := by simp only; omega
      next_le_chunks := hinv.next_le_chunks
      live := ?_
      idle := ?_ }
  · intro q hq
    simp only at hq
    by_cases heq : q = sender.base
    · rw [heq]
      exact hbase
    · exact hinv.below_base q (by omega)
  · intro q hlow hhigh
    simp only at hlow hhigh ⊢
    rw [SlotRing.read_write_of_window _ _ ⟨le_rfl, by unfold windowSize; omega⟩
      ⟨by omega, by omega⟩ (by omega)]
    exact hinv.live q (by omega) hhigh
  · intro q hlow hhigh
    simp only at hlow hhigh ⊢
    -- the slot of the base is also that of the number that enters the window
    by_cases hlast : q = sender.base + windowSize
    · have hslot : SlotRing.index windowSize q = SlotRing.index windowSize sender.base := by
        rw [hlast, SlotRing.index_add_size]
      simp [SlotRing.read, SlotRing.write, hslot]
    · rw [SlotRing.read_write_of_window _ _ ⟨le_rfl, by unfold windowSize; omega⟩
        ⟨by omega, by omega⟩ (by omega)]
      exact hinv.idle q hlow (by omega)

/-- The base slot is acknowledged exactly when the base is in the set. -/
theorem base_state_acked_iff (hinv : SenderInv file sender acked) :
    (sender.window.read sender.base).state = .acked ↔ sender.base ∈ acked := by
  constructor
  · intro hstate
    by_cases hnext : sender.base < sender.nextSeq
    · by_contra hmem
      rw [(hinv.live _ le_rfl hnext).state, if_neg hmem] at hstate
      contradiction
    · rw [hinv.idle _ (by omega) (by unfold windowSize; omega)] at hstate
      contradiction
  · intro hmem
    rw [(hinv.live _ le_rfl (hinv.acked_lt _ hmem)).state, if_pos hmem]

/-- The sliding loop stops at the least chunk that is not acknowledged. -/
theorem senderSlide_spec (hinv : SenderInv file sender acked) {rounds : Nat}
    (hrounds : sender.numChunks - sender.base ≤ rounds) :
    SenderInv file (senderSlide rounds sender) acked ∧
      Settled (senderSlide rounds sender) acked ∧
      (senderSlide rounds sender).nextSeq = sender.nextSeq ∧
      (senderSlide rounds sender).peerAddr = sender.peerAddr := by
  -- an acknowledged base is a sent chunk, so it lies below `num_chunks`
  have hinside : sender.base ∈ acked → sender.base < sender.numChunks := by
    intro hmem
    exact (hinv.acked_lt _ hmem).trans_le hinv.next_le_chunks
  induction rounds generalizing sender with
  | zero =>
      refine ⟨hinv, ?_, rfl, rfl⟩
      intro hmem
      have hlt := hinside hmem
      omega
  | succ rounds ih =>
      have hsmall := file.numChunks_lt
      have hchunks := hinv.numChunks
      by_cases hmem : sender.base ∈ acked
      · have hcond := hinside hmem
        have hstate := hinv.base_state_acked_iff.mpr hmem
        have hinc : u32 (sender.base + 1) = sender.base + 1 := u32_of_lt (by omega)
        have hstep := hinv.keeps_slide hmem
        have hround : senderSlide (rounds + 1) sender =
            senderSlide rounds
              { sender with
                window := sender.window.write sender.base
                  { sender.window.read sender.base with state := .empty }
                base := sender.base + 1 } := by
          simp [senderSlide, hcond, hstate, hinc]
        rw [hround]
        apply ih hstep
        · simp only
          omega
        · intro hmem'
          exact (hstep.acked_lt _ hmem').trans_le hstep.next_le_chunks
      · have hstate : (sender.window.read sender.base).state ≠ .acked := by
          rw [ne_eq, hinv.base_state_acked_iff]
          exact hmem
        have hstop : senderSlide (rounds + 1) sender = sender := by
          simp [senderSlide, hstate]
        rw [hstop]
        exact ⟨hinv, hmem, rfl, rfl⟩

/-- The loop does not move a settled base. -/
theorem senderSlide_settled (hinv : SenderInv file sender acked)
    (hsettled : Settled sender acked) (rounds : Nat) :
    senderSlide rounds sender = sender := by
  have hstate : (sender.window.read sender.base).state ≠ .acked := by
    rw [ne_eq, hinv.base_state_acked_iff]
    exact hsettled
  cases rounds with
  | zero => rfl
  | succ rounds => simp [senderSlide, hstate]

/-- Counting a pending chunk adds it to the set. -/
theorem keeps_markAcked (hinv : SenderInv file sender acked) {q : Nat}
    (hlow : sender.base ≤ q) (hnext : q < sender.nextSeq) (hmem : q ∉ acked) :
    SenderInv file
      { sender with
        window := sender.window.write q { sender.window.read q with state := .acked }
        chunksAcked := sender.chunksAcked + 1 } (insert q acked) := by
  have hwindow := hinv.next_le_window
  refine
    { fileData := hinv.fileData
      fileSize := hinv.fileSize
      numChunks := hinv.numChunks
      count := by simp only [hinv.count, Finset.card_insert_of_notMem hmem]
      acked_lt := ?_
      below_base := ?_
      base_le := hinv.base_le
      next_le_window := hwindow
      next_le_chunks := hinv.next_le_chunks
      live := ?_
      idle := ?_ }
  · intro k hk
    rcases Finset.mem_insert.mp hk with rfl | hk
    · exact hnext
    · exact hinv.acked_lt k hk
  · intro k hk
    exact Finset.mem_insert_of_mem (hinv.below_base k hk)
  · intro k hklow hkhigh
    simp only at hklow hkhigh ⊢
    have hlive := hinv.live k hklow hkhigh
    by_cases heq : k = q
    · subst heq
      rw [SlotRing.read_write_self]
      exact
        { seqNum := hlive.seqNum
          dataLen := hlive.dataLen
          data := hlive.data
          state := by simp }
    · rw [SlotRing.read_write_of_window _ _ ⟨hlow, by omega⟩ ⟨hklow, by omega⟩ heq]
      exact
        { seqNum := hlive.seqNum
          dataLen := hlive.dataLen
          data := hlive.data
          state := by simp [hlive.state, heq] }
  · intro k hklow hkhigh
    simp only at hklow hkhigh ⊢
    rw [SlotRing.read_write_of_window _ _ ⟨hlow, by omega⟩ ⟨by omega, hkhigh⟩ (by omega)]
    exact hinv.idle k hklow hkhigh

/-- The counter of acknowledgements does not wrap. -/
theorem chunksAcked_succ (hinv : SenderInv file sender acked) :
    u32 (sender.chunksAcked + 1) = sender.chunksAcked + 1 := by
  have hsub : acked ⊆ Finset.range sender.nextSeq := by
    intro k hk
    exact Finset.mem_range.mpr (hinv.acked_lt k hk)
  have hcard := Finset.card_le_card hsub
  rw [Finset.card_range, ← hinv.count] at hcard
  have hchunks := hinv.next_le_chunks
  have hsmall := file.numChunks_lt
  rw [hinv.numChunks] at hchunks
  exact u32_of_lt (by omega)

/-- The set after one acknowledgement. -/
def ackedAfter (host : ByteOrder) (sender : Sender) (hdr : UdpHeader)
    (acked : Finset Nat) : Finset Nat :=
  match ackCounted host sender hdr with
  | none => acked
  | some q => insert q acked

/-- The acknowledgement that is counted names a sent chunk of the window that
was not counted before. -/
theorem ackCounted_eq_some (hinv : SenderInv file sender acked) {host : ByteOrder}
    {hdr : UdpHeader} {q : Nat} (hcounted : ackCounted host sender hdr = some q) :
    AckInWindow host sender hdr ∧ q = ackNumber host hdr ∧ sender.base ≤ q ∧
      q < sender.nextSeq ∧ q ∉ acked := by
  unfold ackCounted at hcounted
  split at hcounted
  · rename_i hcond
    obtain ⟨hack, hpending⟩ := hcond
    have heq := Option.some.inj hcounted
    subst heq
    obtain ⟨hlow, -, hhigh, -⟩ := id hack
    rw [hinv.window_end_eq] at hhigh
    obtain ⟨hnext, hmem⟩ := (hinv.pendingAt_iff hlow hhigh).mp hpending
    exact ⟨hack, rfl, hlow, hnext, hmem⟩
  · contradiction

/-- An acknowledgement that is not counted changes nothing. -/
theorem handleAck_of_not_counted (hinv : SenderInv file sender acked)
    (hsettled : Settled sender acked) {host : ByteOrder} {hdr : UdpHeader}
    (hcounted : ackCounted host sender hdr = none) :
    srSenderHandleAck host sender hdr = sender := by
  unfold srSenderHandleAck
  by_cases hack : AckInWindow host sender hdr
  · have hpending : ¬ PendingAt sender (ackNumber host hdr) := by
      intro hpending
      rw [ackCounted, if_pos ⟨hack, hpending⟩] at hcounted
      contradiction
    rw [if_pos hack, markAcked, if_neg hpending]
    exact hinv.senderSlide_settled hsettled _
  · rw [if_neg hack]

/-- `sr_sender_handle_ack` adds the counted chunk to the set and settles. -/
theorem handleAck_spec (hinv : SenderInv file sender acked)
    (hsettled : Settled sender acked) (host : ByteOrder) (hdr : UdpHeader) :
    SenderInv file (srSenderHandleAck host sender hdr)
        (ackedAfter host sender hdr acked) ∧
      Settled (srSenderHandleAck host sender hdr) (ackedAfter host sender hdr acked) ∧
      (srSenderHandleAck host sender hdr).nextSeq = sender.nextSeq ∧
      (srSenderHandleAck host sender hdr).peerAddr = sender.peerAddr := by
  unfold ackedAfter
  cases hcounted : ackCounted host sender hdr with
  | none =>
      rw [hinv.handleAck_of_not_counted hsettled hcounted]
      exact ⟨hinv, hsettled, rfl, rfl⟩
  | some q =>
      obtain ⟨hack, rfl, hlow, hnext, hmem⟩ := hinv.ackCounted_eq_some hcounted
      have hpending : PendingAt sender (ackNumber host hdr) := by
        have hwindow := hinv.next_le_window
        exact (hinv.pendingAt_iff hlow (by omega)).mpr ⟨hnext, hmem⟩
      have hcount := hinv.chunksAcked_succ
      have hmarked := hinv.keeps_markAcked hlow hnext hmem
      rw [srSenderHandleAck, if_pos hack, markAcked, if_pos hpending, hcount]
      exact hmarked.senderSlide_spec le_rfl

/-- An acknowledgement changes the sender exactly when it is counted, whoever
sent it. -/
theorem handleAck_eq_iff (hinv : SenderInv file sender acked)
    (hsettled : Settled sender acked) (host : ByteOrder) (hdr : UdpHeader) :
    srSenderHandleAck host sender hdr = sender ↔ ackCounted host sender hdr = none := by
  constructor
  · intro hsame
    cases hcount : ackCounted host sender hdr with
    | none => rfl
    | some q =>
        obtain ⟨hinv', -⟩ := hinv.handleAck_spec hsettled host hdr
        obtain ⟨-, -, -, -, hmem⟩ := hinv.ackCounted_eq_some hcount
        have hcard := hinv'.count
        rw [hsame, hinv.count, ackedAfter, hcount,
          Finset.card_insert_of_notMem hmem] at hcard
        omega
  · exact hinv.handleAck_of_not_counted hsettled

/-! ## Timeouts -/

/-- Restarting the clock of a sent chunk keeps the relation. -/
theorem keeps_restart (hinv : SenderInv file sender acked) {q : Nat}
    (hlow : sender.base ≤ q) (hnext : q < sender.nextSeq) (now : UInt64) (retries : Nat) :
    SenderInv file
      { sender with
        window := sender.window.write q
          { sender.window.read q with sendTimeMs := now, retries := retries } } acked := by
  have hwindow := hinv.next_le_window
  refine
    { fileData := hinv.fileData
      fileSize := hinv.fileSize
      numChunks := hinv.numChunks
      count := hinv.count
      acked_lt := hinv.acked_lt
      below_base := hinv.below_base
      base_le := hinv.base_le
      next_le_window := hwindow
      next_le_chunks := hinv.next_le_chunks
      live := ?_
      idle := ?_ }
  · intro k hklow hkhigh
    simp only at hklow hkhigh ⊢
    have hlive := hinv.live k hklow hkhigh
    by_cases heq : k = q
    · subst heq
      rw [SlotRing.read_write_self]
      exact
        { seqNum := hlive.seqNum
          dataLen := hlive.dataLen
          data := hlive.data
          state := hlive.state }
    · rw [SlotRing.read_write_of_window _ _ ⟨hlow, by omega⟩ ⟨hklow, by omega⟩ heq]
      exact hlive
  · intro k hklow hkhigh
    simp only at hklow hkhigh ⊢
    rw [SlotRing.read_write_of_window _ _ ⟨hlow, by omega⟩ ⟨by omega, hkhigh⟩ (by omega)]
    exact hinv.idle k hklow hkhigh

/-- A retransmission is the datagram of the first transmission. -/
theorem retransmission_eq (hinv : SenderInv file sender acked) (host : ByteOrder) {q : Nat}
    (hlow : sender.base ≤ q) (hnext : q < sender.nextSeq) :
    buildDataPacket host (sender.window.read q).seqNum (sender.window.read q).data.bytes
      (sender.window.read q).dataLen = file.packet host q := by
  have hlive := hinv.live q hlow hnext
  rw [hlive.seqNum, hlive.dataLen]
  exact FileImage.buildDataPacket_congr host q hlive.data

/-- The entry of `q` is pending and its timer has run out at `now`. -/
def DueAt (sender : Sender) (now : UInt64) (q : Nat) : Prop :=
  (sender.window.read q).state = .pending ∧
    timeoutMs ≤ now - (sender.window.read q).sendTimeMs

instance (sender : Sender) (now : UInt64) (q : Nat) : Decidable (DueAt sender now q) :=
  inferInstanceAs (Decidable (_ ∧ _))

/-- One round of the timeout scan, in the three ways it can go. -/
theorem checkTimeoutsLoop_succ (hinv : SenderInv file sender acked) (host : ByteOrder)
    (now : UInt64) (rounds : Nat) {seq : Nat} (hlow : sender.base ≤ seq)
    (hnext : seq < sender.nextSeq) :
    checkTimeoutsLoop host now (rounds + 1) seq sender =
      if DueAt sender now seq then
        if maxRetries ≤ (sender.window.read seq).retries then
          ⟨sender, [], true⟩
        else
          let rest := checkTimeoutsLoop host now rounds (seq + 1)
            { sender with
              window := sender.window.write seq
                { sender.window.read seq with
                  sendTimeMs := now
                  retries := (sender.window.read seq).retries + 1 } }
          { rest with packets := file.packet host seq :: rest.packets }
      else
        checkTimeoutsLoop host now rounds (seq + 1) sender := by
  have hseq := (hinv.live seq hlow hnext).seqNum
  have hpacket := hinv.retransmission_eq host hlow hnext
  rw [checkTimeoutsLoop]
  by_cases hstate : (sender.window.read seq).state = .pending
  · by_cases hdue : timeoutMs ≤ now - (sender.window.read seq).sendTimeMs
    · simp [DueAt, hstate, hdue, hseq, ← hpacket]
    · simp [DueAt, hstate, hdue, hseq]
  · simp [DueAt, hstate]

/-- The scan keeps the relation and retransmits only sent, uncounted chunks. -/
theorem checkTimeoutsLoop_spec (hinv : SenderInv file sender acked) (host : ByteOrder)
    (now : UInt64) {rounds seq : Nat} (hlow : sender.base ≤ seq)
    (hend : seq + rounds = sender.nextSeq) :
    let result := checkTimeoutsLoop host now rounds seq sender
    SenderInv file result.sender acked ∧
      result.sender.peerAddr = sender.peerAddr ∧
      result.sender.base = sender.base ∧
      result.sender.nextSeq = sender.nextSeq ∧
      ∀ packet ∈ result.packets, ∃ q, sender.base ≤ q ∧ q < sender.nextSeq ∧
        q ∉ acked ∧ packet = file.packet host q := by
  induction rounds generalizing sender seq with
  | zero => exact ⟨hinv, rfl, rfl, rfl, by simp [checkTimeoutsLoop]⟩
  | succ rounds ih =>
      have hnext : seq < sender.nextSeq := by omega
      rw [hinv.checkTimeoutsLoop_succ host now rounds hlow hnext]
      by_cases hdue : DueAt sender now seq
      · rw [if_pos hdue]
        by_cases hretries : maxRetries ≤ (sender.window.read seq).retries
        · rw [if_pos hretries]
          exact ⟨hinv, rfl, rfl, rfl, by simp⟩
        · rw [if_neg hretries]
          have hstep := hinv.keeps_restart hlow hnext now
            ((sender.window.read seq).retries + 1)
          obtain ⟨hinv', hpeer', hbase', hnext', hpackets'⟩ :=
            ih hstep (Nat.le_succ_of_le hlow) (by simp only; omega)
          refine ⟨hinv', hpeer', hbase', hnext', ?_⟩
          intro packet hpacket
          rcases List.mem_cons.mp hpacket with rfl | hpacket
          · refine ⟨seq, hlow, hnext, ?_, rfl⟩
            intro hmem
            have hstate := hdue.1
            rw [(hinv.live seq hlow hnext).state, if_pos hmem] at hstate
            contradiction
          · exact hpackets' packet hpacket
      · rw [if_neg hdue]
        exact ih hinv (Nat.le_succ_of_le hlow) (by omega)

theorem checkTimeouts_spec (hinv : SenderInv file sender acked) (host : ByteOrder)
    (now : UInt64) :
    let result := srSenderCheckTimeouts host sender now
    SenderInv file result.sender acked ∧
      result.sender.peerAddr = sender.peerAddr ∧
      result.sender.base = sender.base ∧
      result.sender.nextSeq = sender.nextSeq ∧
      ∀ packet ∈ result.packets, ∃ q, sender.base ≤ q ∧ q < sender.nextSeq ∧
        q ∉ acked ∧ packet = file.packet host q := by
  have hbase := hinv.base_le
  exact hinv.checkTimeoutsLoop_spec host now le_rfl (by omega)

/-- When every pending chunk is due and has retries left, the scan does not
fail and retransmits all of them. -/
theorem checkTimeoutsLoop_all_due (hinv : SenderInv file sender acked) (host : ByteOrder)
    (now : UInt64) {rounds seq : Nat} (hlow : sender.base ≤ seq)
    (hend : seq + rounds = sender.nextSeq)
    (hdue : ∀ q, seq ≤ q → q < sender.nextSeq → q ∉ acked →
      timeoutMs ≤ now - (sender.window.read q).sendTimeMs ∧
        (sender.window.read q).retries < maxRetries) :
    let result := checkTimeoutsLoop host now rounds seq sender
    result.exceeded = false ∧
      ∀ q, seq ≤ q → q < sender.nextSeq → q ∉ acked →
        file.packet host q ∈ result.packets := by
  induction rounds generalizing sender seq with
  | zero => exact ⟨rfl, fun q hq hq' => by omega⟩
  | succ rounds ih =>
      have hnext : seq < sender.nextSeq := by omega
      have hwindow := hinv.next_le_window
      have hlive := hinv.live seq hlow hnext
      rw [hinv.checkTimeoutsLoop_succ host now rounds hlow hnext]
      by_cases hmem : seq ∈ acked
      · have hnot : ¬ DueAt sender now seq := by
          rintro ⟨hstate, -⟩
          rw [hlive.state, if_pos hmem] at hstate
          contradiction
        rw [if_neg hnot]
        obtain ⟨hok, hall⟩ := ih hinv (Nat.le_succ_of_le hlow) (by omega)
          fun q hq => hdue q (by omega)
        refine ⟨hok, ?_⟩
        intro q hq hq' hqmem
        have hne : q ≠ seq := by
          rintro rfl
          exact hqmem hmem
        exact hall q (by omega) hq' hqmem
      · obtain ⟨htime, hretries⟩ := hdue seq le_rfl hnext hmem
        have hyes : DueAt sender now seq :=
          ⟨by rw [hlive.state, if_neg hmem], htime⟩
        rw [if_pos hyes, if_neg (by omega)]
        have hstep := hinv.keeps_restart hlow hnext now
          ((sender.window.read seq).retries + 1)
        obtain ⟨hok, hall⟩ := ih hstep (Nat.le_succ_of_le hlow) (by simp only; omega) (by
          intro q hq hq' hqmem
          simp only at hq' ⊢
          rw [SlotRing.read_write_of_window _ _ ⟨hlow, by omega⟩ ⟨by omega, by omega⟩
            (by omega)]
          exact hdue q (by omega) hq' hqmem)
        refine ⟨hok, ?_⟩
        intro q hq hq' hqmem
        by_cases heq : q = seq
        · rw [heq]
          exact List.mem_cons_self
        · exact List.mem_cons_of_mem _ (hall q (by omega) hq' hqmem)

end SenderInv
end SelectiveRepeat
end PeerShare
