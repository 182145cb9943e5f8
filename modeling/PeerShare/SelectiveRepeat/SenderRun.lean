import PeerShare.SelectiveRepeat.SenderRefinement

/-!
# Runs of one sender

A run calls the three operations of the sender in any order, with arbitrary
clock readings and arbitrary headers.  `counted` is the history of
acknowledgements that were counted; its elements are the abstract state.
-/

namespace PeerShare
namespace SelectiveRepeat

open Foundation Wire

/-- One call on the sender. -/
inductive SenderOp where
  | sendWindow (now : UInt64)
  | handleAck (hdr : UdpHeader)
  | checkTimeouts (now : UInt64)

/-- A sender with the history of the acknowledgements it counted. -/
structure SenderHistory where
  sender : Sender
  counted : List Nat

def SenderOp.apply (host : ByteOrder) (history : SenderHistory) :
    SenderOp → SenderHistory
  | .sendWindow now =>
      { history with sender := (srSenderSendWindow host history.sender now).sender }
  | .handleAck hdr =>
      { sender := srSenderHandleAck host history.sender hdr
        counted := history.counted ++ (ackCounted host history.sender hdr).toList }
  | .checkTimeouts now =>
      { history with sender := (srSenderCheckTimeouts host history.sender now).sender }

/-- All calls of a run, in order. -/
def runSender (host : ByteOrder) (sender : Sender) (ops : List SenderOp) :
    SenderHistory :=
  ops.foldl (SenderOp.apply host) ⟨sender, []⟩

/-- The state between two calls. -/
structure HistoryInv (file : FileImage) (history : SenderHistory) : Prop where
  inv : SenderInv file history.sender history.counted.toFinset
  settled : Settled history.sender history.counted.toFinset
  nodup : history.counted.Nodup

/-- `sr_sender_init` starts the history with nothing counted. -/
theorem srSenderInit_inv (peerAddr : SockAddr) (link : LossyLink) (file : FileImage) :
    ∃ sender,
      srSenderInit (some peerAddr) (some file.data) file.size (some link) = some sender ∧
        sender.peerAddr = peerAddr ∧ SenderInv file sender ∅ ∧ Settled sender ∅ := by
  refine ⟨_, rfl, rfl, ?_, by simp [Settled]⟩
  exact
    { fileData := rfl
      fileSize := rfl
      numChunks := rfl
      count := rfl
      acked_lt := by simp
      below_base := by simp
      base_le := le_rfl
      next_le_window := Nat.zero_le _
      next_le_chunks := Nat.zero_le _
      live := fun q hlow hhigh => absurd hhigh (by simp)
      idle := fun q _ _ => rfl }

/-- One call keeps the relation. -/
theorem historyInv_apply {file : FileImage} {history : SenderHistory}
    (hinv : HistoryInv file history) (host : ByteOrder) (op : SenderOp) :
    HistoryInv file (SenderOp.apply host history op) := by
  obtain ⟨hsender, hsettled, hnodup⟩ := hinv
  cases op with
  | sendWindow now =>
      obtain ⟨hsender', -, hbase, -⟩ := hsender.sendWindow_spec host now
      refine ⟨hsender', ?_, hnodup⟩
      show (srSenderSendWindow host history.sender now).sender.base ∉ _
      rw [hbase]
      exact hsettled
  | checkTimeouts now =>
      obtain ⟨hsender', -, hbase, -⟩ := hsender.checkTimeouts_spec host now
      refine ⟨hsender', ?_, hnodup⟩
      show (srSenderCheckTimeouts host history.sender now).sender.base ∉ _
      rw [hbase]
      exact hsettled
  | handleAck hdr =>
      obtain ⟨hsender', hsettled', -⟩ := hsender.handleAck_spec hsettled host hdr
      have hcounted : (history.counted ++
          (ackCounted host history.sender hdr).toList).toFinset =
            SenderInv.ackedAfter host history.sender hdr history.counted.toFinset := by
        unfold SenderInv.ackedAfter
        cases ackCounted host history.sender hdr with
        | none => simp
        | some q => simp [List.toFinset_append]
      refine ⟨?_, ?_, ?_⟩
      · show SenderInv file (srSenderHandleAck host history.sender hdr) _
        rw [SenderOp.apply, hcounted]
        exact hsender'
      · show (srSenderHandleAck host history.sender hdr).base ∉ _
        rw [SenderOp.apply, hcounted]
        exact hsettled'
      · show (history.counted ++ (ackCounted host history.sender hdr).toList).Nodup
        cases hq : ackCounted host history.sender hdr with
        | none => simpa using hnodup
        | some q =>
            obtain ⟨-, -, -, -, hfresh⟩ := hsender.ackCounted_eq_some hq
            rw [List.mem_toFinset] at hfresh
            rw [Option.toList_some, ← List.concat_eq_append]
            exact hnodup.concat hfresh

theorem historyInv_run {file : FileImage} {sender : Sender} (host : ByteOrder)
    (hinv : SenderInv file sender ∅) (hsettled : Settled sender ∅)
    (ops : List SenderOp) : HistoryInv file (runSender host sender ops) := by
  unfold runSender
  induction ops using List.reverseRecOn with
  | nil => exact ⟨by simpa using hinv, by simpa using hsettled, List.nodup_nil⟩
  | append_singleton ops op ih =>
      rw [List.foldl_concat]
      exact historyInv_apply ih host op

/-- The sender seen as the set `acked` of counted chunks: base, counters and
the content of all 64 slots are functions of the set and of `next_seq`. -/
structure RefinesAckedSet (file : FileImage) (sender : Sender) (acked : Finset Nat) :
    Prop where
  base_least : IsLeast {k | k ∉ acked} sender.base
  count : sender.chunksAcked = acked.card
  acked_lt : ∀ q ∈ acked, q < sender.nextSeq
  base_le : sender.base ≤ sender.nextSeq
  next_le : sender.nextSeq ≤ min (sender.base + windowSize) sender.numChunks
  slot : ∀ q, sender.base ≤ q → q < sender.nextSeq →
    let entry := sender.window.read q
    entry.seqNum = q ∧ entry.dataLen = (file.chunk q).length ∧
      entry.data.bytes.take entry.dataLen = file.chunk q ∧
      1 ≤ entry.dataLen ∧ entry.dataLen ≤ chunkSize ∧
      q * chunkSize + entry.dataLen ≤ file.size.toNat ∧
      u32 (q * chunkSize + entry.dataLen) = q * chunkSize + entry.dataLen ∧
      (entry.state = .acked ↔ q ∈ acked) ∧ (entry.state = .pending ↔ q ∉ acked)
  other_slot : ∀ slot : Fin windowSize,
    (∀ q, sender.base ≤ q → q < sender.nextSeq → SlotRing.index windowSize q ≠ slot) →
      (sender.window slot).state = .empty

/-- The invariant of the proofs yields the public relation. -/
theorem SenderInv.refines {file : FileImage} {sender : Sender} {acked : Finset Nat}
    (hinv : SenderInv file sender acked) (hsettled : Settled sender acked) :
    RefinesAckedSet file sender acked where
  base_least := hinv.base_least hsettled
  count := hinv.count
  acked_lt := hinv.acked_lt
  base_le := hinv.base_le
  next_le := le_min hinv.next_le_window hinv.next_le_chunks
  slot := by
    intro q hlow hhigh
    have hlive := hinv.live q hlow hhigh
    have hq : q < file.numChunks := by
      rw [← hinv.numChunks]
      exact hhigh.trans_le hinv.next_le_chunks
    have hend := file.chunk_end_le hq
    have hsize : file.size.toNat < 2 ^ 32 := file.size.toNat_lt
    refine ⟨hlive.seqNum, hlive.dataLen, ?_, ?_, ?_, ?_, ?_, ?_, ?_⟩
    · rw [hlive.dataLen]
      exact hlive.data
    · rw [hlive.dataLen]
      exact file.chunk_length_pos hq
    · rw [hlive.dataLen]
      exact file.chunk_length_le q
    · rw [hlive.dataLen]
      exact hend
    · rw [hlive.dataLen]
      exact u32_of_lt (by omega)
    · rw [hlive.state]
      split <;> simp_all
    · rw [hlive.state]
      split <;> simp_all
  other_slot := by
    intro slot hfree
    obtain ⟨q, hlow, hhigh, rfl⟩ := SlotRing.exists_seq_of_index sender.base slot
    by_cases hnext : q < sender.nextSeq
    · exact absurd rfl (hfree q hlow hnext)
    · exact hinv.idle q (by omega) hhigh

/-- Every run of a sender on a file of any 32-bit size refines the set of
counted chunks.  The send loop never meets an occupied slot and always fills
the window, no chunk is counted twice, and the completion test by counter
agrees with the position of the base. -/
theorem sender_refines_acked_set (host : ByteOrder) (peerAddr : SockAddr)
    (link : LossyLink) (file : FileImage) (ops : List SenderOp) :
    ∃ start,
      srSenderInit (some peerAddr) (some file.data) file.size (some link) = some start ∧
        let history := runSender host start ops
        RefinesAckedSet file history.sender history.counted.toFinset ∧
          history.counted.Nodup ∧
          history.sender.chunksAcked = history.counted.length ∧
          (∀ now, (srSenderSendWindow host history.sender now).exit = .condition ∧
            (srSenderSendWindow host history.sender now).sender.nextSeq =
              min (history.sender.base + windowSize) history.sender.numChunks) ∧
          (srSenderIsComplete history.sender = true ↔
            history.sender.base = history.sender.numChunks) := by
  obtain ⟨start, hinit, -, hinv, hsettled⟩ := srSenderInit_inv peerAddr link file
  obtain ⟨hrun, hsettled', hnodup⟩ := historyInv_run host hinv hsettled ops
  refine ⟨start, hinit, hrun.refines hsettled', hnodup, ?_, ?_, hrun.complete_iff hsettled'⟩
  · rw [hrun.count, List.toFinset_card_of_nodup hnodup]
  · intro now
    obtain ⟨-, -, -, hnext, hexit, -⟩ := hrun.sendWindow_spec host now
    exact ⟨hexit, hnext⟩

end SelectiveRepeat
end PeerShare
