import PeerShare.SelectiveRepeat.TransferSafety

/-!
# A transfer never gets stuck

While no pending chunk has used up its retries, some continuation without
losses finishes the transfer.  It scans for timeouts once, at a clock value at
which every pending chunk is due, so that the datagram of every pending chunk
is in flight; from there each delivery of such a datagram and of its
acknowledgement counts one more chunk, and when everything sent is counted the
window is sent again.

The clock enters through the send times: they are clock readings of the run, so
a reading `TIMEOUT_MS` after the latest of them makes every one of them due.
-/

namespace PeerShare
namespace SelectiveRepeat

open Foundation Wire

variable {host : ByteOrder} {file : FileImage} {s t : Transfer} {acked stored : Finset Nat}

/-! ## Clock readings -/

def TransferAction.reading : TransferAction → Option UInt64
  | .sendWindow now => some now
  | .checkTimeouts now => some now
  | _ => none

/-- The clock readings of a run. -/
def readings (labels : List TransferAction) : List UInt64 :=
  labels.filterMap TransferAction.reading

/-- No slot carries a send time after `latest`. -/
def StampedBy (latest : Nat) (sender : Sender) : Prop :=
  ∀ q, (sender.window.read q).sendTimeMs.toNat ≤ latest

namespace StampedBy

variable {latest : Nat} {sender : Sender}

theorem write (hstamped : StampedBy latest sender) (q : Nat) {entry : SendWindowEntry}
    (hentry : entry.sendTimeMs.toNat ≤ latest) :
    ∀ k, ((sender.window.write q entry).read k).sendTimeMs.toNat ≤ latest := by
  intro k
  by_cases hindex : SlotRing.index windowSize k = SlotRing.index windowSize q
  · simpa [SlotRing.read, SlotRing.write, hindex] using hentry
  · rw [SlotRing.read_write_of_index_ne _ _ hindex]
    exact hstamped k

theorem sendWindowLoop (hstamped : StampedBy latest sender) (host : ByteOrder)
    {now : UInt64} (hnow : now.toNat ≤ latest) (rounds : Nat) :
    StampedBy latest (sendWindowLoop host now rounds sender).sender := by
  induction rounds generalizing sender with
  | zero => exact hstamped
  | succ rounds ih =>
      unfold SelectiveRepeat.sendWindowLoop
      split
      · split
        · exact hstamped
        · apply ih
          exact hstamped.write sender.nextSeq hnow
      · exact hstamped

theorem checkTimeoutsLoop (hstamped : StampedBy latest sender) (host : ByteOrder)
    {now : UInt64} (hnow : now.toNat ≤ latest) (rounds seq : Nat) :
    StampedBy latest (checkTimeoutsLoop host now rounds seq sender).sender := by
  induction rounds generalizing sender seq with
  | zero => exact hstamped
  | succ rounds ih =>
      unfold SelectiveRepeat.checkTimeoutsLoop
      simp only
      split
      · exact ih hstamped (seq + 1)
      · split
        · exact ih hstamped (seq + 1)
        · split
          · split
            · exact hstamped
            · apply ih
              exact hstamped.write seq hnow
          · exact ih hstamped (seq + 1)

theorem senderSlide (hstamped : StampedBy latest sender) (rounds : Nat) :
    StampedBy latest (senderSlide rounds sender) := by
  induction rounds generalizing sender with
  | zero => exact hstamped
  | succ rounds ih =>
      unfold SelectiveRepeat.senderSlide
      split
      · simp only
        split
        · exact hstamped
        · apply ih
          exact hstamped.write sender.base (hstamped sender.base)
      · exact hstamped

theorem handleAck (hstamped : StampedBy latest sender) (host : ByteOrder)
    (hdr : UdpHeader) : StampedBy latest (srSenderHandleAck host sender hdr) := by
  have hmarked : StampedBy latest (markAcked sender (ackNumber host hdr)) := by
    unfold markAcked
    split
    · exact hstamped.write (ackNumber host hdr) (hstamped (ackNumber host hdr))
    · exact hstamped
  unfold srSenderHandleAck
  split
  · exact hmarked.senderSlide _
  · exact hstamped

end StampedBy

theorem stampedBy_step {latest : Nat} {action : TransferAction}
    (hstamped : StampedBy latest s.sender)
    (hreading : ∀ now, action.reading = some now → now.toNat ≤ latest)
    (hstep : TransferStep host s action t) : StampedBy latest t.sender := by
  cases hstep with
  | sendWindow now => exact hstamped.sendWindowLoop host (hreading now rfl) _
  | checkTimeouts now => exact hstamped.checkTimeoutsLoop host (hreading now rfl) _ _
  | deliverData packet hpacket => exact hstamped
  | deliverAck packet hpacket => exact hstamped.handleAck host _
  | loseData packet => exact hstamped
  | loseAck packet => exact hstamped

/-- The send times of a run are bounded by its clock readings. -/
theorem stampedBy_run {latest : Nat} {labels : List TransferAction}
    (hinit : TransferInit file s) (hrun : Run (TransferStep host) s labels t)
    (hlatest : ∀ now ∈ readings labels, now.toNat ≤ latest) :
    StampedBy latest t.sender := by
  induction hrun with
  | nil =>
      obtain ⟨peerAddr, link, hsender⟩ := hinit.sender
      rw [← Option.some.inj hsender]
      intro q
      exact Nat.zero_le latest
  | snoc hrun hstep ih =>
      simp only [readings, List.filterMap_append, List.mem_append] at hlatest
      apply stampedBy_step (ih fun now hnow => hlatest now (Or.inl hnow)) _ hstep
      intro now hnow
      apply hlatest now
      right
      simp [hnow]

/-! ## Continuations without losses -/

/-- A step of a continuation: nothing is lost, the clock has moved on since
the readings in `earlier`, and the scan for timeouts does not return `-1`. -/
def SmoothStep (host : ByteOrder) (earlier : List UInt64) (s : Transfer)
    (action : TransferAction) (t : Transfer) : Prop :=
  TransferStep host s action t ∧
    match action with
    | .sendWindow now => ∀ reading ∈ earlier, reading < now
    | .checkTimeouts now =>
        (∀ reading ∈ earlier, reading < now) ∧
          (srSenderCheckTimeouts host s.sender now).returned ≠ -1
    | .deliverData _ => True
    | .deliverAck _ => True
    | .loseData _ => False
    | .loseAck _ => False

/-- The datagram of every pending chunk is in flight. -/
def PendingInFlight (host : ByteOrder) (file : FileImage) (s : Transfer)
    (acked : Finset Nat) : Prop :=
  ∀ q, s.sender.base ≤ q → q < s.sender.nextSeq → q ∉ acked →
    file.packet host q ∈ s.data

namespace TransferInv

/-- When the acknowledgement of a pending chunk arrives, it is counted. -/
theorem ackCounted_of_pending (hinv : TransferInv host file s acked stored) {q : Nat}
    (hstored : q ∈ stored) (hmem : q ∉ acked) :
    ackCounted host s.sender (UdpHeader.ofImage host (buildAckPacket host q)) = some q := by
  have hnext := hinv.stored_sent q hstored
  have hlow : s.sender.base ≤ q := by
    by_contra hbelow
    exact hmem (hinv.sender.below_base q (by omega))
  have hwindow := hinv.sender.next_le_window
  have hchunks := hinv.sender.next_le_chunks
  have hinside : AckInWindow host s.sender
      (UdpHeader.ofImage host (buildAckPacket host q)) := by
    unfold AckInWindow
    rw [hinv.ackNumber_eq hstored, hinv.sender.window_end_eq]
    exact ⟨hlow, msgType_buildAckPacket host q, by omega, by omega⟩
  have hpending : PendingAt s.sender q :=
    (hinv.sender.pendingAt_iff hlow (by omega)).mpr ⟨hnext, hmem⟩
  rw [ackCounted, hinv.ackNumber_eq hstored, if_pos ⟨hinside, hpending⟩]

/-- Delivering the datagram of a pending chunk and then its acknowledgement
counts that chunk. -/
theorem progress_deliver (hinv : TransferInv host file s acked stored)
    (hflight : PendingInFlight host file s acked) (earlier : List UInt64) {q : Nat}
    (hnext : q < s.sender.nextSeq) (hmem : q ∉ acked) :
    ∃ labels t, Run (SmoothStep host earlier) s labels t ∧
      TransferInv host file t (insert q acked) (insert q stored) ∧
      PendingInFlight host file t (insert q acked) ∧
      t.sender.nextSeq = s.sender.nextSeq := by
  have hlow : s.sender.base ≤ q := by
    by_contra hbelow
    exact hmem (hinv.sender.below_base q (by omega))
  have hpacket := hflight q hlow hnext hmem
  obtain ⟨hinv', hacks⟩ := hinv.keeps_deliverData hnext
  have hstored : q ∈ insert q stored := Finset.mem_insert_self q stored
  have hcounted := hinv'.ackCounted_of_pending hstored hmem
  have hack := hinv'.keeps_deliverAck hstored
  have hafter : SenderInv.ackedAfter host s.sender
      (UdpHeader.ofImage host (buildAckPacket host q)) acked = insert q acked := by
    rw [SenderInv.ackedAfter, hcounted]
  obtain ⟨-, -, hkept, -⟩ := hinv.sender.handleAck_spec hinv.senderSettled host
    (UdpHeader.ofImage host (buildAckPacket host q))
  simp only at hack
  rw [hafter] at hack
  refine ⟨_, _, Run.snoc (Run.single ⟨.deliverData s (file.packet host q) hpacket, trivial⟩)
    ⟨.deliverAck _ (buildAckPacket host q) ?_, trivial⟩, hack, ?_, hkept⟩
  · show buildAckPacket host q ∈ s.acks ++ _
    rw [hacks]
    simp
  · intro k hklow hknext hkmem
    have hkmem' : k ∉ acked := fun hk => hkmem (Finset.mem_insert_of_mem hk)
    have hkbase : s.sender.base ≤ k := by
      by_contra hbelow
      exact hkmem' (hinv.sender.below_base k (by omega))
    exact hflight k hkbase (by rwa [← hkept]) hkmem'

/-- When everything sent is counted, the window moves on and all of it is in
flight. -/
theorem progress_send (hinv : TransferInv host file s acked stored)
    {earlier : List UInt64} {now : UInt64} (hnow : ∀ reading ∈ earlier, reading < now)
    (hall : ∀ q < s.sender.nextSeq, q ∈ acked)
    (hmore : s.sender.nextSeq < s.sender.numChunks) :
    ∃ labels t, Run (SmoothStep host earlier) s labels t ∧
      TransferInv host file t acked stored ∧
      PendingInFlight host file t acked ∧
      s.sender.nextSeq < t.sender.nextSeq := by
  have hbase : s.sender.base = s.sender.nextSeq := by
    have hle := hinv.sender.base_le
    by_contra hne
    exact hinv.senderSettled (hall s.sender.base (by omega))
  obtain ⟨-, -, hbase', hnext', -, hpackets⟩ := hinv.sender.sendWindow_spec host now
  refine ⟨_, _, Run.single ⟨.sendWindow s now, hnow⟩, hinv.keeps_sendWindow now, ?_, ?_⟩
  · intro q hlow hnext hmem
    show file.packet host q ∈ s.data ++ (srSenderSendWindow host s.sender now).packets
    simp only [hbase', hnext'] at hlow hnext
    rw [hpackets]
    apply List.mem_append_right
    apply List.mem_map_of_mem
    rw [List.mem_range'_1]
    omega
  · show s.sender.nextSeq < (srSenderSendWindow host s.sender now).sender.nextSeq
    rw [hnext']
    unfold windowSize
    omega

end TransferInv

/-- What is left to count and to send. -/
def remaining (file : FileImage) (s : Transfer) : Nat :=
  (file.numChunks - s.sender.chunksAcked) + (file.numChunks - s.sender.nextSeq)

/-- Both ends hold that the transfer is over. -/
def BothComplete (s : Transfer) : Prop :=
  srSenderIsComplete s.sender = true ∧ srReceiverIsComplete s.receiver = true

/-- The invariant together with the datagrams that progress needs. -/
def ReadyInv (host : ByteOrder) (file : FileImage) (s : Transfer) : Prop :=
  ∃ acked stored, TransferInv host file s acked stored ∧
    PendingInFlight host file s acked

/-- One round: the transfer is over, or a run leaves less to do. -/
theorem progress_round {earlier : List UInt64} {now : UInt64}
    (hnow : ∀ reading ∈ earlier, reading < now) (hready : ReadyInv host file s) :
    BothComplete s ∨ ∃ labels t, Run (SmoothStep host earlier) s labels t ∧
      ReadyInv host file t ∧ remaining file t < remaining file s := by
  obtain ⟨acked, stored, hinv, hflight⟩ := hready
  have hchunks := hinv.sender.numChunks
  have hnextle := hinv.sender.next_le_chunks
  by_cases hpending : ∃ q < s.sender.nextSeq, q ∉ acked
  · obtain ⟨q, hnext, hmem⟩ := hpending
    obtain ⟨labels, t, hrun, hinv', hflight', hkept⟩ :=
      hinv.progress_deliver hflight earlier hnext hmem
    refine Or.inr ⟨labels, t, hrun, ⟨_, _, hinv', hflight'⟩, ?_⟩
    have hcount : t.sender.chunksAcked = s.sender.chunksAcked + 1 := by
      rw [hinv'.sender.count, hinv.sender.count, Finset.card_insert_of_notMem hmem]
    have hroom : s.sender.chunksAcked < file.numChunks := by
      have hsub : insert q acked ⊆ Finset.range file.numChunks := by
        intro k hk
        have hlt := hinv'.sender.acked_lt k hk
        exact Finset.mem_range.mpr (by omega)
      have hcard := Finset.card_le_card hsub
      rw [Finset.card_range, ← hinv'.sender.count] at hcard
      omega
    unfold remaining
    omega
  · push Not at hpending
    by_cases hmore : s.sender.nextSeq < s.sender.numChunks
    · obtain ⟨labels, t, hrun, hinv', hflight', hgrown⟩ :=
        hinv.progress_send hnow hpending hmore
      refine Or.inr ⟨labels, t, hrun, ⟨_, _, hinv', hflight'⟩, ?_⟩
      have hcount : t.sender.chunksAcked = s.sender.chunksAcked := by
        rw [hinv'.sender.count, hinv.sender.count]
      unfold remaining
      omega
    · -- everything was sent and is counted
      have hbase : s.sender.base = s.sender.numChunks := by
        have hle := hinv.sender.base_le
        by_contra hne
        exact hinv.senderSettled (hpending s.sender.base (by omega))
      have hsender := (hinv.sender.complete_iff hinv.senderSettled).mpr hbase
      exact Or.inl ⟨hsender, hinv.complete_receiver hsender⟩

/-- Once all pending chunks are in flight, the transfer can be finished. -/
theorem finishes {earlier : List UInt64} {now : UInt64}
    (hnow : ∀ reading ∈ earlier, reading < now) (hready : ReadyInv host file s) :
    ∃ labels t, Run (SmoothStep host earlier) s labels t ∧ BothComplete t := by
  obtain ⟨labels, t, hrun, -, hcomplete⟩ :=
    Run.reaches_of_measure (remaining file) (fun _ hs => progress_round hnow hs) hready
  exact ⟨labels, t, hrun, hcomplete⟩

/-- A scan at which every pending chunk is due and has retries left puts all of
them in flight. -/
theorem TransferInv.scan_ready (hinv : TransferInv host file s acked stored)
    {earlier : List UInt64} {now : UInt64} (hnow : ∀ reading ∈ earlier, reading < now)
    (hdue : ∀ q, timeoutMs ≤ now - (s.sender.window.read q).sendTimeMs)
    (hretries : ∀ q, (s.sender.window.read q).state = .pending →
      (s.sender.window.read q).retries < maxRetries) :
    ∃ t, SmoothStep host earlier s (.checkTimeouts now) t ∧ ReadyInv host file t := by
  have hspan : s.sender.base + (s.sender.nextSeq - s.sender.base) = s.sender.nextSeq :=
    Nat.add_sub_cancel' hinv.sender.base_le
  obtain ⟨hok, hall⟩ := hinv.sender.checkTimeoutsLoop_all_due host now le_rfl hspan (by
    intro q hlow hnext hmem
    have hstate := (hinv.sender.live q hlow hnext).state
    rw [if_neg hmem] at hstate
    exact ⟨hdue q, hretries q hstate⟩)
  have hreturned : (srSenderCheckTimeouts host s.sender now).returned ≠ -1 := by
    unfold TimeoutResult.returned srSenderCheckTimeouts
    rw [hok]
    simp only [Bool.false_eq_true, if_false]
    omega
  obtain ⟨-, -, hbase', hnext', -⟩ := hinv.sender.checkTimeouts_spec host now
  refine ⟨_, ⟨.checkTimeouts s now, hnow, hreturned⟩, acked, stored,
    hinv.keeps_checkTimeouts now, ?_⟩
  intro q hlow hnext hmem
  simp only [hbase', hnext'] at hlow hnext
  exact List.mem_append_right _ (hall q hlow hnext hmem)

/-- A bound that is reached, or zero, for the readings of a run. -/
theorem exists_latest (labels : List UInt64)
    (hsmall : ∀ now ∈ labels, now.toNat + timeoutMs.toNat < 2 ^ 64) :
    ∃ latest, (∀ now ∈ labels, now.toNat ≤ latest) ∧
      latest + timeoutMs.toNat < 2 ^ 64 := by
  induction labels with
  | nil => exact ⟨0, by simp, by decide⟩
  | cons first rest ih =>
      obtain ⟨latest, hle, hlt⟩ := ih fun now hnow => hsmall now (List.mem_cons_of_mem _ hnow)
      have hfirst := hsmall first List.mem_cons_self
      refine ⟨max first.toNat latest, ?_, by omega⟩
      intro now hnow
      rcases List.mem_cons.mp hnow with rfl | hnow
      · exact le_max_left _ _
      · exact (hle now hnow).trans (le_max_right _ _)

/-- No reachable state is wedged: while every pending chunk has retries left
there is a continuation without losses, with later clock readings and without a
failed scan, after which both ends are complete. -/
theorem no_wedged_state {labels : List TransferAction}
    (hsize : file.size.toNat + 1023 < 2 ^ 32) (hinit : TransferInit file s)
    (hrun : Run (TransferStep host) s labels t)
    (hclock : ∀ now ∈ readings labels, now.toNat + timeoutMs.toNat < 2 ^ 64)
    (hretries : ∀ q, (t.sender.window.read q).state = .pending →
      (t.sender.window.read q).retries < maxRetries) :
    ∃ labels' u, Run (SmoothStep host (readings labels)) t labels' u ∧
      srSenderIsComplete u.sender = true ∧ srReceiverIsComplete u.receiver = true := by
  obtain ⟨latest, hlatest, hfits⟩ := exists_latest (readings labels) hclock
  obtain ⟨acked, stored, hinv⟩ := transferInv_run hsize hinit hrun
  have hstamped := stampedBy_run hinit hrun hlatest
  -- one clock value is late enough for every pending chunk
  have hvalue : (UInt64.ofNat (latest + timeoutMs.toNat)).toNat =
      latest + timeoutMs.toNat := by
    rw [UInt64.toNat_ofNat', Nat.mod_eq_of_lt hfits]
  have htimeout : timeoutMs.toNat = 500 := rfl
  have hlater : ∀ reading ∈ readings labels,
      reading < UInt64.ofNat (latest + timeoutMs.toNat) := by
    intro reading hreading
    have hle := hlatest reading hreading
    rw [UInt64.lt_iff_toNat_lt, hvalue]
    omega
  have hdue : ∀ q, timeoutMs ≤ UInt64.ofNat (latest + timeoutMs.toNat) -
      (t.sender.window.read q).sendTimeMs := by
    intro q
    have hle := hstamped q
    have horder : (t.sender.window.read q).sendTimeMs ≤
        UInt64.ofNat (latest + timeoutMs.toNat) := by
      rw [UInt64.le_iff_toNat_le, hvalue]
      omega
    rw [UInt64.le_iff_toNat_le, UInt64.toNat_sub_of_le _ _ horder, hvalue]
    omega
  obtain ⟨ready, hscan, hready⟩ := hinv.scan_ready hlater hdue hretries
  obtain ⟨labels', u, hrest, hcomplete⟩ := finishes hlater hready
  exact ⟨_, u, (Run.single hscan).append hrest, hcomplete⟩

/-- The only datagram of a transfer is lost, and the transfer still finishes. -/
theorem no_wedged_state_after_loss :
    ∃ t labels' u, Run (TransferStep .little) oneByteStart
        [.sendWindow 3, .loseData (oneByteFile.packet .little 0)] t ∧
      t.data = [] ∧ srSenderIsComplete t.sender = false ∧
      Run (SmoothStep .little [3]) t labels' u ∧
      srSenderIsComplete u.sender = true ∧ srReceiverIsComplete u.receiver = true := by
  obtain ⟨t, hrun, hlost, hopen, hretries⟩ : ∃ t,
      Run (TransferStep .little) oneByteStart
        [.sendWindow 3, .loseData (oneByteFile.packet .little 0)] t ∧
      t.data = [] ∧ srSenderIsComplete t.sender = false ∧
      ∀ slot, (t.sender.window slot).retries < maxRetries :=
    ⟨_, Run.snoc (Run.single (.sendWindow oneByteStart 3))
      (.loseData _ (oneByteFile.packet .little 0)),
      by decide +kernel, by decide +kernel, by decide +kernel⟩
  have hclock : ∀ now ∈ readings [.sendWindow 3, .loseData (oneByteFile.packet .little 0)],
      now.toNat + timeoutMs.toNat < 2 ^ 64 := by
    intro now hnow
    rw [List.mem_singleton.mp hnow]
    decide
  obtain ⟨labels', u, hrest, hcomplete⟩ := no_wedged_state (by decide) oneByteStart_init
    hrun hclock fun q _ => hretries (SlotRing.index windowSize q)
  exact ⟨t, labels', u, hrun, hlost, hopen, hrest, hcomplete⟩

end SelectiveRepeat
end PeerShare
