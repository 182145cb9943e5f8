import PeerShare.Client.FirstFlight
import PeerShare.Client.Resources

/-!
# The counters of `selective_repeat.c`

`packets_sent`, `packets_retransmitted` and `acks_received` are static: they go on from
transfer to transfer, also when a request overwrites one that is running.  What they say
about the transfer at hand is what they have grown by since it was granted.  That growth
is tied to the sender: the packets that are no retransmissions are the chunks below
`next_seq`, and the acknowledgements are those counted in `chunks_acked`.

The counters are taken as naturals; the `int`s of the source are not followed beyond
their range.
-/

namespace PeerShare
namespace Client

open Foundation Wire SelectiveRepeat

/-- `sr_stats_t`, and the three static counters it is filled from. -/
structure SrStats where
  packetsSent : Nat
  packetsRetransmitted : Nat
  acksReceived : Nat
  deriving DecidableEq, Repr

namespace SrStats

def zero : SrStats := ⟨0, 0, 0⟩

/-- `sr_sender_send_window` counts each packet it hands to the link. -/
def sentWindow (stats : SrStats) (result : SendWindowResult) : SrStats :=
  { stats with packetsSent := stats.packetsSent + result.packets.length }

/-- `sr_sender_check_timeouts` counts each packet twice, also before it gives up. -/
def checkedTimeouts (stats : SrStats) (result : TimeoutResult) : SrStats :=
  { stats with
    packetsSent := stats.packetsSent + result.packets.length
    packetsRetransmitted := stats.packetsRetransmitted + result.packets.length }

/-- `sr_sender_handle_ack` counts where it increments `chunks_acked`. -/
def handledAck (stats : SrStats) (host : ByteOrder) (sender : Sender) (hdr : UdpHeader) :
    SrStats :=
  if (ackCounted host sender hdr).isSome then
    { stats with acksReceived := stats.acksReceived + 1 }
  else
    stats

end SrStats

/-- The owner with the counters.  `sent` is everything that has left, `began` what the
counters were when the last transfer was granted; neither is read by the code. -/
structure CountedOwner where
  owner : Owner
  stats : SrStats
  sent : List (SockAddr × Bytes)
  began : SrStats

namespace CountedOwner

def initial : CountedOwner where
  owner := Owner.initial
  stats := SrStats.zero
  sent := []
  began := SrStats.zero

/-- The counters after the request branch: a sender that is started sends its first window. -/
def requestStats (stats : SrStats) (host : ByteOrder) (link : LossyLink) (peer : SockAddr)
    (env : RequestEnv) (now : UInt64) (exit : RequestExit) : SrStats :=
  let sender := env.fileEnd.bind fun actualSize =>
    srSenderInit (some peer) (some env.readBytes) (UInt32.ofNat (announcedSize actualSize))
      (some link)
  if exit = .started then
    sender.elim stats fun sender => stats.sentWindow (srSenderSendWindow host sender now)
  else
    stats

/-- The counters after an event of the loop. -/
def statsAfter (host : ByteOrder) (link : LossyLink) (c : CountedOwner) : OwnerEvent → SrStats
  | .shared _ _ _ _ => c.stats
  | .datagram none _ _ => c.stats
  | .datagram (some (peer, packet)) env now =>
      let hdr := UdpHeader.ofImage host packet.bytes
      if packet.bytes.length < udpHeaderSize then
        c.stats
      else if hdr.msgType = udpRequestFile then
        requestStats c.stats host link peer env now
          (handleRequest host link c.owner peer packet env now).2
      else if hdr.msgType = udpAck ∧ c.owner.transferActive = true then
        c.stats.handledAck host c.owner.globalSender hdr
      else
        c.stats
  | .driver sendNow scanNow =>
      if c.owner.transferActive then
        let window := srSenderSendWindow host c.owner.globalSender sendNow
        (c.stats.sentWindow window).checkedTimeouts
          (srSenderCheckTimeouts host window.sender scanNow)
      else
        c.stats

/-- The event grants a request. -/
def grants (host : ByteOrder) (link : LossyLink) (c : CountedOwner) : OwnerEvent → Bool
  | .datagram (some (peer, packet)) env now =>
      decide (udpHeaderSize ≤ packet.bytes.length) &&
        decide ((UdpHeader.ofImage host packet.bytes).msgType = udpRequestFile) &&
          decide ((handleRequest host link c.owner peer packet env now).2 = .started)
  | _ => false

def apply (host : ByteOrder) (link : LossyLink) (c : CountedOwner) (event : OwnerEvent) :
    CountedOwner where
  owner := (c.owner.apply host link event).owner
  stats := c.statsAfter host link event
  sent := c.sent ++ (c.owner.apply host link event).sent
  began := if c.grants host link event then c.stats else c.began

end CountedOwner

def CountedStep (host : ByteOrder) (link : LossyLink) (c : CountedOwner) (event : OwnerEvent)
    (c' : CountedOwner) : Prop :=
  c' = c.apply host link event

/-- The chunks among the datagrams that have left. -/
def dataSent (host : ByteOrder) (sent : List (SockAddr × Bytes)) : Nat :=
  sent.countP fun item => decide ((UdpHeader.ofImage host item.2).msgType = udpData)

/-- What the counters have grown by since `began`, for the sender of that transfer. -/
structure Tallied (began stats : SrStats) (sender : Sender) : Prop where
  sent : stats.packetsSent + began.packetsRetransmitted =
    began.packetsSent + sender.nextSeq + stats.packetsRetransmitted
  acks : stats.acksReceived = began.acksReceived + sender.chunksAcked
  retransmitted : began.packetsRetransmitted ≤ stats.packetsRetransmitted

section Counting

variable {host : ByteOrder} {file : FileImage} {sender : Sender} {acked : Finset Nat}
  {began stats : SrStats}

theorem dataSent_append (first second : List (SockAddr × Bytes)) :
    dataSent host (first ++ second) = dataSent host first + dataSent host second :=
  List.countP_append

/-- Every packet of a transfer is a chunk. -/
theorem dataSent_packets {sent : List (SockAddr × Bytes)}
    (hsent : ∀ item ∈ sent, ∃ q < file.numChunks, item.2 = file.packet host q) :
    dataSent host sent = sent.length := by
  rw [dataSent, List.countP_eq_length]
  intro item hitem
  obtain ⟨q, -, hpacket⟩ := hsent item hitem
  have htype : (UdpHeader.ofImage host (file.packet host q)).msgType = udpData := by
    rw [FileImage.packet, ofImage_buildDataPacket]
    rfl
  rw [hpacket, htype]
  rfl

/-- An announcement is none. -/
theorem dataSent_announcements {sent : List (SockAddr × Bytes)}
    (hsent : ∀ item ∈ sent, ∃ peer fileSize numChunks,
      item = (peer, buildFileStart host fileSize numChunks)) : dataSent host sent = 0 := by
  rw [dataSent, List.countP_eq_zero]
  intro item hitem
  obtain ⟨peer, fileSize, numChunks, rfl⟩ := hsent item hitem
  have htype : (UdpHeader.ofImage host (buildFileStart host fileSize numChunks)).msgType =
      udpFileStart := msgType_sealPacket host (fileStartHeader host) _
  rw [htype]
  decide

/-- The packets of a first window are chunks. -/
theorem sendWindow_sent (hinv : SenderInv file sender acked) (host : ByteOrder) (now : UInt64)
    {peer : SockAddr} :
    ∀ item ∈ (srSenderSendWindow host sender now).packets.map fun data => (peer, data),
      ∃ q < file.numChunks, item.2 = file.packet host q := by
  obtain ⟨-, -, -, -, -, hpackets⟩ := hinv.sendWindow_spec host now
  intro item hitem
  obtain ⟨data, hdata, rfl⟩ := List.mem_map.mp hitem
  rw [hpackets] at hdata
  obtain ⟨q, hq, rfl⟩ := List.mem_map.mp hdata
  have hchunks := hinv.numChunks
  rw [List.mem_range'_1] at hq
  exact ⟨q, by omega, rfl⟩

/-- Only what has been sent is counted. -/
theorem card_le_nextSeq (hinv : SenderInv file sender acked) : acked.card ≤ sender.nextSeq := by
  have hsub : acked ⊆ Finset.range sender.nextSeq := fun q hq =>
    Finset.mem_range.mpr (hinv.acked_lt q hq)
  simpa using Finset.card_le_card hsub

theorem Tallied.fresh (hnext : sender.nextSeq = 0) (hcount : sender.chunksAcked = 0) :
    Tallied stats stats sender := by
  refine ⟨?_, ?_, le_rfl⟩
  · rw [hnext]
    omega
  · rw [hcount]
    omega

/-- First transmissions move `next_seq` on. -/
theorem Tallied.sentWindow (h : Tallied began stats sender) (hinv : SenderInv file sender acked)
    (host : ByteOrder) (now : UInt64) :
    Tallied began (stats.sentWindow (srSenderSendWindow host sender now))
      (srSenderSendWindow host sender now).sender := by
  obtain ⟨hsent, -, -, hnext, -, hpackets⟩ := hinv.sendWindow_spec host now
  have hwindow := hinv.next_le_window
  have hchunks := hinv.next_le_chunks
  have hlength : (srSenderSendWindow host sender now).packets.length =
      min (sender.base + windowSize) sender.numChunks - sender.nextSeq := by
    rw [hpackets, List.length_map, List.length_range']
  refine ⟨?_, ?_, h.retransmitted⟩
  · have hbefore := h.sent
    simp only [SrStats.sentWindow, hlength, hnext]
    omega
  · show stats.acksReceived = _
    rw [hsent.count, ← hinv.count]
    exact h.acks

/-- Retransmissions leave it where it is. -/
theorem Tallied.checkedTimeouts (h : Tallied began stats sender)
    (hinv : SenderInv file sender acked) (host : ByteOrder) (now : UInt64) :
    Tallied began (stats.checkedTimeouts (srSenderCheckTimeouts host sender now))
      (srSenderCheckTimeouts host sender now).sender := by
  obtain ⟨hscan, -, -, hnext, -⟩ := hinv.checkTimeouts_spec host now
  refine ⟨?_, ?_, h.retransmitted.trans (Nat.le_add_right _ _)⟩
  · have hbefore := h.sent
    simp only [SrStats.checkedTimeouts, hnext]
    omega
  · show stats.acksReceived = _
    rw [hscan.count, ← hinv.count]
    exact h.acks

/-- An acknowledgement is counted in both places or in none. -/
theorem Tallied.handledAck (h : Tallied began stats sender) (hinv : SenderInv file sender acked)
    (hsettled : Settled sender acked) (host : ByteOrder) (hdr : UdpHeader) :
    Tallied began (stats.handledAck host sender hdr) (srSenderHandleAck host sender hdr) := by
  obtain ⟨hacked, -, hnext, -⟩ := hinv.handleAck_spec hsettled host hdr
  have hcount := hacked.count
  unfold SenderInv.ackedAfter at hcount
  unfold SrStats.handledAck
  cases hcounted : ackCounted host sender hdr with
  | none =>
      rw [hcounted] at hcount
      refine ⟨?_, ?_, h.retransmitted⟩
      · rw [hnext]
        exact h.sent
      · rw [hcount, ← hinv.count]
        exact h.acks
  | some q =>
      obtain ⟨-, -, -, -, hmem⟩ := hinv.ackCounted_eq_some hcounted
      rw [hcounted] at hcount
      refine ⟨?_, ?_, h.retransmitted⟩
      · rw [hnext]
        exact h.sent
      · show stats.acksReceived + 1 = _
        simp only at hcount
        rw [hcount, Finset.card_insert_of_notMem hmem, ← hinv.count, h.acks]
        rfl

end Counting

section RequestEvents

variable {host : ByteOrder} {packet : Datagram}

theorem apply_request (owner : Owner) (link : LossyLink) (peer : SockAddr)
    (hlong : ¬ packet.bytes.length < udpHeaderSize)
    (hrequest : (UdpHeader.ofImage host packet.bytes).msgType = udpRequestFile)
    (env : RequestEnv) (now : UInt64) :
    owner.apply host link (.datagram (some (peer, packet)) env now) =
      (handleRequest host link owner peer packet env now).1 := by
  simp only [Owner.apply, receiveDatagram, if_neg hlong, if_pos hrequest]

theorem CountedOwner.statsAfter_request (c : CountedOwner) (link : LossyLink) (peer : SockAddr)
    (hlong : ¬ packet.bytes.length < udpHeaderSize)
    (hrequest : (UdpHeader.ofImage host packet.bytes).msgType = udpRequestFile)
    (env : RequestEnv) (now : UInt64) :
    c.statsAfter host link (.datagram (some (peer, packet)) env now) =
      requestStats c.stats host link peer env now
        (handleRequest host link c.owner peer packet env now).2 := by
  simp only [statsAfter, if_neg hlong, if_pos hrequest]

theorem CountedOwner.grants_request (c : CountedOwner) (link : LossyLink) (peer : SockAddr)
    (hlong : ¬ packet.bytes.length < udpHeaderSize)
    (hrequest : (UdpHeader.ofImage host packet.bytes).msgType = udpRequestFile)
    (env : RequestEnv) (now : UInt64) :
    c.grants host link (.datagram (some (peer, packet)) env now) =
      decide ((handleRequest host link c.owner peer packet env now).2 = .started) := by
  simp [grants, not_lt.mp hlong, hrequest]

end RequestEvents

/-- The counters fit the transfer that was granted last and everything that has left. -/
structure StatsInv (host : ByteOrder) (c : CountedOwner) : Prop where
  owner : OwnerInv c.owner
  tallied : Tallied c.began c.stats c.owner.globalSender
  earlier : c.began.acksReceived + c.began.packetsRetransmitted ≤ c.began.packetsSent
  data : dataSent host c.sent = c.stats.packetsSent

section Steps

variable {host : ByteOrder} {link : LossyLink} {c c' : CountedOwner}

theorem statsInv_initial : StatsInv host CountedOwner.initial where
  owner := ownerInv_initial
  tallied := Tallied.fresh rfl rfl
  earlier := le_rfl
  data := rfl

/-- Chunks are acknowledged only after they have been sent. -/
theorem StatsInv.acks_le (h : StatsInv host c) :
    c.stats.acksReceived + c.stats.packetsRetransmitted ≤ c.stats.packetsSent := by
  obtain ⟨file, acked, hinv, -⟩ := h.owner
  have hcard := card_le_nextSeq hinv
  have hsent := h.tallied.sent
  have hacks := h.tallied.acks
  have hearlier := h.earlier
  have hretransmitted := h.tallied.retransmitted
  rw [hinv.count] at hacks
  omega

theorem statsInv_driver (h : StatsInv host c) (sendNow scanNow : UInt64) :
    StatsInv host (c.apply host link (.driver sendNow scanNow)) := by
  have howner : OwnerInv (c.apply host link (.driver sendNow scanNow)).owner :=
    @ownerInv_step host link _ _ (.driver sendNow scanNow) h.owner rfl
  obtain ⟨file, acked, hinv, -⟩ := h.owner
  by_cases hactive : c.owner.transferActive = true
  · obtain ⟨hsent, -⟩ := hinv.sendWindow_spec host sendNow
    have hstats : (c.apply host link (.driver sendNow scanNow)).stats =
        (c.stats.sentWindow (srSenderSendWindow host c.owner.globalSender sendNow)).checkedTimeouts
          (srSenderCheckTimeouts host
            (srSenderSendWindow host c.owner.globalSender sendNow).sender scanNow) :=
      if_pos hactive
    have hlength := congrArg List.length (@drive_packets host _ hactive sendNow scanNow)
    rw [List.length_map, List.length_append] at hlength
    refine ⟨howner, ?_, h.earlier, ?_⟩
    · rw [hstats]
      simp only [CountedOwner.apply, Owner.apply, drive_globalSender hactive]
      exact (h.tallied.sentWindow hinv host sendNow).checkedTimeouts hsent host scanNow
    · rw [hstats]
      simp only [CountedOwner.apply, Owner.apply]
      rw [dataSent_append, dataSent_packets (drive_sent hinv host sendNow scanNow), hlength, h.data]
      simp only [SrStats.checkedTimeouts, SrStats.sentWindow]
      omega
  · have hidle : drive host c.owner sendNow scanNow = ⟨c.owner, [], false⟩ := by
      rw [drive, if_neg hactive]
    have hstats : (c.apply host link (.driver sendNow scanNow)).stats = c.stats :=
      if_neg hactive
    refine ⟨howner, ?_, h.earlier, ?_⟩
    · rw [hstats]
      simp only [CountedOwner.apply, Owner.apply, hidle]
      exact h.tallied
    · rw [hstats]
      simp only [CountedOwner.apply, Owner.apply, hidle, List.append_nil]
      exact h.data

/-- The counters go on from where they are when a request is granted. -/
theorem statsInv_granted (h : StatsInv host c) {peer : SockAddr} {packet : Datagram}
    {env : RequestEnv} {now : UInt64} (hlong : ¬ packet.bytes.length < udpHeaderSize)
    (hrequest : (UdpHeader.ofImage host packet.bytes).msgType = udpRequestFile)
    (hgranted : RequestGranted host c.owner.table packet env) :
    StatsInv host (c.apply host link (.datagram (some (peer, packet)) env now)) := by
  have howner : OwnerInv (c.apply host link (.datagram (some (peer, packet)) env now)).owner :=
    @ownerInv_step host link _ _ (.datagram (some (peer, packet)) env now) h.owner rfl
  obtain ⟨actualSize, hend, hread⟩ := hgranted.opened
  obtain ⟨file, hdata, hsize⟩ := exists_fileImage hread
  obtain ⟨sender, hinit, -, hinv, -⟩ := srSenderInit_inv peer link file
  have hfresh : Tallied c.stats c.stats sender := by
    have hsame := Option.some.inj hinit
    exact Tallied.fresh (by rw [← hsame]) (by rw [← hsame])
  have hstarted := handleRequest_eq_started hgranted hend hdata hsize hinit now
  have hresult := apply_request c.owner link peer hlong hrequest env now
  have hgrants := c.grants_request link peer hlong hrequest env now
  have hstats := c.statsAfter_request link peer hlong hrequest env now
  rw [hstarted] at hresult hgrants hstats
  have hwindow : CountedOwner.requestStats c.stats host link peer env now .started =
      c.stats.sentWindow (srSenderSendWindow host sender now) := by
    rw [hdata, hsize] at hinit
    simp only [CountedOwner.requestStats, hend, Option.bind_some, hinit, if_true,
      Option.elim_some]
  rw [hwindow] at hstats
  refine ⟨howner, ?_, ?_, ?_⟩
  · simp only [CountedOwner.apply, hstats, hresult, hgrants, decide_true, if_true]
    exact hfresh.sentWindow hinv host now
  · simp only [CountedOwner.apply, hgrants, decide_true, if_true]
    exact h.acks_le
  · have hannounced : dataSent host
        [(peer, buildFileStart host (announcedSize actualSize) (announcedChunks actualSize))] =
        0 :=
      dataSent_announcements fun item hitem => ⟨peer, _, _, List.mem_singleton.mp hitem⟩
    have hwindowed : dataSent host
        ((srSenderSendWindow host sender now).packets.map
          fun data => ((srSenderSendWindow host sender now).sender.peerAddr, data)) =
        (srSenderSendWindow host sender now).packets.length := by
      rw [dataSent_packets (sendWindow_sent hinv host now), List.length_map]
    simp only [CountedOwner.apply, hstats, hresult]
    rw [dataSent_append, ← List.singleton_append, dataSent_append, hannounced, hwindowed,
      Nat.zero_add, h.data]
    rfl

/-- A refused request sends an announcement at most and counts nothing. -/
theorem statsInv_refused (h : StatsInv host c) {peer : SockAddr} {packet : Datagram}
    {env : RequestEnv} {now : UInt64} (hlong : ¬ packet.bytes.length < udpHeaderSize)
    (hrequest : (UdpHeader.ofImage host packet.bytes).msgType = udpRequestFile)
    (hrefused : ¬ RequestGranted host c.owner.table packet env) :
    StatsInv host (c.apply host link (.datagram (some (peer, packet)) env now)) := by
  have howner : OwnerInv (c.apply host link (.datagram (some (peer, packet)) env now)).owner :=
    @ownerInv_step host link _ _ (.datagram (some (peer, packet)) env now) h.owner rfl
  have hnot : (handleRequest host link c.owner peer packet env now).2 ≠ .started :=
    fun hstarted => hrefused (requestGranted_of_started hstarted)
  obtain ⟨hsame, -, hannounced⟩ := handleRequest_of_refused hrefused link peer now
  have hresult := apply_request c.owner link peer hlong hrequest env now
  have hgrants := c.grants_request link peer hlong hrequest env now
  have hstats := c.statsAfter_request link peer hlong hrequest env now
  rw [CountedOwner.requestStats, if_neg hnot] at hstats
  refine ⟨howner, ?_, ?_, ?_⟩
  · simp only [CountedOwner.apply, hstats, hresult, hgrants, hsame, hnot, decide_false,
      Bool.false_eq_true, if_false]
    exact h.tallied
  · simp only [CountedOwner.apply, hgrants, hnot, decide_false, Bool.false_eq_true, if_false]
    exact h.earlier
  · simp only [CountedOwner.apply, hstats, hresult]
    rw [dataSent_append, dataSent_announcements fun item hitem => ⟨peer, hannounced item hitem⟩,
      Nat.add_zero]
    exact h.data

theorem statsInv_datagram (h : StatsInv host c) (reception : Reception) (env : RequestEnv)
    (now : UInt64) : StatsInv host (c.apply host link (.datagram reception env now)) := by
  have howner : OwnerInv (c.apply host link (.datagram reception env now)).owner :=
    @ownerInv_step host link _ _ (.datagram reception env now) h.owner rfl
  rcases reception with _ | ⟨peer, packet⟩
  · refine ⟨howner, h.tallied, h.earlier, ?_⟩
    simp only [CountedOwner.apply, Owner.apply, receiveDatagram, List.append_nil]
    exact h.data
  by_cases hshort : packet.bytes.length < udpHeaderSize
  · have hgrants : c.grants host link (.datagram (some (peer, packet)) env now) = false := by
      simp [CountedOwner.grants, not_le.mpr hshort]
    refine ⟨howner, ?_, ?_, ?_⟩
    all_goals
      simp only [CountedOwner.apply, CountedOwner.statsAfter, Owner.apply, receiveDatagram,
        if_pos hshort, hgrants, Bool.false_eq_true, if_false, List.append_nil]
    · exact h.tallied
    · exact h.earlier
    · exact h.data
  by_cases hrequest : (UdpHeader.ofImage host packet.bytes).msgType = udpRequestFile
  · by_cases hgranted : RequestGranted host c.owner.table packet env
    · exact statsInv_granted h hshort hrequest hgranted
    · exact statsInv_refused h hshort hrequest hgranted
  have hgrants : c.grants host link (.datagram (some (peer, packet)) env now) = false := by
    simp [CountedOwner.grants, hrequest]
  by_cases hack : (UdpHeader.ofImage host packet.bytes).msgType = udpAck ∧
      c.owner.transferActive = true
  · obtain ⟨file, acked, hinv, hsettled⟩ := h.owner
    refine ⟨howner, ?_, ?_, ?_⟩
    all_goals
      simp only [CountedOwner.apply, CountedOwner.statsAfter, Owner.apply, receiveDatagram,
        if_neg hshort, if_neg hrequest, if_pos hack, if_pos hack.1, handleAck, if_pos hack.2,
        hgrants, Bool.false_eq_true, if_false, List.append_nil]
    · exact h.tallied.handledAck hinv hsettled host _
    · exact h.earlier
    · rw [SrStats.handledAck]
      split <;> exact h.data
  · have hsame : c.owner.apply host link (.datagram (some (peer, packet)) env now) =
        ⟨c.owner, [], false⟩ := by
      simp only [Owner.apply, receiveDatagram, if_neg hshort, if_neg hrequest, handleAck]
      split
      · rename_i htype
        rw [if_neg fun hactive => hack ⟨htype, hactive⟩]
      · rfl
    refine ⟨howner, ?_, ?_, ?_⟩
    all_goals
      simp only [CountedOwner.apply, CountedOwner.statsAfter, hsame, if_neg hshort,
        if_neg hrequest, if_neg hack, hgrants, Bool.false_eq_true, if_false, List.append_nil]
    · exact h.tallied
    · exact h.earlier
    · exact h.data

theorem statsInv_step (h : StatsInv host c) {event : OwnerEvent}
    (hstep : CountedStep host link c event c') : StatsInv host c' := by
  rw [hstep]
  cases event with
  | shared fileId fileSize hash filename =>
      obtain ⟨howner, htallied, hearlier, hdata⟩ := h
      refine ⟨@ownerInv_step host link _ _ (.shared fileId fileSize hash filename) howner rfl,
        htallied, hearlier, ?_⟩
      simp only [CountedOwner.apply, Owner.apply, List.append_nil]
      exact hdata
  | driver sendNow scanNow => exact statsInv_driver h sendNow scanNow
  | datagram reception env now => exact statsInv_datagram h reception env now

/-- A transfer that is complete has sent every chunk and counted every chunk. -/
theorem StatsInv.complete (h : StatsInv host c)
    (hcomplete : srSenderIsComplete c.owner.globalSender = true) :
    c.owner.globalSender.nextSeq = c.owner.globalSender.numChunks ∧
      c.owner.globalSender.chunksAcked = c.owner.globalSender.numChunks := by
  obtain ⟨file, acked, hinv, hsettled⟩ := h.owner
  have hbase := (hinv.complete_iff hsettled).mp hcomplete
  have hlow := hinv.base_le
  have hhigh := hinv.next_le_chunks
  have hnext : c.owner.globalSender.nextSeq = c.owner.globalSender.numChunks := by
    omega
  have hcard := card_le_nextSeq hinv
  rw [srSenderIsComplete, decide_eq_true_eq] at hcomplete
  rw [hinv.count] at hcomplete ⊢
  exact ⟨hnext, by omega⟩

end Steps

/-- In every run of the owner's loop `packets_sent` counts the chunks among everything
that has left, over all transfers.  What it has grown by since the last granted request
is `next_seq` and the retransmissions since, and `acks_received` has grown by
`chunks_acked`.  So when the transfer is complete the packets that were no
retransmissions, and the acknowledgements, are as many as the chunks. -/
theorem stats_account_for_transfer {host : ByteOrder} {link : LossyLink}
    {events : List OwnerEvent} {c : CountedOwner}
    (hrun : Run (CountedStep host link) CountedOwner.initial events c) :
    c.stats.packetsSent = dataSent host c.sent ∧
      c.stats.acksReceived + c.stats.packetsRetransmitted ≤ c.stats.packetsSent ∧
      c.began.packetsRetransmitted ≤ c.stats.packetsRetransmitted ∧
      c.stats.packetsSent = c.began.packetsSent + c.owner.globalSender.nextSeq +
        (c.stats.packetsRetransmitted - c.began.packetsRetransmitted) ∧
      c.stats.acksReceived = c.began.acksReceived + c.owner.globalSender.chunksAcked ∧
      (srSenderIsComplete c.owner.globalSender = true →
        c.owner.globalSender.nextSeq = c.owner.globalSender.numChunks ∧
        c.owner.globalSender.chunksAcked = c.owner.globalSender.numChunks) := by
  have hinv : StatsInv host c :=
    Run.invariant (P := StatsInv host) (fun _ _ _ h hstep => statsInv_step h hstep) hrun
      statsInv_initial
  have hsent := hinv.tallied.sent
  have hretransmitted := hinv.tallied.retransmitted
  exact ⟨hinv.data.symm, hinv.acks_le, hretransmitted, by omega, hinv.tallied.acks,
    hinv.complete⟩

/-- The only chunk of a file of one byte is sent, sent again and acknowledged. -/
def acknowledgedEvents : List OwnerEvent :=
  servingEvents ++
    [.driver 600 600,
      .datagram (some (⟨1, 1⟩, Datagram.recv (buildAckPacket .little 0))) oneByteEnv 700]

def acknowledgedOwner : CountedOwner :=
  acknowledgedEvents.foldl (CountedOwner.apply .little ⟨3, 0, 1⟩) CountedOwner.initial

theorem acknowledgedOwner_run :
    Run (CountedStep .little ⟨3, 0, 1⟩) CountedOwner.initial acknowledgedEvents
      acknowledgedOwner :=
  Run.snoc (Run.snoc (Run.snoc (Run.single rfl) rfl) rfl) rfl

/-- There the packets are twice the chunks, and one of them was no retransmission. -/
theorem stats_account_for_transfer_resent :
    acknowledgedOwner.stats = ⟨2, 1, 1⟩ ∧
      dataSent .little acknowledgedOwner.sent = 2 ∧
      acknowledgedOwner.owner.globalSender.nextSeq = 1 ∧
      acknowledgedOwner.owner.globalSender.chunksAcked = 1 := by
  have hstats : acknowledgedOwner.stats = ⟨2, 1, 1⟩ := by decide +kernel
  have hnumChunks : acknowledgedOwner.owner.globalSender.numChunks = 1 := by decide +kernel
  obtain ⟨hdata, -, -, -, -, hcomplete⟩ := stats_account_for_transfer acknowledgedOwner_run
  obtain ⟨hnext, hacked⟩ := hcomplete (by decide +kernel)
  rw [hnumChunks] at hnext hacked
  rw [hstats] at hdata
  exact ⟨hstats, hdata.symm, hnext, hacked⟩

end Client
end PeerShare
