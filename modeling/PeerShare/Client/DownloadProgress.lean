import PeerShare.Client.FirstFlight
import PeerShare.Client.TransferDeadline
import PeerShare.SelectiveRepeat.TransferProgress

/-!
# A download that can still be completed

The two loops of `client.c` on one download: the owner after a granted request and the
`get` that asked for it, with datagrams that are lost, delayed and repeated between them.
While no pending chunk has used up its retries, some continuation without losses ends
with the file saved and the owner idle again.  One thing is beyond repair: the
announcement is sent once, and when it is lost before it arrives nothing that the owner
still sends makes up for it.

The continuation retransmits once and then delivers chunk by chunk.  A `get` answers no
datagram after its return, so the chunks it has already stored come first: their
acknowledgements may have been lost, and only a running `get` repeats them.
-/

namespace PeerShare
namespace Client

open Foundation Wire SelectiveRepeat

/-- The owner, the `get` and what is on its way between them. -/
structure Download where
  owner : Owner
  state : GetState
  toPeer : List Bytes
  toOwner : List Bytes

/-- The moment the request branch has ended. -/
def Download.ofRequest (result : OwnerResult) : Download where
  owner := result.owner
  state := .awaitingStart
  toPeer := result.sent.map Prod.snd
  toOwner := []

inductive DownloadAction where
  | arrive (packet : Bytes)
  | acknowledge (ack : Bytes) (request : RequestEnv) (now : UInt64)
  | drive (sendNow scanNow : UInt64)
  | loseToPeer (packet : Bytes)
  | loseToOwner (ack : Bytes)

/-- The clock readings of an action. -/
def DownloadAction.readings : DownloadAction → List UInt64
  | .drive sendNow scanNow => [sendNow, scanNow]
  | _ => []

namespace Download

/-- `get` takes a datagram from its socket. -/
def arrive (host : ByteOrder) (env : GetEnv) (location : FileLocation) (d : Download)
    (packet : Bytes) : Download :=
  let step := getReceive host env location d.state (ownerReception location packet)
  { d with
    state := step.state
    toOwner := d.toOwner ++ step.acks }

/-- The owner takes an acknowledgement from its socket. -/
def acknowledge (host : ByteOrder) (link : LossyLink) (d : Download) (ack : Bytes)
    (request : RequestEnv) (now : UInt64) : Download :=
  let source := d.owner.globalSender.peerAddr
  { d with
    owner := (receiveDatagram host link d.owner (some (source, Datagram.recv ack)) request
      now).owner }

/-- The driver of the owner's loop. -/
def drive (host : ByteOrder) (d : Download) (sendNow scanNow : UInt64) : Download :=
  let result := Client.drive host d.owner sendNow scanNow
  { d with
    owner := result.owner
    toPeer := d.toPeer ++ result.sent.map Prod.snd }

end Download

/-- The transitions.  A datagram stays in flight when it is delivered, until it is lost. -/
inductive DownloadStep (host : ByteOrder) (link : LossyLink) (env : GetEnv)
    (location : FileLocation) : Download → DownloadAction → Download → Prop
  | arrive (d : Download) (packet : Bytes) (hpacket : packet ∈ d.toPeer) :
      DownloadStep host link env location d (.arrive packet) (d.arrive host env location packet)
  | acknowledge (d : Download) (ack : Bytes) (request : RequestEnv) (now : UInt64)
      (hack : ack ∈ d.toOwner) :
      DownloadStep host link env location d (.acknowledge ack request now)
        (d.acknowledge host link ack request now)
  | drive (d : Download) (sendNow scanNow : UInt64) :
      DownloadStep host link env location d (.drive sendNow scanNow)
        (d.drive host sendNow scanNow)
  | loseToPeer (d : Download) (packet : Bytes) :
      DownloadStep host link env location d (.loseToPeer packet)
        { d with toPeer := d.toPeer.erase packet }
  | loseToOwner (d : Download) (ack : Bytes) :
      DownloadStep host link env location d (.loseToOwner ack)
        { d with toOwner := d.toOwner.erase ack }

/-- A step without losses, later than the readings in `earlier`, that does not give up. -/
def SmoothDownload (host : ByteOrder) (link : LossyLink) (env : GetEnv)
    (location : FileLocation) (earlier : List UInt64) (d : Download) (action : DownloadAction)
    (e : Download) : Prop :=
  DownloadStep host link env location d action e ∧
    match action with
    | .drive sendNow scanNow =>
        (∀ reading ∈ earlier, reading < sendNow ∧ reading < scanNow) ∧
          (driven host d.owner.globalSender sendNow scanNow).returned ≠ -1
    | .loseToPeer _ => False
    | .loseToOwner _ => False
    | _ => True

/-- The readings of a whole run. -/
def downloadReadings (actions : List DownloadAction) : List UInt64 :=
  actions.flatMap DownloadAction.readings

/-! ## A download is a flight with losses -/

/-- The same loops, and in flight only what was sent. -/
structure Within (d : Download) (t : Flight) : Prop where
  owner : d.owner = t.owner
  state : d.state = t.state
  toPeer : d.toPeer ⊆ t.emitted
  toOwner : d.toOwner ⊆ t.acks

section Simulation

variable {host : ByteOrder} {link : LossyLink} {env : GetEnv} {location : FileLocation}
  {d e : Download} {t : Flight} {action : DownloadAction}

/-- Every step is one of the flight, or a loss that the flight does not notice. -/
theorem Within.step (h : Within d t) (hstep : DownloadStep host link env location d action e) :
    Within e t ∨ ∃ action' u, FlightStep host link env location t action' u ∧ Within e u := by
  obtain ⟨owner, state, emitted, arrived, acks⟩ := t
  obtain ⟨rfl, rfl, htoPeer, htoOwner⟩ := h
  cases hstep with
  | arrive packet hpacket =>
      refine Or.inr ⟨_, _, .arrive _ packet (htoPeer hpacket), rfl, rfl, htoPeer, ?_⟩
      exact List.append_subset.mpr
        ⟨List.subset_append_of_subset_left _ htoOwner, List.subset_append_right _ _⟩
  | acknowledge ack request now hack =>
      exact Or.inr ⟨_, _, .acknowledge _ ack request now (htoOwner hack), rfl, rfl, htoPeer,
        htoOwner⟩
  | drive sendNow scanNow =>
      refine Or.inr ⟨_, _, .drive _ sendNow scanNow, rfl, rfl, ?_, htoOwner⟩
      exact List.append_subset.mpr
        ⟨List.subset_append_of_subset_left _ htoPeer, List.subset_append_right _ _⟩
  | loseToPeer packet =>
      exact Or.inl ⟨rfl, rfl, List.Subset.trans List.erase_subset htoPeer, htoOwner⟩
  | loseToOwner ack =>
      exact Or.inl ⟨rfl, rfl, htoPeer, List.Subset.trans List.erase_subset htoOwner⟩

end Simulation

/-- What holds of a download that a granted request has begun. -/
def Begun (host : ByteOrder) (env : GetEnv) (location : FileLocation) (file : FileImage)
    (chunks : UInt32) (early : Receiver) (d : Download) : Prop :=
  ∃ t, Within d t ∧ FlightInv host env location file (announcement host file chunks) t ∧
    Follows host env location file (announcement host file chunks) early t

section Reachable

variable {host : ByteOrder} {link : LossyLink} {env : GetEnv} {location : FileLocation}
  {file : FileImage} {chunks : UInt32} {early : Receiver} {d e : Download}
  {action : DownloadAction} {latest : Nat}

theorem begun_step {heap : Nat → UInt8} (hheap : env.heap = some heap)
    (hearly : srReceiverInit (some location.peer) file.size chunks (some env.link) (some heap) =
      some early)
    (h : Begun host env location file chunks early d)
    (hstep : DownloadStep host link env location d action e) :
    Begun host env location file chunks early e := by
  obtain ⟨t, hwithin, hinv, hfollows⟩ := h
  rcases hwithin.step hstep with hsame | ⟨action', u, hflight, hnext⟩
  · exact ⟨t, hsame, hinv, hfollows⟩
  · exact ⟨u, hnext, flightInv_step hinv hflight, follows_step hheap hearly hinv hfollows hflight⟩

/-- The send times of the sender stay below the readings of the driver. -/
theorem stampedBy_download (h : Begun host env location file chunks early d)
    (hstamped : StampedBy latest d.owner.globalSender)
    (hreading : ∀ reading ∈ action.readings, reading.toNat ≤ latest)
    (hstep : DownloadStep host link env location d action e) :
    StampedBy latest e.owner.globalSender := by
  obtain ⟨t, hwithin, hinv, -⟩ := h
  cases hstep with
  | arrive packet hpacket => exact hstamped
  | acknowledge ack request now hack =>
      obtain ⟨k, rfl⟩ := hinv.acks ack (hwithin.toOwner hack)
      rcases receive_ack_cases link d.owner d.owner.globalSender.peerAddr k request now
        with hsame | hcounted
      · rwa [Download.acknowledge, hsame]
      · rw [Download.acknowledge, hcounted]
        exact hstamped.handleAck host _
  | drive sendNow scanNow =>
      show StampedBy latest (Client.drive host d.owner sendNow scanNow).owner.globalSender
      by_cases hactive : d.owner.transferActive = true
      · rw [drive_globalSender hactive]
        exact (hstamped.sendWindowLoop host (hreading sendNow (by simp [DownloadAction.readings]))
          _).checkTimeoutsLoop host (hreading scanNow (by simp [DownloadAction.readings])) _ _
      · rwa [Client.drive, if_neg hactive]
  | loseToPeer packet => exact hstamped
  | loseToOwner ack => exact hstamped

end Reachable

/-! ## The continuation -/

/-- A driver gives up only on a chunk that was pending before it. -/
theorem driven_goes {file : FileImage} {sender : Sender} {acked : Finset Nat}
    (hinv : SenderInv file sender acked) (host : ByteOrder) (sendNow scanNow : UInt64)
    (hretries : ∀ q, sender.base ≤ q → q < sender.nextSeq → q ∉ acked →
      (sender.window.read q).retries < maxRetries) :
    (driven host sender sendNow scanNow).exceeded = false := by
  obtain ⟨hsent, -, hbase, -⟩ := hinv.sendWindow_spec host sendNow
  obtain ⟨stop, hout⟩ := hsent.checkTimeouts_outcome host scanNow
  by_contra hexceeded
  rw [Bool.not_eq_false] at hexceeded
  obtain ⟨hstop, hdue, hspent⟩ := hout.stopped hexceeded
  have hlow : sender.base ≤ stop := hbase ▸ hout.first_le
  have hmem := hsent.notMem_of_dueAt hout.first_le hstop hdue
  obtain ⟨hold, hnew⟩ := hinv.sendWindowLoop_entry host sendNow
    (sender.numChunks - sender.nextSeq) hlow
  rw [← srSenderSendWindow] at hold hnew
  by_cases hq : stop < sender.nextSeq
  · rw [hold hq] at hspent
    exact absurd (hretries stop hlow hq hmem) (not_lt.mpr hspent)
  · rw [(hnew (not_lt.mp hq) hstop).1] at hspent
    exact absurd hspent (by decide)

/-- The owner serves the download, both ends agree, and a `get` that has returned has
nothing left to acknowledge. -/
structure OnTrack (host : ByteOrder) (env : GetEnv) (location : FileLocation) (file : FileImage)
    (d : Download) (receiver : Receiver) (acked stored : Finset Nat) : Prop where
  transfer : TransferInv host file ⟨d.owner.globalSender, receiver, [], [], []⟩ acked stored
  active : d.owner.transferActive = true
  state : d.state = continueGet env location receiver
  answered : receiver.numChunks ≤ receiver.base →
    ∀ q < d.owner.globalSender.nextSeq, q ∈ acked

/-- On track, and the datagrams of all pending chunks are on their way. -/
def Ready (host : ByteOrder) (env : GetEnv) (location : FileLocation) (file : FileImage)
    (d : Download) : Prop :=
  ∃ receiver acked stored, OnTrack host env location file d receiver acked stored ∧
    ∀ q, d.owner.globalSender.base ≤ q → q < d.owner.globalSender.nextSeq → q ∉ acked →
      file.packet host q ∈ d.toPeer

/-- The `get` has returned with the file and the owner is free for another request. -/
def Completed (env : GetEnv) (location : FileLocation) (contents : Bytes) (d : Download) :
    Prop :=
  d.state.returned = some (fileReturn env location contents) ∧
    d.owner.transferActive = false ∧ d.owner.globalFileBuffer = none

/-- What is left to acknowledge and to send. -/
def Download.remaining (file : FileImage) (d : Download) : Nat :=
  (file.numChunks - d.owner.globalSender.chunksAcked) +
    (file.numChunks - d.owner.globalSender.nextSeq)

section Continuation

variable {host : ByteOrder} {link : LossyLink} {env : GetEnv} {location : FileLocation}
  {file : FileImage} {d : Download} {receiver : Receiver} {acked stored : Finset Nat}
  {earlier : List UInt64} {now : UInt64}

/-- The invariant without what is in flight. -/
theorem forget_flight {s : Transfer} (h : TransferInv host file s acked stored) :
    TransferInv host file ⟨s.sender, s.receiver, [], [], []⟩ acked stored :=
  { h with
    data := by simp
    acks := by simp
    writes := by simp }

/-- An owner with an active transfer handles the acknowledgement. -/
theorem receive_ack_active {owner : Owner} (hactive : owner.transferActive = true)
    (link : LossyLink) (peer : SockAddr) (k : Nat) (request : RequestEnv) (now : UInt64) :
    (receiveDatagram host link owner (some (peer, Datagram.recv (buildAckPacket host k)))
        request now).owner =
      { owner with
        globalSender := srSenderHandleAck host owner.globalSender
          (UdpHeader.ofImage host (buildAckPacket host k)) } := by
  have hlong : ¬ (buildAckPacket host k).length < udpHeaderSize := by
    rw [buildAckPacket_length]
    exact lt_irrefl _
  have hother : udpAck ≠ udpRequestFile := by decide
  simp only [receiveDatagram, recv_buildAckPacket, msgType_buildAckPacket, if_neg hlong,
    if_neg hother, if_true, handleAck, hactive]

/-- What a driver leaves behind that does not give up. -/
theorem drive_owner {owner : Owner} (hactive : owner.transferActive = true)
    {sendNow scanNow : UInt64}
    (hgoes : (driven host owner.globalSender sendNow scanNow).exceeded = false) :
    (drive host owner sendNow scanNow).owner =
      if srSenderIsComplete (driven host owner.globalSender sendNow scanNow).sender then
        Owner.release
          { owner with globalSender := (driven host owner.globalSender sendNow scanNow).sender }
      else
        { owner with globalSender := (driven host owner.globalSender sendNow scanNow).sender } := by
  have hreturned : ¬ (driven host owner.globalSender sendNow scanNow).returned < 0 := by
    rw [TimeoutResult.returned, hgoes]
    simp
  unfold driven at hreturned ⊢
  simp only [drive, if_pos hactive, if_neg hreturned]
  split <;> rfl

namespace OnTrack

/-- While something is pending, `get` is running. -/
theorem missing_of_pending (h : OnTrack host env location file d receiver acked stored) {q : Nat}
    (hnext : q < d.owner.globalSender.nextSeq) (hmem : q ∉ acked) :
    receiver.base < receiver.numChunks := by
  by_contra hall
  exact hmem (h.answered (not_lt.mp hall) q hnext)

/-- A pending chunk and its acknowledgement arrive.  The chunk has been stored before, or
everything that has been stored is acknowledged. -/
theorem deliver (h : OnTrack host env location file d receiver acked stored)
    (hflight : ∀ k, d.owner.globalSender.base ≤ k → k < d.owner.globalSender.nextSeq →
      k ∉ acked → file.packet host k ∈ d.toPeer) {q : Nat}
    (hnext : q < d.owner.globalSender.nextSeq) (hmem : q ∉ acked)
    (hfirst : q ∈ stored ∨ stored ⊆ acked) :
    ∃ actions e, Run (SmoothDownload host link env location earlier) d actions e ∧
      Ready host env location file e ∧ e.remaining file < d.remaining file := by
  have hlow : d.owner.globalSender.base ≤ q := by
    by_contra hbelow
    exact hmem (h.transfer.sender.below_base q (by simpa using hbelow))
  have hstate : d.state = .receiving receiver :=
    h.state.trans (continueGet_of_lt (h.missing_of_pending hnext hmem))
  obtain ⟨hdelivered, hacks⟩ := h.transfer.keeps_deliverData hnext
  have hstored : q ∈ insert q stored := Finset.mem_insert_self q stored
  have hcounted := hdelivered.ackCounted_of_pending hstored hmem
  have hack := hdelivered.keeps_deliverAck hstored
  have hafter : SenderInv.ackedAfter host d.owner.globalSender
      (UdpHeader.ofImage host (buildAckPacket host q)) acked = insert q acked := by
    rw [SenderInv.ackedAfter, hcounted]
  simp only at hack
  rw [hafter] at hack
  obtain ⟨-, -, hkept, -⟩ := h.transfer.sender.handleAck_spec h.transfer.senderSettled host
    (UdpHeader.ofImage host (buildAckPacket host q))
  let arrived := d.arrive host env location (file.packet host q)
  have harrived : arrived = { d with
      state := continueGet env location
        (srReceiverHandleData host receiver (file.packet host q)).receiver
      toOwner := d.toOwner ++ [buildAckPacket host q] } := by
    simp only [arrived, Download.arrive, hstate, getReceive_packet, hacks]
  have hmemAck : buildAckPacket host q ∈ arrived.toOwner := by
    rw [harrived]
    exact List.mem_append_right _ (List.mem_singleton_self _)
  let counted := arrived.acknowledge host link (buildAckPacket host q) ⟨none, 0, false, []⟩ 0
  have howner : counted.owner = { d.owner with
      globalSender := srSenderHandleAck host d.owner.globalSender
        (UdpHeader.ofImage host (buildAckPacket host q)) } := by
    simp only [counted, Download.acknowledge, harrived]
    exact receive_ack_active h.active link _ q _ 0
  have hrun : Run (SmoothDownload host link env location earlier) d
      [.arrive (file.packet host q),
        .acknowledge (buildAckPacket host q) ⟨none, 0, false, []⟩ 0] counted :=
    Run.snoc (Run.single ⟨.arrive d _ (hflight q hlow hnext hmem), trivial⟩)
      ⟨.acknowledge _ _ _ 0 hmemAck, trivial⟩
  have htrack : OnTrack host env location file counted
      (srReceiverHandleData host receiver (file.packet host q)).receiver (insert q acked)
      (insert q stored) := by
    refine ⟨?_, ?_, ?_, ?_⟩
    · rw [howner]
      exact forget_flight hack
    · rw [howner]
      exact h.active
    · simp only [counted, Download.acknowledge, harrived]
    · intro hall k hk
      rw [howner] at hk
      simp only [hkept] at hk
      rcases hfirst with hold | hsub
      · -- a chunk that was stored before does not complete the receiver
        rw [Finset.insert_eq_of_mem hold] at hdelivered
        have hsame := isLeast_missing_mono (hdelivered.receiver.base_least
          hdelivered.receiverSettled) (h.transfer.receiver.base_least
            h.transfer.receiverSettled) (Finset.Subset.refl stored)
        have hmissing := h.missing_of_pending hnext hmem
        have hchunks := hdelivered.numChunks.trans h.transfer.numChunks.symm
        simp only at hsame hchunks
        omega
      · -- otherwise all chunks are stored, and all that are stored are acknowledged
        have hchunks := h.transfer.sent_lt_numChunks hk
        have hbelow := hdelivered.receiver.below_base k (by
          have hnumber := hdelivered.numChunks
          simp only at hnumber ⊢
          omega)
        exact Finset.insert_subset_insert q hsub hbelow
  refine ⟨_, counted, hrun, ⟨_, _, _, htrack, ?_⟩, ?_⟩
  · intro k hklow hknext hkmem
    have hkmem' : k ∉ acked := fun hk => hkmem (Finset.mem_insert_of_mem hk)
    have hkbase : d.owner.globalSender.base ≤ k := by
      by_contra hbelow
      exact hkmem' (h.transfer.sender.below_base k (by simpa using hbelow))
    rw [howner] at hknext
    simp only [hkept] at hknext
    have hsame : counted.toPeer = d.toPeer := by
      simp only [counted, Download.acknowledge, harrived]
    rw [hsame]
    exact hflight k hkbase hknext hkmem'
  · have hcount : counted.owner.globalSender.chunksAcked =
        d.owner.globalSender.chunksAcked + 1 := by
      have hbefore := h.transfer.sender.count
      have hcard := htrack.transfer.sender.count
      simp only at hbefore hcard
      rw [hcard, hbefore, Finset.card_insert_of_notMem hmem]
    have hsent : counted.owner.globalSender.nextSeq = d.owner.globalSender.nextSeq := by
      rw [howner]
      exact hkept
    have hroom : d.owner.globalSender.chunksAcked < file.numChunks := by
      have hsub : insert q acked ⊆ Finset.range file.numChunks := by
        intro k hk
        exact Finset.mem_range.mpr
          (htrack.transfer.sent_lt_numChunks (htrack.transfer.sender.acked_lt k hk))
      have hcard := Finset.card_le_card hsub
      have hbound := htrack.transfer.sender.count
      simp only at hbound
      rw [Finset.card_range, ← hbound] at hcard
      omega
    unfold Download.remaining
    omega

/-- The driver of a transfer that is not over sends what fits into the window and, of the
rest, what is due. -/
theorem drives (h : OnTrack host env location file d receiver acked stored) (link : LossyLink)
    (hnow : ∀ reading ∈ earlier, reading < now)
    (hretries : ∀ q, d.owner.globalSender.base ≤ q → q < d.owner.globalSender.nextSeq →
      q ∉ acked → (d.owner.globalSender.window.read q).retries < maxRetries)
    (hmissing : receiver.base < receiver.numChunks)
    (hflight : ∀ q, d.owner.globalSender.base ≤ q → q < d.owner.globalSender.nextSeq →
      q ∉ acked → SenderInv.DueAt d.owner.globalSender now q) :
    ∃ e, SmoothDownload host link env location earlier d (.drive now now) e ∧
      Ready host env location file e ∧
      e.owner.globalSender.chunksAcked = d.owner.globalSender.chunksAcked ∧
      e.owner.globalSender.nextSeq =
        min (d.owner.globalSender.base + windowSize) file.numChunks := by
  have hgoes := driven_goes h.transfer.sender host now now hretries
  simp only at hgoes
  obtain ⟨hsent, -, hbase, hfilled, -, hpackets⟩ := h.transfer.sender.sendWindow_spec host now
  obtain ⟨stop, hout⟩ := hsent.checkTimeouts_outcome host now
  have hstop := hout.completed hgoes
  subst hstop
  obtain ⟨hscan, -, hbase', hnext', -⟩ := hsent.checkTimeouts_spec host now
  have hkept := (h.transfer.keeps_sendWindow now).keeps_checkTimeouts now
  simp only at hbase hfilled hpackets hbase' hnext' hscan
  rw [← driven] at hbase' hnext' hscan
  have hchunks := h.transfer.sender.numChunks
  simp only at hchunks
  -- the receiver misses a chunk, so the sender does too
  have hopen : srSenderIsComplete (driven host d.owner.globalSender now now).sender = false := by
    by_contra hcomplete
    rw [Bool.not_eq_false] at hcomplete
    have hall := of_decide_eq_true (hkept.complete_receiver hcomplete)
    exact absurd hmissing (not_lt.mpr hall)
  have howner := drive_owner h.active hgoes
  rw [hopen, if_neg Bool.false_ne_true] at howner
  have hsentTo : (d.drive host now now).toPeer = d.toPeer ++
      ((srSenderSendWindow host d.owner.globalSender now).packets ++
        (driven host d.owner.globalSender now now).packets) := by
    rw [Download.drive, drive_packets h.active, driven]
  have hcount : (d.drive host now now).owner.globalSender =
      (driven host d.owner.globalSender now now).sender := by
    rw [Download.drive, howner]
  refine ⟨d.drive host now now, ⟨.drive d now now, ?_, ?_⟩,
    ⟨receiver, acked, stored, ⟨?_, ?_, h.state, ?_⟩, ?_⟩, ?_, ?_⟩
  · exact fun reading hreading => ⟨hnow reading hreading, hnow reading hreading⟩
  · intro habort
    rw [returned_eq_neg_one_iff, hgoes] at habort
    exact Bool.false_ne_true habort
  · rw [hcount]
    exact forget_flight hkept
  · rw [Download.drive, howner]
    exact h.active
  · intro hall
    exact absurd hmissing (not_lt.mpr hall)
  · intro q hlow hhigh hmem
    rw [hcount] at hlow hhigh
    rw [hbase', hbase] at hlow
    rw [hnext'] at hhigh
    rw [hsentTo]
    refine List.mem_append_right _ (List.mem_append.mpr ?_)
    by_cases hq : q < d.owner.globalSender.nextSeq
    · right
      obtain ⟨hold, -⟩ := h.transfer.sender.sendWindowLoop_entry host now
        (d.owner.globalSender.numChunks - d.owner.globalSender.nextSeq) hlow
      have hdue :
          SenderInv.DueAt (srSenderSendWindow host d.owner.globalSender now).sender now q := by
        rw [SenderInv.DueAt, srSenderSendWindow, hold hq]
        exact hflight q hlow hq hmem
      rw [driven, hout.packets]
      exact List.mem_map_of_mem (mem_dueChunks.mpr ⟨by rw [hbase]; exact hlow, hhigh, hdue⟩)
    · left
      rw [hfilled] at hhigh
      rw [hpackets]
      refine List.mem_map_of_mem (List.mem_range'_1.mpr ?_)
      omega
  · have hbefore := h.transfer.sender.count
    have hafter := hscan.count
    simp only at hbefore
    rw [hcount, hafter, hbefore]
  · rw [hcount, hnext', hfilled, hchunks]

/-- When everything is acknowledged, the next driver ends the transfer. -/
theorem finish (h : OnTrack host env location file d receiver acked stored) (link : LossyLink)
    (hsize : file.size.toNat + 1023 < 2 ^ 32) (hnow : ∀ reading ∈ earlier, reading < now)
    (hall : d.owner.globalSender.base = file.numChunks) :
    ∃ e, SmoothDownload host link env location earlier d (.drive now now) e ∧
      Completed env location file.contents e := by
  have hchunks := h.transfer.sender.numChunks
  have hnext := h.transfer.sender.next_le_chunks
  simp only at hchunks hnext
  have hgoes := driven_goes h.transfer.sender host now now (by
    intro q hlow hhigh
    simp only at hlow hhigh
    omega)
  simp only at hgoes
  have hkept := (h.transfer.keeps_sendWindow now).keeps_checkTimeouts now
  obtain ⟨hsent, -, hbase, -⟩ := h.transfer.sender.sendWindow_spec host now
  obtain ⟨-, -, hscanned, -⟩ := hsent.checkTimeouts_spec host now
  have hover : srSenderIsComplete (driven host d.owner.globalSender now now).sender = true := by
    refine (hkept.sender.complete_iff hkept.senderSettled).mpr ?_
    have hnumber := hkept.sender.numChunks
    simp only at hnumber hscanned hbase ⊢
    rw [hscanned, hbase, hnumber, hall]
  have howner := drive_owner h.active hgoes
  rw [hover, if_pos rfl] at howner
  have hcomplete : srReceiverIsComplete receiver = true := hkept.complete_receiver hover
  refine ⟨d.drive host now now, ⟨.drive d now now, ?_, ?_⟩, ?_, ?_, ?_⟩
  · exact fun reading hreading => ⟨hnow reading hreading, hnow reading hreading⟩
  · intro habort
    rw [returned_eq_neg_one_iff, hgoes] at habort
    exact Bool.false_ne_true habort
  · show d.state.returned = _
    rw [h.state, continueGet_of_le (of_decide_eq_true hcomplete),
      finishGet_eq_fileReturn (h.transfer.complete_file hsize hcomplete)]
    rfl
  · rw [Download.drive, howner]
    rfl
  · rw [Download.drive, howner]
    rfl

end OnTrack

/-- One round of the continuation. -/
theorem ready_round (hnow : ∀ reading ∈ earlier, reading < now)
    (hready : Ready host env location file d) :
    (d.owner.globalSender.base = file.numChunks ∨
      ∃ actions e, Run (SmoothDownload host link env location earlier) d actions e ∧
        Ready host env location file e ∧ e.remaining file < d.remaining file) := by
  obtain ⟨receiver, acked, stored, htrack, hflight⟩ := hready
  have hchunks := htrack.transfer.sender.numChunks
  have hbase := htrack.transfer.sender.base_le
  have hnext := htrack.transfer.sender.next_le_chunks
  simp only at hchunks hbase hnext
  by_cases hpending : ∃ q < d.owner.globalSender.nextSeq, q ∉ acked
  · right
    by_cases hstored : ∃ q ∈ stored, q ∉ acked
    · obtain ⟨q, hq, hmem⟩ := hstored
      exact htrack.deliver hflight (htrack.transfer.stored_sent q hq) hmem (Or.inl hq)
    · obtain ⟨q, hq, hmem⟩ := hpending
      push Not at hstored
      exact htrack.deliver hflight hq hmem (Or.inr fun k hk => hstored k hk)
  · push Not at hpending
    have hwhole : d.owner.globalSender.base = d.owner.globalSender.nextSeq := by
      by_contra hne
      exact htrack.transfer.senderSettled (hpending _ (by
        simp only
        omega))
    by_cases hmore : d.owner.globalSender.nextSeq < file.numChunks
    · right
      have hmissing : receiver.base < receiver.numChunks := by
        have hle := htrack.transfer.receiver_base_le
        have hnumber := htrack.transfer.numChunks
        simp only at hle hnumber
        omega
      obtain ⟨e, hstep, hready', hcount, hsent⟩ := htrack.drives link hnow
        (fun q _ hhigh hmem => absurd (hpending q hhigh) hmem) hmissing
        (fun q _ hhigh hmem => absurd (hpending q hhigh) hmem)
      refine ⟨_, e, Run.single hstep, hready', ?_⟩
      unfold Download.remaining
      rw [hcount, hsent]
      unfold windowSize
      omega
    · left
      omega

/-- A download on track is completed, once the datagrams of all pending chunks are on
their way. -/
theorem ready_completes (hsize : file.size.toNat + 1023 < 2 ^ 32)
    (hnow : ∀ reading ∈ earlier, reading < now) (hready : Ready host env location file d) :
    ∃ actions e, Run (SmoothDownload host link env location earlier) d actions e ∧
      Completed env location file.contents e := by
  obtain ⟨actions, e, hrun, ⟨receiver, acked, stored, htrack, -⟩, hall⟩ :=
    Run.reaches_of_measure (Download.remaining file) (fun _ h => ready_round hnow h) hready
  obtain ⟨u, hstep, hcompleted⟩ := htrack.finish link hsize hnow hall
  exact ⟨_, u, Run.snoc hrun hstep, hcompleted⟩

/-- A download on track is completed: at a time at which every pending chunk is due, one
driver puts all of them on their way. -/
theorem OnTrack.completes (h : OnTrack host env location file d receiver acked stored)
    (link : LossyLink) (hsize : file.size.toNat + 1023 < 2 ^ 32)
    (hnow : ∀ reading ∈ earlier, reading < now)
    (hdue : ∀ q, timeoutMs ≤ now - (d.owner.globalSender.window.read q).sendTimeMs)
    (hretries : ∀ q, d.owner.globalSender.base ≤ q → q < d.owner.globalSender.nextSeq →
      (d.owner.globalSender.window.read q).state = .pending →
        (d.owner.globalSender.window.read q).retries < maxRetries) :
    ∃ actions e, Run (SmoothDownload host link env location earlier) d actions e ∧
      Completed env location file.contents e := by
  have hpending : ∀ q, d.owner.globalSender.base ≤ q → q < d.owner.globalSender.nextSeq →
      q ∉ acked → (d.owner.globalSender.window.read q).state = .pending := by
    intro q hlow hhigh hmem
    rw [(h.transfer.sender.live q hlow hhigh).state, if_neg hmem]
  by_cases hmissing : receiver.base < receiver.numChunks
  · obtain ⟨e, hstep, hready, -⟩ := h.drives link hnow
      (fun q hlow hhigh hmem => hretries q hlow hhigh (hpending q hlow hhigh hmem)) hmissing
      (fun q hlow hhigh hmem => ⟨hpending q hlow hhigh hmem, hdue q⟩)
    obtain ⟨actions, u, hrun, hcompleted⟩ := ready_completes hsize hnow hready
    exact ⟨_, u, (Run.single hstep).append hrun, hcompleted⟩
  · -- the file is already there
    have hacked := h.answered (not_lt.mp hmissing)
    have hreceived := h.transfer.receiver_base_le
    have hnumber := h.transfer.numChunks
    have hbase := h.transfer.sender.base_le
    have hnext := h.transfer.sender.next_le_chunks
    have hchunks := h.transfer.sender.numChunks
    have hsettled := h.transfer.senderSettled
    simp only [Settled] at hreceived hnumber hbase hnext hchunks hsettled
    have hwhole : d.owner.globalSender.base = d.owner.globalSender.nextSeq := by
      by_contra hne
      exact hsettled (hacked _ (by omega))
    obtain ⟨e, hstep, hcompleted⟩ := h.finish link hsize hnow (by omega)
    exact ⟨_, e, Run.single hstep, hcompleted⟩

end Continuation

/-! ## Where a download stands -/

section Standing

variable {host : ByteOrder} {link : LossyLink} {env : GetEnv} {location : FileLocation}
  {file : FileImage} {chunks : UInt32} {early : Receiver} {d e : Download}
  {action : DownloadAction} {earlier : List UInt64}

/-- A `get` that has begun to receive is on track. -/
theorem onTrack_of_receiving (h : Begun host env location file chunks early d)
    (hactive : d.owner.transferActive = true) {receiver : Receiver}
    (hstate : d.state = .receiving receiver) :
    ∃ acked stored, OnTrack host env location file d receiver acked stored := by
  obtain ⟨t, hwithin, -, ⟨receiver', data, writes, acked, stored, -, htransfer, hstage⟩⟩ := h
  rw [← hwithin.state, hstate] at hstage
  rw [← hwithin.owner] at htransfer
  cases hstage with
  | receiving hmissing harrived =>
      refine ⟨acked, stored, forget_flight htransfer, hactive, ?_, ?_⟩
      · rw [hstate, continueGet_of_lt hmissing]
      · intro hall
        exact absurd hmissing (not_lt.mpr hall)

/-- The announcement puts a `get` that waits for it on track. -/
theorem onTrack_of_announced (h : Begun host env location file chunks early d)
    {heap : Nat → UInt8} (hheap : env.heap = some heap)
    (hearly : srReceiverInit (some location.peer) file.size chunks (some env.link) (some heap) =
      some early)
    (hactive : d.owner.transferActive = true) (hstate : d.state = .awaitingStart) :
    ∃ acked stored, OnTrack host env location file
      (d.arrive host env location (announcement host file chunks)) early acked stored := by
  obtain ⟨⟨owner, state, emitted, arrived, acks⟩, hwithin, -,
    ⟨receiver', data, writes, acked, stored, -, htransfer, hstage⟩⟩ := h
  rw [← hwithin.state, hstate] at hstage
  rw [← hwithin.owner] at htransfer
  simp only at hstage
  obtain ⟨receiver, hinit, hreceive⟩ := getReceive_start host location hheap file.size chunks
  obtain rfl : receiver = early := Option.some.inj (hinit.symm.trans hearly)
  cases hstage with
  | waiting =>
      refine ⟨acked, ∅, forget_flight htransfer, hactive, ?_, ?_⟩
      · simp only [Download.arrive, hstate, announcement, hreceive]
      · -- nothing is stored, so nothing can have been sent
        intro hall q hq
        have hchunks := htransfer.sent_lt_numChunks hq
        have hnumber := htransfer.numChunks
        simp only at hnumber
        have hstored := htransfer.receiver.below_base q (by
          simp only
          omega)
        exact absurd hstored (Finset.notMem_empty q)

/-- The announcement is lost and `get` has nothing that could take its place. -/
structure Unannounced (start : Bytes) (d : Download) : Prop where
  lost : start ∉ d.toPeer
  state : d.state = .awaitingStart ∨ d.state = .finished ⟨0, none⟩

/-- The driver sends chunks only. -/
theorem Begun.driver_packets (h : Begun host env location file chunks early d)
    (link : LossyLink) (sendNow scanNow : UInt64) {packet : Bytes}
    (hpacket : packet ∈ (Client.drive host d.owner sendNow scanNow).sent.map Prod.snd) :
    packet ≠ announcement host file chunks := by
  obtain ⟨t, hwithin, hinv, -⟩ := h
  obtain ⟨data, hemitted, -⟩ := hinv.emitted
  have hdriven : FlightStep host link env location t (.drive sendNow scanNow)
      (t.drive host sendNow scanNow) := .drive t sendNow scanNow
  obtain ⟨data', hemitted', hdata'⟩ := (flightInv_step hinv hdriven).emitted
  rw [Flight.drive, ← hwithin.owner, hemitted, List.cons_append] at hemitted'
  obtain ⟨-, htail⟩ := List.cons.inj hemitted'
  obtain ⟨q, hq, rfl⟩ := hdata' packet (htail ▸ List.mem_append_right _ hpacket)
  exact packet_ne_announcement hq

/-- Nothing brings the announcement back. -/
theorem unannounced_step (h : Begun host env location file chunks early d)
    (hlost : Unannounced (announcement host file chunks) d)
    (hstep : DownloadStep host link env location d action e) :
    Unannounced (announcement host file chunks) e := by
  have hbegun := h
  obtain ⟨t, hwithin, hinv, -⟩ := h
  obtain ⟨hstart, hstate⟩ := hlost
  cases hstep with
  | arrive packet hpacket =>
      refine ⟨hstart, ?_⟩
      rcases hstate with hwaiting | hfinished
      · -- a chunk in the place of the announcement
        obtain ⟨data, hemitted, hdata⟩ := hinv.emitted
        have hmem := hwithin.toPeer hpacket
        rw [hemitted] at hmem
        rcases List.mem_cons.mp hmem with rfl | hchunk
        · exact absurd hpacket hstart
        · obtain ⟨q, hq, rfl⟩ := hdata packet hchunk
          right
          simp only [Download.arrive, hwaiting, getReceive_overtaking hq]
      · right
        simp only [Download.arrive, hfinished, getReceive]
  | acknowledge ack request now hack => exact ⟨hstart, hstate⟩
  | drive sendNow scanNow =>
      refine ⟨?_, hstate⟩
      intro hmem
      rcases List.mem_append.mp hmem with hold | hnew
      · exact hstart hold
      · exact hbegun.driver_packets link sendNow scanNow hnew rfl
  | loseToPeer packet => exact ⟨fun hmem => hstart (List.mem_of_mem_erase hmem), hstate⟩
  | loseToOwner ack => exact ⟨hstart, hstate⟩

/-- Without the announcement no file is saved any more. -/
theorem unannounced_run {heap : Nat → UInt8} (hheap : env.heap = some heap)
    (hearly : srReceiverInit (some location.peer) file.size chunks (some env.link) (some heap) =
      some early)
    (h : Begun host env location file chunks early d)
    (hlost : Unannounced (announcement host file chunks) d) {actions : List DownloadAction}
    (hrun : Run (DownloadStep host link env location) d actions e) :
    Unannounced (announcement host file chunks) e := by
  have hboth := hrun.invariant
    (P := fun d => Begun host env location file chunks early d ∧
      Unannounced (announcement host file chunks) d)
    (fun _ _ _ h hstep => ⟨begun_step hheap hearly h.1 hstep, unannounced_step h.1 h.2 hstep⟩)
    ⟨h, hlost⟩
  exact hboth.2

/-- Every state of a download, with a bound on the send times. -/
theorem begun_run {heap : Nat → UInt8} {latest : Nat} (hheap : env.heap = some heap)
    (hearly : srReceiverInit (some location.peer) file.size chunks (some env.link) (some heap) =
      some early)
    (h : Begun host env location file chunks early d)
    (hstamped : StampedBy latest d.owner.globalSender) {actions : List DownloadAction}
    (hrun : Run (DownloadStep host link env location) d actions e)
    (hlatest : ∀ reading ∈ downloadReadings actions, reading.toNat ≤ latest) :
    Begun host env location file chunks early e ∧ StampedBy latest e.owner.globalSender := by
  induction hrun with
  | nil => exact ⟨h, hstamped⟩
  | @snoc t u before action hrun hstep ih =>
      simp only [downloadReadings, List.flatMap_append, List.mem_append] at hlatest
      obtain ⟨hbegun, hsent⟩ := ih fun reading hreading => hlatest reading (Or.inl hreading)
      refine ⟨begun_step hheap hearly hbegun hstep, stampedBy_download hbegun hsent ?_ hstep⟩
      intro reading hreading
      apply hlatest reading
      right
      simp [hreading]

/-- From a state with the announcement at hand the download is completed. -/
theorem Begun.completes {heap : Nat → UInt8} {latest : Nat} (hheap : env.heap = some heap)
    (hearly : srReceiverInit (some location.peer) file.size chunks (some env.link) (some heap) =
      some early)
    (h : Begun host env location file chunks early d) (link : LossyLink)
    (hsize : file.size.toNat + 1023 < 2 ^ 32) (hactive : d.owner.transferActive = true)
    (hstamped : StampedBy latest d.owner.globalSender)
    (hlatest : ∀ reading ∈ earlier, reading.toNat ≤ latest)
    (hfits : latest + timeoutMs.toNat < 2 ^ 64)
    (hretries : ∀ q, d.owner.globalSender.base ≤ q → q < d.owner.globalSender.nextSeq →
      (d.owner.globalSender.window.read q).state = .pending →
        (d.owner.globalSender.window.read q).retries < maxRetries)
    (hstanding : (∃ receiver, d.state = .receiving receiver) ∨
      d.state = .awaitingStart ∧ announcement host file chunks ∈ d.toPeer) :
    ∃ actions e, Run (SmoothDownload host link env location earlier) d actions e ∧
      Completed env location file.contents e := by
  -- one clock value is late enough for every pending chunk
  have hvalue : (UInt64.ofNat (latest + timeoutMs.toNat)).toNat =
      latest + timeoutMs.toNat := by
    rw [UInt64.toNat_ofNat', Nat.mod_eq_of_lt hfits]
  have htimeout : timeoutMs.toNat = 500 := rfl
  have hnow : ∀ reading ∈ earlier, reading < UInt64.ofNat (latest + timeoutMs.toNat) := by
    intro reading hreading
    have hle := hlatest reading hreading
    rw [UInt64.lt_iff_toNat_lt, hvalue]
    omega
  have hdue : ∀ q, timeoutMs ≤ UInt64.ofNat (latest + timeoutMs.toNat) -
      (d.owner.globalSender.window.read q).sendTimeMs := by
    intro q
    have hle := hstamped q
    have horder : (d.owner.globalSender.window.read q).sendTimeMs ≤
        UInt64.ofNat (latest + timeoutMs.toNat) := by
      rw [UInt64.le_iff_toNat_le, hvalue]
      omega
    rw [UInt64.le_iff_toNat_le, UInt64.toNat_sub_of_le _ _ horder, hvalue]
    omega
  rcases hstanding with ⟨receiver, hreceiving⟩ | ⟨hwaiting, hpacket⟩
  · obtain ⟨acked, stored, htrack⟩ := onTrack_of_receiving h hactive hreceiving
    exact htrack.completes link hsize hnow hdue hretries
  · obtain ⟨acked, stored, htrack⟩ := onTrack_of_announced h hheap hearly hactive hwaiting
    obtain ⟨actions, e, hrun, hcompleted⟩ := htrack.completes link hsize hnow hdue hretries
    exact ⟨_, e, (Run.single ⟨.arrive d _ hpacket, trivial⟩).append hrun, hcompleted⟩

/-- A file is saved in the end only when the announcement was at hand. -/
theorem Begun.standing_of_saved {heap : Nat → UInt8} (hheap : env.heap = some heap)
    (hearly : srReceiverInit (some location.peer) file.size chunks (some env.link) (some heap) =
      some early)
    (h : Begun host env location file chunks early d) (hrunning : d.state.returned = none)
    {actions : List DownloadAction}
    (hrun : Run (SmoothDownload host link env location earlier) d actions e) {result : GetReturn}
    (hsaved : e.state.returned = some result) (hfile : result ≠ ⟨0, none⟩) :
    (∃ receiver, d.state = .receiving receiver) ∨ announcement host file chunks ∈ d.toPeer := by
  cases hstate : d.state with
  | receiving receiver => exact Or.inl ⟨receiver, rfl⟩
  | finished result =>
      rw [hstate] at hrunning
      cases hrunning
  | awaitingStart =>
      right
      by_contra hlost
      have hend := unannounced_run hheap hearly h ⟨hlost, Or.inl hstate⟩
        (hrun.mono fun _ _ _ hstep => hstep.1)
      rcases hend.state with hwaiting | hfinished
      · rw [hwaiting] at hsaved
        cases hsaved
      · rw [hfinished] at hsaved
        exact hfile (Option.some.inj hsaved).symm

end Standing

/-- The file of a granted request, when its size fits: what is announced is what is read. -/
theorem exists_grantedFile {host : ByteOrder} {table : SharedTable} {packet : Datagram}
    {request : RequestEnv} {actualSize : Int} (hgranted : RequestGranted host table packet request)
    (hend : request.fileEnd = some actualSize) (hlow : 0 ≤ actualSize)
    (hfits : actualSize + 1023 < 2 ^ 32) :
    ∃ file : FileImage, file.data = request.readBytes ∧
      file.size = UInt32.ofNat (announcedSize actualSize) ∧
      file.size.toNat + 1023 < 2 ^ 32 ∧
      (UInt32.ofNat (announcedChunks actualSize)).toNat = file.numChunks ∧
      file.contents = request.readBytes ∧
      buildFileStart host (announcedSize actualSize) (announcedChunks actualSize) =
        announcement host file (UInt32.ofNat (announcedChunks actualSize)) := by
  obtain ⟨end', hend', hread⟩ := hgranted.opened
  obtain rfl : actualSize = end' := Option.some.inj (hend.symm.trans hend')
  obtain ⟨file, hdata, hfileSize⟩ := exists_fileImage hread
  have hword : file.size.toNat = announcedSize actualSize := by
    rw [hfileSize, UInt32.toNat_ofNat', Nat.mod_eq_of_lt (announcedSize_lt actualSize)]
  have hnumber : (UInt32.ofNat (announcedChunks actualSize)).toNat =
      announcedChunks actualSize := by
    rw [UInt32.toNat_ofNat', Nat.mod_eq_of_lt (announcedChunks_lt actualSize)]
  have hexact : (file.size.toNat : Int) = actualSize := by
    rw [hword, announcedSize]
    omega
  refine ⟨file, hdata, hfileSize, by omega, ?_, ?_, ?_⟩
  · rw [hnumber, FileImage.numChunks, hword]
    exact ((announcedChunks_eq_iff (by omega)).mpr (by omega)).symm
  · rw [FileImage.contents, hdata]
    apply List.take_of_length_le
    omega
  · rw [announcement, hword, hnumber]

/-- The first state of a download. -/
theorem begun_ofRequest {host : ByteOrder} (link : LossyLink) {owner : Owner} (peer : SockAddr)
    {packet : Datagram} {request : RequestEnv} (now : UInt64) {actualSize : Int}
    {file : FileImage} {env : GetEnv} {location : FileLocation} {heap : Nat → UInt8}
    {early : Receiver} (hgranted : RequestGranted host owner.table packet request)
    (hend : request.fileEnd = some actualSize) (hdata : file.data = request.readBytes)
    (hfileSize : file.size = UInt32.ofNat (announcedSize actualSize))
    (hagree : (UInt32.ofNat (announcedChunks actualSize)).toNat = file.numChunks)
    (hsize : file.size.toNat + 1023 < 2 ^ 32)
    (hearly : srReceiverInit (some location.peer) file.size
      (UInt32.ofNat (announcedChunks actualSize)) (some env.link) (some heap) = some early) :
    Begun host env location file (UInt32.ofNat (announcedChunks actualSize)) early
        (Download.ofRequest (handleRequest host link owner peer packet request now).1) ∧
      StampedBy now.toNat
        (Download.ofRequest (handleRequest host link owner peer packet request now).1
          ).owner.globalSender := by
  constructor
  · exact ⟨Flight.ofRequest (handleRequest host link owner peer packet request now).1,
      ⟨rfl, rfl, List.Subset.refl _, List.Subset.refl _⟩,
      flightInv_ofRequest hgranted hend hdata hfileSize,
      follows_ofRequest hgranted hend hdata hfileSize hagree hsize hearly⟩
  · obtain ⟨sender, hinit, -⟩ := srSenderInit_inv peer link file
    rw [Download.ofRequest, handleRequest_eq_started hgranted hend hdata hfileSize hinit now]
    have hfresh : StampedBy now.toNat sender := by
      rw [← Option.some.inj hinit]
      intro q
      exact Nat.zero_le now.toNat
    exact hfresh.sendWindowLoop host le_rfl _

/-- The owner has sent the announcement and the only chunk of a file. -/
def sevenDownload : Download :=
  Download.ofRequest
    (handleRequest .little ⟨3, 0, 1⟩ sevenOwner ⟨1, 1⟩ sevenRequest oneByteEnv 0).1

end Client
end PeerShare
