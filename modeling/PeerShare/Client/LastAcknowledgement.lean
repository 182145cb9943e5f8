import PeerShare.Client.DownloadProgress

/-!
# The owner after `get` has returned

`get` acknowledges what it receives until it has the file, and then it closes its part:
the main loop of the requester ignores chunks.  An acknowledgement that is lost before
that is made good by the next copy of its chunk; one that is lost afterwards is not.  So
the owner of a file that has long been saved may still send, run out of retries and
report that it gives up.

Once `get` has returned, what the owner will ever count is what it has counted and what
is on its way to it.  It reports the file as done in some continuation exactly when that
is every chunk.
-/

namespace PeerShare
namespace Client

open Foundation Wire SelectiveRepeat

/-- The sender has counted the acknowledgement of chunk `q`: the window has passed it, or
its slot says so. -/
def Acknowledged (sender : Sender) (q : Nat) : Prop :=
  q < sender.base ∨ q < sender.nextSeq ∧ (sender.window.read q).state = .acked

/-- The acknowledgement of `q` is counted or on its way. -/
def AckAtHand (host : ByteOrder) (d : Download) (q : Nat) : Prop :=
  Acknowledged d.owner.globalSender q ∨ buildAckPacket host q ∈ d.toOwner

/-- A driver at these readings reports that the file is done transferring. -/
def ReportsDone (host : ByteOrder) (d : Download) (sendNow scanNow : UInt64) : Prop :=
  d.owner.transferActive = true ∧
    (driven host d.owner.globalSender sendNow scanNow).exceeded = false ∧
    srSenderIsComplete (driven host d.owner.globalSender sendNow scanNow).sender = true

theorem acknowledged_iff {file : FileImage} {sender : Sender} {acked : Finset Nat}
    (hinv : SenderInv file sender acked) (q : Nat) : Acknowledged sender q ↔ q ∈ acked := by
  constructor
  · rintro (hbelow | ⟨hnext, hstate⟩)
    · exact hinv.below_base q hbelow
    · by_contra hmem
      by_cases hbelow : q < sender.base
      · exact hmem (hinv.below_base q hbelow)
      · rw [(hinv.live q (not_lt.mp hbelow) hnext).state, if_neg hmem] at hstate
        contradiction
  · intro hmem
    have hnext := hinv.acked_lt q hmem
    by_cases hbelow : q < sender.base
    · exact Or.inl hbelow
    · refine Or.inr ⟨hnext, ?_⟩
      rw [(hinv.live q (not_lt.mp hbelow) hnext).state, if_pos hmem]

section Returned

variable {host : ByteOrder} {link : LossyLink} {env : GetEnv} {location : FileLocation}
  {file : FileImage} {chunks : UInt32} {early : Receiver} {d e : Download}
  {action : DownloadAction} {result : GetReturn}

/-- The two ends as a transfer, and whose acknowledgements are on their way. -/
theorem Begun.transfer (h : Begun host env location file chunks early d) :
    ∃ receiver acked stored,
      TransferInv host file ⟨d.owner.globalSender, receiver, [], [], []⟩ acked stored ∧
      ∀ ack ∈ d.toOwner, ∃ k ∈ stored, ack = buildAckPacket host k := by
  obtain ⟨t, hwithin, -, ⟨receiver, data, writes, acked, stored, -, htransfer, -⟩⟩ := h
  rw [← hwithin.owner] at htransfer
  exact ⟨receiver, acked, stored, forget_flight htransfer,
    fun ack hack => htransfer.acks ack (hwithin.toOwner hack)⟩

/-- What the owner has counted after a step, it had counted before, or the step has
delivered it. -/
theorem ackAtHand_of_acknowledge (h : Begun host env location file chunks early d)
    {ack : Bytes} (hack : ack ∈ d.toOwner) (request : RequestEnv) (now : UInt64) {q : Nat}
    (hafter : Acknowledged (d.acknowledge host link ack request now).owner.globalSender q) :
    AckAtHand host d q := by
  obtain ⟨receiver, acked, stored, htransfer, hacks⟩ := h.transfer
  obtain ⟨k, hk, rfl⟩ := hacks ack hack
  rcases receive_ack_cases link d.owner d.owner.globalSender.peerAddr k request now
    with hsame | hhandled
  · rw [Download.acknowledge, hsame] at hafter
    exact Or.inl hafter
  · rw [Download.acknowledge, hhandled] at hafter
    obtain ⟨hinv, -⟩ := htransfer.sender.handleAck_spec htransfer.senderSettled host
      (UdpHeader.ofImage host (buildAckPacket host k))
    have hmem := (acknowledged_iff hinv q).mp hafter
    rw [SenderInv.ackedAfter] at hmem
    split at hmem
    · exact Or.inl ((acknowledged_iff htransfer.sender q).mpr hmem)
    · next j hcounted =>
        rcases Finset.mem_insert.mp hmem with rfl | hold
        · obtain ⟨-, hnumber, -⟩ := htransfer.sender.ackCounted_eq_some hcounted
          rw [htransfer.ackNumber_eq hk] at hnumber
          exact Or.inr (hnumber ▸ hack)
        · exact Or.inl ((acknowledged_iff htransfer.sender q).mpr hold)

/-- The driver counts nothing. -/
theorem acknowledged_drive_iff (h : Begun host env location file chunks early d)
    (sendNow scanNow : UInt64) (q : Nat) :
    Acknowledged (d.drive host sendNow scanNow).owner.globalSender q ↔
      Acknowledged d.owner.globalSender q := by
  obtain ⟨receiver, acked, stored, htransfer, -⟩ := h.transfer
  by_cases hactive : d.owner.transferActive = true
  · obtain ⟨-, hinv, -⟩ := drive_sender htransfer.sender htransfer.senderSettled host sendNow
      scanNow
    rw [Download.drive, drive_globalSender hactive, acknowledged_iff hinv,
      acknowledged_iff htransfer.sender]
  · rw [Download.drive, Client.drive, if_neg hactive]

/-- A `get` that has returned answers nothing, so nothing new comes to hand. -/
theorem ackAtHand_step (h : Begun host env location file chunks early d)
    (hfinished : d.state = .finished result)
    (hstep : DownloadStep host link env location d action e) :
    e.state = .finished result ∧ ∀ q, AckAtHand host e q → AckAtHand host d q := by
  cases hstep with
  | arrive packet hpacket =>
      simp only [Download.arrive, hfinished, getReceive, AckAtHand, List.append_nil]
      exact ⟨trivial, fun _ hq => hq⟩
  | acknowledge ack request now hack =>
      refine ⟨hfinished, ?_⟩
      rintro q (hcounted | hflying)
      · exact ackAtHand_of_acknowledge h hack request now hcounted
      · exact Or.inr hflying
  | drive sendNow scanNow =>
      refine ⟨hfinished, ?_⟩
      rintro q (hcounted | hflying)
      · exact Or.inl ((acknowledged_drive_iff h sendNow scanNow q).mp hcounted)
      · exact Or.inr hflying
  | loseToPeer packet => exact ⟨hfinished, fun _ hq => hq⟩
  | loseToOwner ack =>
      refine ⟨hfinished, ?_⟩
      rintro q (hcounted | hflying)
      · exact Or.inl hcounted
      · exact Or.inr (List.mem_of_mem_erase hflying)

theorem ackAtHand_run {heap : Nat → UInt8} (hheap : env.heap = some heap)
    (hearly : srReceiverInit (some location.peer) file.size chunks (some env.link) (some heap) =
      some early)
    (h : Begun host env location file chunks early d) (hfinished : d.state = .finished result)
    {actions : List DownloadAction}
    (hrun : Run (DownloadStep host link env location) d actions e) :
    Begun host env location file chunks early e ∧
      ∀ q, AckAtHand host e q → AckAtHand host d q := by
  have hall := hrun.invariant
    (P := fun e => Begun host env location file chunks early e ∧ e.state = .finished result ∧
      ∀ q, AckAtHand host e q → AckAtHand host d q)
    (fun _ _ _ ⟨hbegun, hend, hback⟩ hstep => by
      obtain ⟨hend', hback'⟩ := ackAtHand_step hbegun hend hstep
      exact ⟨begun_step hheap hearly hbegun hstep, hend', fun q hq => hback q (hback' q hq)⟩)
    ⟨h, hfinished, fun _ hq => hq⟩
  exact ⟨hall.1, hall.2.2⟩

/-- The driver reports the file as done only when every chunk is acknowledged. -/
theorem acknowledged_of_done (h : Begun host env location file chunks early d)
    {sendNow scanNow : UInt64} (hdone : ReportsDone host d sendNow scanNow) {q : Nat}
    (hq : q < file.numChunks) : Acknowledged d.owner.globalSender q := by
  obtain ⟨receiver, acked, stored, htransfer, -⟩ := h.transfer
  obtain ⟨-, hinv, hsettled⟩ := drive_sender htransfer.sender htransfer.senderSettled host sendNow
    scanNow
  have hbase := (hinv.complete_iff hsettled).mp hdone.2.2
  rw [hinv.numChunks] at hbase
  exact (acknowledged_iff htransfer.sender q).mpr (hinv.below_base q (by omega))

/-- When every chunk is acknowledged, any driver reports it. -/
theorem done_of_acknowledged (h : Begun host env location file chunks early d)
    (hactive : d.owner.transferActive = true)
    (hall : ∀ q < file.numChunks, Acknowledged d.owner.globalSender q)
    (sendNow scanNow : UInt64) : ReportsDone host d sendNow scanNow := by
  obtain ⟨receiver, acked, stored, htransfer, -⟩ := h.transfer
  have hmem : ∀ q < file.numChunks, q ∈ acked := fun q hq =>
    (acknowledged_iff htransfer.sender q).mp (hall q hq)
  refine ⟨hactive, ?_, ?_⟩
  · refine driven_goes htransfer.sender host sendNow scanNow fun q _ hnext hnot => ?_
    exact absurd (hmem q (htransfer.sent_lt_numChunks hnext)) hnot
  · obtain ⟨-, hinv, hsettled⟩ := drive_sender htransfer.sender htransfer.senderSettled host
      sendNow scanNow
    refine (hinv.complete_iff hsettled).mpr ?_
    have hle := hinv.base_le.trans hinv.next_le_chunks
    by_contra hne
    exact hsettled (hmem _ (by rw [← hinv.numChunks]; omega))

/-- An acknowledgement that is on its way and not counted yet is counted when it comes in. -/
theorem acknowledge_counts (h : Begun host env location file chunks early d) (link : LossyLink)
    (hactive : d.owner.transferActive = true) {q : Nat}
    (hflying : buildAckPacket host q ∈ d.toOwner) (hq : q < file.numChunks)
    (hmissing : ¬ Acknowledged d.owner.globalSender q) (request : RequestEnv) (now : UInt64) :
    let e := d.acknowledge host link (buildAckPacket host q) request now
    e.owner.transferActive = true ∧
      e.owner.globalSender.chunksAcked = d.owner.globalSender.chunksAcked + 1 ∧
      ∀ k, Acknowledged d.owner.globalSender k → Acknowledged e.owner.globalSender k := by
  obtain ⟨receiver, acked, stored, htransfer, hacks⟩ := h.transfer
  -- the number in the datagram is that of a stored chunk
  obtain ⟨k, hk, hsame⟩ := hacks _ hflying
  have hnumber : q = k := by
    have hsmall := file.numChunks_lt
    rw [← htransfer.ackNumber_eq hk, ← hsame]
    exact (ackNumber_buildAckPacket host (by omega)).symm
  subst hnumber
  have hmem : q ∉ acked := (acknowledged_iff htransfer.sender q).not.mp hmissing
  have hcounted := htransfer.ackCounted_of_pending hk hmem
  obtain ⟨hinv, -⟩ := htransfer.sender.handleAck_spec htransfer.senderSettled host
    (UdpHeader.ofImage host (buildAckPacket host q))
  have hafter : SenderInv.ackedAfter host d.owner.globalSender
      (UdpHeader.ofImage host (buildAckPacket host q)) acked = insert q acked := by
    rw [SenderInv.ackedAfter, hcounted]
  simp only [hafter] at hinv
  have howner := @receive_ack_active host _ hactive link d.owner.globalSender.peerAddr q
    request now
  simp only [Download.acknowledge, howner]
  refine ⟨hactive, ?_, ?_⟩
  · have hbefore := htransfer.sender.count
    simp only at hbefore
    rw [hinv.count, hbefore, Finset.card_insert_of_notMem hmem]
  · intro j hj
    have hold := (acknowledged_iff htransfer.sender j).mp hj
    exact (acknowledged_iff hinv j).mpr (Finset.mem_insert_of_mem hold)

/-- The transfer is active and the acknowledgement of every chunk is at hand. -/
structure Finishing (host : ByteOrder) (env : GetEnv) (location : FileLocation)
    (file : FileImage) (chunks : UInt32) (early : Receiver) (d : Download) : Prop where
  begun : Begun host env location file chunks early d
  active : d.owner.transferActive = true
  atHand : ∀ q < file.numChunks, AckAtHand host d q

/-- One more acknowledgement is counted, or all of them are. -/
theorem finishing_round {heap : Nat → UInt8} (hheap : env.heap = some heap)
    (hearly : srReceiverInit (some location.peer) file.size chunks (some env.link) (some heap) =
      some early) (link : LossyLink)
    (h : Finishing host env location file chunks early d) :
    (∀ q < file.numChunks, Acknowledged d.owner.globalSender q) ∨
      ∃ actions e, Run (DownloadStep host link env location) d actions e ∧
        Finishing host env location file chunks early e ∧
        file.numChunks - e.owner.globalSender.chunksAcked <
          file.numChunks - d.owner.globalSender.chunksAcked := by
  by_cases hcounted : ∀ q < file.numChunks, Acknowledged d.owner.globalSender q
  · exact Or.inl hcounted
  push Not at hcounted
  obtain ⟨q, hq, hmissing⟩ := hcounted
  have hflying := (h.atHand q hq).resolve_left hmissing
  let request : RequestEnv := ⟨none, 0, false, []⟩
  obtain ⟨hactive, hcount, hkept⟩ := acknowledge_counts h.begun link h.active hflying hq hmissing
    request 0
  have hstep : DownloadStep host link env location d
      (.acknowledge (buildAckPacket host q) request 0)
      (d.acknowledge host link (buildAckPacket host q) request 0) :=
    .acknowledge d _ request 0 hflying
  refine Or.inr ⟨_, _, Run.single hstep, ⟨begun_step hheap hearly h.begun hstep, hactive, ?_⟩, ?_⟩
  · intro k hk
    rcases h.atHand k hk with hold | hother
    · exact Or.inl (hkept k hold)
    · exact Or.inr hother
  · -- a chunk was missing, so the count had not reached the end
    obtain ⟨receiver, acked, stored, htransfer, -⟩ := h.begun.transfer
    have hmem := (acknowledged_iff htransfer.sender q).not.mp hmissing
    have hsub : insert q acked ⊆ Finset.range file.numChunks := by
      intro k hk
      rcases Finset.mem_insert.mp hk with rfl | hold
      · exact Finset.mem_range.mpr hq
      · exact Finset.mem_range.mpr
          (htransfer.sent_lt_numChunks (htransfer.sender.acked_lt k hold))
    have hcard := Finset.card_le_card hsub
    have hbefore := htransfer.sender.count
    simp only at hbefore
    rw [Finset.card_insert_of_notMem hmem, Finset.card_range, ← hbefore] at hcard
    omega

/-- What is at hand is counted, one acknowledgement after the other. -/
theorem acknowledged_of_atHand {heap : Nat → UInt8} (hheap : env.heap = some heap)
    (hearly : srReceiverInit (some location.peer) file.size chunks (some env.link) (some heap) =
      some early) (link : LossyLink)
    (h : Finishing host env location file chunks early d) :
    ∃ actions e, Run (DownloadStep host link env location) d actions e ∧
      Finishing host env location file chunks early e ∧
      ∀ q < file.numChunks, Acknowledged e.owner.globalSender q :=
  Run.reaches_of_measure (fun e => file.numChunks - e.owner.globalSender.chunksAcked)
    (fun _ he => finishing_round hheap hearly link he) h

end Returned

/-- For every file whose size fits and every run of a download from a granted request on:
when `get` has returned and the transfer is still active, some continuation leads to a driver
that reports the file as done exactly when the acknowledgement of every chunk is counted or
still on its way.  Otherwise the owner can only give up, whatever `get` has saved. -/
theorem done_after_return_iff {host : ByteOrder} {link : LossyLink} {owner : Owner}
    {peer : SockAddr} {packet : Datagram} {request : RequestEnv} {now : UInt64}
    {actualSize : Int} (hgranted : RequestGranted host owner.table packet request)
    (hend : request.fileEnd = some actualSize) (hlow : 0 ≤ actualSize)
    (hfits : actualSize + 1023 < 2 ^ 32) {env : GetEnv} {location : FileLocation}
    {heap : Nat → UInt8} (hheap : env.heap = some heap) {actions : List DownloadAction}
    {d : Download}
    (hrun : Run (DownloadStep host link env location)
      (Download.ofRequest (handleRequest host link owner peer packet request now).1) actions d)
    (hactive : d.owner.transferActive = true) {result : GetReturn}
    (hreturned : d.state.returned = some result) :
    (∃ actions' e sendNow scanNow, Run (DownloadStep host link env location) d actions' e ∧
        ReportsDone host e sendNow scanNow) ↔
      ∀ q < d.owner.globalSender.numChunks,
        Acknowledged d.owner.globalSender q ∨ buildAckPacket host q ∈ d.toOwner := by
  obtain ⟨file, hdata, hfileSize, hsize, hagree, -, -⟩ :=
    @exists_grantedFile host _ _ _ _ hgranted hend hlow hfits
  obtain ⟨early, hearly, -⟩ := getReceive_start host location hheap file.size
    (UInt32.ofNat (announcedChunks actualSize))
  obtain ⟨hbefore, -⟩ := begun_ofRequest link peer now hgranted hend hdata hfileSize hagree hsize
    hearly
  have hbegun := hrun.invariant (fun _ _ _ h hstep => begun_step hheap hearly h hstep) hbefore
  obtain ⟨receiver, acked, stored, htransfer, -⟩ := hbegun.transfer
  have hchunks := htransfer.sender.numChunks
  simp only at hchunks
  rw [hchunks]
  have hfinished : d.state = .finished result := by
    cases hstate : d.state with
    | finished other =>
        rw [hstate] at hreturned
        exact congrArg GetState.finished (Option.some.inj hreturned)
    | awaitingStart =>
        rw [hstate] at hreturned
        contradiction
    | receiving receiver =>
        rw [hstate] at hreturned
        contradiction
  constructor
  · rintro ⟨actions', e, sendNow, scanNow, hrun', hdone⟩ q hq
    obtain ⟨hbegun', hback⟩ := ackAtHand_run hheap hearly hbegun hfinished hrun'
    exact hback q (Or.inl (acknowledged_of_done hbegun' hdone hq))
  · intro hall
    obtain ⟨actions', e, hrun', hfinishing, hcounted⟩ :=
      acknowledged_of_atHand hheap hearly link ⟨hbegun, hactive, hall⟩
    exact ⟨actions', e, 0, 0, hrun',
      done_of_acknowledged hfinishing.begun hfinishing.active hcounted 0 0⟩

/-- The announcement and the only chunk have arrived: the file is saved, and its one
acknowledgement is on its way. -/
def savedDownload : Download :=
  (sevenDownload.arrive .little sevenEnv sevenLocation (buildFileStart .little 1 1)).arrive
    .little sevenEnv sevenLocation (oneByteFile.packet .little 0)

/-- The owner can report the file as done, and no longer when that acknowledgement is lost. -/
theorem done_after_return_lost :
    savedDownload.state.returned = some ⟨0, some ([97], [7])⟩ ∧
    (∃ actions e sendNow scanNow,
      Run (DownloadStep .little ⟨3, 0, 1⟩ sevenEnv sevenLocation) savedDownload actions e ∧
        ReportsDone .little e sendNow scanNow) ∧
    ¬ ∃ actions e sendNow scanNow,
      Run (DownloadStep .little ⟨3, 0, 1⟩ sevenEnv sevenLocation)
          { savedDownload with toOwner := savedDownload.toOwner.erase (buildAckPacket .little 0) }
          actions e ∧
        ReportsDone .little e sendNow scanNow := by
  have hsaved : savedDownload.state.returned = some ⟨0, some ([97], [7])⟩ := by decide +kernel
  have hactive : savedDownload.owner.transferActive = true := by decide +kernel
  have hchunks : savedDownload.owner.globalSender.numChunks = 1 := by decide +kernel
  have hflying : savedDownload.toOwner = [buildAckPacket .little 0] := by decide +kernel
  have hcounted : ¬ Acknowledged savedDownload.owner.globalSender 0 := by
    unfold Acknowledged
    decide +kernel
  have hrun : Run (DownloadStep .little ⟨3, 0, 1⟩ sevenEnv sevenLocation) sevenDownload
      [.arrive (buildFileStart .little 1 1), .arrive (oneByteFile.packet .little 0)]
      savedDownload :=
    Run.snoc (Run.single (.arrive sevenDownload _ (by decide +kernel)))
      (.arrive _ _ (by decide +kernel))
  refine ⟨hsaved, ?_, ?_⟩
  · refine (done_after_return_iff sevenRequest_granted rfl (by decide) (by decide) rfl hrun
      hactive hsaved).mpr fun q hq => Or.inr ?_
    rw [hchunks] at hq
    rw [hflying, Nat.lt_one_iff.mp hq]
    exact List.mem_singleton_self _
  · intro hdone
    have hlost := (done_after_return_iff sevenRequest_granted rfl (by decide) (by decide) rfl
      (Run.snoc hrun (.loseToOwner savedDownload (buildAckPacket .little 0))) hactive hsaved).mp
        hdone
    rcases hlost 0 (by rw [hchunks]; exact Nat.zero_lt_one) with hold | hmem
    · exact hcounted hold
    · rw [hflying, List.erase_cons_head] at hmem
      exact List.not_mem_nil hmem

end Client
end PeerShare
