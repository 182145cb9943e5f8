import PeerShare.Client.RunningTransfer
import PeerShare.SelectiveRepeat.Retransmission
import Mathlib.Algebra.BigOperators.Group.Finset.Basic

/-!
# What a request can make the owner send

A request of 52 bytes sets off a whole file.  How much the owner sends for it is bounded,
whatever else arrives: the announcement, and every chunk at most `1 + MAX_RETRIES` times.
Nothing is sent to an address that has not asked, and a request that overwrites a running
transfer ends what its predecessor may still send.

Everything that is sent is charged to a request, by the address it came from.  The log of
the running transfer carries the bound; behind its end the sums are all that is left of it.
-/

namespace PeerShare
namespace Client

open Foundation Wire SelectiveRepeat

/-- The datagrams that a request accounts for, by the way its branch is left. -/
def requestCost (env : RequestEnv) : RequestExit → Nat
  | .started => 1 + (1 + maxRetries) * ((env.readBytes.length + chunkSize - 1) / chunkSize)
  -- the announcement has left before anything else can fail
  | .noMemory | .shortRead | .initFailed => 1
  | _ => 0

/-- The owner, what it has sent, and what the requests of each address account for. -/
structure Traffic where
  owner : Owner
  sent : List (SockAddr × Bytes)
  charged : SockAddr → Nat

/-- The datagrams sent to an address. -/
def sentTo (addr : SockAddr) (sent : List (SockAddr × Bytes)) : Nat :=
  sent.countP fun item => item.1 = addr

namespace Traffic

def initial : Traffic where
  owner := Owner.initial
  sent := []
  charged := fun _ => 0

/-- What an event adds to the account of an address. -/
def charge (host : ByteOrder) (link : LossyLink) (owner : Owner) (addr : SockAddr) :
    OwnerEvent → Nat
  | .datagram (some (peer, packet)) env now =>
      if addr = peer ∧ udpHeaderSize ≤ packet.bytes.length ∧
          (UdpHeader.ofImage host packet.bytes).msgType = udpRequestFile then
        requestCost env (handleRequest host link owner peer packet env now).2
      else
        0
  | _ => 0

def apply (host : ByteOrder) (link : LossyLink) (t : Traffic) (event : OwnerEvent) : Traffic where
  owner := (t.owner.apply host link event).owner
  sent := t.sent ++ (t.owner.apply host link event).sent
  charged := fun addr => t.charged addr + charge host link t.owner addr event

end Traffic

def TrafficStep (host : ByteOrder) (link : LossyLink) (t : Traffic) (event : OwnerEvent)
    (t' : Traffic) : Prop :=
  t' = t.apply host link event

/-! ## Counting datagrams -/

section Counting

variable {host : ByteOrder} {file : FileImage}

theorem sentTo_append (addr : SockAddr) (first second : List (SockAddr × Bytes)) :
    sentTo addr (first ++ second) = sentTo addr first + sentTo addr second :=
  List.countP_append

/-- What goes to one address. -/
theorem sentTo_map (addr peer : SockAddr) (packets : List Bytes) :
    sentTo addr (packets.map fun data => (peer, data)) =
      if peer = addr then packets.length else 0 := by
  induction packets with
  | nil => simp [sentTo]
  | cons packet rest ih =>
      unfold sentTo at ih ⊢
      rw [List.map_cons, List.countP_cons, ih]
      by_cases hpeer : peer = addr <;> simp [hpeer]

/-- Every datagram in a log carries a chunk. -/
theorem length_transmittedChunks {acts : List SenderAct} {packets : List Bytes} {now : UInt64}
    (hpackets : ∀ packet ∈ packets, ∃ q < file.numChunks, packet = file.packet host q) :
    (transmittedChunks host (acts ++ packets.map fun packet => .transmitted packet now)).length =
      (transmittedChunks host acts).length + packets.length := by
  rw [transmittedChunks_append, List.length_append, Nat.add_left_cancel_iff]
  induction packets with
  | nil => rfl
  | cons packet rest ih =>
      obtain ⟨q, hq, rfl⟩ := hpackets packet List.mem_cons_self
      have hrest := ih fun other hother => hpackets other (List.mem_cons_of_mem _ hother)
      unfold transmittedChunks at hrest ⊢
      rw [List.map_cons, List.filterMap_cons_some (chunk_transmitted hq host now),
        List.length_cons, List.length_cons, hrest]

/-- What a call of the sender hands to the link, by the log behind the call. -/
theorem length_of_logged {sender : Sender} {acts : List SenderAct} {packets : List Bytes}
    {now : UInt64} {acked : Finset Nat}
    (hlog : LogInv host file
      ⟨sender, acts ++ packets.map fun packet => .transmitted packet now⟩ acked) :
    (transmittedChunks host (acts ++ packets.map fun packet => .transmitted packet now)).length =
      (transmittedChunks host acts).length + packets.length := by
  refine length_transmittedChunks fun packet hpacket => hlog.faithful packet now ?_
  exact List.mem_append_right _ (List.mem_map.mpr ⟨packet, hpacket, rfl⟩)

/-- A log has each of the chunks at most `1 + MAX_RETRIES` times. -/
theorem length_transmittedChunks_le {log : SenderLog} {acked : Finset Nat}
    (hlog : LogInv host file log acked) :
    (transmittedChunks host log.acts).length ≤ (1 + maxRetries) * file.numChunks := by
  have hmem : ∀ q ∈ (transmittedChunks host log.acts : Multiset Nat),
      q ∈ Finset.range file.numChunks := by
    intro q hq
    exact Finset.mem_range.mpr (hlog.sent_lt ((hlog.sent q).mp (Multiset.mem_coe.mp hq)))
  have hsum : ∑ q ∈ Finset.range file.numChunks, (transmittedChunks host log.acts).count q =
      (transmittedChunks host log.acts).length :=
    by simpa using Multiset.sum_count_eq_card hmem
  rw [← hsum]
  calc ∑ q ∈ Finset.range file.numChunks, (transmittedChunks host log.acts).count q
      ≤ (Finset.range file.numChunks).card • (1 + maxRetries) :=
        Finset.sum_le_card_nsmul _ _ _ fun q _ => hlog.tally_le q
    _ = (1 + maxRetries) * file.numChunks := by
        rw [Finset.card_range, smul_eq_mul, Nat.mul_comm]

/-- A file has no more chunks than its bytes fill. -/
theorem numChunks_le (file : FileImage) :
    file.numChunks ≤ (file.data.length + chunkSize - 1) / chunkSize := by
  have hsize := file.size_le
  unfold FileImage.numChunks u32 chunkSize
  omega

end Counting

/-! ## The account of a running transfer -/

/-- The transfer to `peer` may still send what its log leaves of its charge. -/
def Covered (host : ByteOrder) (sender : Sender) (sent charged : Nat) : Prop :=
  ∃ file acts acked before, LogInv host file ⟨sender, acts⟩ acked ∧
    sent ≤ before + (transmittedChunks host acts).length ∧
    before + (1 + maxRetries) * file.numChunks ≤ charged

/-- No address has got more than its requests account for, and while a transfer runs, what
is still to come is accounted for too. -/
structure TrafficInv (host : ByteOrder) (t : Traffic) : Prop where
  bounded : ∀ addr, sentTo addr t.sent ≤ t.charged addr
  running : t.owner.transferActive = true →
    Covered host t.owner.globalSender (sentTo t.owner.globalSender.peerAddr t.sent)
      (t.charged t.owner.globalSender.peerAddr)

section Steps

variable {host : ByteOrder} {link : LossyLink} {t t' : Traffic}

theorem Covered.bounded {sender : Sender} {sent charged : Nat}
    (h : Covered host sender sent charged) : sent ≤ charged := by
  obtain ⟨file, acts, acked, before, hlog, hsent, hcharged⟩ := h
  have hle := length_transmittedChunks_le hlog
  simp only at hle
  omega

/-- One call of the driver for each half of it. -/
theorem Covered.drive {sender : Sender} {sent charged : Nat}
    (h : Covered host sender sent charged) (sendNow scanNow : UInt64) :
    let window := srSenderSendWindow host sender sendNow
    let scan := srSenderCheckTimeouts host window.sender scanNow
    scan.sender.peerAddr = sender.peerAddr ∧
      Covered host scan.sender (sent + (window.packets ++ scan.packets).length) charged := by
  obtain ⟨file, acts, acked, before, hlog, hsent, hcharged⟩ := h
  have hwindow := hlog.keeps_sendWindow sendNow
  have hscan := hwindow.keeps_checkTimeouts scanNow
  obtain ⟨hpeer, -⟩ := drive_sender hlog.inv hlog.settled host sendNow scanNow
  refine ⟨hpeer, file, _, acked, before, hscan, ?_, hcharged⟩
  have hfirst := length_of_logged hwindow
  have hsecond := length_of_logged hscan
  simp only [SenderLog.record, SenderOp.acts, SenderOp.next] at hfirst hsecond ⊢
  rw [hsecond, hfirst, List.length_append]
  omega

/-- An acknowledgement sends nothing. -/
theorem Covered.handleAck {sender : Sender} {sent charged : Nat}
    (h : Covered host sender sent charged) (hdr : UdpHeader) :
    (srSenderHandleAck host sender hdr).peerAddr = sender.peerAddr ∧
      Covered host (srSenderHandleAck host sender hdr) sent charged := by
  obtain ⟨file, acts, acked, before, hlog, hsent, hcharged⟩ := h
  obtain ⟨-, -, -, hpeer⟩ := hlog.inv.handleAck_spec hlog.settled host hdr
  refine ⟨hpeer, file, _, _, before, hlog.keeps_handleAck hdr, ?_, hcharged⟩
  simp only [SenderOp.acts, transmittedChunks_append, List.length_append]
  omega

/-- The account of a fresh transfer: the announcement and the first window have left. -/
theorem covered_granted {owner : Owner} {peer : SockAddr} {packet : Datagram} {env : RequestEnv}
    {now : UInt64} (hgranted : RequestGranted host owner.table packet env) {sent charged : Nat}
    (hle : sent ≤ charged) :
    let result := handleRequest host link owner peer packet env now
    result.1.owner.globalSender.peerAddr = peer ∧
      (∀ addr, sentTo addr result.1.sent = if peer = addr then result.1.sent.length else 0) ∧
      Covered host result.1.owner.globalSender (sent + result.1.sent.length)
        (charged + requestCost env result.2) := by
  obtain ⟨actualSize, hend, hread⟩ := hgranted.opened
  obtain ⟨file, hdata, hsize⟩ := exists_fileImage hread
  obtain ⟨sender, hinit, hpeer, hinv, hsettled⟩ := srSenderInit_inv peer link file
  have hnext : sender.nextSeq = 0 := by
    cases hinit
    rfl
  have hfresh : LogInv host file ⟨sender, []⟩ ∅ := LogInv.of_fresh hinv hsettled hnext
  have hlog := hfresh.keeps_sendWindow now
  obtain ⟨-, hsame, -⟩ := hinv.sendWindow_spec host now
  have hwindow := length_of_logged hlog
  have hchunks := numChunks_le file
  rw [handleRequest_eq_started hgranted hend hdata hsize hinit now]
  simp only [hsame, hpeer, true_and]
  constructor
  · intro addr
    rw [← List.map_cons (f := fun data => (peer, data)), sentTo_map, List.length_map]
  · refine ⟨file, _, ∅, sent + 1, hlog, ?_, ?_⟩
    · simp only [SenderOp.acts] at hwindow ⊢
      rw [hwindow]
      simp only [List.length_cons, List.length_map, transmittedChunks, List.filterMap_nil,
        List.length_nil]
      omega
    · rw [hdata] at hchunks
      have hall : (1 + maxRetries) * file.numChunks ≤
          (1 + maxRetries) * ((env.readBytes.length + chunkSize - 1) / chunkSize) :=
        Nat.mul_le_mul_left _ hchunks
      simp only [requestCost]
      omega

/-- A request that is not granted has at most sent the announcement. -/
theorem sentTo_refused {owner : Owner} {peer : SockAddr} {packet : Datagram} {env : RequestEnv}
    {now : UInt64} (hrefused : ¬ RequestGranted host owner.table packet env) (addr : SockAddr) :
    sentTo addr (handleRequest host link owner peer packet env now).1.sent ≤
      if addr = peer then requestCost env (handleRequest host link owner peer packet env now).2
      else 0 := by
  obtain ⟨packets, hsent, hcost⟩ : ∃ packets : List Bytes,
      (handleRequest host link owner peer packet env now).1.sent =
          packets.map (fun data => (peer, data)) ∧
        packets.length ≤ requestCost env (handleRequest host link owner peer packet env now).2 := by
    unfold handleRequest
    cases hfile : requestedFile host owner.table packet with
    | error exit => exact ⟨[], rfl, Nat.zero_le _⟩
    | ok file =>
        obtain ⟨hlength, hdataLen, hlisted, hhash⟩ := requestedFile_eq_ok_iff.mp hfile
        cases hend : env.fileEnd with
        | none => exact ⟨[], rfl, Nat.zero_le _⟩
        | some actualSize =>
            simp only
            split
            · exact ⟨[], rfl, Nat.zero_le _⟩
            · next hposted =>
                split
                · exact ⟨[_], rfl, le_rfl⟩
                · next hallocated =>
                    split
                    · exact ⟨[_], rfl, le_rfl⟩
                    · next hread =>
                        exact absurd ⟨hlength, hdataLen, ⟨file, hlisted, hhash⟩,
                          ⟨actualSize, hend, not_not.mp hread⟩, not_le.mp hposted,
                          Bool.not_eq_false _ ▸ hallocated⟩ hrefused
  rw [hsent, sentTo_map]
  by_cases hpeer : addr = peer
  · rw [if_pos hpeer.symm, if_pos hpeer]
    exact hcost
  · rw [if_neg (Ne.symm hpeer), if_neg hpeer]

/-- A state whose running transfer is covered, and with it the address it goes to. -/
theorem trafficInv_of_covered
    (hother : ∀ addr, addr ≠ t.owner.globalSender.peerAddr → sentTo addr t.sent ≤ t.charged addr)
    (hcovered : Covered host t.owner.globalSender (sentTo t.owner.globalSender.peerAddr t.sent)
      (t.charged t.owner.globalSender.peerAddr)) : TrafficInv host t := by
  refine ⟨?_, fun _ => hcovered⟩
  intro addr
  by_cases haddr : addr = t.owner.globalSender.peerAddr
  · rw [haddr]
    exact hcovered.bounded
  · exact hother addr haddr

/-- The driver sends to the peer of the running transfer. -/
theorem trafficInv_driver (h : TrafficInv host t) (sendNow scanNow : UInt64) :
    TrafficInv host (t.apply host link (.driver sendNow scanNow)) := by
  obtain ⟨owner, sent, charged⟩ := t
  obtain ⟨hbounded, hrunning⟩ := h
  simp only at hbounded hrunning
  by_cases hactive : owner.transferActive = true
  swap
  · have hidle : drive host owner sendNow scanNow = ⟨owner, [], false⟩ := by
      rw [drive, if_neg hactive]
    simp only [Traffic.apply, Owner.apply, hidle, List.append_nil, Traffic.charge, Nat.add_zero]
    exact ⟨hbounded, hrunning⟩
  obtain ⟨hpeer, hcovered⟩ := (hrunning hactive).drive sendNow scanNow
  have hsent : (drive host owner sendNow scanNow).sent =
      ((srSenderSendWindow host owner.globalSender sendNow).packets ++
        (srSenderCheckTimeouts host (srSenderSendWindow host owner.globalSender sendNow).sender
          scanNow).packets).map fun data => (owner.globalSender.peerAddr, data) := by
    rw [drive, if_pos hactive]
    simp only [hpeer]
    split
    · rfl
    · split <;> rfl
  apply trafficInv_of_covered
  · intro addr haddr
    simp only [Traffic.apply, Owner.apply, drive_globalSender hactive, hpeer] at haddr ⊢
    rw [sentTo_append, hsent, sentTo_map, if_neg (Ne.symm haddr)]
    exact hbounded addr
  · simp only [Traffic.apply, Owner.apply, drive_globalSender hactive, hpeer]
    rw [sentTo_append, hsent, sentTo_map, if_pos rfl]
    exact hcovered

/-- A datagram is charged to where it came from; what is sent for it goes there too. -/
theorem trafficInv_datagram (h : TrafficInv host t) (reception : Reception) (env : RequestEnv)
    (now : UInt64) : TrafficInv host (t.apply host link (.datagram reception env now)) := by
  obtain ⟨owner, sent, charged⟩ := t
  rcases reception with _ | ⟨peer, packet⟩
  · simpa [Traffic.apply, Owner.apply, receiveDatagram, Traffic.charge] using h
  by_cases hshort : packet.bytes.length < udpHeaderSize
  · have hnone : ¬ udpHeaderSize ≤ packet.bytes.length := not_le.mpr hshort
    simpa [Traffic.apply, Owner.apply, receiveDatagram, hshort, Traffic.charge, hnone] using h
  obtain ⟨hbounded, hrunning⟩ := h
  simp only at hbounded hrunning
  by_cases hrequest : (UdpHeader.ofImage host packet.bytes).msgType = udpRequestFile
  · have hcharge : ∀ addr, Traffic.charge host link owner addr
        (.datagram (some (peer, packet)) env now) = if addr = peer then
          requestCost env (handleRequest host link owner peer packet env now).2 else 0 := by
      intro addr
      simp only [Traffic.charge, not_lt.mp hshort, hrequest, and_true]
    have hresult : owner.apply host link (.datagram (some (peer, packet)) env now) =
        (handleRequest host link owner peer packet env now).1 := by
      simp only [Owner.apply, receiveDatagram, if_neg hshort, if_pos hrequest]
    by_cases hgranted : RequestGranted host owner.table packet env
    · obtain ⟨hpeer, hsent, hcovered⟩ :=
        @covered_granted host link owner peer packet env now hgranted _ _ (hbounded peer)
      apply trafficInv_of_covered
      · intro addr haddr
        simp only [Traffic.apply, hresult, hpeer, hcharge] at haddr ⊢
        rw [sentTo_append, hsent, if_neg (Ne.symm haddr), if_neg haddr]
        exact hbounded addr
      · simp only [Traffic.apply, hresult, hpeer, hcharge]
        rw [sentTo_append, hsent, if_pos rfl, if_true]
        exact hcovered
    · have hsame := (handleRequest_of_refused hgranted link peer now).1
      refine ⟨?_, ?_⟩
      · intro addr
        simp only [Traffic.apply, hresult, hcharge]
        rw [sentTo_append]
        exact Nat.add_le_add (hbounded addr) (sentTo_refused hgranted addr)
      · intro hactive
        simp only [Traffic.apply, hresult, hsame, hcharge] at hactive ⊢
        obtain ⟨file, acts, acked, before, hlog, hcount, hcharged⟩ := hrunning hactive
        -- the new announcement belongs to the new charge
        have hnew := @sentTo_refused host link owner peer packet env now hgranted
          owner.globalSender.peerAddr
        refine ⟨file, acts, acked, before + sentTo owner.globalSender.peerAddr
          (handleRequest host link owner peer packet env now).1.sent, hlog, ?_, ?_⟩
        · rw [sentTo_append]
          omega
        · omega
  · have hcharge : ∀ addr, Traffic.charge host link owner addr
        (.datagram (some (peer, packet)) env now) = 0 := by
      intro addr
      simp only [Traffic.charge, hrequest, and_false, if_false]
    simp only [Traffic.apply, Owner.apply, receiveDatagram, if_neg hshort, if_neg hrequest, hcharge,
      Nat.add_zero]
    split
    · unfold handleAck
      split
      · next hactive =>
          obtain ⟨hpeer, hcovered⟩ := (hrunning hactive).handleAck
            (UdpHeader.ofImage host packet.bytes)
          refine ⟨by simpa using hbounded, ?_⟩
          intro _
          simpa [hpeer] using hcovered
      · simpa using ⟨hbounded, hrunning⟩
    · simpa using ⟨hbounded, hrunning⟩

theorem trafficInv_step (h : TrafficInv host t) {event : OwnerEvent}
    (hstep : TrafficStep host link t event t') : TrafficInv host t' := by
  rw [hstep]
  cases event with
  | shared fileId fileSize hash filename =>
      obtain ⟨owner, sent, charged⟩ := t
      obtain ⟨hbounded, hrunning⟩ := h
      refine ⟨?_, ?_⟩
      · intro addr
        simpa [Traffic.apply, Owner.apply, Traffic.charge] using hbounded addr
      · intro hactive
        simpa [Traffic.apply, Owner.apply, Traffic.charge] using hrunning hactive
  | driver sendNow scanNow => exact trafficInv_driver h sendNow scanNow
  | datagram reception env now => exact trafficInv_datagram h reception env now

end Steps

/-- In every run of the owner's loop, whatever arrives and from whom: no address is sent more
datagrams than the requests that came from it account for, `1` for an announcement and
`1 + MAX_RETRIES` for each chunk of a file that was read for it. -/
theorem traffic_charged {host : ByteOrder} {link : LossyLink} {events : List OwnerEvent}
    {t : Traffic} (hrun : Run (TrafficStep host link) Traffic.initial events t)
    (addr : SockAddr) : sentTo addr t.sent ≤ t.charged addr := by
  have hinv : TrafficInv host t :=
    hrun.invariant (fun _ _ _ h hstep => trafficInv_step h hstep)
      ⟨fun _ => le_rfl, fun hactive => absurd hactive (by decide)⟩
  exact hinv.bounded addr

/-- A file of one byte is shared and asked for, and its chunk is sent again at 600. -/
def chargedTraffic : Traffic :=
  [OwnerEvent.shared 1 1 (HashBytes.ofImage []) [97],
    .datagram (some (⟨1, 1⟩, requestOne)) oneByteEnv 0, .driver 600 600].foldl
    (Traffic.apply .little ⟨3, 0, 1⟩) Traffic.initial

/-- Three of the twelve datagrams have been sent. -/
theorem traffic_charged_one_byte :
    sentTo ⟨1, 1⟩ chargedTraffic.sent = 3 ∧ chargedTraffic.charged ⟨1, 1⟩ = 12 ∧
      sentTo ⟨1, 1⟩ chargedTraffic.sent ≤ chargedTraffic.charged ⟨1, 1⟩ := by
  have hrun : Run (TrafficStep .little ⟨3, 0, 1⟩) Traffic.initial _ chargedTraffic :=
    ((Run.single rfl).snoc rfl).snoc rfl
  exact ⟨by decide +kernel, by decide +kernel, traffic_charged hrun ⟨1, 1⟩⟩

end Client
end PeerShare
