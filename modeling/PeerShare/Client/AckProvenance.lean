import PeerShare.Client.Exchange

/-!
# Where counted acknowledgements come from

In an orderly run, one in which no datagram of one transfer is taken for one of
another, every chunk that the global sender has counted was stored by the peer
it is serving, with the bytes of the file it is sending.  The invariant follows
a chunk through the three places it passes: data of the current transfer in
flight carries chunks of the current file, records of the current transfer hold
them, and every acknowledgement in flight has a record behind it.

Nothing in the program enforces the order.  The last section gives a run in
which the acknowledgement of one peer is counted for another.
-/

namespace PeerShare
namespace Client

open Foundation Wire SelectiveRepeat

/-- Everything the receiver of a session holds is on record under the session's
peer and transfer. -/
structure SessionInv (peer : SockAddr) (transfer : Nat) (stored : List StoredChunk)
    (receiver : Receiver) (held : Finset Nat) (content : Nat → Bytes) : Prop where
  inv : ReceiverInv receiver held content
  settled : receiver.base ∉ held
  recorded : ∀ q ∈ held, ⟨peer, transfer, q, content q⟩ ∈ stored

/-- The invariant of an exchange whose global sender sends `file` and has
counted `acked`. -/
structure ExchangeInv (host : ByteOrder) (file : FileImage) (s : Exchange)
    (acked : Finset Nat) : Prop where
  sender : SenderInv file s.owner.globalSender acked
  settled : Settled s.owner.globalSender acked
  current_le : s.current ≤ s.received
  flying_le : ∀ flying ∈ s.toPeers, flying.transfer ≤ s.received
  stored_le : ∀ record ∈ s.stored, record.transfer ≤ s.received
  session_le : ∀ peer session, s.peers peer = some session → session.transfer ≤ s.received
  data : ∀ flying ∈ s.toPeers, flying.transfer = s.current → ∀ q payload,
    decodeData host (Datagram.recv flying.bytes).bytes = some (q, payload) →
      payload = file.chunk q
  records : ∀ record ∈ s.stored, record.transfer = s.current →
    record.payload = file.chunk record.chunk
  counted : ∀ k ∈ acked,
    ⟨s.owner.globalSender.peerAddr, s.current, k, file.chunk k⟩ ∈ s.stored
  acks : ∀ flying ∈ s.toOwner, HasType host (Datagram.recv flying.bytes) udpAck →
    ∃ k payload, k < 2 ^ 32 ∧ flying.bytes = buildAckPacket host k ∧
      ⟨flying.peer, flying.transfer, k, payload⟩ ∈ s.stored
  sessions : ∀ peer session receiver, s.peers peer = some session →
    session.state = .receiving receiver →
    ∃ held content, SessionInv peer session.transfer s.stored receiver held content

/-! ## Facts about single datagrams -/

theorem decodeData_buildFileStart (host : ByteOrder) (fileSize numChunks : Nat) :
    decodeData host (Datagram.recv (buildFileStart host fileSize numChunks)).bytes = none := by
  have hwhole : (Datagram.recv (buildFileStart host fileSize numChunks)).bytes =
      buildFileStart host fileSize numChunks := by
    apply Datagram.recv_bytes
    simp [buildFileStart, chunkSize]
  cases hdecode : decodeData host (buildFileStart host fileSize numChunks) with
  | none => rw [hwhole, hdecode]
  | some chunk =>
      obtain ⟨-, -, htype, -⟩ := decodeData_eq_some hdecode
      rw [buildFileStart, msgType_sealPacket] at htype
      change udpFileStart = udpData at htype
      exact absurd htype (by decide)

theorem recv_packet (host : ByteOrder) (file : FileImage) (q : Nat) :
    (Datagram.recv (file.packet host q)).bytes = file.packet host q := by
  apply Datagram.recv_bytes
  have hlen := file.chunk_length_le q
  rw [FileImage.packet, buildDataPacket_length host q le_rfl]
  omega

/-- A request is no acknowledgement. -/
theorem not_hasType_buildRequestFile (host : ByteOrder) (fileId : Nat) (hash : HashBytes) :
    ¬ HasType host (Datagram.recv (buildRequestFile host fileId hash)) udpAck := by
  have hwhole : (Datagram.recv (buildRequestFile host fileId hash)).bytes =
      buildRequestFile host fileId hash := by
    apply Datagram.recv_bytes
    simp [buildRequestFile, chunkSize, hash.length_eq]
  unfold HasType
  rw [hwhole, buildRequestFile, msgType_sealPacket]
  show ¬ udpRequestFile = udpAck
  decide

theorem recv_buildAckPacket (host : ByteOrder) (k : Nat) :
    (Datagram.recv (buildAckPacket host k)).bytes = buildAckPacket host k := by
  apply Datagram.recv_bytes
  rw [buildAckPacket_length]
  exact Nat.le_add_right _ _

/-- Everything marked is counted. -/
theorem marked_mem {file : FileImage} {sender : Sender} {acked : Finset Nat}
    (hinv : SenderInv file sender acked) {k : Nat} (hmarked : Marked sender k) :
    k ∈ acked := by
  rcases hmarked with hbelow | ⟨hlow, hhigh, hstate, -⟩
  · exact hinv.below_base k hbelow
  · by_contra hmem
    rw [(hinv.live k hlow hhigh).state, if_neg hmem] at hstate
    contradiction

theorem sentChunk_eq {file : FileImage} {sender : Sender} {acked : Finset Nat}
    (hinv : SenderInv file sender acked) (k : Nat) :
    sentChunk sender k = file.chunk k := by
  rw [sentChunk, hinv.fileData, hinv.fileSize, FileImage.chunk, FileImage.contents]

theorem exchangeInv_initial (host : ByteOrder) :
    ∃ file acked, ExchangeInv host file Exchange.initial acked := by
  obtain ⟨file, acked, hinv, hsettled⟩ := ownerInv_initial
  have hnone : ∀ k, k ∉ acked := by
    intro k hk
    exact absurd (hinv.acked_lt k hk) (Nat.not_lt_zero k)
  exact ⟨file, acked,
    { sender := hinv
      settled := hsettled
      current_le := le_rfl
      flying_le := by simp [Exchange.initial]
      stored_le := by simp [Exchange.initial]
      session_le := by simp [Exchange.initial]
      data := by simp [Exchange.initial]
      records := by simp [Exchange.initial]
      counted := fun k hk => absurd hk (hnone k)
      acks := by simp [Exchange.initial]
      sessions := by simp [Exchange.initial] }⟩

/-! ## Peers -/

/-- A longer record keeps the invariant of a session. -/
theorem SessionInv.mono {peer : SockAddr} {transfer : Nat} {stored : List StoredChunk}
    {receiver : Receiver} {held : Finset Nat} {content : Nat → Bytes}
    (hinv : SessionInv peer transfer stored receiver held content)
    (more : List StoredChunk) :
    SessionInv peer transfer (stored ++ more) receiver held content :=
  { hinv with recorded := fun q hq => List.mem_append_left _ (hinv.recorded q hq) }

/-- One datagram: what is stored goes on record, and what is acknowledged is
held. -/
theorem SessionInv.handleData {peer : SockAddr} {transfer : Nat}
    {stored : List StoredChunk} {receiver : Receiver} {held : Finset Nat}
    {content : Nat → Bytes} (hinv : SessionInv peer transfer stored receiver held content)
    (host : ByteOrder) (packet : Datagram) :
    ∃ held' content',
      SessionInv peer transfer
        (stored ++ (storedNow host receiver packet).toList.map fun chunk =>
          ⟨peer, transfer, chunk.1, chunk.2⟩)
        (srReceiverHandleData host receiver packet.bytes).receiver held' content' ∧
      ∀ ack ∈ (srReceiverHandleData host receiver packet.bytes).acks,
        ∃ k ∈ held', k < 2 ^ 32 ∧ ack = buildAckPacket host k := by
  cases haccepts : accepts host receiver packet.bytes with
  | none =>
      rw [handleData_of_rejected haccepts]
      exact ⟨held, content, hinv.mono _, by simp⟩
  | some chunk =>
      obtain ⟨q, payload⟩ := chunk
      have hsmall : q < 2 ^ 32 := decodeData_seq_lt (accepts_eq_some haccepts).1
      -- a chunk that is held already is only acknowledged once more
      by_cases hmem : q ∈ held
      · rw [hinv.inv.handleData_of_stored hinv.settled haccepts hmem]
        refine ⟨held, content, hinv.mono _, ?_⟩
        intro ack hack
        exact ⟨q, hmem, hsmall, List.mem_singleton.mp hack⟩
      · obtain ⟨hrec, hgap, -, -, -, -, -, hacks, -⟩ :=
          hinv.inv.handleData_of_new haccepts hmem (payload_length_le haccepts)
        have hstored : storedNow host receiver packet = some (q, payload) := by
          simp [storedNow, haccepts, hinv.inv.storesChunk_of_new haccepts hmem]
        -- the record grows by this one chunk, under the number of the session
        refine ⟨insert q held, Function.update content q payload, ⟨hrec, hgap, ?_⟩, ?_⟩
        · intro k hk
          rw [hstored]
          by_cases heq : k = q
          · subst heq
            simp
          · have hk' := Finset.mem_of_mem_insert_of_ne hk heq
            rw [Function.update_of_ne heq]
            exact List.mem_append_left _ (hinv.recorded k hk')
        · intro ack hack
          rw [hacks] at hack
          exact ⟨q, Finset.mem_insert_self q held, hsmall, List.mem_singleton.mp hack⟩

/-- What is stored was carried by the datagram. -/
theorem storedNow_decode {host : ByteOrder} {receiver : Receiver} {packet : Datagram}
    {chunk : Nat × Bytes} (hstored : storedNow host receiver packet = some chunk) :
    decodeData host packet.bytes = some chunk := by
  unfold storedNow at hstored
  have haccepts := (Option.filter_eq_some_iff.mp hstored).1
  exact (accepts_eq_some haccepts).1

section Steps

variable {host : ByteOrder} {file : FileImage} {s : Exchange} {acked : Finset Nat}

/-- A peer moves on: its session changes, it may store chunks and it may send
datagrams. -/
theorem ExchangeInv.keeps_session (hinv : ExchangeInv host file s acked) {peer : SockAddr}
    {session : Session} {more : List StoredChunk} {sent : List Flying}
    (hle : session.transfer ≤ s.received)
    (hmore_le : ∀ record ∈ more, record.transfer ≤ s.received)
    (hmore : ∀ record ∈ more, record.transfer = s.current →
      record.payload = file.chunk record.chunk)
    (hsent : ∀ flying ∈ sent, HasType host (Datagram.recv flying.bytes) udpAck →
      ∃ k payload, k < 2 ^ 32 ∧ flying.bytes = buildAckPacket host k ∧
        ⟨flying.peer, flying.transfer, k, payload⟩ ∈ s.stored ++ more)
    (hreceiving : ∀ receiver, session.state = .receiving receiver →
      ∃ held content,
        SessionInv peer session.transfer (s.stored ++ more) receiver held content) :
    ExchangeInv host file
      { s with
        peers := Function.update s.peers peer (some session)
        toOwner := s.toOwner ++ sent
        stored := s.stored ++ more } acked := by
  refine
    { hinv with
      stored_le := ?_
      session_le := ?_
      records := ?_
      counted := fun k hk => List.mem_append_left _ (hinv.counted k hk)
      acks := ?_
      sessions := ?_ }
  · intro record hrecord
    rcases List.mem_append.mp hrecord with hold | hnew
    · exact hinv.stored_le record hold
    · exact hmore_le record hnew
  · intro other session' hsession'
    change Function.update s.peers peer (some session) other = some session' at hsession'
    by_cases heq : other = peer
    · subst heq
      rw [Function.update_self] at hsession'
      rw [← Option.some.inj hsession']
      exact hle
    · rw [Function.update_of_ne heq] at hsession'
      exact hinv.session_le other session' hsession'
  · intro record hrecord hcurrent
    rcases List.mem_append.mp hrecord with hold | hnew
    · exact hinv.records record hold hcurrent
    · exact hmore record hnew hcurrent
  · intro flying hflying htype
    rcases List.mem_append.mp hflying with hold | hnew
    · obtain ⟨k, payload, hk, hbytes, hrecord⟩ := hinv.acks flying hold htype
      exact ⟨k, payload, hk, hbytes, List.mem_append_left _ hrecord⟩
    · exact hsent flying hnew htype
  · intro other session' receiver hsession' hstate
    change Function.update s.peers peer (some session) other = some session' at hsession'
    by_cases heq : other = peer
    · subst heq
      rw [Function.update_self] at hsession'
      rw [← Option.some.inj hsession'] at hstate ⊢
      exact hreceiving receiver hstate
    · rw [Function.update_of_ne heq] at hsession'
      obtain ⟨held, content, hold⟩ := hinv.sessions other session' receiver hsession' hstate
      exact ⟨held, content, hold.mono more⟩

/-- A peer calls `get`: it sends nothing that is an acknowledgement. -/
theorem ExchangeInv.keeps_startGet (hinv : ExchangeInv host file s acked) (peer : SockAddr)
    (location : FileLocation) (env : GetEnv) {sent : List Flying}
    (hsent : ∀ flying ∈ sent, ¬ HasType host (Datagram.recv flying.bytes) udpAck) :
    ExchangeInv host file
      { s with
        peers := Function.update s.peers peer (some ⟨location, env, .awaitingStart, 0⟩)
        toOwner := s.toOwner ++ sent } acked := by
  have hkept : ExchangeInv host file
      { s with
        peers := Function.update s.peers peer (some ⟨location, env, .awaitingStart, 0⟩)
        toOwner := s.toOwner ++ sent
        stored := s.stored ++ [] } acked := by
    apply hinv.keeps_session
    · exact Nat.zero_le _
    · simp
    · simp
    · intro flying hflying htype
      exact absurd htype (hsent flying hflying)
    · simp
  simpa only [List.append_nil] using hkept

/-- A receiver that `get` has just set up holds nothing. -/
theorem getReceive_awaitingStart (host : ByteOrder) (env : GetEnv)
    (location : FileLocation) (reception : Reception) :
    (getReceive host env location .awaitingStart reception).acks = [] ∧
      ∀ receiver,
        (getReceive host env location .awaitingStart reception).state = .receiving receiver →
          ReceiverInv receiver ∅ (contentOf []) := by
  unfold getReceive
  simp only
  cases receiveFileStart host location reception with
  | error refusal => exact ⟨rfl, by simp⟩
  | ok start =>
      cases hheap : env.heap with
      | none => exact ⟨rfl, by simp [srReceiverInit]⟩
      | some heap =>
          obtain ⟨receiver, hinit, -, -, -, -, -, hinv⟩ := srReceiverInit_inv location.peer
            env.link start.fileSize start.numChunks heap
          simp only [hinit]
          refine ⟨trivial, ?_⟩
          intro receiver' hstate
          unfold continueGet at hstate
          split at hstate
          · contradiction
          · obtain rfl := GetState.receiving.inj hstate
            exact hinv

/-- A receiver in the loop moves on by one datagram of the owner, or not at
all. -/
theorem continueGet_receiving {env : GetEnv} {location : FileLocation}
    {receiver receiver' : Receiver}
    (hstate : continueGet env location receiver = .receiving receiver') :
    receiver' = receiver := by
  unfold continueGet at hstate
  split at hstate
  · contradiction
  · exact (GetState.receiving.inj hstate).symm

theorem ExchangeInv.keeps_peerReceive (hinv : ExchangeInv host file s acked)
    {flying : Flying} {session : Session} (hflying : flying ∈ s.toPeers)
    (hsession : s.peers flying.peer = some session) (ownerAddr : SockAddr)
    (horderly : ∀ receiver, session.state = .receiving receiver →
      HasType host (Datagram.recv flying.bytes) udpData →
      flying.transfer = session.transfer) :
    ExchangeInv host file (s.peerReceive host ownerAddr flying session) acked := by
  have hsession_le := hinv.session_le flying.peer session hsession
  unfold Exchange.peerReceive
  cases hstate : session.state with
  | awaitingStart =>
      obtain ⟨hacks, hfresh⟩ := getReceive_awaitingStart host session.env
        session.location (some (ownerAddr, Datagram.recv flying.bytes))
      simp only [hacks, List.map_nil]
      apply hinv.keeps_session
      · exact hinv.flying_le flying hflying
      · simp
      · simp
      · simp
      · intro receiver hreceiving
        exact ⟨∅, contentOf [], hfresh receiver hreceiving, by simp, by simp⟩
  | finished result =>
      apply hinv.keeps_session
      · exact hsession_le
      · simp
      · simp
      · simp [getReceive]
      · intro receiver hreceiving
        simp [getReceive] at hreceiving
  | receiving receiver =>
      obtain ⟨held, content, hheld⟩ := hinv.sessions _ _ receiver hsession hstate
      -- the loop of `get` skips what does not come from the address it was given
      by_cases hpeer : ownerAddr = session.location.peer
      · obtain ⟨held', content', hheld', hacks⟩ :=
          hheld.handleData host (Datagram.recv flying.bytes)
        simp only [getReceive, hpeer, ne_eq, not_true_eq_false, if_false, if_true]
        apply hinv.keeps_session
        · exact hsession_le
        · intro record hrecord
          obtain ⟨chunk, -, rfl⟩ := List.mem_map.mp hrecord
          exact hsession_le
        · intro record hrecord hcurrent
          obtain ⟨chunk, hchunk, rfl⟩ := List.mem_map.mp hrecord
          have hdecode := storedNow_decode (Option.mem_toList.mp hchunk)
          obtain ⟨-, -, htype, -⟩ := decodeData_eq_some hdecode
          -- here the order matters: the data is of the session's own transfer
          have hsame := horderly receiver hstate htype
          exact hinv.data flying hflying (hsame.trans hcurrent) chunk.1 chunk.2 hdecode
        · intro ack hack _
          obtain ⟨bytes, hbytes, rfl⟩ := List.mem_map.mp hack
          obtain ⟨k, hk, hsmall, rfl⟩ := hacks bytes hbytes
          exact ⟨k, content' k, hsmall, rfl, hheld'.recorded k hk⟩
        · intro receiver' hreceiving
          rw [continueGet_receiving hreceiving]
          exact ⟨held', content', hheld'⟩
      · simp only [getReceive, ne_eq, hpeer, not_false_eq_true, if_true, if_false]
        apply hinv.keeps_session
        · exact hsession_le
        · simp
        · simp
        · simp
        · intro receiver' hreceiving
          obtain rfl := GetState.receiving.inj hreceiving
          exact ⟨held, content, hheld.mono []⟩

/-! ## The owner -/

/-- The owner moves on within the current transfer: what it counts is on record
and what it sends for the current transfer carries chunks of the file. -/
theorem ExchangeInv.keeps_owner (hinv : ExchangeInv host file s acked) {owner : Owner}
    {acked' : Finset Nat} {sent : List Flying} {received : Nat}
    (hsender : SenderInv file owner.globalSender acked')
    (hsettled : Settled owner.globalSender acked')
    (hpeer : owner.globalSender.peerAddr = s.owner.globalSender.peerAddr)
    (hcounted : ∀ k ∈ acked',
      ⟨s.owner.globalSender.peerAddr, s.current, k, file.chunk k⟩ ∈ s.stored)
    (hreceived : s.received ≤ received)
    (hsent_le : ∀ flying ∈ sent, flying.transfer ≤ received)
    (hsent : ∀ flying ∈ sent, flying.transfer = s.current → ∀ q payload,
      decodeData host (Datagram.recv flying.bytes).bytes = some (q, payload) →
        payload = file.chunk q) :
    ExchangeInv host file
      { s with
        owner := owner
        toPeers := s.toPeers ++ sent
        received := received } acked' := by
  refine
    { hinv with
      sender := hsender
      settled := hsettled
      current_le := hinv.current_le.trans hreceived
      flying_le := ?_
      stored_le := fun record hrecord => (hinv.stored_le record hrecord).trans hreceived
      session_le := fun peer session hsession =>
        (hinv.session_le peer session hsession).trans hreceived
      data := ?_
      counted := ?_ }
  · intro flying hflying
    rcases List.mem_append.mp hflying with hold | hnew
    · exact (hinv.flying_le flying hold).trans hreceived
    · exact hsent_le flying hnew
  · intro flying hflying
    rcases List.mem_append.mp hflying with hold | hnew
    · exact hinv.data flying hold
    · exact hsent flying hnew
  · intro k hk
    show ⟨owner.globalSender.peerAddr, s.current, k, file.chunk k⟩ ∈ s.stored
    rw [hpeer]
    exact hcounted k hk

/-- A datagram that starts no transfer and counts nothing: whatever is sent for
it carries a fresh number. -/
theorem ExchangeInv.keeps_unserved (hinv : ExchangeInv host file s acked) {owner : Owner}
    (hsame : owner.globalSender = s.owner.globalSender) (sent : List (SockAddr × Bytes)) :
    ExchangeInv host file
      { s with
        owner := owner
        toPeers := s.toPeers ++ sent.map fun item => ⟨item.1, item.2, s.received + 1⟩
        received := s.received + 1 } acked := by
  have hcurrent := hinv.current_le
  apply hinv.keeps_owner
  · rw [hsame]
    exact hinv.sender
  · rw [hsame]
    exact hinv.settled
  · rw [hsame]
  · exact hinv.counted
  · exact Nat.le_succ _
  · intro flying hflying
    obtain ⟨item, -, rfl⟩ := List.mem_map.mp hflying
    exact le_rfl
  -- no transfer has this number, so nothing is claimed about these datagrams
  · intro flying hflying htransfer
    obtain ⟨item, -, rfl⟩ := List.mem_map.mp hflying
    simp only at htransfer
    omega

/-- A datagram of the sender carries a chunk of the file. -/
theorem payload_of_packet {q k : Nat} {payload : Bytes} (hq : q < file.numChunks)
    (hdecode : decodeData host (Datagram.recv (file.packet host q)).bytes =
      some (k, payload)) : payload = file.chunk k := by
  rw [recv_packet, file.decodeData_packet host hq] at hdecode
  obtain ⟨rfl, rfl⟩ := Prod.mk.inj (Option.some.inj hdecode)
  rfl

/-- Everything the driver sends is a datagram of the file. -/
theorem drive_sent {owner : Owner} (hinv : SenderInv file owner.globalSender acked)
    (host : ByteOrder) (sendNow scanNow : UInt64) :
    ∀ item ∈ (drive host owner sendNow scanNow).sent,
      ∃ q < file.numChunks, item.2 = file.packet host q := by
  unfold drive
  by_cases hactive : owner.transferActive = true
  swap
  · simp [hactive]
  obtain ⟨hsent, -, -, -, -, hpackets⟩ := hinv.sendWindow_spec host sendNow
  obtain ⟨-, -, -, -, hretransmitted⟩ := hsent.checkTimeouts_spec host scanNow
  have hchunks := hsent.next_le_chunks
  rw [hsent.numChunks] at hchunks
  have hall : ∀ data ∈ (srSenderSendWindow host owner.globalSender sendNow).packets ++
      (srSenderCheckTimeouts host (srSenderSendWindow host owner.globalSender sendNow).sender
        scanNow).packets, ∃ q < file.numChunks, data = file.packet host q := by
    intro data hdata
    -- first transmissions come from the send window, the others from the scan
    rcases List.mem_append.mp hdata with hfirst | hagain
    · rw [hpackets] at hfirst
      obtain ⟨q, hq, rfl⟩ := List.mem_map.mp hfirst
      rw [List.mem_range'_1, hinv.numChunks] at hq
      exact ⟨q, by omega, rfl⟩
    · obtain ⟨q, -, hq, -, heq⟩ := hretransmitted data hagain
      exact ⟨q, by omega, heq⟩
  intro item hitem
  rw [if_pos hactive] at hitem
  have hitem' : item ∈ ((srSenderSendWindow host owner.globalSender sendNow).packets ++
      (srSenderCheckTimeouts host (srSenderSendWindow host owner.globalSender sendNow).sender
        scanNow).packets).map fun data =>
          ((srSenderCheckTimeouts host
            (srSenderSendWindow host owner.globalSender sendNow).sender
            scanNow).sender.peerAddr, data) := by
    simp only at hitem
    split at hitem
    · exact hitem
    · split at hitem <;> exact hitem
  obtain ⟨data, hdata, rfl⟩ := List.mem_map.mp hitem'
  exact hall data hdata

theorem ExchangeInv.keeps_ownerDrives (hinv : ExchangeInv host file s acked)
    (sendNow scanNow : UInt64) :
    ExchangeInv host file
      { s with
        owner := (drive host s.owner sendNow scanNow).owner
        toPeers := s.toPeers ++ (drive host s.owner sendNow scanNow).sent.map
          fun item => ⟨item.1, item.2, s.current⟩ } acked := by
  have hsent := drive_sent hinv.sender host sendNow scanNow
  obtain ⟨hpeer, hsender, hsettled⟩ : (drive host s.owner sendNow scanNow).owner.globalSender.peerAddr =
        s.owner.globalSender.peerAddr ∧
      SenderInv file (drive host s.owner sendNow scanNow).owner.globalSender acked ∧
      Settled (drive host s.owner sendNow scanNow).owner.globalSender acked := by
    by_cases hactive : s.owner.transferActive = true
    · rw [drive_globalSender hactive]
      exact drive_sender hinv.sender hinv.settled host sendNow scanNow
    · rw [drive, if_neg hactive]
      exact ⟨rfl, hinv.sender, hinv.settled⟩
  apply hinv.keeps_owner hsender hsettled hpeer hinv.counted le_rfl
  · intro flying hflying
    obtain ⟨item, -, rfl⟩ := List.mem_map.mp hflying
    exact hinv.current_le
  · intro flying hflying _ k payload hdecode
    obtain ⟨item, hitem, rfl⟩ := List.mem_map.mp hflying
    obtain ⟨q, hq, hbytes⟩ := hsent item hitem
    simp only [hbytes] at hdecode
    exact payload_of_packet hq hdecode

/-- An acknowledgement that is counted only when it is the served peer's own. -/
theorem ExchangeInv.keeps_handleAck (hinv : ExchangeInv host file s acked)
    {flying : Flying} (hflying : flying ∈ s.toOwner)
    (htype : HasType host (Datagram.recv flying.bytes) udpAck)
    (horderly : flying.peer = s.owner.globalSender.peerAddr ∧
        flying.transfer = s.current ∨
      ackCounted host s.owner.globalSender
        (UdpHeader.ofImage host (Datagram.recv flying.bytes).bytes) = none)
    {owner : Owner}
    (howner : owner.globalSender = srSenderHandleAck host s.owner.globalSender
      (UdpHeader.ofImage host (Datagram.recv flying.bytes).bytes)) :
    ∃ acked', ExchangeInv host file
      { s with
        owner := owner
        toPeers := s.toPeers ++ []
        received := s.received + 1 } acked' := by
  obtain ⟨hsender, hsettled, -, hpeer⟩ := hinv.sender.handleAck_spec hinv.settled host
    (UdpHeader.ofImage host (Datagram.recv flying.bytes).bytes)
  have hcounted : ∀ k ∈ SenderInv.ackedAfter host s.owner.globalSender
      (UdpHeader.ofImage host (Datagram.recv flying.bytes).bytes) acked,
      ⟨s.owner.globalSender.peerAddr, s.current, k, file.chunk k⟩ ∈ s.stored := by
    unfold SenderInv.ackedAfter
    cases hcount : ackCounted host s.owner.globalSender
        (UdpHeader.ofImage host (Datagram.recv flying.bytes).bytes) with
    | none => exact hinv.counted
    | some q =>
        -- what is counted comes from the served peer, whose record has the chunk
        obtain ⟨hsource, htransfer⟩ := horderly.resolve_right (by simp [hcount])
        obtain ⟨k, payload, hk, hbytes, hrecord⟩ := hinv.acks flying hflying htype
        obtain ⟨-, hq, -⟩ := hinv.sender.ackCounted_eq_some hcount
        rw [hbytes, recv_buildAckPacket, ackNumber_buildAckPacket host hk] at hq
        subst hq
        rw [hsource, htransfer] at hrecord
        have hpayload := hinv.records _ hrecord rfl
        simp only at hpayload
        subst hpayload
        intro j hj
        rcases Finset.mem_insert.mp hj with rfl | hj
        · exact hrecord
        · exact hinv.counted j hj
  rw [← howner] at hsender hsettled hpeer
  exact ⟨_, hinv.keeps_owner hsender hsettled hpeer hcounted (Nat.le_succ _) (by simp)
    (by simp)⟩

/-- A granted request starts a transfer with a fresh number. -/
theorem ExchangeInv.keeps_granted (hinv : ExchangeInv host file s acked)
    {file' : FileImage} {sender : Sender} {owner : Owner} {peer : SockAddr}
    {fileSize numChunks : Nat} {now : UInt64}
    (hsender : SenderInv file' sender ∅)
    (howner : owner.globalSender = (srSenderSendWindow host sender now).sender) :
    ExchangeInv host file'
      { s with
        owner := owner
        toPeers := s.toPeers ++
          ((peer, buildFileStart host fileSize numChunks) ::
            (srSenderSendWindow host sender now).packets.map
              fun data => ((srSenderSendWindow host sender now).sender.peerAddr, data)).map
            fun item => ⟨item.1, item.2, s.received + 1⟩
        received := s.received + 1
        current := s.received + 1 } ∅ := by
  obtain ⟨hsent, -, hbase, -, -, hpackets⟩ := hsender.sendWindow_spec host now
  refine
    { sender := ?_
      settled := ?_
      current_le := le_rfl
      flying_le := ?_
      stored_le := fun record hrecord => (hinv.stored_le record hrecord).trans (Nat.le_succ _)
      session_le := fun peer session hsession =>
        (hinv.session_le peer session hsession).trans (Nat.le_succ _)
      data := ?_
      records := ?_
      counted := by simp
      acks := hinv.acks
      sessions := hinv.sessions }
  · rw [howner]
    exact hsent
  · rw [howner]
    simp [Settled]
  · intro flying hflying
    rcases List.mem_append.mp hflying with hold | hnew
    · exact (hinv.flying_le flying hold).trans (Nat.le_succ _)
    · obtain ⟨item, -, rfl⟩ := List.mem_map.mp hnew
      exact le_rfl
  · intro flying hflying htransfer k payload hdecode
    rcases List.mem_append.mp hflying with hold | hnew
    -- older datagrams keep their older numbers
    · have hle := hinv.flying_le flying hold
      simp only at htransfer
      omega
    · obtain ⟨item, hitem, rfl⟩ := List.mem_map.mp hnew
      rcases List.mem_cons.mp hitem with rfl | hdata
      · simp only [decodeData_buildFileStart, reduceCtorEq] at hdecode
      · obtain ⟨data, hpacket, rfl⟩ := List.mem_map.mp hdata
        rw [hpackets] at hpacket
        obtain ⟨q, hq, rfl⟩ := List.mem_map.mp hpacket
        rw [List.mem_range'_1, hsender.numChunks] at hq
        exact payload_of_packet (by omega) hdecode
  · intro record hrecord htransfer
    have hle := hinv.stored_le record hrecord
    simp only at htransfer
    omega

theorem exchangeInv_ownerReceive (hinv : ExchangeInv host file s acked) (link : LossyLink)
    {flying : Flying} (hflying : flying ∈ s.toOwner)
    (horderly : s.owner.transferActive = true →
      HasType host (Datagram.recv flying.bytes) udpAck →
      flying.peer = s.owner.globalSender.peerAddr ∧ flying.transfer = s.current ∨
        ackCounted host s.owner.globalSender
          (UdpHeader.ofImage host (Datagram.recv flying.bytes).bytes) = none)
    (env : RequestEnv) (now : UInt64) :
    ∃ file' acked', ExchangeInv host file' (s.ownerReceive host link flying env now) acked' := by
  unfold Exchange.ownerReceive
  unfold receiveDatagram
  by_cases hshort : (Datagram.recv flying.bytes).bytes.length < udpHeaderSize
  · simp only [hshort, if_true, Bool.true_eq_false, and_false, if_false]
    exact ⟨file, acked, hinv.keeps_unserved rfl []⟩
  simp only [hshort, if_false]
  by_cases hrequest : HasType host (Datagram.recv flying.bytes) udpRequestFile
  · have htype : (UdpHeader.ofImage host (Datagram.recv flying.bytes).bytes).msgType =
        udpRequestFile := hrequest
    simp only [htype, hrequest, if_true, true_and]
    by_cases hgranted : RequestGranted host s.owner.table (Datagram.recv flying.bytes) env
    · obtain ⟨file', sender, fileSize, numChunks, hsender, -, -, hresult⟩ :=
        handleRequest_of_granted hgranted link flying.peer now
      rw [hresult]
      simp only [if_true]
      exact ⟨file', ∅, hinv.keeps_granted hsender rfl⟩
    · obtain ⟨hsame, hcontinued, -⟩ :=
        handleRequest_of_refused hgranted link flying.peer now
      simp only [hcontinued, Bool.true_eq_false, if_false]
      exact ⟨file, acked, hinv.keeps_unserved (by rw [hsame]) _⟩
  · have htype : (UdpHeader.ofImage host (Datagram.recv flying.bytes).bytes).msgType ≠
        udpRequestFile := hrequest
    simp only [htype, hrequest, if_false, false_and]
    by_cases hack : HasType host (Datagram.recv flying.bytes) udpAck
    · have htype' : (UdpHeader.ofImage host (Datagram.recv flying.bytes).bytes).msgType =
          udpAck := hack
      simp only [htype', if_true]
      unfold handleAck
      by_cases hactive : s.owner.transferActive = true
      · simp only [hactive, if_true]
        exact ⟨file, hinv.keeps_handleAck hflying hack (horderly hactive hack) rfl⟩
      · simp only [hactive, if_false, Bool.false_eq_true]
        exact ⟨file, acked, hinv.keeps_unserved rfl []⟩
    · have htype' : (UdpHeader.ofImage host (Datagram.recv flying.bytes).bytes).msgType ≠
          udpAck := hack
      simp only [htype', if_false]
      exact ⟨file, acked, hinv.keeps_unserved rfl []⟩

end Steps

/-- Every orderly step keeps the invariant. -/
theorem exchangeInv_step {host : ByteOrder} {link : LossyLink} {ownerAddr : SockAddr}
    {s t : Exchange} {action : ExchangeAction}
    (hinv : ∃ file acked, ExchangeInv host file s acked)
    (hstep : OrderlyStep host link ownerAddr s action t) :
    ∃ file acked, ExchangeInv host file t acked := by
  obtain ⟨file, acked, hinv⟩ := hinv
  obtain ⟨rfl, horderly⟩ := hstep
  cases action with
  | share fileId fileSize hash filename => exact ⟨file, acked, { hinv with }⟩
  | startGet peer location env =>
      refine ⟨file, acked, ?_⟩
      unfold Exchange.apply
      -- the request reaches the owner only if the location names it
      by_cases howner : location.peer = ownerAddr
      · simp only [howner, if_true]
        apply hinv.keeps_startGet
        intro flying hflying
        rw [List.mem_singleton.mp hflying]
        exact not_hasType_buildRequestFile host location.fileId location.hash
      · simp only [howner, if_false]
        have hsilent := hinv.keeps_startGet peer location env
          (fun flying hflying => absurd hflying List.not_mem_nil)
        simpa only [List.append_nil] using hsilent
  | ownerReceives index env now =>
      cases hindex : s.toOwner[index]? with
      | none =>
          simp only [Exchange.apply, hindex]
          exact ⟨file, acked, hinv⟩
      | some flying =>
          simp only [Exchange.apply, hindex]
          exact exchangeInv_ownerReceive hinv link (List.mem_of_getElem? hindex)
            (horderly flying hindex) env now
  | ownerDrives sendNow scanNow => exact ⟨file, acked, hinv.keeps_ownerDrives sendNow scanNow⟩
  | peerReceives index =>
      cases hindex : s.toPeers[index]? with
      | none =>
          simp only [Exchange.apply, hindex]
          exact ⟨file, acked, hinv⟩
      | some flying =>
          cases hsession : s.peers flying.peer with
          | none =>
              simp only [Exchange.apply, hindex, hsession]
              exact ⟨file, acked, hinv⟩
          | some session =>
              simp only [Exchange.apply, hindex, hsession]
              exact ⟨file, acked, hinv.keeps_peerReceive (List.mem_of_getElem? hindex) hsession
                ownerAddr fun receiver hstate =>
                  horderly flying session receiver hindex hsession hstate⟩
  | loseToOwner index =>
      refine ⟨file, acked, { hinv with acks := ?_ }⟩
      intro flying hflying
      exact hinv.acks flying (List.mem_of_mem_eraseIdx hflying)
  | loseToPeers index =>
      refine ⟨file, acked, { hinv with flying_le := ?_, data := ?_ }⟩
      · intro flying hflying
        exact hinv.flying_le flying (List.mem_of_mem_eraseIdx hflying)
      · intro flying hflying
        exact hinv.data flying (List.mem_of_mem_eraseIdx hflying)

/-! ## Provenance -/

/-- In every state of an orderly run, a chunk is marked as acknowledged, or slid
past, only if the peer being served has stored that chunk of the current
transfer, with the bytes of the file being sent.  An acknowledgement changes
the global sender exactly when it names a pending chunk. -/
theorem ack_provenance {host : ByteOrder} {link : LossyLink} {ownerAddr : SockAddr}
    {s : Exchange} {labels : List ExchangeAction}
    (hrun : Run (OrderlyStep host link ownerAddr) Exchange.initial labels s) :
    (∀ k, Marked s.owner.globalSender k →
        ⟨s.owner.globalSender.peerAddr, s.current, k, sentChunk s.owner.globalSender k⟩ ∈
          s.stored) ∧
      ∀ hdr, srSenderHandleAck host s.owner.globalSender hdr = s.owner.globalSender ↔
        ackCounted host s.owner.globalSender hdr = none := by
  obtain ⟨file, acked, hinv⟩ := hrun.invariant
    (fun _ _ _ hinv hstep => exchangeInv_step hinv hstep) (exchangeInv_initial host)
  refine ⟨?_, hinv.sender.handleAck_eq_iff hinv.settled host⟩
  intro k hmarked
  rw [sentChunk_eq hinv.sender]
  exact hinv.counted k (marked_mem hinv.sender hmarked)

/-- The location of file 1 at the owner's address `⟨9, 9⟩`. -/
def locationOne : FileLocation where
  fileId := 1
  fileSize := 1
  hash := HashBytes.ofImage []
  peer := ⟨9, 9⟩
  filename := NameField.strncpy [97]

def plainEnv : GetEnv where
  sha256 := fun _ => HashBytes.ofImage []
  heap := some fun _ => 0
  canOpen := true
  link := ⟨3, 0, 1⟩

/-- The peer at `⟨1, 1⟩` asks for file 1, gets the announcement and the chunk,
and answers with an acknowledgement. -/
def firstDownload : List ExchangeAction :=
  [.share 1 1 (HashBytes.ofImage []) [97],
    .startGet ⟨1, 1⟩ locationOne plainEnv,
    .ownerReceives 0 oneByteEnv 0,
    .ownerDrives 0 0,
    .peerReceives 0,
    .peerReceives 1]

/-- Then the peer at `⟨2, 2⟩` asks for the same file, and only now does the
acknowledgement of the first peer arrive. -/
def lateAck : List ExchangeAction :=
  [.startGet ⟨2, 2⟩ locationOne plainEnv,
    .ownerReceives 2 oneByteEnv 1,
    .ownerDrives 1 1,
    .ownerReceives 1 oneByteEnv 2]

def Exchange.applyAll (s : Exchange) (actions : List ExchangeAction) : Exchange :=
  actions.foldl (fun s action => s.apply .little ⟨3, 0, 1⟩ ⟨9, 9⟩ action) s

theorem applyAll_run (s : Exchange) (actions : List ExchangeAction) :
    Run (ExchangeStep .little ⟨3, 0, 1⟩ ⟨9, 9⟩) s actions (s.applyAll actions) := by
  unfold Exchange.applyAll
  induction actions using List.reverseRecOn with
  | nil => exact Run.nil s
  | append_singleton actions action ih =>
      rw [List.foldl_concat]
      exact Run.snoc ih rfl

/-- The late acknowledgement of the first peer marks the only chunk of the
second transfer, of which the second peer has stored nothing. -/
theorem foreign_ack_counted :
    ∃ labels s, Run (ExchangeStep .little ⟨3, 0, 1⟩ ⟨9, 9⟩) Exchange.initial labels s ∧
      s.owner.globalSender.peerAddr = ⟨2, 2⟩ ∧ Marked s.owner.globalSender 0 ∧
      ∀ record ∈ s.stored, record.peer ≠ s.owner.globalSender.peerAddr := by
  refine ⟨firstDownload ++ lateAck, _,
    applyAll_run Exchange.initial (firstDownload ++ lateAck), by decide +kernel,
    Or.inl (by decide +kernel), by decide +kernel⟩

/-- An acknowledgement of the served peer in the current transfer is in order. -/
theorem orderly_ownerReceives {host : ByteOrder} {s : Exchange} {index : Nat}
    {env : RequestEnv} {now : UInt64}
    (hown : s.owner.transferActive = true →
      (s.toOwner[index]?).map (fun flying => (flying.peer, flying.transfer)) =
        some (s.owner.globalSender.peerAddr, s.current)) :
    Orderly host s (.ownerReceives index env now) := by
  intro flying hindex hactive _
  have hsame := hown hactive
  rw [hindex] at hsame
  obtain ⟨hpeer, htransfer⟩ := Prod.mk.inj (Option.some.inj hsame)
  exact Or.inl ⟨hpeer, htransfer⟩

/-- Data of the session's transfer is in order, and so is what is not data. -/
theorem orderly_peerReceives {host : ByteOrder} {s : Exchange} {index : Nat}
    {flying : Flying} (hindex : s.toPeers[index]? = some flying)
    (hown : HasType host (Datagram.recv flying.bytes) udpData →
      (s.peers flying.peer).map Session.transfer = some flying.transfer) :
    Orderly host s (.peerReceives index) := by
  intro other session receiver hother hsession _ htype
  obtain rfl : flying = other := Option.some.inj (hindex.symm.trans hother)
  have hsame := hown htype
  rw [hsession] at hsame
  exact (Option.some.inj hsame).symm

theorem firstDownload_orderly :
    Run (OrderlyStep .little ⟨3, 0, 1⟩ ⟨9, 9⟩) Exchange.initial firstDownload
      (Exchange.initial.applyAll firstDownload) := by
  have hshare : Run (OrderlyStep .little ⟨3, 0, 1⟩ ⟨9, 9⟩) Exchange.initial
      (firstDownload.take 2) (Exchange.initial.applyAll (firstDownload.take 2)) :=
    Run.snoc (Run.single ⟨rfl, trivial⟩) ⟨rfl, trivial⟩
  have hrequest : Run (OrderlyStep .little ⟨3, 0, 1⟩ ⟨9, 9⟩) Exchange.initial
      (firstDownload.take 4) (Exchange.initial.applyAll (firstDownload.take 4)) :=
    Run.snoc (Run.snoc hshare ⟨rfl, orderly_ownerReceives (by decide +kernel)⟩)
      ⟨rfl, trivial⟩
  have hstart : Run (OrderlyStep .little ⟨3, 0, 1⟩ ⟨9, 9⟩) Exchange.initial
      (firstDownload.take 5) (Exchange.initial.applyAll (firstDownload.take 5)) :=
    Run.snoc hrequest ⟨rfl, orderly_peerReceives
      (show _ = some ⟨⟨1, 1⟩, buildFileStart .little 1 1, 1⟩ by decide +kernel)
      (by decide +kernel)⟩
  exact Run.snoc hstart ⟨rfl, orderly_peerReceives
    (show _ = some ⟨⟨1, 1⟩, buildDataPacket .little 0 [7] 1, 1⟩ by decide +kernel)
    (by decide +kernel)⟩

/-- In the first download the acknowledgement arrives in time: the chunk is
marked, and the peer has stored it. -/
theorem own_ack_counted :
    ∃ labels s, Run (OrderlyStep .little ⟨3, 0, 1⟩ ⟨9, 9⟩) Exchange.initial labels s ∧
      Marked s.owner.globalSender 0 ∧
      ⟨s.owner.globalSender.peerAddr, s.current, 0, sentChunk s.owner.globalSender 0⟩ ∈
        s.stored := by
  have hrun : Run (OrderlyStep .little ⟨3, 0, 1⟩ ⟨9, 9⟩) Exchange.initial
      (firstDownload ++ [.ownerReceives 1 oneByteEnv 1])
      (Exchange.initial.applyAll (firstDownload ++ [.ownerReceives 1 oneByteEnv 1])) :=
    Run.snoc firstDownload_orderly ⟨rfl, orderly_ownerReceives (by decide +kernel)⟩
  have hmarked : Marked (Exchange.initial.applyAll
      (firstDownload ++ [.ownerReceives 1 oneByteEnv 1])).owner.globalSender 0 :=
    Or.inl (by decide +kernel)
  exact ⟨_, _, hrun, hmarked, (ack_provenance hrun).1 0 hmarked⟩

end Client
end PeerShare
