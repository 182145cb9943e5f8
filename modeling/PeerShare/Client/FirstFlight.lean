import PeerShare.Client.AckProvenance
import PeerShare.Client.Commitment
import PeerShare.Client.GetRun
import PeerShare.SelectiveRepeat.TransferSafety

/-!
# The owner's first flight

The owner answers a request with `UDP_FILE_START` and the first window of
`UDP_DATA`, back to back.  Nothing orders them on the way, and `get` reads exactly
one datagram as the announcement: a chunk that overtakes it makes `get` return 0
without a file, and the announcement is not sent again.

Behind the announcement the order does not matter.  Whatever arrives, whenever and
however often, the receiver stores every chunk that reaches it, so a `get` that has
returned has returned what it would have for the datagrams in order, and it has
returned once all of them have arrived.
-/

namespace PeerShare
namespace Client

open Foundation Wire SelectiveRepeat

/-! ## The system -/

/-- One granted request: the owner, the `get` that waits for the file, the
datagrams the owner sent to it and those that arrived, both in their order, and the
acknowledgements on their way back. -/
structure Flight where
  owner : Owner
  state : GetState
  emitted : List Bytes
  arrived : List Bytes
  acks : List Bytes

/-- The moment the request branch has ended. -/
def Flight.ofRequest (result : OwnerResult) : Flight where
  owner := result.owner
  state := .awaitingStart
  emitted := result.sent.map Prod.snd
  arrived := []
  acks := []

/-- A datagram of the owner as `get` receives it. -/
def ownerReception (location : FileLocation) (packet : Bytes) : Reception :=
  some (location.peer, Datagram.recv packet)

inductive FlightAction where
  | arrive (packet : Bytes)
  | acknowledge (ack : Bytes) (request : RequestEnv) (now : UInt64)
  | drive (sendNow scanNow : UInt64)

/-- `get` takes a datagram from its socket. -/
def Flight.arrive (host : ByteOrder) (env : GetEnv) (location : FileLocation) (t : Flight)
    (packet : Bytes) : Flight :=
  let step := getReceive host env location t.state (ownerReception location packet)
  { t with
    state := step.state
    arrived := t.arrived ++ [packet]
    acks := t.acks ++ step.acks }

/-- The owner takes an acknowledgement from its socket. -/
def Flight.acknowledge (host : ByteOrder) (link : LossyLink) (t : Flight) (ack : Bytes)
    (request : RequestEnv) (now : UInt64) : Flight :=
  let source := t.owner.globalSender.peerAddr
  { t with
    owner := (receiveDatagram host link t.owner (some (source, Datagram.recv ack)) request
      now).owner }

/-- The driver of the owner's loop. -/
def Flight.drive (host : ByteOrder) (t : Flight) (sendNow scanNow : UInt64) : Flight :=
  let result := Client.drive host t.owner sendNow scanNow
  { t with
    owner := result.owner
    emitted := t.emitted ++ result.sent.map Prod.snd }

/-- The transitions.  A datagram may arrive late, again or never. -/
inductive FlightStep (host : ByteOrder) (link : LossyLink) (env : GetEnv)
    (location : FileLocation) : Flight → FlightAction → Flight → Prop
  | arrive (t : Flight) (packet : Bytes) (hpacket : packet ∈ t.emitted) :
      FlightStep host link env location t (.arrive packet) (t.arrive host env location packet)
  | acknowledge (t : Flight) (ack : Bytes) (request : RequestEnv) (now : UInt64)
      (hack : ack ∈ t.acks) :
      FlightStep host link env location t (.acknowledge ack request now)
        (t.acknowledge host link ack request now)
  | drive (t : Flight) (sendNow scanNow : UInt64) :
      FlightStep host link env location t (.drive sendNow scanNow) (t.drive host sendNow scanNow)

/-- What `get` returns when the announcement and the chunks arrive in the order in
which they are sent. -/
def inOrderReturn (host : ByteOrder) (env : GetEnv) (location : FileLocation)
    (file : FileImage) (start : Bytes) : Option GetReturn :=
  (getRun host env location .awaitingStart
    ((start :: (List.range file.numChunks).map (file.packet host)).map
      (ownerReception location))).returned

/-- A `get` that has returned has returned that, and so has every `get` to which
all datagrams have come. -/
structure Tolerates (host : ByteOrder) (env : GetEnv) (location : FileLocation)
    (file : FileImage) (start : Bytes) (t : Flight) : Prop where
  returned : ∀ result, t.state.returned = some result →
    inOrderReturn host env location file start = some result
  complete : start ∈ t.arrived → (∀ q < file.numChunks, file.packet host q ∈ t.arrived) →
    t.state.returned = inOrderReturn host env location file start

/-! ## The datagrams -/

section Datagrams

variable {host : ByteOrder} {env : GetEnv} {location : FileLocation} {file : FileImage}

/-- A chunk in the place of the announcement. -/
theorem receiveFileStart_packet (location : FileLocation) {q : Nat} (hq : q < file.numChunks) :
    receiveFileStart host location (ownerReception location (file.packet host q)) =
      .error .notFileStart := by
  obtain ⟨hlength, hchecksum, htype, -⟩ := decodeData_eq_some (file.decodeData_packet host hq)
  have hheader : ¬ (file.packet host q).length < udpHeaderSize := by omega
  have hverify : verifyChecksum (setChecksum host (file.packet host q) 0)
      (UdpHeader.ofImage host (file.packet host q)).checksum = true := by
    simp [verifyChecksum, hchecksum]
  have hother : udpData ≠ udpFileStart := by decide
  simp only [receiveFileStart, ownerReception, recv_packet, if_neg hheader,
    if_neg (not_lt.mpr hlength), hverify, Bool.true_eq_false, if_false, ne_eq,
    not_true_eq_false, htype, hother, not_false_eq_true, if_true]

/-- The chunk that comes first ends `get`. -/
theorem getReceive_overtaking {q : Nat} (hq : q < file.numChunks) :
    getReceive host env location .awaitingStart
        (ownerReception location (file.packet host q)) =
      ⟨.finished ⟨0, none⟩, [], []⟩ := by
  simp only [getReceive, receiveFileStart_packet location hq]
  rfl

end Datagrams

/-! ## The state of `get` after some datagrams -/

/-- The state `get` is in after some receptions. -/
def getAfter (host : ByteOrder) (env : GetEnv) (location : FileLocation) (state : GetState)
    (packets : List Bytes) : GetState :=
  packets.foldl
    (fun state packet => (getReceive host env location state (ownerReception location packet)).state)
    state

section After

variable {host : ByteOrder} {env : GetEnv} {location : FileLocation} {file : FileImage}

theorem getRun_returned_eq (state : GetState) (packets : List Bytes) :
    (getRun host env location state (packets.map (ownerReception location))).returned =
      (getAfter host env location state packets).returned := by
  induction packets generalizing state with
  | nil => rfl
  | cons packet packets ih => exact ih _

theorem getAfter_append (state : GetState) (packets later : List Bytes) :
    getAfter host env location state (packets ++ later) =
      getAfter host env location (getAfter host env location state packets) later :=
  List.foldl_append

theorem getAfter_finished (result : GetReturn) (packets : List Bytes) :
    getAfter host env location (.finished result) packets = .finished result := by
  induction packets with
  | nil => rfl
  | cons packet packets ih => exact ih

/-- In terms of the state, the reference is the one after the whole file. -/
theorem inOrderReturn_eq (start : Bytes) :
    inOrderReturn host env location file start =
      (getAfter host env location
        (getReceive host env location .awaitingStart (ownerReception location start)).state
        ((List.range file.numChunks).map (file.packet host))).returned :=
  getRun_returned_eq .awaitingStart _

/-! ### The announcement -/

/-- Without memory the announcement ends `get`. -/
theorem getReceive_start_noMemory (hheap : env.heap = none) (fileSize numChunks : UInt32) :
    (getReceive host env location .awaitingStart
      (ownerReception location
        (buildFileStart host fileSize.toNat numChunks.toNat))).state = .finished ⟨1, none⟩ := by
  simp only [getReceive, ownerReception, receiveFileStart_build, srReceiverInit, hheap]

theorem getReceive_start (host : ByteOrder) (location : FileLocation) {heap : Nat → UInt8}
    (hheap : env.heap = some heap) (fileSize numChunks : UInt32) :
    ∃ receiver,
      srReceiverInit (some location.peer) fileSize numChunks (some env.link) (some heap) =
          some receiver ∧
        getReceive host env location .awaitingStart
            (ownerReception location
              (buildFileStart host fileSize.toNat numChunks.toNat)) =
          ⟨continueGet env location receiver, [], []⟩ := by
  obtain ⟨receiver, hinit, -⟩ :=
    srReceiverInit_inv location.peer env.link fileSize numChunks heap
  refine ⟨receiver, hinit, ?_⟩
  simp only [getReceive, ownerReception, receiveFileStart_build, hheap, hinit]

/-- A receiver goes on exactly while chunks are missing. -/
theorem continueGet_of_lt {receiver : Receiver} (hmissing : receiver.base < receiver.numChunks) :
    continueGet env location receiver = .receiving receiver := by
  have hincomplete : srReceiverIsComplete receiver = false :=
    decide_eq_false (not_le.mpr hmissing)
  simp [continueGet, hincomplete]

theorem continueGet_of_le {receiver : Receiver} (hall : receiver.numChunks ≤ receiver.base) :
    continueGet env location receiver =
      .finished (finishGet env.sha256 env.canOpen location receiver) := by
  have hcomplete : srReceiverIsComplete receiver = true := decide_eq_true hall
  simp [continueGet, hcomplete]

/-- A chunk of the owner goes to the receiver. -/
theorem getReceive_packet (receiver : Receiver) (q : Nat) :
    getReceive host env location (.receiving receiver)
        (ownerReception location (file.packet host q)) =
      ⟨continueGet env location
          (srReceiverHandleData host receiver (file.packet host q)).receiver,
        (srReceiverHandleData host receiver (file.packet host q)).acks,
        (srReceiverHandleData host receiver (file.packet host q)).copies⟩ := by
  simp only [getReceive, ownerReception, recv_packet, ne_eq, not_true_eq_false, if_false]

/-- A second announcement is not noticed. -/
theorem getReceive_again (receiver : Receiver) (fileSize numChunks : Nat) :
    getReceive host env location (.receiving receiver)
        (ownerReception location (buildFileStart host fileSize numChunks)) =
      ⟨continueGet env location receiver, [], []⟩ := by
  simp only [getReceive, ownerReception, srReceiverHandleData, decodeData_buildFileStart, ne_eq,
    not_true_eq_false, if_false]

end After

/-! ## Everything in order -/

/-- The receiver has the first `count` chunks of the file and nothing else. -/
structure ReceivedInOrder (file : FileImage) (count : Nat) (receiver : Receiver) : Prop where
  inv : ReceiverInv receiver (Finset.range count) file.chunk
  base : receiver.base = count
  numChunks : receiver.numChunks = file.numChunks
  fileSize : receiver.fileSize = file.size.toNat
  bufferLength : receiver.fileBuffer.length = file.size.toNat
  delivered : receiver.fileBuffer.take (min (count * chunkSize) file.size.toNat) =
    file.contents.take (min (count * chunkSize) file.size.toNat)

section InOrder

variable {host : ByteOrder} {env : GetEnv} {location : FileLocation} {file : FileImage}
  {count : Nat} {receiver : Receiver}

theorem receivedInOrder_init {peerAddr : SockAddr} {link : LossyLink} {numChunks : UInt32}
    {heap : Nat → UInt8}
    (hinit : srReceiverInit (some peerAddr) file.size numChunks (some link) (some heap) =
      some receiver) (hchunks : numChunks.toNat = file.numChunks) :
    ReceivedInOrder file 0 receiver := by
  obtain ⟨start, hstart, -, hsize, hnumber, hbase, hlength, hinv⟩ :=
    srReceiverInit_inv peerAddr link file.size numChunks heap
  obtain rfl : start = receiver := Option.some.inj (hstart.symm.trans hinit)
  exact
    { inv := hinv.congr_content (by simp)
      base := hbase
      numChunks := hnumber.trans hchunks
      fileSize := hsize
      bufferLength := hlength
      delivered := by simp }

/-- The next chunk is accepted and delivered at once. -/
theorem ReceivedInOrder.next (h : ReceivedInOrder file count receiver) (host : ByteOrder)
    (hcount : count < file.numChunks) :
    ReceivedInOrder file (count + 1)
      (srReceiverHandleData host receiver (file.packet host count)).receiver := by
  have hsmall := file.numChunks_lt
  have haccepts : accepts host receiver (file.packet host count) =
      some (count, file.chunk count) := by
    have hwindow : count < u32 (receiver.base + windowSize) := by
      rw [h.base, u32_of_lt (by unfold windowSize; omega)]
      unfold windowSize
      omega
    simp [accepts, file.decodeData_packet host hcount, h.numChunks, hcount, hwindow]
  obtain ⟨hinv, hgap, -, -, -, hfileSize, hchunks, -, hcopies, hbuffer⟩ :=
    h.inv.handleData_of_new haccepts (by simp) (file.chunk_length_le count)
  rw [Function.update_eq_self] at hinv hcopies
  rw [← Finset.range_add_one] at hinv hgap
  have hbase : (srReceiverHandleData host receiver (file.packet host count)).receiver.base =
      count + 1 := by
    apply le_antisymm
    · exact isLeast_missing_le (hinv.base_least hgap) fun k hk => Finset.mem_range.mp hk
    · simpa using hgap
  -- the base moves by one, so exactly this chunk is copied
  have hfold := delivered_fold file 1 h.bufferLength (by omega) h.delivered
  rw [hbase, h.base, Nat.add_sub_cancel_left] at hcopies
  rw [← hcopies, ← hbuffer] at hfold
  exact
    { inv := hinv
      base := hbase
      numChunks := hchunks.trans h.numChunks
      fileSize := hfileSize.trans h.fileSize
      bufferLength := hfold.1
      delivered := hfold.2 }

/-- `get` after the first `count` chunks. -/
theorem getAfter_inOrder (h : ReceivedInOrder file 0 receiver) (host : ByteOrder) (env : GetEnv)
    (location : FileLocation) (hcount : count ≤ file.numChunks) :
    ∃ receiver', ReceivedInOrder file count receiver' ∧
      getAfter host env location (continueGet env location receiver)
          ((List.range count).map (file.packet host)) =
        continueGet env location receiver' := by
  induction count with
  | zero => exact ⟨receiver, h, rfl⟩
  | succ count ih =>
      obtain ⟨before, hbefore, hstate⟩ := ih (by omega)
      refine ⟨_, hbefore.next host (by omega), ?_⟩
      have hmissing : before.base < before.numChunks := by
        rw [hbefore.base, hbefore.numChunks]
        omega
      rw [List.range_succ, List.map_append, getAfter_append, hstate, continueGet_of_lt hmissing]
      show (getReceive host env location (.receiving before)
        (ownerReception location (file.packet host count))).state = _
      rw [getReceive_packet]

/-- What `get` returns for a file that has arrived as it is. -/
def fileReturn (env : GetEnv) (location : FileLocation) (contents : Bytes) : GetReturn :=
  if env.sha256 contents = location.hash then
    if env.canOpen then
      ⟨0, some (cString location.filename.bytes, contents)⟩
    else
      ⟨-1, none⟩
  else
    ⟨0, none⟩

theorem finishGet_eq_fileReturn
    (hfile : srReceiverGetFile receiver = (file.contents, file.size.toNat)) :
    finishGet env.sha256 env.canOpen location receiver =
      fileReturn env location file.contents := by
  have hwhole : file.contents.take file.size.toNat = file.contents :=
    List.take_of_length_le file.contents_length.le
  simp only [finishGet, hfile, hwhole, fileReturn]

/-- All chunks in order end `get` with the file. -/
theorem getAfter_wholeFile (h : ReceivedInOrder file 0 receiver)
    (hsize : file.size.toNat + 1023 < 2 ^ 32) :
    getAfter host env location (continueGet env location receiver)
        ((List.range file.numChunks).map (file.packet host)) =
      .finished (fileReturn env location file.contents) := by
  obtain ⟨after, hafter, hstate⟩ := getAfter_inOrder h host env location le_rfl
  have hall : after.numChunks ≤ after.base := by
    rw [hafter.numChunks, hafter.base]
  have hfile : srReceiverGetFile after = (file.contents, file.size.toNat) := by
    rw [srReceiverGetFile, hafter.fileSize,
      buffer_eq_contents file hsize hafter.bufferLength le_rfl hafter.delivered]
  rw [hstate, continueGet_of_le hall, finishGet_eq_fileReturn hfile]

end InOrder

/-! ## An announcement of more chunks than there are -/

/-- The receiver waits for chunks beyond those that are sent. -/
def Starved (sent : Nat) : GetState → Prop
  | .receiving receiver => ∃ stored content, ReceiverInv receiver stored content ∧
      receiver.base ∉ stored ∧ (∀ q ∈ stored, q < sent) ∧ sent < receiver.numChunks
  | _ => False

section Starving

variable {host : ByteOrder} {env : GetEnv} {location : FileLocation} {file : FileImage}

theorem starved_continueGet {receiver : Receiver} {sent : Nat} {stored : Finset Nat}
    {content : Nat → Bytes} (hinv : ReceiverInv receiver stored content)
    (hsettled : receiver.base ∉ stored) (hsent : ∀ q ∈ stored, q < sent)
    (hmore : sent < receiver.numChunks) : Starved sent (continueGet env location receiver) := by
  have hbase : receiver.base ≤ sent := isLeast_missing_le (hinv.base_least hsettled) hsent
  rw [continueGet_of_lt (by omega)]
  exact ⟨stored, content, hinv, hsettled, hsent, hmore⟩

theorem Starved.packet {state : GetState} (h : Starved file.numChunks state) {q : Nat}
    (hq : q < file.numChunks) :
    Starved file.numChunks (getReceive host env location state
      (ownerReception location (file.packet host q))).state := by
  cases state with
  | receiving receiver =>
      obtain ⟨stored, content, hinv, hsettled, hsent, hmore⟩ := h
      rw [getReceive_packet]
      cases haccepts : accepts host receiver (file.packet host q) with
      | none =>
          rw [handleData_of_rejected haccepts]
          exact starved_continueGet hinv hsettled hsent hmore
      | some chunk =>
          rcases chunk with ⟨k, payload⟩
          obtain ⟨hdecode, -⟩ := accepts_eq_some haccepts
          rw [file.decodeData_packet host hq] at hdecode
          obtain ⟨rfl, rfl⟩ := Prod.mk.inj (Option.some.inj hdecode)
          by_cases hstored : q ∈ stored
          · rw [hinv.handleData_of_stored hsettled haccepts hstored]
            exact starved_continueGet hinv hsettled hsent hmore
          · obtain ⟨hinv', hgap, -, -, -, -, hchunks, -⟩ :=
              hinv.handleData_of_new haccepts hstored (file.chunk_length_le q)
            refine starved_continueGet hinv' hgap ?_ (hchunks ▸ hmore)
            intro j hj
            rcases Finset.mem_insert.mp hj with rfl | hold
            · exact hq
            · exact hsent j hold
  | _ => exact h.elim

theorem Starved.announcement {state : GetState} {sent : Nat} (h : Starved sent state)
    (fileSize numChunks : Nat) :
    Starved sent (getReceive host env location state
      (ownerReception location (buildFileStart host fileSize numChunks))).state := by
  cases state with
  | receiving receiver =>
      obtain ⟨stored, content, hinv, hsettled, hsent, hmore⟩ := h
      rw [getReceive_again]
      exact starved_continueGet hinv hsettled hsent hmore
  | _ => exact h.elim

/-- Such a `get` does not return. -/
theorem Starved.getAfter {state : GetState} (h : Starved file.numChunks state)
    (fileSize numChunks : Nat) {packets : List Bytes}
    (hpackets : ∀ packet ∈ packets, packet = buildFileStart host fileSize numChunks ∨
      ∃ q < file.numChunks, packet = file.packet host q) :
    (getAfter host env location state packets).returned = none := by
  induction packets generalizing state with
  | nil =>
      cases state with
      | receiving receiver => rfl
      | _ => exact h.elim
  | cons packet packets ih =>
      refine ih ?_ fun other hother => hpackets other (List.mem_cons_of_mem _ hother)
      rcases hpackets packet List.mem_cons_self with rfl | ⟨q, hq, rfl⟩
      · exact h.announcement fileSize numChunks
      · exact h.packet hq

end Starving

/-! ## What every run keeps -/

/-- The datagram with which a file is announced. -/
def announcement (host : ByteOrder) (file : FileImage) (chunks : UInt32) : Bytes :=
  buildFileStart host file.size.toNat chunks.toNat

/-- What holds in every flight, whatever arrives first. -/
structure FlightInv (host : ByteOrder) (env : GetEnv) (location : FileLocation)
    (file : FileImage) (start : Bytes) (t : Flight) : Prop where
  state : t.state = getAfter host env location .awaitingStart t.arrived
  arrived : ∀ packet ∈ t.arrived, packet ∈ t.emitted
  emitted : ∃ data, t.emitted = start :: data ∧
    ∀ packet ∈ data, ∃ q < file.numChunks, packet = file.packet host q
  acks : ∀ ack ∈ t.acks, ∃ k, ack = buildAckPacket host k
  sender : ∃ acked, SenderInv file t.owner.globalSender acked ∧
    Settled t.owner.globalSender acked

section Keeping

variable {host : ByteOrder} {link : LossyLink} {env : GetEnv} {location : FileLocation}
  {file : FileImage} {start : Bytes} {t u : Flight}

theorem mem_handleData_acks {receiver : Receiver} {packet ack : Bytes}
    (hack : ack ∈ (srReceiverHandleData host receiver packet).acks) :
    ∃ k, ack = buildAckPacket host k := by
  unfold srReceiverHandleData at hack
  split at hack
  · cases hack
  · split at hack
    · cases hack
    · split at hack
      · exact ⟨_, List.mem_singleton.mp hack⟩
      · split at hack
        · cases hack
        · exact ⟨_, List.mem_singleton.mp hack⟩

theorem mem_getReceive_acks {state : GetState} {packet ack : Bytes}
    (hack : ack ∈ (getReceive host env location state
      (ownerReception location packet)).acks) : ∃ k, ack = buildAckPacket host k := by
  cases state with
  | awaitingStart =>
      simp only [getReceive] at hack
      split at hack
      · cases hack
      · split at hack <;> cases hack
  | receiving receiver =>
      simp only [getReceive, ownerReception, ne_eq, not_true_eq_false, if_false] at hack
      exact mem_handleData_acks hack
  | finished result => cases hack

/-- An acknowledgement asks for nothing. -/
theorem refused_ack (owner : Owner) (peer : SockAddr) (k : Nat) (request : RequestEnv)
    (now : UInt64) :
    Refused host owner
      (.datagram (some (peer, Datagram.recv (buildAckPacket host k))) request now) := by
  intro htype
  rw [recv_buildAckPacket, msgType_buildAckPacket] at htype
  exact absurd htype (by decide)

theorem flightInv_step {action : FlightAction} (h : FlightInv host env location file start t)
    (hstep : FlightStep host link env location t action u) :
    FlightInv host env location file start u := by
  obtain ⟨data, hemitted, hdata⟩ := h.emitted
  obtain ⟨acked, hinv, hsettled⟩ := h.sender
  cases hstep with
  | arrive packet hpacket =>
      refine { h with state := ?_, arrived := ?_, acks := ?_ }
      · rw [Flight.arrive, getAfter_append, ← h.state]
        rfl
      · intro other hother
        rcases List.mem_append.mp hother with hold | hnew
        · exact h.arrived other hold
        · rwa [List.mem_singleton.mp hnew]
      · intro ack hack
        rcases List.mem_append.mp hack with hold | hnew
        · exact h.acks ack hold
        · exact mem_getReceive_acks hnew
  | acknowledge ack request now hack =>
      obtain ⟨k, rfl⟩ := h.acks ack hack
      obtain ⟨-, acked', -, hinv', hsettled'⟩ := keepsTransfer_apply hinv hsettled link
        (refused_ack t.owner t.owner.globalSender.peerAddr k request now)
      exact { h with sender := ⟨acked', hinv', hsettled'⟩ }
  | drive sendNow scanNow =>
      obtain ⟨-, acked', -, hinv', hsettled'⟩ := keepsTransfer_apply hinv hsettled link
        (show Refused host t.owner (.driver sendNow scanNow) from trivial)
      refine { h with arrived := ?_, emitted := ?_, sender := ⟨acked', hinv', hsettled'⟩ }
      · intro packet hpacket
        exact List.mem_append_left _ (h.arrived packet hpacket)
      · refine ⟨data ++ (Client.drive host t.owner sendNow scanNow).sent.map Prod.snd, ?_, ?_⟩
        · rw [Flight.drive, hemitted, List.cons_append]
        · intro packet hpacket
          rcases List.mem_append.mp hpacket with hold | hnew
          · exact hdata packet hold
          · obtain ⟨item, hitem, rfl⟩ := List.mem_map.mp hnew
            exact drive_sent hinv host sendNow scanNow item hitem

/-- What has arrived is the announcement or a chunk. -/
theorem FlightInv.arrived_cases (h : FlightInv host env location file start t) {packet : Bytes}
    (hpacket : packet ∈ t.arrived) :
    packet = start ∨ ∃ q < file.numChunks, packet = file.packet host q := by
  obtain ⟨data, hemitted, hdata⟩ := h.emitted
  have hmem := h.arrived packet hpacket
  rw [hemitted] at hmem
  rcases List.mem_cons.mp hmem with hstart | hchunk
  · exact Or.inl hstart
  · exact Or.inr (hdata packet hchunk)

end Keeping

/-! ## The receiver follows the sender -/

/-- Where `get` is, and the receiver that goes with it: before the announcement the
one that `get` will set up. -/
inductive Stage (host : ByteOrder) (env : GetEnv) (location : FileLocation) (file : FileImage)
    (start : Bytes) (early : Receiver) :
    GetState → List Bytes → Receiver → Finset Nat → Prop
  | waiting : Stage host env location file start early .awaitingStart [] early ∅
  | receiving {arrived : List Bytes} {receiver : Receiver} {stored : Finset Nat}
      (hmissing : receiver.base < receiver.numChunks)
      (harrived : ∀ q < file.numChunks, file.packet host q ∈ arrived → q ∈ stored) :
      Stage host env location file start early (.receiving receiver) arrived receiver stored
  | finished {arrived : List Bytes} {receiver : Receiver} {stored : Finset Nat}
      (hall : receiver.numChunks ≤ receiver.base) :
      Stage host env location file start early
        (.finished (finishGet env.sha256 env.canOpen location receiver)) arrived receiver stored
  | overtaken {arrived : List Bytes} {receiver : Receiver} {stored : Finset Nat}
      {result : GetReturn} {first : Bytes} (hfirst : arrived.head? = some first)
      (hother : first ≠ start) :
      Stage host env location file start early (.finished result) arrived receiver stored

/-- The two ends of a flight form a transfer. -/
def Follows (host : ByteOrder) (env : GetEnv) (location : FileLocation) (file : FileImage)
    (start : Bytes) (early : Receiver) (t : Flight) : Prop :=
  ∃ receiver data writes acked stored, t.emitted = start :: data ∧
    TransferInv host file ⟨t.owner.globalSender, receiver, data, t.acks, writes⟩ acked stored ∧
    Stage host env location file start early t.state t.arrived receiver stored

section Following

variable {host : ByteOrder} {link : LossyLink} {env : GetEnv} {location : FileLocation}
  {file : FileImage} {chunks : UInt32} {start : Bytes} {early : Receiver} {t u : Flight}

/-- What the datagram branch does with an acknowledgement. -/
theorem receive_ack_cases (link : LossyLink) (owner : Owner) (peer : SockAddr) (k : Nat) (request : RequestEnv)
    (now : UInt64) :
    (receiveDatagram host link owner (some (peer, Datagram.recv (buildAckPacket host k)))
        request now).owner.globalSender = owner.globalSender ∨
      (receiveDatagram host link owner (some (peer, Datagram.recv (buildAckPacket host k)))
          request now).owner.globalSender =
        srSenderHandleAck host owner.globalSender
          (UdpHeader.ofImage host (buildAckPacket host k)) := by
  have hlong : ¬ (buildAckPacket host k).length < udpHeaderSize := by
    rw [buildAckPacket_length]
    exact lt_irrefl _
  have hother : udpAck ≠ udpRequestFile := by decide
  simp only [receiveDatagram, recv_buildAckPacket, msgType_buildAckPacket, if_neg hlong,
    if_neg hother, if_true, handleAck]
  split
  · exact Or.inr rfl
  · exact Or.inl rfl

/-- What the driver sends, without the addresses. -/
theorem drive_packets {owner : Owner} (hactive : owner.transferActive = true)
    (sendNow scanNow : UInt64) :
    (drive host owner sendNow scanNow).sent.map Prod.snd =
      (srSenderSendWindow host owner.globalSender sendNow).packets ++
        (srSenderCheckTimeouts host (srSenderSendWindow host owner.globalSender sendNow).sender
          scanNow).packets := by
  unfold drive
  rw [if_pos hactive]
  simp only
  split
  · simp
  · split <;> simp

theorem Follows.acknowledge (h : Follows host env location file start early t) {ack : Bytes}
    (hack : ack ∈ t.acks) (request : RequestEnv) (now : UInt64) :
    Follows host env location file start early (t.acknowledge host link ack request now) := by
  obtain ⟨receiver, data, writes, acked, stored, hemitted, htransfer, hstage⟩ := h
  obtain ⟨k, hk, rfl⟩ := htransfer.acks ack hack
  rcases receive_ack_cases link t.owner t.owner.globalSender.peerAddr k request now
    with hsame | hcounted
  · refine ⟨receiver, data, writes, acked, stored, hemitted, ?_, hstage⟩
    rwa [← hsame] at htransfer
  · have hkept := htransfer.keeps_deliverAck hk
    simp only at hkept
    rw [← hcounted] at hkept
    exact ⟨receiver, data, writes, _, stored, hemitted, hkept, hstage⟩

theorem Follows.drive (h : Follows host env location file start early t)
    (sendNow scanNow : UInt64) :
    Follows host env location file start early (t.drive host sendNow scanNow) := by
  obtain ⟨receiver, data, writes, acked, stored, hemitted, htransfer, hstage⟩ := h
  by_cases hactive : t.owner.transferActive = true
  · refine ⟨receiver, data ++ (Client.drive host t.owner sendNow scanNow).sent.map Prod.snd,
      writes, acked, stored, ?_, ?_, hstage⟩
    · rw [Flight.drive, hemitted, List.cons_append]
    · rw [drive_packets hactive]
      show TransferInv host file
        ⟨(Client.drive host t.owner sendNow scanNow).owner.globalSender, _, _, _, _⟩ acked stored
      rw [drive_globalSender hactive, ← List.append_assoc]
      exact (htransfer.keeps_sendWindow sendNow).keeps_checkTimeouts scanNow
  · have hidle : Client.drive host t.owner sendNow scanNow = ⟨t.owner, [], false⟩ := by
      rw [Client.drive, if_neg hactive]
    simp only [Flight.drive, hidle, List.map_nil, List.append_nil]
    exact ⟨receiver, data, writes, acked, stored, hemitted, htransfer, hstage⟩

/-- After a reception the head of the loop decides between two stages. -/
theorem stage_continueGet {arrived : List Bytes} {receiver : Receiver} {stored : Finset Nat}
    (harrived : ∀ q < file.numChunks, file.packet host q ∈ arrived → q ∈ stored) :
    Stage host env location file start early (continueGet env location receiver) arrived receiver
      stored := by
  by_cases hmissing : receiver.base < receiver.numChunks
  · rw [continueGet_of_lt hmissing]
    exact .receiving hmissing harrived
  · rw [continueGet_of_le (not_lt.mp hmissing)]
    exact .finished (not_lt.mp hmissing)

theorem packet_ne_announcement {q : Nat} (hq : q < file.numChunks) :
    file.packet host q ≠ announcement host file chunks := by
  intro heq
  have hstart := isFileStart_build host file.size.toNat chunks.toNat
  change IsFileStart host (announcement host file chunks) at hstart
  rw [← heq] at hstart
  exact not_isFileStart_packet file host hq hstart

/-- A `get` that has returned takes no notice. -/
theorem Follows.idle (h : Follows host env location file start early t) {result : GetReturn}
    (hstate : t.state = .finished result) (packet : Bytes) :
    Follows host env location file start early (t.arrive host env location packet) := by
  obtain ⟨receiver, data, writes, acked, stored, hemitted, htransfer, hstage⟩ := h
  rw [hstate] at hstage
  simp only [Flight.arrive, hstate]
  refine ⟨receiver, data, writes, acked, stored, hemitted, ?_, ?_⟩
  · rwa [← List.append_nil t.acks] at htransfer
  · show Stage host env location file start early (.finished result) _ receiver stored
    cases hstage with
    | finished hall => exact .finished hall
    | overtaken hfirst hother =>
        refine .overtaken ?_ hother
        rw [List.head?_append, hfirst, Option.some_or]

/-- The announcement arrives, for the first time or again. -/
theorem Follows.announced
    (h : Follows host env location file (announcement host file chunks) early t)
    {heap : Nat → UInt8} (hheap : env.heap = some heap)
    (hearly : srReceiverInit (some location.peer) file.size chunks (some env.link) (some heap) =
      some early) :
    Follows host env location file (announcement host file chunks) early
      (t.arrive host env location (announcement host file chunks)) := by
  have hfollows := h
  obtain ⟨receiver, data, writes, acked, stored, hemitted, htransfer, hstage⟩ := h
  rcases t with ⟨owner, state, emitted, arrived, acks⟩
  simp only [Flight.arrive] at hemitted htransfer hstage ⊢
  cases hstage with
  | waiting =>
      obtain ⟨receiver, hinit, hreceive⟩ :=
        getReceive_start host location hheap file.size chunks
      obtain rfl : receiver = early := Option.some.inj (hinit.symm.trans hearly)
      rw [announcement, hreceive, List.append_nil]
      refine ⟨receiver, data, writes, acked, ∅, hemitted, htransfer, stage_continueGet ?_⟩
      intro q hq hmem
      exact absurd (List.mem_singleton.mp hmem) (packet_ne_announcement hq)
  | receiving hmissing harrived =>
      rw [announcement, getReceive_again, List.append_nil]
      refine ⟨receiver, data, writes, acked, stored, hemitted, htransfer, stage_continueGet ?_⟩
      intro q hq hmem
      rcases List.mem_append.mp hmem with hold | hnew
      · exact harrived q hq hold
      · exact absurd (List.mem_singleton.mp hnew) (packet_ne_announcement hq)
  | finished hall => exact hfollows.idle rfl _
  | overtaken hfirst hother => exact hfollows.idle rfl _

/-- A chunk arrives, in the place of the announcement or behind it. -/
theorem Follows.chunk
    (h : Follows host env location file (announcement host file chunks) early t) {q : Nat}
    (hpacket : file.packet host q ∈ t.emitted) (hq : q < file.numChunks) :
    Follows host env location file (announcement host file chunks) early
      (t.arrive host env location (file.packet host q)) := by
  have hfollows := h
  obtain ⟨receiver, data, writes, acked, stored, hemitted, htransfer, hstage⟩ := h
  rcases t with ⟨owner, state, emitted, arrived, acks⟩
  simp only [Flight.arrive] at hemitted htransfer hstage hpacket ⊢
  cases hstage with
  | waiting =>
      rw [getReceive_overtaking hq, List.append_nil]
      exact ⟨early, data, writes, acked, ∅, hemitted, htransfer,
        .overtaken rfl (packet_ne_announcement hq)⟩
  | receiving hmissing harrived =>
      rw [hemitted] at hpacket
      have hdata : file.packet host q ∈ data :=
        (List.mem_cons.mp hpacket).resolve_left (packet_ne_announcement hq)
      obtain ⟨k, hk, hsame⟩ := htransfer.data _ hdata
      obtain rfl : q = k := file.packet_inj host hq (htransfer.sent_lt_numChunks hk) hsame
      rw [getReceive_packet]
      refine ⟨_, data, _, acked, _, hemitted, (htransfer.keeps_deliverData hk).1,
        stage_continueGet ?_⟩
      intro j hj hmem
      rcases List.mem_append.mp hmem with hold | hnew
      · exact Finset.mem_insert_of_mem (harrived j hj hold)
      · obtain rfl : j = q := file.packet_inj host hj hq (List.mem_singleton.mp hnew)
        exact Finset.mem_insert_self j stored
  | finished hall => exact hfollows.idle rfl _
  | overtaken hfirst hother => exact hfollows.idle rfl _

theorem follows_step {action : FlightAction} {heap : Nat → UInt8} (hheap : env.heap = some heap)
    (hearly : srReceiverInit (some location.peer) file.size chunks (some env.link) (some heap) =
      some early)
    (hinv : FlightInv host env location file (announcement host file chunks) t)
    (h : Follows host env location file (announcement host file chunks) early t)
    (hstep : FlightStep host link env location t action u) :
    Follows host env location file (announcement host file chunks) early u := by
  cases hstep with
  | arrive packet hpacket =>
      obtain ⟨data, hemitted, hdata⟩ := hinv.emitted
      have hcases := hpacket
      rw [hemitted] at hcases
      rcases List.mem_cons.mp hcases with rfl | hchunk
      · exact h.announced hheap hearly
      · obtain ⟨q, hq, rfl⟩ := hdata packet hchunk
        exact h.chunk hpacket hq
  | acknowledge ack request now hack => exact h.acknowledge hack request now
  | drive sendNow scanNow => exact h.drive sendNow scanNow

end Following

/-! ## Arrival orders -/

section Orders

variable {host : ByteOrder} {env : GetEnv} {location : FileLocation} {file : FileImage}
  {chunks : UInt32} {t : Flight}

/-- The size of a file with chunks does not wrap. -/
theorem size_of_chunks (hpos : 0 < file.numChunks) : file.size.toNat + 1023 < 2 ^ 32 := by
  obtain ⟨-, hfits⟩ := file.chunk_start_lt hpos
  unfold chunkSize at hfits
  omega

/-- An announcement of too many chunks starves `get`, whatever follows. -/
theorem starved_announcement {heap : Nat → UInt8} (hheap : env.heap = some heap)
    (hmore : file.numChunks < chunks.toNat) :
    Starved file.numChunks (getReceive host env location .awaitingStart
      (ownerReception location (announcement host file chunks))).state := by
  obtain ⟨receiver, hinit, hreceive⟩ := getReceive_start host location hheap file.size chunks
  obtain ⟨start, hstart, -, -, hchunks, hbase, -, hinv⟩ :=
    srReceiverInit_inv location.peer env.link file.size chunks heap
  obtain rfl : start = receiver := Option.some.inj (hstart.symm.trans hinit)
  rw [announcement, hreceive]
  exact starved_continueGet hinv (by simp) (by simp) (hchunks.symm ▸ hmore)

/-- The return in order, when there are chunks and they are announced as they are. -/
theorem inOrderReturn_of_agree {heap : Nat → UInt8} (hheap : env.heap = some heap)
    (hagree : chunks.toNat = file.numChunks) (hsize : file.size.toNat + 1023 < 2 ^ 32) :
    inOrderReturn host env location file (announcement host file chunks) =
      some (fileReturn env location file.contents) := by
  obtain ⟨receiver, hinit, hreceive⟩ := getReceive_start host location hheap file.size chunks
  rw [inOrderReturn_eq, announcement, hreceive,
    getAfter_wholeFile (receivedInOrder_init hinit hagree) hsize]
  rfl

/-- In order, too many announced chunks keep `get` waiting. -/
theorem inOrderReturn_of_more {heap : Nat → UInt8} (hheap : env.heap = some heap)
    (hmore : file.numChunks < chunks.toNat) :
    inOrderReturn host env location file (announcement host file chunks) = none := by
  rw [inOrderReturn_eq]
  refine (starved_announcement hheap hmore).getAfter file.size.toNat chunks.toNat ?_
  intro packet hpacket
  obtain ⟨q, hq, rfl⟩ := List.mem_map.mp hpacket
  exact Or.inr ⟨q, List.mem_range.mp hq, rfl⟩

/-- When a `get` in order returns 0 without a file. -/
theorem inOrderReturn_eq_nothing_iff (hle : file.numChunks ≤ chunks.toNat)
    (hpos : 0 < file.numChunks) :
    inOrderReturn host env location file (announcement host file chunks) = some ⟨0, none⟩ ↔
      env.heap.isSome = true ∧ chunks.toNat = file.numChunks ∧
        env.sha256 file.contents ≠ location.hash := by
  have hsize := size_of_chunks hpos
  cases hheap : env.heap with
  | none =>
      rw [inOrderReturn_eq, announcement, getReceive_start_noMemory hheap, getAfter_finished]
      simp [GetState.returned]
  | some heap =>
      by_cases hagree : chunks.toNat = file.numChunks
      · rw [inOrderReturn_of_agree hheap hagree hsize]
        simp only [Option.isSome_some, hagree, true_and, Option.some.injEq, fileReturn, ne_eq]
        split
        · next hhash =>
            simp only [hhash, not_true_eq_false, iff_false]
            split <;> simp
        · next hhash => simp [hhash]
      · rw [inOrderReturn_of_more hheap (by omega)]
        simp [hagree]

theorem tolerates_of_returned {start : Bytes}
    (hreturned : t.state.returned = inOrderReturn host env location file start) :
    Tolerates host env location file start t where
  returned := by
    intro result hresult
    rw [← hreturned, hresult]
  complete := fun _ _ => hreturned

/-- The chunks behind the announcement, in any order. -/
theorem Follows.tolerates {early : Receiver} {heap : Nat → UInt8} (hheap : env.heap = some heap)
    (hagree : chunks.toNat = file.numChunks) (hsize : file.size.toNat + 1023 < 2 ^ 32)
    (h : Follows host env location file (announcement host file chunks) early t)
    {rest : List Bytes} (harrived : t.arrived = announcement host file chunks :: rest) :
    Tolerates host env location file (announcement host file chunks) t := by
  obtain ⟨receiver, data, writes, acked, stored, -, htransfer, hstage⟩ := h
  rcases t with ⟨owner, state, emitted, arrived, acks⟩
  simp only at harrived hstage htransfer
  cases hstage with
  | waiting => cases harrived
  | receiving hmissing hstored =>
      constructor
      · intro result hresult
        cases hresult
      · intro _ hall
        -- the chunk at the base has arrived, so it is stored and the base is past it
        have hbase : receiver.base < file.numChunks := by
          have hchunks := htransfer.numChunks
          simp only at hchunks
          rwa [hchunks] at hmissing
        exact absurd (hstored _ hbase (hall _ hbase)) htransfer.receiverSettled
  | finished hall =>
      have hfile := htransfer.complete_file hsize (decide_eq_true hall)
      refine tolerates_of_returned ?_
      rw [inOrderReturn_of_agree hheap hagree hsize, finishGet_eq_fileReturn hfile]
      rfl
  | overtaken hfirst hother =>
      rw [harrived, List.head?_cons] at hfirst
      exact absurd (Option.some.inj hfirst).symm hother

/-- A flight whose announcement is first tolerates every order behind it. -/
theorem FlightInv.tolerates
    (hinv : FlightInv host env location file (announcement host file chunks) t)
    (hle : file.numChunks ≤ chunks.toNat)
    (hfollows : ∀ heap early, env.heap = some heap → chunks.toNat = file.numChunks →
      file.size.toNat + 1023 < 2 ^ 32 →
      srReceiverInit (some location.peer) file.size chunks (some env.link) (some heap) =
        some early →
      Follows host env location file (announcement host file chunks) early t)
    {rest : List Bytes} (harrived : t.arrived = announcement host file chunks :: rest) :
    Tolerates host env location file (announcement host file chunks) t := by
  have hstate : t.state = getAfter host env location
      (getReceive host env location .awaitingStart
        (ownerReception location (announcement host file chunks))).state rest := by
    rw [hinv.state, harrived]
    rfl
  -- where the announcement alone ends `get`, the rest is not looked at
  have hended : ∀ result, (getReceive host env location .awaitingStart
      (ownerReception location (announcement host file chunks))).state = .finished result →
      Tolerates host env location file (announcement host file chunks) t := by
    intro result hfinished
    refine tolerates_of_returned ?_
    rw [hstate, inOrderReturn_eq, hfinished, getAfter_finished, getAfter_finished]
  cases hheap : env.heap with
  | none => exact hended _ (getReceive_start_noMemory hheap file.size chunks)
  | some heap =>
      obtain ⟨early, hearly, hreceive⟩ := getReceive_start host location hheap file.size chunks
      rcases Nat.eq_or_lt_of_le hle with hagree | hmore
      · rcases Nat.eq_zero_or_pos file.numChunks with hzero | hpos
        · have hnone : early.numChunks ≤ early.base := by
            rw [(receivedInOrder_init hearly hagree.symm).numChunks, hzero]
            exact Nat.zero_le _
          refine hended (finishGet env.sha256 env.canOpen location early) ?_
          rw [announcement, hreceive, continueGet_of_le hnone]
        · have hsize := size_of_chunks hpos
          exact (hfollows heap early hheap hagree.symm hsize hearly).tolerates hheap hagree.symm
            hsize harrived
      · refine tolerates_of_returned ?_
        rw [inOrderReturn_of_more hheap hmore, hstate]
        refine (starved_announcement hheap hmore).getAfter file.size.toNat chunks.toNat ?_
        intro packet hpacket
        exact hinv.arrived_cases (harrived ▸ List.mem_cons_of_mem _ hpacket)

/-- Nothing has arrived yet. -/
theorem FlightInv.tolerates_of_nil {start : Bytes}
    (hinv : FlightInv host env location file start t) (harrived : t.arrived = []) :
    Tolerates host env location file start t := by
  have hstate := hinv.state
  rw [harrived] at hstate
  constructor
  · intro result hresult
    rw [hstate] at hresult
    cases hresult
  · intro hmem
    rw [harrived] at hmem
    cases hmem

/-- A chunk was first: `get` has returned 0 and saved nothing. -/
theorem FlightInv.tolerates_overtaken_iff
    (hinv : FlightInv host env location file (announcement host file chunks) t)
    (hle : file.numChunks ≤ chunks.toNat) {q : Nat} (hq : q < file.numChunks)
    {rest : List Bytes} (harrived : t.arrived = file.packet host q :: rest) :
    Tolerates host env location file (announcement host file chunks) t ↔
      env.heap.isSome = true ∧ chunks.toNat = file.numChunks ∧
        env.sha256 file.contents ≠ location.hash := by
  have hreturned : t.state.returned = some ⟨0, none⟩ := by
    rw [hinv.state, harrived]
    show (getAfter host env location (getReceive host env location .awaitingStart
      (ownerReception location (file.packet host q))).state rest).returned = _
    rw [getReceive_overtaking hq, getAfter_finished]
    rfl
  rw [← inOrderReturn_eq_nothing_iff hle (Nat.zero_lt_of_lt hq)]
  constructor
  · intro h
    exact h.returned _ hreturned
  · intro h
    exact tolerates_of_returned (hreturned.trans h.symm)

end Orders

/-! ## From the request on -/

section Request

variable {host : ByteOrder} {link : LossyLink} {owner : Owner} {peer : SockAddr}
  {packet : Datagram} {request : RequestEnv} {now : UInt64} {actualSize : Int} {file : FileImage}

/-- The announced number of chunks is never too small. -/
theorem numChunks_le_announcedChunks (hsize : -1 ≤ actualSize) :
    u32 (announcedSize actualSize + chunkSize - 1) / chunkSize ≤ announcedChunks actualSize := by
  rw [announcedChunks, announcedChunks_quotient hsize]
  unfold u32 announcedSize chunkSize
  omega

/-- The flight of a granted request. -/
theorem ofRequest_granted (link : LossyLink) (peer : SockAddr) (now : UInt64)
    (hgranted : RequestGranted host owner.table packet request)
    (hend : request.fileEnd = some actualSize) (hdata : file.data = request.readBytes)
    (hsize : file.size = UInt32.ofNat (announcedSize actualSize)) :
    ∃ sender, srSenderInit (some peer) (some file.data) file.size (some link) = some sender ∧
      Flight.ofRequest (handleRequest host link owner peer packet request now).1 =
        ⟨{ owner with
            globalSender := (srSenderSendWindow host sender now).sender
            globalFileBuffer := some request.readBytes
            transferActive := true }, .awaitingStart,
          announcement host file (UInt32.ofNat (announcedChunks actualSize)) ::
            (srSenderSendWindow host sender now).packets, [], []⟩ := by
  obtain ⟨sender, hinit, -⟩ := srSenderInit_inv peer link file
  refine ⟨sender, hinit, ?_⟩
  have hword : file.size.toNat = announcedSize actualSize := by
    rw [hsize, UInt32.toNat_ofNat', Nat.mod_eq_of_lt (announcedSize_lt actualSize)]
  have hchunks : (UInt32.ofNat (announcedChunks actualSize)).toNat =
      announcedChunks actualSize := by
    rw [UInt32.toNat_ofNat', Nat.mod_eq_of_lt (announcedChunks_lt actualSize)]
  rw [handleRequest_eq_started hgranted hend hdata hsize hinit now, announcement, hword, hchunks]
  simp [Flight.ofRequest]

section Granted

variable {env : GetEnv} {location : FileLocation}
  (hgranted : RequestGranted host owner.table packet request)
  (hend : request.fileEnd = some actualSize) (hdata : file.data = request.readBytes)
  (hfileSize : file.size = UInt32.ofNat (announcedSize actualSize))

include hgranted hend hdata hfileSize

theorem flightInv_ofRequest :
    FlightInv host env location file
      (announcement host file (UInt32.ofNat (announcedChunks actualSize)))
      (Flight.ofRequest (handleRequest host link owner peer packet request now).1) := by
  obtain ⟨sender, hinit, hflight⟩ := ofRequest_granted link peer now hgranted hend hdata hfileSize
  obtain ⟨fresh, hfresh, -, hinv, -⟩ := srSenderInit_inv peer link file
  obtain rfl : fresh = sender := Option.some.inj (hfresh.symm.trans hinit)
  obtain ⟨hsent, -, -, -, -, hpackets⟩ := hinv.sendWindow_spec host now
  rw [hflight]
  refine
    { state := rfl
      arrived := by simp
      emitted := ⟨_, rfl, ?_⟩
      acks := by simp
      sender := ⟨∅, hsent, by simp [Settled]⟩ }
  intro data hmem
  rw [hpackets] at hmem
  obtain ⟨q, hq, rfl⟩ := List.mem_map.mp hmem
  rw [List.mem_range'_1, hinv.numChunks] at hq
  exact ⟨q, by omega, rfl⟩

theorem follows_ofRequest
    (hagree : (UInt32.ofNat (announcedChunks actualSize)).toNat = file.numChunks)
    (hsize : file.size.toNat + 1023 < 2 ^ 32) {heap : Nat → UInt8} {early : Receiver}
    (hearly : srReceiverInit (some location.peer) file.size
      (UInt32.ofNat (announcedChunks actualSize)) (some env.link) (some heap) = some early) :
    Follows host env location file
      (announcement host file (UInt32.ofNat (announcedChunks actualSize))) early
      (Flight.ofRequest (handleRequest host link owner peer packet request now).1) := by
  obtain ⟨sender, hinit, hflight⟩ := ofRequest_granted link peer now hgranted hend hdata hfileSize
  rw [hflight]
  have hchunks : UInt32.ofNat ((file.size.toNat + chunkSize - 1) / chunkSize) =
      UInt32.ofNat (announcedChunks actualSize) := by
    apply UInt32.toNat_inj.mp
    rw [hagree, FileImage.numChunks, u32_of_lt (by unfold chunkSize; omega), UInt32.toNat_ofNat']
    unfold chunkSize
    omega
  have hstart : TransferInit file ⟨sender, early, [], [], []⟩ :=
    { sender := ⟨peer, link, hinit⟩
      receiver := ⟨location.peer, env.link, heap, by rw [hchunks]; exact hearly⟩
      data := rfl
      acks := rfl
      writes := rfl }
  exact ⟨early, _, [], ∅, ∅, rfl,
    (transferInit_inv hsize hstart).keeps_sendWindow now, .waiting⟩

end Granted
end Request

/-- For every file and every run from a granted request on (`ftell` returns a size or
`-1`): `get` tolerates the order in which the owner's datagrams arrive exactly when
the announcement is the first of them, or when a `get` in order has room for the
receiver, gets all the chunks it was told of and refuses them for their hash. -/
theorem first_flight_tolerated_iff {host : ByteOrder} {link : LossyLink} {owner : Owner}
    {peer : SockAddr} {packet : Datagram} {request : RequestEnv} {now : UInt64}
    {actualSize : Int} {file : FileImage}
    (hgranted : RequestGranted host owner.table packet request)
    (hend : request.fileEnd = some actualSize) (hsize : -1 ≤ actualSize)
    (hdata : file.data = request.readBytes)
    (hfileSize : file.size = UInt32.ofNat (announcedSize actualSize))
    (env : GetEnv) (location : FileLocation) {actions : List FlightAction} {t : Flight}
    (hrun : Run (FlightStep host link env location)
      (Flight.ofRequest (handleRequest host link owner peer packet request now).1) actions t) :
    Tolerates host env location file
        (buildFileStart host (announcedSize actualSize) (announcedChunks actualSize)) t ↔
      (∀ first ∈ t.arrived.head?, first =
        buildFileStart host (announcedSize actualSize) (announcedChunks actualSize)) ∨
      env.heap.isSome = true ∧ announcedChunks actualSize = file.numChunks ∧
        env.sha256 file.contents ≠ location.hash := by
  have hword : file.size.toNat = announcedSize actualSize := by
    rw [hfileSize, UInt32.toNat_ofNat', Nat.mod_eq_of_lt (announcedSize_lt actualSize)]
  have hchunks : (UInt32.ofNat (announcedChunks actualSize)).toNat =
      announcedChunks actualSize := by
    rw [UInt32.toNat_ofNat', Nat.mod_eq_of_lt (announcedChunks_lt actualSize)]
  have hle : file.numChunks ≤ (UInt32.ofNat (announcedChunks actualSize)).toNat := by
    rw [hchunks, FileImage.numChunks, hword]
    exact numChunks_le_announcedChunks hsize
  have hstart : buildFileStart host (announcedSize actualSize) (announcedChunks actualSize) =
      announcement host file (UInt32.ofNat (announcedChunks actualSize)) := by
    rw [announcement, hword, hchunks]
  have hbefore : FlightInv host env location file
      (announcement host file (UInt32.ofNat (announcedChunks actualSize)))
      (Flight.ofRequest (handleRequest host link owner peer packet request now).1) :=
    flightInv_ofRequest hgranted hend hdata hfileSize
  have hinv := hrun.invariant (fun _ _ _ h hstep => flightInv_step h hstep) hbefore
  rw [hstart]
  cases harrived : t.arrived with
  | nil =>
      refine iff_of_true (hinv.tolerates_of_nil harrived) (Or.inl ?_)
      intro first hfirst
      cases hfirst
  | cons first rest =>
      rcases hinv.arrived_cases (harrived ▸ List.mem_cons_self) with hfirst | ⟨q, hq, rfl⟩
      · subst hfirst
        refine iff_of_true (hinv.tolerates hle ?_ harrived) (Or.inl ?_)
        · intro heap early hheap hagree hfits hearly
          -- both invariants together are kept by every step
          have hboth := hrun.invariant
            (P := fun t => FlightInv host env location file
                (announcement host file (UInt32.ofNat (announcedChunks actualSize))) t ∧
              Follows host env location file
                (announcement host file (UInt32.ofNat (announcedChunks actualSize))) early t)
            (fun _ _ _ h hstep =>
              ⟨flightInv_step h.1 hstep, follows_step hheap hearly h.1 h.2 hstep⟩)
            ⟨hbefore, follows_ofRequest hgranted hend hdata hfileSize hagree hfits hearly⟩
          exact hboth.2
        · intro head hhead
          cases hhead
          rfl
      · have hfirst : ¬ ∀ first ∈ (file.packet host q :: rest).head?, first =
            announcement host file (UInt32.ofNat (announcedChunks actualSize)) := by
          intro hall
          exact packet_ne_announcement hq (hall _ rfl)
        rw [or_iff_right hfirst, hinv.tolerates_overtaken_iff hle hq harrived, hchunks]

/-- The owner of a file with the single byte 7. -/
def sevenOwner : Owner :=
  (Owner.initial.apply .little ⟨3, 0, 1⟩ (.shared 1 1 sevenDigest [97])).owner

/-- The request of a `get` for it. -/
def sevenRequest : Datagram := Datagram.recv (buildRequestFile .little 1 sevenDigest)

/-- The owner has sent the announcement and the only chunk. -/
def sevenFlight : Flight :=
  Flight.ofRequest
    (handleRequest .little ⟨3, 0, 1⟩ sevenOwner ⟨1, 1⟩ sevenRequest oneByteEnv 0).1

theorem sevenRequest_granted : RequestGranted .little sevenOwner.table sevenRequest oneByteEnv where
  length := by decide +kernel
  dataLen := by decide +kernel
  listed := ⟨⟨1, 1, sevenDigest, NameField.strncpy [97]⟩, by decide +kernel, by decide +kernel⟩
  opened := ⟨1, rfl, by decide⟩
  sent := by decide
  allocated := rfl

theorem sevenFlight_emitted :
    sevenFlight.emitted = [buildFileStart .little 1 1, oneByteFile.packet .little 0] := by
  decide +kernel

/-- The two datagrams of the owner arrive, one after the other. -/
theorem sevenFlight_run (first second : Bytes) (hfirst : first ∈ sevenFlight.emitted)
    (hsecond : second ∈ sevenFlight.emitted) :
    Run (FlightStep .little ⟨3, 0, 1⟩ sevenEnv sevenLocation) sevenFlight
      [.arrive first, .arrive second]
      ((sevenFlight.arrive .little sevenEnv sevenLocation first).arrive .little sevenEnv
        sevenLocation second) :=
  Run.snoc (Run.single (.arrive sevenFlight first hfirst)) (.arrive _ second hsecond)

/-- In the order sent, the file is saved. -/
theorem first_flight_in_order :
    ∃ t, Run (FlightStep .little ⟨3, 0, 1⟩ sevenEnv sevenLocation) sevenFlight
        [.arrive (buildFileStart .little 1 1), .arrive (oneByteFile.packet .little 0)] t ∧
      t.state.returned = some ⟨0, some ([97], [7])⟩ ∧
      Tolerates .little sevenEnv sevenLocation oneByteFile (buildFileStart .little 1 1) t := by
  have hrun := sevenFlight_run (buildFileStart .little 1 1) (oneByteFile.packet .little 0)
    (by simp [sevenFlight_emitted]) (by simp [sevenFlight_emitted])
  refine ⟨_, hrun, by decide +kernel, (first_flight_tolerated_iff sevenRequest_granted rfl
    (by decide) rfl rfl sevenEnv sevenLocation hrun).mpr (Or.inl ?_)⟩
  intro first hfirst
  cases hfirst
  rfl

/-- The chunk overtakes the announcement: `get` returns 0 and has saved nothing,
also when both have arrived. -/
theorem chunk_overtakes_announcement :
    ∃ t, Run (FlightStep .little ⟨3, 0, 1⟩ sevenEnv sevenLocation) sevenFlight
        [.arrive (oneByteFile.packet .little 0), .arrive (buildFileStart .little 1 1)] t ∧
      t.state.returned = some ⟨0, none⟩ ∧
      inOrderReturn .little sevenEnv sevenLocation oneByteFile (buildFileStart .little 1 1) =
        some ⟨0, some ([97], [7])⟩ ∧
      ¬ Tolerates .little sevenEnv sevenLocation oneByteFile (buildFileStart .little 1 1) t := by
  have hrun := sevenFlight_run (oneByteFile.packet .little 0) (buildFileStart .little 1 1)
    (by simp [sevenFlight_emitted]) (by simp [sevenFlight_emitted])
  have hreference : inOrderReturn .little sevenEnv sevenLocation oneByteFile
      (buildFileStart .little 1 1) = some ⟨0, some ([97], [7])⟩ := by
    decide +kernel
  refine ⟨_, hrun, by decide +kernel, hreference, ?_⟩
  intro htolerates
  have hsame := htolerates.returned ⟨0, none⟩ (by decide +kernel)
  rw [hreference] at hsame
  cases hsame

end Client
end PeerShare
