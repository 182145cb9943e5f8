import PeerShare.SelectiveRepeat.ReceiverRefinement

/-!
# Runs of one receiver against an arbitrary peer

A run feeds arbitrary datagrams to the receiver.  The history keeps what an
observer could write down: the datagrams that were accepted, the numbers that
were stored, the acknowledgements sent and the copies into `file_buffer`.  The
payload of a chunk is that of the first accepted datagram with its number,
which is `List.lookup` on the accepted ones.
-/

namespace PeerShare
namespace SelectiveRepeat

open Foundation Wire

structure ReceiverHistory where
  receiver : Receiver
  accepted : List (Nat × Bytes)
  stored : List Nat
  acks : List Bytes
  copies : List DeliveryCopy

/-- Handle one datagram and extend the history. -/
def ReceiverHistory.handle (host : ByteOrder) (history : ReceiverHistory)
    (packet : Datagram) : ReceiverHistory :=
  let result := srReceiverHandleData host history.receiver packet.bytes
  { receiver := result.receiver
    accepted := history.accepted ++ (accepts host history.receiver packet.bytes).toList
    stored := history.stored ++ (storesChunk host history.receiver packet.bytes).toList
    acks := history.acks ++ result.acks
    copies := history.copies ++ result.copies }

def runReceiver (host : ByteOrder) (receiver : Receiver) (packets : List Datagram) :
    ReceiverHistory :=
  packets.foldl (ReceiverHistory.handle host) ⟨receiver, [], [], [], []⟩

/-- The payload of the first accepted datagram with number `q`. -/
def contentOf (accepted : List (Nat × Bytes)) (q : Nat) : Bytes :=
  (accepted.lookup q).getD []

theorem contentOf_append_new {accepted : List (Nat × Bytes)} {q : Nat}
    (hnew : accepted.lookup q = none) (payload : Bytes) :
    contentOf (accepted ++ [(q, payload)]) =
      Function.update (contentOf accepted) q payload := by
  funext k
  by_cases heq : k = q
  · subst heq
    simp [contentOf, List.lookup_append, hnew]
  · have hne : (k == q) = false := by simpa using heq
    simp [contentOf, List.lookup_append, Function.update_of_ne heq, List.lookup_cons, hne]

theorem contentOf_append_old {accepted : List (Nat × Bytes)} {q : Nat}
    (hold : (accepted.lookup q).isSome) (payload : Bytes) :
    contentOf (accepted ++ [(q, payload)]) = contentOf accepted := by
  funext k
  by_cases heq : k = q
  · subst heq
    obtain ⟨first, hfirst⟩ := Option.isSome_iff_exists.mp hold
    simp [contentOf, List.lookup_append, hfirst]
  · have hne : (k == q) = false := by simpa using heq
    simp [contentOf, List.lookup_append, List.lookup_cons, hne]

/-- What a run keeps, relative to the receiver it started from. -/
structure ReceiverHistoryInv (host : ByteOrder) (start : Receiver)
    (history : ReceiverHistory) : Prop where
  inv : ReceiverInv history.receiver history.stored.toFinset (contentOf history.accepted)
  settled : history.receiver.base ∉ history.stored.toFinset
  nodup : history.stored.Nodup
  stored_iff : ∀ q, q ∈ history.stored ↔ (history.accepted.lookup q).isSome
  payload_le : ∀ q, (contentOf history.accepted q).length ≤ chunkSize
  acks : history.acks = history.accepted.map fun chunk => buildAckPacket host chunk.1
  acked : ∀ chunk ∈ history.accepted, chunk.1 ∈ history.stored
  copies : history.copies = (List.range history.receiver.base).map
    (deliveryOf (contentOf history.accepted))
  buffer : history.receiver.fileBuffer =
    history.copies.foldl DeliveryCopy.apply start.fileBuffer
  peerAddr : history.receiver.peerAddr = start.peerAddr
  fileSize : history.receiver.fileSize = start.fileSize
  numChunks : history.receiver.numChunks = start.numChunks

/-- A datagram fits its buffer, so its payload fits a slot. -/
theorem payload_length_le {host : ByteOrder} {receiver : Receiver} {packet : Datagram}
    {q : Nat} {payload : Bytes}
    (haccepts : accepts host receiver packet.bytes = some (q, payload)) :
    payload.length ≤ chunkSize := by
  obtain ⟨hdecode, -⟩ := accepts_eq_some haccepts
  have hlength := decodeData_payload_length hdecode
  have hbuffer := packet.length_le
  omega

/-- An accepted chunk was carried by a datagram of the run. -/
theorem mem_accepted_run {host : ByteOrder} {receiver : Receiver} {packets : List Datagram}
    {chunk : Nat × Bytes} (hchunk : chunk ∈ (runReceiver host receiver packets).accepted) :
    ∃ packet ∈ packets, decodeData host packet.bytes = some chunk := by
  unfold runReceiver at hchunk
  induction packets using List.reverseRecOn with
  | nil => simp at hchunk
  | append_singleton packets packet ih =>
      rw [List.foldl_concat] at hchunk
      rcases List.mem_append.mp hchunk with hold | hnew
      · obtain ⟨other, hother, hdecode⟩ := ih hold
        exact ⟨other, List.mem_append_left _ hother, hdecode⟩
      · obtain ⟨hdecode, -⟩ := accepts_eq_some (Option.mem_toList.mp hnew)
        exact ⟨packet, List.mem_append_right _ (List.mem_singleton.mpr rfl), hdecode⟩

/-- The copies of a longer prefix, when the payload of an undelivered chunk
changes. -/
theorem map_deliveryOf_update {content : Nat → Bytes} {q base : Nat} (payload : Bytes)
    (hbase : base ≤ q) :
    (List.range base).map (deliveryOf (Function.update content q payload)) =
      (List.range base).map (deliveryOf content) := by
  apply List.map_congr_left
  intro k hk
  have hlt := List.mem_range.mp hk
  simp [deliveryOf, Function.update_of_ne (by omega : k ≠ q)]

theorem range_append_range' {low high : Nat} (hle : low ≤ high) :
    List.range low ++ List.range' low (high - low) = List.range high := by
  have happend : List.range' 0 low ++ List.range' (0 + low) (high - low) =
      List.range' 0 (low + (high - low)) := List.range'_append_1
  rw [Nat.zero_add, Nat.add_sub_cancel' hle] at happend
  rw [List.range_eq_range', List.range_eq_range', happend]

/-- A number is found once a datagram with it was accepted. -/
theorem isSome_lookup_append (accepted : List (Nat × Bytes)) (q : Nat) (payload : Bytes)
    (k : Nat) :
    ((accepted ++ [(q, payload)]).lookup k).isSome ↔ (accepted.lookup k).isSome ∨ k = q := by
  rw [List.lookup_append]
  by_cases heq : k = q
  · subst heq
    simp
  · have hne : (k == q) = false := by simpa using heq
    simp [List.lookup_cons, hne, heq]

section Handling

variable {host : ByteOrder} {start : Receiver} {history : ReceiverHistory} {packet : Datagram}

theorem ReceiverHistoryInv.rejected (hinv : ReceiverHistoryInv host start history)
    (haccepts : accepts host history.receiver packet.bytes = none) :
    ReceiverHistoryInv host start (history.handle host packet) := by
  have hstores : storesChunk host history.receiver packet.bytes = none := by
    simp [storesChunk, haccepts]
  simp only [ReceiverHistory.handle, handleData_of_rejected haccepts, haccepts, hstores,
    Option.toList_none, List.append_nil]
  exact hinv

/-- A chunk that is stored already: only the list of accepted datagrams grows. -/
theorem ReceiverHistoryInv.duplicate (hinv : ReceiverHistoryInv host start history) {q : Nat}
    {payload : Bytes}
    (haccepts : accepts host history.receiver packet.bytes = some (q, payload))
    (hstored : q ∈ history.stored) :
    ReceiverHistoryInv host start (history.handle host packet) := by
  have hmem : q ∈ history.stored.toFinset := List.mem_toFinset.mpr hstored
  have hstores := hinv.inv.storesChunk_of_stored haccepts hmem
  have hcontent := contentOf_append_old ((hinv.stored_iff q).mp hstored) payload
  simp only [ReceiverHistory.handle, hinv.inv.handleData_of_stored hinv.settled haccepts hmem,
    haccepts, hstores, Option.toList_none, Option.toList_some, List.append_nil]
  refine
    { hinv with
      inv := ?_
      stored_iff := ?_
      payload_le := ?_
      acks := ?_
      acked := ?_
      copies := ?_ }
  · rw [hcontent]
    exact hinv.inv
  · intro k
    rw [isSome_lookup_append, ← hinv.stored_iff k]
    refine ⟨Or.inl, ?_⟩
    rintro (hold | rfl)
    · exact hold
    · exact hstored
  · rw [hcontent]
    exact hinv.payload_le
  · simp [hinv.acks]
  · intro chunk hchunk
    rcases List.mem_append.mp hchunk with hold | hlast
    · exact hinv.acked chunk hold
    · rw [List.mem_singleton.mp hlast]
      exact hstored
  · rw [hcontent]
    exact hinv.copies

/-- A new chunk: everything grows, and the copies reach up to the new base. -/
theorem ReceiverHistoryInv.store (hinv : ReceiverHistoryInv host start history) {q : Nat}
    {payload : Bytes}
    (haccepts : accepts host history.receiver packet.bytes = some (q, payload))
    (hstored : q ∉ history.stored) :
    ReceiverHistoryInv host start (history.handle host packet) := by
  have hmem : q ∉ history.stored.toFinset := by simpa using hstored
  have hfits := payload_length_le haccepts
  obtain ⟨hrec', hgap', hlow, hle', hpeer', hsize', hchunks', hacks', hcopies',
    hbuffer'⟩ := hinv.inv.handleData_of_new haccepts hmem hfits
  have hlookup : history.accepted.lookup q = none := by
    rw [← Option.not_isSome_iff_eq_none, ← hinv.stored_iff q]
    exact hstored
  have hcontent := contentOf_append_new hlookup payload
  have hset : (history.stored ++ [q]).toFinset = insert q history.stored.toFinset := by
    simp [List.toFinset_append]
  simp only [ReceiverHistory.handle, haccepts, hinv.inv.storesChunk_of_new haccepts hmem,
    Option.toList_some]
  constructor
  · rw [hset, hcontent]
    exact hrec'
  · rw [hset]
    exact hgap'
  · show (history.stored ++ [q]).Nodup
    rw [← List.concat_eq_append]
    exact hinv.nodup.concat hstored
  · intro k
    rw [isSome_lookup_append, ← hinv.stored_iff k, List.mem_append, List.mem_singleton]
  · intro k
    rw [hcontent]
    by_cases heq : k = q
    · subst heq
      simpa using hfits
    · rw [Function.update_of_ne heq]
      exact hinv.payload_le k
  · simp [hinv.acks, hacks']
  · intro chunk hchunk
    rcases List.mem_append.mp hchunk with hold | hlast
    · exact List.mem_append_left _ (hinv.acked chunk hold)
    · rw [List.mem_singleton.mp hlast]
      exact List.mem_append_right _ (List.mem_singleton.mpr rfl)
  -- the new payload lies at or above the old base, so the old copies stay
  · rw [hcontent, hcopies', hinv.copies, ← map_deliveryOf_update payload hlow,
      ← List.map_append, range_append_range' hle']
  · rw [List.foldl_append, ← hinv.buffer]
    exact hbuffer'
  · exact hpeer'.trans hinv.peerAddr
  · exact hsize'.trans hinv.fileSize
  · exact hchunks'.trans hinv.numChunks

/-- One datagram keeps the invariant of the history. -/
theorem receiverHistoryInv_handle (hinv : ReceiverHistoryInv host start history)
    (packet : Datagram) :
    ReceiverHistoryInv host start (history.handle host packet) := by
  cases haccepts : accepts host history.receiver packet.bytes with
  | none => exact hinv.rejected haccepts
  | some chunk =>
      obtain ⟨q, payload⟩ := chunk
      by_cases hstored : q ∈ history.stored
      · exact hinv.duplicate haccepts hstored
      · exact hinv.store haccepts hstored

end Handling

theorem srReceiverInit_inv (peerAddr : SockAddr) (link : LossyLink)
    (fileSize numChunks : UInt32) (heap : Nat → UInt8) :
    ∃ start,
      srReceiverInit (some peerAddr) fileSize numChunks (some link) (some heap) =
          some start ∧
        start.peerAddr = peerAddr ∧ start.fileSize = fileSize.toNat ∧
        start.numChunks = numChunks.toNat ∧ start.base = 0 ∧
        start.fileBuffer.length = fileSize.toNat ∧
        ReceiverInv start ∅ (contentOf []) := by
  refine ⟨_, rfl, rfl, rfl, rfl, rfl, by simp, ?_⟩
  exact
    { numChunks_lt := numChunks.toNat_lt
      count := rfl
      stored_lt := by simp
      stored_window := by simp
      below_base := by simp
      base_le := Nat.zero_le _
      received_iff := fun q _ _ => by simp [RecvWindowEntry.cleared]
      entry := by simp }

theorem receiverHistoryInv_run (host : ByteOrder) {start : Receiver}
    (hinv : ReceiverInv start ∅ (contentOf [])) (hbase : start.base = 0)
    (packets : List Datagram) :
    ReceiverHistoryInv host start (runReceiver host start packets) := by
  unfold runReceiver
  induction packets using List.reverseRecOn with
  | nil =>
      exact
        { inv := by simpa using hinv
          settled := by simp
          nodup := List.nodup_nil
          stored_iff := by simp
          payload_le := by simp [contentOf]
          acks := rfl
          acked := by simp
          copies := by simp [hbase]
          buffer := rfl
          peerAddr := rfl
          fileSize := rfl
          numChunks := rfl }
  | append_singleton packets packet ih =>
      rw [List.foldl_concat]
      exact receiverHistoryInv_handle ih packet

/-- Chunks that arrive in order are all stored. -/
theorem stored_inOrder {host : ByteOrder} {receiver : Receiver} {packet : Nat → Datagram}
    {payload : Nat → Bytes} (hinv : ReceiverInv receiver ∅ (contentOf []))
    (hbase : receiver.base = 0) {count : Nat} (hchunks : count ≤ receiver.numChunks)
    (hsmall : count + windowSize ≤ 2 ^ 32)
    (hpacket : ∀ q < count, decodeData host (packet q).bytes = some (q, payload q)) :
    ∀ q, q ∈ (runReceiver host receiver ((List.range count).map packet)).stored ↔
      q < count := by
  induction count with
  | zero => simp [runReceiver]
  | succ count ih =>
      have ih := ih (by omega) (by omega) fun q hq => hpacket q (by omega)
      have hrun : runReceiver host receiver ((List.range (count + 1)).map packet) =
          (runReceiver host receiver ((List.range count).map packet)).handle host
            (packet count) := by
        rw [List.range_succ, List.map_append, runReceiver, List.foldl_append]
        rfl
      have hhistory := receiverHistoryInv_run host hinv hbase ((List.range count).map packet)
      have hafter := receiverHistoryInv_handle hhistory (packet count)
      rw [hrun]
      generalize runReceiver host receiver ((List.range count).map packet) =
        history at ih hhistory hafter
      -- the base has followed the chunks that came before
      have hhere : history.receiver.base = count := by
        have hleast := hhistory.inv.base_least hhistory.settled
        apply le_antisymm
        · exact isLeast_missing_le hleast fun k hk => (ih k).mp (List.mem_toFinset.mp hk)
        · by_contra hlt
          exact hhistory.settled (List.mem_toFinset.mpr ((ih _).mpr (by omega)))
      have haccepts : accepts host history.receiver (packet count).bytes =
          some (count, payload count) := by
        have hlt : count < history.receiver.numChunks := by
          rw [hhistory.numChunks]
          omega
        have hwindow : count < u32 (history.receiver.base + windowSize) := by
          rw [hhere, u32_of_lt (by omega)]
          unfold windowSize
          omega
        simp [accepts, hpacket count (Nat.lt_succ_self count), hlt, hwindow]
      intro q
      rw [hafter.stored_iff q]
      simp only [ReceiverHistory.handle, haccepts, Option.toList_some]
      rw [isSome_lookup_append, ← hhistory.stored_iff q, ih q]
      omega

/-- The receiver seen as the set `stored`: base, counter and the content of all
64 slots are functions of the set and of the accepted datagrams. -/
structure RefinesReceivedSet (history : ReceiverHistory) (stored : Finset Nat) : Prop where
  stored_lt : ∀ q ∈ stored, q < history.receiver.numChunks
  base_least : IsLeast {k | k ∉ stored} history.receiver.base
  count : history.receiver.chunksReceived = stored.card
  slot : ∀ slot : Fin windowSize, ∃ q,
    (history.receiver.base ≤ q ∧ q < history.receiver.base + windowSize ∧
      q % windowSize = slot.val) ∧
    (∀ k, history.receiver.base ≤ k → k < history.receiver.base + windowSize →
      k % windowSize = slot.val → k = q) ∧
    ((history.receiver.window slot).received = true ↔ q ∈ stored) ∧
    (q ∈ stored → ∃ payload,
      history.accepted.lookup q = some payload ∧
        (history.receiver.window slot).seqNum = q ∧
        (history.receiver.window slot).dataLen = payload.length ∧
        payload.length ≤ chunkSize ∧
        (history.receiver.window slot).data.bytes.take payload.length = payload)

theorem ReceiverHistoryInv.lookup {host : ByteOrder} {start : Receiver}
    {history : ReceiverHistory} (hinv : ReceiverHistoryInv host start history) {q : Nat}
    (hq : q ∈ history.stored) :
    history.accepted.lookup q = some (contentOf history.accepted q) := by
  obtain ⟨payload, hpayload⟩ := Option.isSome_iff_exists.mp ((hinv.stored_iff q).mp hq)
  simp [contentOf, hpayload]

/-- The payload of a stored chunk was accepted under its number. -/
theorem ReceiverHistoryInv.mem_accepted {host : ByteOrder} {start : Receiver}
    {history : ReceiverHistory} (hinv : ReceiverHistoryInv host start history) {q : Nat}
    (hq : q ∈ history.stored) :
    (q, contentOf history.accepted q) ∈ history.accepted := by
  have hlookup := hinv.lookup hq
  generalize contentOf history.accepted q = payload at hlookup ⊢
  obtain ⟨before, after, heq, -⟩ := List.lookup_eq_some_iff.mp hlookup
  rw [heq]
  exact List.mem_append_right _ List.mem_cons_self

theorem ReceiverHistoryInv.refines {host : ByteOrder} {start : Receiver}
    {history : ReceiverHistory} (hinv : ReceiverHistoryInv host start history) :
    RefinesReceivedSet history history.stored.toFinset where
  stored_lt := hinv.inv.stored_lt
  base_least := hinv.inv.base_least hinv.settled
  count := hinv.inv.count
  slot := by
    intro slot
    -- the one number of the window that lives in this slot
    obtain ⟨q, hlow, hhigh, hslot⟩ :=
      SlotRing.exists_seq_of_index history.receiver.base slot
    have hmod : q % windowSize = slot.val := by
      rw [← hslot]
      rfl
    have hread : history.receiver.window slot = history.receiver.window.read q := by
      rw [SlotRing.read, hslot]
    refine ⟨q, ⟨hlow, hhigh, hmod⟩, ?_, ?_, ?_⟩
    · intro k hklow hkhigh hkmod
      apply SlotRing.eq_of_index_eq ⟨hklow, hkhigh⟩ ⟨hlow, hhigh⟩
      rw [SlotRing.index_eq_iff, hkmod, hmod]
    · rw [hread]
      exact hinv.inv.received_iff q hlow hhigh
    · intro hq
      have hentry := hinv.inv.entry q hq hlow
      rw [hread]
      exact ⟨_, hinv.lookup (List.mem_toFinset.mp hq), hentry.seqNum, hentry.dataLen,
        hinv.payload_le q, hentry.data⟩

/-- The effect of one more datagram on a receiver with stored set `stored`. -/
structure DatagramEffect (host : ByteOrder) (receiver : Receiver) (stored : Finset Nat)
    (packet : Bytes) : Prop where
  base_mono : receiver.base ≤ (srReceiverHandleData host receiver packet).receiver.base
  accepted : ∀ q payload, decodeData host packet = some (q, payload) →
    q < receiver.numChunks →
    (q < receiver.base ∨ q < u32 (receiver.base + windowSize)) →
    (srReceiverHandleData host receiver packet).acks = [buildAckPacket host q] ∧
      (q ∈ stored →
        (srReceiverHandleData host receiver packet).receiver = receiver ∧
          (srReceiverHandleData host receiver packet).copies = [])
  ignored : (∀ q payload, decodeData host packet = some (q, payload) →
      q < receiver.numChunks →
      ¬ (q < receiver.base ∨ q < u32 (receiver.base + windowSize))) →
    srReceiverHandleData host receiver packet = ⟨receiver, [], []⟩

theorem ReceiverHistoryInv.datagramEffect {host : ByteOrder} {start : Receiver}
    {history : ReceiverHistory} (hinv : ReceiverHistoryInv host start history)
    (packet : Datagram) :
    DatagramEffect host history.receiver history.stored.toFinset packet.bytes := by
  have hrec := hinv.inv
  refine { base_mono := ?_, accepted := ?_, ignored := ?_ }
  · cases haccepts : accepts host history.receiver packet.bytes with
    | none => rw [handleData_of_rejected haccepts]
    | some chunk =>
        obtain ⟨q, payload⟩ := chunk
        by_cases hstored : q ∈ history.stored.toFinset
        · rw [hrec.handleData_of_stored hinv.settled haccepts hstored]
        · obtain ⟨-, -, -, hle, -⟩ :=
            hrec.handleData_of_new haccepts hstored (payload_length_le haccepts)
          exact hle
  · intro q payload hdecode hchunks hwindow
    have haccepts : accepts host history.receiver packet.bytes = some (q, payload) := by
      simp [accepts, hdecode, hchunks, hwindow]
    by_cases hstored : q ∈ history.stored.toFinset
    · rw [hrec.handleData_of_stored hinv.settled haccepts hstored]
      exact ⟨rfl, fun _ => ⟨rfl, rfl⟩⟩
    · obtain ⟨-, -, -, -, -, -, -, hacks, -⟩ :=
        hrec.handleData_of_new haccepts hstored (payload_length_le haccepts)
      exact ⟨hacks, fun h => absurd h hstored⟩
  · intro hnone
    apply handleData_of_rejected
    unfold accepts
    cases hdecode : decodeData host packet.bytes with
    | none => rfl
    | some chunk =>
        obtain ⟨q, payload⟩ := chunk
        simp only [ite_eq_right_iff, reduceCtorEq, imp_false]
        rintro ⟨hchunks, hwindow⟩
        exact hnone q payload hdecode hchunks hwindow

/-- Whatever datagrams arrive, for every announced size and every 32-bit chunk
count, the receiver refines the set of stored numbers.  Chunks are delivered
once each and in increasing order, every acknowledgement sent names a stored
chunk, and the next datagram has exactly the effect of `DatagramEffect`. -/
theorem receiver_refines_received_set (host : ByteOrder) (peerAddr : SockAddr)
    (link : LossyLink) (fileSize numChunks : UInt32) (heap : Nat → UInt8)
    (packets : List Datagram) :
    ∃ start,
      srReceiverInit (some peerAddr) fileSize numChunks (some link) (some heap) =
          some start ∧
        let history := runReceiver host start packets
        let stored := history.stored.toFinset
        RefinesReceivedSet history stored ∧
          history.receiver.numChunks = numChunks.toNat ∧
          history.stored.Nodup ∧
          (∀ q, q ∈ stored ↔ (history.accepted.lookup q).isSome) ∧
          history.copies.map (·.base) = List.range history.receiver.base ∧
          (∀ copy ∈ history.copies, history.accepted.lookup copy.base = some copy.data ∧
            copy.dataLen = copy.data.length ∧
            copy.offset = u32 (copy.base * chunkSize)) ∧
          history.receiver.fileBuffer =
            history.copies.foldl DeliveryCopy.apply start.fileBuffer ∧
          (∀ ack ∈ history.acks, ∃ q ∈ stored, ack = buildAckPacket host q ∧
            ackNumber host (UdpHeader.ofImage host ack) = q) ∧
          ∀ packet : Datagram,
            DatagramEffect host history.receiver stored packet.bytes := by
  obtain ⟨start, hinit, -, -, hchunks, hbase, -, hstart⟩ :=
    srReceiverInit_inv peerAddr link fileSize numChunks heap
  have hinv := receiverHistoryInv_run host hstart hbase packets
  refine ⟨start, hinit, hinv.refines, hinv.numChunks.trans hchunks, hinv.nodup, ?_, ?_, ?_,
    hinv.buffer, ?_, hinv.datagramEffect⟩
  · intro q
    rw [List.mem_toFinset, hinv.stored_iff q]
  · rw [hinv.copies, List.map_map]
    exact List.map_id _
  · intro copy hcopy
    rw [hinv.copies] at hcopy
    obtain ⟨q, hq, rfl⟩ := List.mem_map.mp hcopy
    have hstored := hinv.inv.below_base q (List.mem_range.mp hq)
    exact ⟨hinv.lookup (List.mem_toFinset.mp hstored), rfl, rfl⟩
  · intro ack hack
    rw [hinv.acks] at hack
    obtain ⟨chunk, hchunk, rfl⟩ := List.mem_map.mp hack
    have hstored := List.mem_toFinset.mpr (hinv.acked chunk hchunk)
    have hlt := hinv.inv.stored_lt chunk.1 hstored
    have hsmall := hinv.inv.numChunks_lt
    exact ⟨chunk.1, hstored, rfl, ackNumber_buildAckPacket host (hlt.trans hsmall)⟩

end SelectiveRepeat
end PeerShare
