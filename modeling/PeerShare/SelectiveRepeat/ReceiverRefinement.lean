import PeerShare.Foundation.LeastGap
import PeerShare.SelectiveRepeat.Receiver

/-!
# The receiver refines a set of stored chunks

The abstract receiver is the finite set of stored sequence numbers together
with the payload stored for each.  The code tests `slot->received` and never
`slot->seq_num`; that this is enough is the non-aliasing part of
`ReceiverInv`: a stored number that is not yet delivered lies less than one
window above the base.  As for the sender, the invariant also holds inside the
sliding loop, and a settled receiver has its base at the least missing number.
-/

namespace PeerShare
namespace SelectiveRepeat

open Foundation Wire

/-- The slot of a stored chunk that is not delivered yet. -/
structure StoredEntry (content : Nat → Bytes) (q : Nat) (entry : RecvWindowEntry) :
    Prop where
  seqNum : entry.seqNum = q
  dataLen : entry.dataLen = (content q).length
  data : entry.data.bytes.take (content q).length = content q

/-- The relation between a receiver, the stored numbers and their payloads. -/
structure ReceiverInv (receiver : Receiver) (stored : Finset Nat)
    (content : Nat → Bytes) : Prop where
  numChunks_lt : receiver.numChunks < 2 ^ 32
  count : receiver.chunksReceived = stored.card
  stored_lt : ∀ q ∈ stored, q < receiver.numChunks
  stored_window : ∀ q ∈ stored, q < receiver.base + windowSize
  below_base : ∀ q < receiver.base, q ∈ stored
  base_le : receiver.base ≤ receiver.numChunks
  received_iff : ∀ q, receiver.base ≤ q → q < receiver.base + windowSize →
    ((receiver.window.read q).received = true ↔ q ∈ stored)
  entry : ∀ q ∈ stored, receiver.base ≤ q →
    StoredEntry content q (receiver.window.read q)

/-- The copy that delivers chunk `q`. -/
def deliveryOf (content : Nat → Bytes) (q : Nat) : DeliveryCopy where
  base := q
  offset := u32 (q * chunkSize)
  dataLen := (content q).length
  data := content q

namespace ReceiverInv

variable {receiver : Receiver} {stored : Finset Nat} {content : Nat → Bytes}

theorem base_least (hinv : ReceiverInv receiver stored content)
    (hsettled : receiver.base ∉ stored) : IsLeast {k | k ∉ stored} receiver.base :=
  isLeast_missing_iff.mpr ⟨hsettled, hinv.below_base⟩

/-- The payloads outside the stored set do not matter. -/
theorem congr_content (hinv : ReceiverInv receiver stored content)
    {content' : Nat → Bytes} (hsame : ∀ q ∈ stored, content' q = content q) :
    ReceiverInv receiver stored content' :=
  { hinv with
    entry := by
      intro q hq hlow
      have hentry := hinv.entry q hq hlow
      exact
        { seqNum := hentry.seqNum
          dataLen := by rw [hsame q hq, hentry.dataLen]
          data := by rw [hsame q hq, hentry.data] } }

/-- Delivering an arrived base keeps the relation. -/
theorem keeps_deliver (hinv : ReceiverInv receiver stored content)
    (hbase : receiver.base ∈ stored) (buffer : Bytes) :
    ReceiverInv
      { receiver with
        fileBuffer := buffer
        window := receiver.window.write receiver.base
          { receiver.window.read receiver.base with received := false }
        base := receiver.base + 1 } stored content := by
  refine
    { numChunks_lt := hinv.numChunks_lt
      count := hinv.count
      stored_lt := hinv.stored_lt
      stored_window := ?_
      below_base := ?_
      base_le := hinv.stored_lt _ hbase
      received_iff := ?_
      entry := ?_ }
  · intro q hq
    have hlt := hinv.stored_window q hq
    simp only
    omega
  · intro q hq
    simp only at hq
    by_cases heq : q = receiver.base
    · rw [heq]
      exact hbase
    · exact hinv.below_base q (by omega)
  · intro q hlow hhigh
    simp only at hlow hhigh ⊢
    by_cases hlast : q = receiver.base + windowSize
    · -- the freed slot now stands for the number that enters the window
      have hslot : SlotRing.index windowSize q =
          SlotRing.index windowSize receiver.base := by
        rw [hlast, SlotRing.index_add_size]
      have hnot : q ∉ stored := by
        intro hq
        have hlt := hinv.stored_window q hq
        omega
      simp [SlotRing.read, SlotRing.write, hslot, hnot]
    · rw [SlotRing.read_write_of_window _ _ ⟨le_rfl, by unfold windowSize; omega⟩
        ⟨by omega, by omega⟩ (by omega)]
      exact hinv.received_iff q (by omega) (by omega)
  · intro q hq hlow
    simp only at hlow ⊢
    have hlt := hinv.stored_window q hq
    rw [SlotRing.read_write_of_window _ _ ⟨le_rfl, by unfold windowSize; omega⟩
      ⟨by omega, by omega⟩ (by omega)]
    exact hinv.entry q hq (by omega)

/-- One round of the sliding loop on an arrived base. -/
theorem receiverSlide_succ (hinv : ReceiverInv receiver stored content)
    (hbase : receiver.base ∈ stored) (rounds : Nat) :
    receiverSlide (rounds + 1) receiver =
      let slid := receiverSlide rounds
        { receiver with
          fileBuffer := (deliveryOf content receiver.base).apply receiver.fileBuffer
          window := receiver.window.write receiver.base
            { receiver.window.read receiver.base with received := false }
          base := receiver.base + 1 }
      (slid.1, deliveryOf content receiver.base :: slid.2) := by
  have hcond := hinv.stored_lt _ hbase
  have hchunks := hinv.numChunks_lt
  have hentry := hinv.entry _ hbase le_rfl
  have hreceived := (hinv.received_iff _ le_rfl (by unfold windowSize; omega)).mpr hbase
  have hinc : u32 (receiver.base + 1) = receiver.base + 1 := u32_of_lt (by omega)
  simp only [receiverSlide, hcond, hreceived, if_true, hinc, hentry.dataLen, hentry.data,
    deliveryOf]

/-- A base that has not arrived stops the loop. -/
theorem receiverSlide_settled (hinv : ReceiverInv receiver stored content)
    (hbase : receiver.base ∉ stored) (rounds : Nat) :
    receiverSlide rounds receiver = (receiver, []) := by
  have hreceived : ¬ (receiver.window.read receiver.base).received = true := by
    rw [hinv.received_iff _ le_rfl (by unfold windowSize; omega)]
    exact hbase
  cases rounds with
  | zero => rfl
  | succ rounds => simp [receiverSlide, hreceived]

/-- The sliding loop delivers the arrived chunks from the base on, each once
and in order, and stops at the least number that has not arrived. -/
theorem receiverSlide_spec (hinv : ReceiverInv receiver stored content) {rounds : Nat}
    (hrounds : receiver.numChunks - receiver.base ≤ rounds) :
    let slid := receiverSlide rounds receiver
    ReceiverInv slid.1 stored content ∧
      slid.1.base ∉ stored ∧
      receiver.base ≤ slid.1.base ∧
      slid.1.peerAddr = receiver.peerAddr ∧
      slid.1.fileSize = receiver.fileSize ∧
      slid.1.numChunks = receiver.numChunks ∧
      slid.2 = (List.range' receiver.base (slid.1.base - receiver.base)).map
        (deliveryOf content) ∧
      slid.1.fileBuffer = slid.2.foldl DeliveryCopy.apply receiver.fileBuffer := by
  -- by induction on the rounds left, one delivery per round
  induction rounds generalizing receiver with
  | zero =>
      have hbase : receiver.base ∉ stored := by
        intro hmem
        have hlt := hinv.stored_lt _ hmem
        omega
      exact ⟨hinv, hbase, le_rfl, rfl, rfl, rfl, by simp [receiverSlide], rfl⟩
  | succ rounds ih =>
      by_cases hbase : receiver.base ∈ stored
      · have hstep := hinv.keeps_deliver hbase
          ((deliveryOf content receiver.base).apply receiver.fileBuffer)
        obtain ⟨hinv', hgap', hle', hpeer', hsize', hchunks', hcopies', hbuffer'⟩ :=
          ih hstep (by simp only; omega)
        simp only at hle' hpeer' hsize' hchunks' hcopies' hbuffer'
        rw [hinv.receiverSlide_succ hbase rounds]
        refine ⟨hinv', hgap', by simp only; omega, hpeer', hsize', hchunks', ?_, ?_⟩
        · simp only
          rw [show ∀ top, receiver.base + 1 ≤ top →
              top - receiver.base = top - (receiver.base + 1) + 1 from fun _ _ => by omega]
          · rw [List.range'_succ, List.map_cons, ← hcopies']
          · exact hle'
        · simp only [List.foldl_cons]
          exact hbuffer'
      · rw [hinv.receiverSlide_settled hbase]
        exact ⟨hinv, hbase, le_rfl, rfl, rfl, rfl, by simp, rfl⟩

/-- Buffering a new chunk of the window keeps the relation. -/
theorem keeps_store (hinv : ReceiverInv receiver stored content) {q : Nat}
    {payload : Bytes} (hlow : receiver.base ≤ q) (hhigh : q < receiver.base + windowSize)
    (hchunks : q < receiver.numChunks) (hnew : q ∉ stored)
    (hfits : payload.length ≤ chunkSize) :
    ReceiverInv
      { receiver with
        window := receiver.window.write q
          { received := true
            seqNum := q
            data := (receiver.window.read q).data.copyIn payload
            dataLen := payload.length }
        chunksReceived := receiver.chunksReceived + 1 }
      (insert q stored) (Function.update content q payload) := by
  refine
    { numChunks_lt := hinv.numChunks_lt
      count := by simp only [hinv.count, Finset.card_insert_of_notMem hnew]
      stored_lt := ?_
      stored_window := ?_
      below_base := ?_
      base_le := hinv.base_le
      received_iff := ?_
      entry := ?_ }
  · intro k hk
    rcases Finset.mem_insert.mp hk with rfl | hk
    · exact hchunks
    · exact hinv.stored_lt k hk
  · intro k hk
    rcases Finset.mem_insert.mp hk with rfl | hk
    · exact hhigh
    · exact hinv.stored_window k hk
  · intro k hk
    exact Finset.mem_insert_of_mem (hinv.below_base k hk)
  · intro k hklow hkhigh
    simp only at hklow hkhigh ⊢
    by_cases heq : k = q
    · subst heq
      simp
    · rw [SlotRing.read_write_of_window _ _ ⟨hlow, hhigh⟩ ⟨hklow, hkhigh⟩ heq,
        Finset.mem_insert, hinv.received_iff k hklow hkhigh]
      simp [heq]
  · intro k hk hklow
    simp only at hklow ⊢
    by_cases heq : k = q
    · subst heq
      rw [SlotRing.read_write_self]
      exact
        { seqNum := rfl
          dataLen := by simp
          data := by simpa using ChunkBuffer.copyIn_take _ hfits }
    · have hkstored : k ∈ stored := by
        simpa [heq] using hk
      have hentry := hinv.entry k hkstored hklow
      rw [SlotRing.read_write_of_window _ _ ⟨hlow, hhigh⟩
        ⟨hklow, hinv.stored_window k hkstored⟩ heq]
      exact
        { seqNum := hentry.seqNum
          dataLen := by rw [Function.update_of_ne heq, hentry.dataLen]
          data := by rw [Function.update_of_ne heq, hentry.data] }

end ReceiverInv

/-! ## One datagram -/

theorem u32_le (value : Nat) : u32 value ≤ value := Nat.mod_le value _

theorem accepts_eq_some {host : ByteOrder} {receiver : Receiver} {packet payload : Bytes}
    {q : Nat} (haccepts : accepts host receiver packet = some (q, payload)) :
    decodeData host packet = some (q, payload) ∧ q < receiver.numChunks ∧
      (q < receiver.base ∨ q < u32 (receiver.base + windowSize)) := by
  unfold accepts at haccepts
  cases hdecode : decodeData host packet with
  | none => simp [hdecode] at haccepts
  | some decoded =>
      obtain ⟨k, data⟩ := decoded
      by_cases hcond : k < receiver.numChunks ∧
          (k < receiver.base ∨ k < u32 (receiver.base + windowSize))
      · simp [hdecode, hcond] at haccepts
        obtain ⟨rfl, rfl⟩ := haccepts
        exact ⟨rfl, hcond⟩
      · simp [hdecode, hcond] at haccepts

/-- A datagram that is not accepted has no effect at all. -/
theorem handleData_of_rejected {host : ByteOrder} {receiver : Receiver} {packet : Bytes}
    (haccepts : accepts host receiver packet = none) :
    srReceiverHandleData host receiver packet = ⟨receiver, [], []⟩ := by
  unfold accepts at haccepts
  unfold srReceiverHandleData
  cases hdecode : decodeData host packet with
  | none => rfl
  | some decoded =>
      obtain ⟨q, payload⟩ := decoded
      simp only [hdecode, ite_eq_right_iff, reduceCtorEq, imp_false] at haccepts
      by_cases hchunks : receiver.numChunks ≤ q
      · simp [hchunks]
      · have hbase : ¬ q < receiver.base := fun h => haccepts ⟨by omega, Or.inl h⟩
        have hahead : ¬ q < u32 (receiver.base + windowSize) :=
          fun h => haccepts ⟨by omega, Or.inr h⟩
        simp [hchunks, hbase, Nat.not_lt.mp hahead]

namespace ReceiverInv

variable {receiver : Receiver} {stored : Finset Nat} {content : Nat → Bytes}

theorem storesChunk_of_stored (hinv : ReceiverInv receiver stored content)
    {host : ByteOrder} {packet payload : Bytes} {q : Nat}
    (haccepts : accepts host receiver packet = some (q, payload)) (hstored : q ∈ stored) :
    storesChunk host receiver packet = none := by
  simp only [storesChunk, haccepts, ite_eq_right_iff, reduceCtorEq, imp_false]
  rintro ⟨hlow, hfree⟩
  have hhigh := hinv.stored_window q hstored
  rw [(hinv.received_iff q hlow hhigh).mpr hstored] at hfree
  contradiction

theorem storesChunk_of_new (hinv : ReceiverInv receiver stored content)
    {host : ByteOrder} {packet payload : Bytes} {q : Nat}
    (haccepts : accepts host receiver packet = some (q, payload)) (hnew : q ∉ stored) :
    storesChunk host receiver packet = some q := by
  obtain ⟨-, -, hwindow⟩ := accepts_eq_some haccepts
  have hbase : ¬ q < receiver.base := fun h => hnew (hinv.below_base q h)
  have hhigh : q < receiver.base + windowSize :=
    (hwindow.resolve_left hbase).trans_le (u32_le _)
  have hfree : (receiver.window.read q).received = false := by
    rw [← Bool.not_eq_true, hinv.received_iff q (by omega) hhigh]
    exact hnew
  simp [storesChunk, haccepts, Nat.not_lt.mp hbase, hfree]

/-- A duplicate is acknowledged and changes nothing. -/
theorem handleData_of_stored (hinv : ReceiverInv receiver stored content)
    (hsettled : receiver.base ∉ stored) {host : ByteOrder} {packet payload : Bytes}
    {q : Nat} (haccepts : accepts host receiver packet = some (q, payload))
    (hstored : q ∈ stored) :
    srReceiverHandleData host receiver packet =
      ⟨receiver, [buildAckPacket host q], []⟩ := by
  obtain ⟨hdecode, hchunks, hwindow⟩ := accepts_eq_some haccepts
  unfold srReceiverHandleData
  simp only [hdecode, Nat.not_le.mpr hchunks, if_false]
  by_cases hbase : q < receiver.base
  · simp [hbase]
  -- ahead of the base the slot is taken, so nothing is stored and nothing slides
  · have hahead : q < u32 (receiver.base + windowSize) := hwindow.resolve_left hbase
    have hhigh := hahead.trans_le (u32_le _)
    have hreceived := (hinv.received_iff q (by omega) hhigh).mpr hstored
    have hstore : storeChunk receiver q payload = receiver := by
      simp [storeChunk, hreceived]
    simp only [hbase, if_false, Nat.not_le.mpr hahead, hstore,
      hinv.receiverSlide_settled hsettled]

/-- A new chunk is written to its slot before the window slides. -/
theorem handleData_eq_slide (hinv : ReceiverInv receiver stored content)
    {host : ByteOrder} {packet payload : Bytes} {q : Nat}
    (haccepts : accepts host receiver packet = some (q, payload)) (hnew : q ∉ stored) :
    srReceiverHandleData host receiver packet =
      let slid := receiverSlide (receiver.numChunks - receiver.base)
        { receiver with
          window := receiver.window.write q
            { received := true
              seqNum := q
              data := (receiver.window.read q).data.copyIn payload
              dataLen := payload.length }
          chunksReceived := receiver.chunksReceived + 1 }
      ⟨slid.1, [buildAckPacket host q], slid.2⟩ := by
  obtain ⟨hdecode, hchunks, hwindow⟩ := accepts_eq_some haccepts
  have hbase : ¬ q < receiver.base := fun h => hnew (hinv.below_base q h)
  have hahead : q < u32 (receiver.base + windowSize) := hwindow.resolve_left hbase
  have hhigh := hahead.trans_le (u32_le _)
  have hfree : (receiver.window.read q).received = false := by
    have hiff := hinv.received_iff q (by omega) hhigh
    cases hread : (receiver.window.read q).received with
    | false => rfl
    | true => exact absurd (hiff.mp hread) hnew
  -- the counter stays below `num_chunks`: the new number is not among those stored
  have hcount : u32 (receiver.chunksReceived + 1) = receiver.chunksReceived + 1 := by
    have hsub : stored ⊆ Finset.range receiver.numChunks := by
      intro k hk
      exact Finset.mem_range.mpr (hinv.stored_lt k hk)
    have hcard := Finset.card_lt_card
      ((Finset.ssubset_iff_of_subset hsub).mpr ⟨q, Finset.mem_range.mpr hchunks, hnew⟩)
    rw [Finset.card_range, ← hinv.count] at hcard
    have hsmall := hinv.numChunks_lt
    exact u32_of_lt (by omega)
  unfold srReceiverHandleData
  simp only [hdecode, Nat.not_le.mpr hchunks, hbase, Nat.not_le.mpr hahead, if_false,
    storeChunk, hfree, hcount, Bool.false_eq_true]

/-- A new chunk is buffered, acknowledged, and the window slides. -/
theorem handleData_of_new (hinv : ReceiverInv receiver stored content)
    {host : ByteOrder} {packet payload : Bytes} {q : Nat}
    (haccepts : accepts host receiver packet = some (q, payload))
    (hnew : q ∉ stored) (hfits : payload.length ≤ chunkSize) :
    let result := srReceiverHandleData host receiver packet
    let content' := Function.update content q payload
    ReceiverInv result.receiver (insert q stored) content' ∧
      result.receiver.base ∉ insert q stored ∧
      receiver.base ≤ q ∧
      receiver.base ≤ result.receiver.base ∧
      result.receiver.peerAddr = receiver.peerAddr ∧
      result.receiver.fileSize = receiver.fileSize ∧
      result.receiver.numChunks = receiver.numChunks ∧
      result.acks = [buildAckPacket host q] ∧
      result.copies = (List.range' receiver.base
        (result.receiver.base - receiver.base)).map (deliveryOf content') ∧
      result.receiver.fileBuffer =
        result.copies.foldl DeliveryCopy.apply receiver.fileBuffer := by
  obtain ⟨-, hchunks, hwindow⟩ := accepts_eq_some haccepts
  have hbase : ¬ q < receiver.base := fun h => hnew (hinv.below_base q h)
  have hhigh := (hwindow.resolve_left hbase).trans_le (u32_le _)
  have hkept := hinv.keeps_store (by omega : receiver.base ≤ q) hhigh hchunks hnew hfits
  obtain ⟨hinv', hgap', hle', hpeer', hsize', hchunks', hcopies', hbuffer'⟩ :=
    hkept.receiverSlide_spec (le_refl _)
  rw [hinv.handleData_eq_slide haccepts hnew]
  exact ⟨hinv', hgap', by omega, hle', hpeer', hsize', hchunks', rfl, hcopies', hbuffer'⟩

end ReceiverInv
end SelectiveRepeat
end PeerShare
