import PeerShare.SelectiveRepeat.ReceiverRun

/-!
# Order and repetition of one window of packets

A batch holds at most one packet for each number of the current window.  No slot
is written twice while it is fed, so everything the receiver keeps (also the bytes
that lie unused in a slot) is a function of the set of numbers that were stored
from the batch.  Two sequences over the batch therefore end in the same state as
soon as they store the same numbers.  They do, except where the base slides to
`2 ^ 32 - 64` while a packet of the batch is still to come: from there on
`base + WINDOW_SIZE` wraps and every new packet is taken for one that is ahead of
the window.
-/

namespace PeerShare
namespace SelectiveRepeat

open Foundation Wire

/-- A checksum-valid `UDP_DATA` packet with sequence number `q`. -/
structure ValidData (host : ByteOrder) (packet : Bytes) (q : Nat) : Prop where
  header : udpHeaderSize ≤ packet.length
  checksum : (UdpHeader.ofImage host packet).checksum =
    calculateChecksum (setChecksum host packet 0)
  msgType : (UdpHeader.ofImage host packet).msgType = udpData
  seqNum : ntoh host 4 (UdpHeader.ofImage host packet).seqNum = q

/-- A set of valid packets, one for each of its numbers. -/
structure Batch (host : ByteOrder) where
  numbers : Finset Nat
  packet : Nat → Datagram
  valid : ∀ q ∈ numbers, ValidData host (packet q).bytes q

/-- The packet of `q` is as long as its header says. -/
def Batch.Whole {host : ByteOrder} (batch : Batch host) (q : Nat) : Prop :=
  q ∈ batch.numbers ∧ (decodeData host (batch.packet q).bytes).isSome

instance {host : ByteOrder} (batch : Batch host) (q : Nat) : Decidable (batch.Whole q) :=
  inferInstanceAs (Decidable (_ ∧ _))

/-- The payload under number `q`. -/
def Batch.payload {host : ByteOrder} (batch : Batch host) (q : Nat) : Bytes :=
  ((decodeData host (batch.packet q).bytes).map Prod.snd).getD []

/-- `sr_receiver_handle_data` on each packet in turn. -/
def feed (host : ByteOrder) (receiver : Receiver) (packets : List Datagram) : Receiver :=
  packets.foldl (fun receiver packet =>
    (srReceiverHandleData host receiver packet.bytes).receiver) receiver

@[simp] theorem feed_cons (host : ByteOrder) (receiver : Receiver) (packet : Datagram)
    (packets : List Datagram) :
    feed host receiver (packet :: packets) =
      feed host (srReceiverHandleData host receiver packet.bytes).receiver packets := rfl

theorem feed_append (host : ByteOrder) (receiver : Receiver) (packets later : List Datagram) :
    feed host receiver (packets ++ later) = feed host (feed host receiver packets) later :=
  List.foldl_append

/-- Every packet of the batch occurs, any number of times and in any order. -/
def Batch.Covers {host : ByteOrder} (batch : Batch host) (sequence : List Nat) : Prop :=
  ∀ q, q ∈ sequence ↔ q ∈ batch.numbers

/-- All sequences over the batch lead to one state, that of the batch fed once in
increasing order. -/
def OrderIndependent {host : ByteOrder} (batch : Batch host) (receiver : Receiver) : Prop :=
  ∀ sequence sequence', batch.Covers sequence → batch.Covers sequence' →
    feed host receiver (sequence.map batch.packet) =
        feed host receiver (sequence'.map batch.packet) ∧
      feed host receiver (sequence.map batch.packet) =
        feed host receiver ((batch.numbers.sort (· ≤ ·)).map batch.packet)

/-- A number that stays missing keeps the base below `2 ^ 32 - WINDOW_SIZE`, or no
packet from there on is still to be stored. -/
def KeepsBelowWrap {host : ByteOrder} (batch : Batch host) (receiver : Receiver)
    (stored : Finset Nat) : Prop :=
  (∃ k, receiver.base ≤ k ∧ k + windowSize < 2 ^ 32 ∧ k ∉ stored ∧ ¬ batch.Whole k) ∨
    ∀ q, batch.Whole q → 2 ^ 32 ≤ q + windowSize → q ∈ stored

section Packets

variable {host : ByteOrder} {batch : Batch host}

/-- What decodes at all decodes under its own number. -/
theorem ValidData.decode_seq {packet : Bytes} {q : Nat} (hvalid : ValidData host packet q)
    {k : Nat} {payload : Bytes} (hdecode : decodeData host packet = some (k, payload)) :
    k = q := by
  obtain ⟨-, -, -, hseq, -⟩ := decodeData_eq_some hdecode
  rw [hseq, hvalid.seqNum]

theorem Batch.decode_whole {q : Nat} (hwhole : batch.Whole q) :
    decodeData host (batch.packet q).bytes = some (q, batch.payload q) := by
  obtain ⟨hmem, hsome⟩ := hwhole
  obtain ⟨⟨k, payload⟩, hdecode⟩ := Option.isSome_iff_exists.mp hsome
  rw [(batch.valid q hmem).decode_seq hdecode] at hdecode
  simp [Batch.payload, hdecode]

theorem Batch.decode_not_whole {q : Nat} (hmem : q ∈ batch.numbers)
    (hwhole : ¬ batch.Whole q) : decodeData host (batch.packet q).bytes = none := by
  rw [← Option.not_isSome_iff_eq_none]
  exact fun hsome => hwhole ⟨hmem, hsome⟩

theorem Batch.payload_length_le (batch : Batch host) (q : Nat) :
    (batch.payload q).length ≤ chunkSize := by
  unfold Batch.payload
  cases hdecode : decodeData host (batch.packet q).bytes with
  | none => simp
  | some chunk =>
      have hlength := decodeData_payload_length (show _ = some (chunk.1, chunk.2) from hdecode)
      have hbuffer := (batch.packet q).length_le
      simp only [Option.map_some, Option.getD_some]
      omega

theorem Batch.covers_sort (batch : Batch host) :
    batch.Covers (batch.numbers.sort (· ≤ ·)) := by
  intro q
  exact Finset.mem_sort (· ≤ ·)

theorem Batch.covers_first (batch : Batch host) {q : Nat} (hq : q ∈ batch.numbers) :
    batch.Covers (q :: batch.numbers.toList) := by
  intro k
  rw [List.mem_cons, Finset.mem_toList]
  constructor
  · rintro (rfl | hk)
    · exact hq
    · exact hk
  · exact .inr

/-- The numbers for which `base + WINDOW_SIZE` does not wrap when they are the base. -/
def Batch.lowNumbers (batch : Batch host) : List Nat :=
  (batch.numbers.sort (· ≤ ·)).filter fun q => q + windowSize < 2 ^ 32

def Batch.highNumbers (batch : Batch host) : List Nat :=
  (batch.numbers.sort (· ≤ ·)).filter fun q => 2 ^ 32 ≤ q + windowSize

theorem Batch.mem_lowNumbers {q : Nat} :
    q ∈ batch.lowNumbers ↔ q ∈ batch.numbers ∧ q + windowSize < 2 ^ 32 := by
  simp [Batch.lowNumbers]

theorem Batch.mem_highNumbers {q : Nat} :
    q ∈ batch.highNumbers ↔ q ∈ batch.numbers ∧ 2 ^ 32 ≤ q + windowSize := by
  simp [Batch.highNumbers]

theorem Batch.covers_lowFirst (batch : Batch host) :
    batch.Covers (batch.lowNumbers ++ batch.highNumbers) := by
  intro q
  rw [List.mem_append, Batch.mem_lowNumbers, Batch.mem_highNumbers, ← and_or_left]
  refine and_iff_left ?_
  omega

end Packets

/-! ## The sliding loop, slot by slot -/

/-- A loop that has not moved has passed no slot. -/
theorem not_passed (entry : RecvWindowEntry) (base q : Nat) :
    entry = { entry with received := entry.received && !decide (base ≤ q ∧ q < base) } := by
  have hnot : ¬ (base ≤ q ∧ q < base) := by omega
  rw [decide_eq_false hnot, Bool.not_false, Bool.and_true]

/-- The loop clears the flag of the slots it passes and touches nothing else of
them. -/
theorem ReceiverInv.receiverSlide_slot {receiver : Receiver} {stored : Finset Nat}
    {content : Nat → Bytes} (hinv : ReceiverInv receiver stored content) {low : Nat}
    (hlow : low ≤ receiver.base) (hstored : ∀ k ∈ stored, k < low + windowSize)
    (rounds : Nat) {q : Nat} (hqlow : low ≤ q) (hqhigh : q < low + windowSize) :
    let slid := (receiverSlide rounds receiver).1
    receiver.base ≤ slid.base ∧
      slid.window.read q =
        { receiver.window.read q with
          received := (receiver.window.read q).received &&
            !decide (receiver.base ≤ q ∧ q < slid.base) } := by
  induction rounds generalizing receiver with
  | zero => exact ⟨le_rfl, not_passed _ _ _⟩
  | succ rounds ih =>
      by_cases hbase : receiver.base ∈ stored
      · have hstep := hinv.keeps_deliver hbase
          ((deliveryOf content receiver.base).apply receiver.fileBuffer)
        have hinside := hstored _ hbase
        rw [hinv.receiverSlide_succ hbase rounds]
        obtain ⟨hle, hread⟩ := ih hstep (by simp only; omega)
        simp only at hle hread ⊢
        refine ⟨by omega, ?_⟩
        rw [hread]
        by_cases heq : q = receiver.base
        · subst heq
          rw [SlotRing.read_write_self]
          have hpassed : receiver.base ≤ receiver.base ∧ receiver.base < _ :=
            ⟨le_rfl, hle⟩
          simp [hpassed.2]
        · rw [SlotRing.read_write_of_window _ _ ⟨hlow, hinside⟩ ⟨hqlow, hqhigh⟩ heq]
          have hiff : receiver.base + 1 ≤ q ↔ receiver.base ≤ q := by omega
          simp only [hiff]
      · rw [hinv.receiverSlide_settled hbase]
        exact ⟨le_rfl, not_passed _ _ _⟩

/-! ## States inside a batch -/

/-- The slot of number `q` after the numbers of `fresh` were stored and everything
below `base` delivered. -/
def slotAfter (early : Receiver) (content : Nat → Bytes) (fresh : Finset Nat) (base q : Nat) :
    RecvWindowEntry :=
  let old := early.window.read q
  if q ∈ fresh then
    { received := decide (base ≤ q)
      seqNum := q
      data := old.data.copyIn (content q)
      dataLen := (content q).length }
  else
    { old with received := old.received && decide (base ≤ q) }

/-- A state that is reached from `early` by storing the numbers of `fresh`. -/
structure BatchState (early : Receiver) (stored : Finset Nat) (content : Nat → Bytes)
    (fresh : Finset Nat) (receiver : Receiver) : Prop where
  inv : ReceiverInv receiver (stored ∪ fresh) content
  settled : receiver.base ∉ stored ∪ fresh
  base_le : early.base ≤ receiver.base
  window : ∀ q ∈ stored ∪ fresh, q < early.base + windowSize
  slot : ∀ q, early.base ≤ q → q < early.base + windowSize →
    receiver.window.read q = slotAfter early content fresh receiver.base q
  buffer : receiver.fileBuffer =
    ((List.range' early.base (receiver.base - early.base)).map
      (deliveryOf content)).foldl DeliveryCopy.apply early.fileBuffer
  peerAddr : receiver.peerAddr = early.peerAddr
  fileSize : receiver.fileSize = early.fileSize
  numChunks : receiver.numChunks = early.numChunks

namespace BatchState

variable {early receiver : Receiver} {stored fresh : Finset Nat} {content : Nat → Bytes}

/-- The set of stored numbers determines the state. -/
theorem unique {receiver' : Receiver} (hstate : BatchState early stored content fresh receiver)
    (hstate' : BatchState early stored content fresh receiver') : receiver = receiver' := by
  have hbase : receiver.base = receiver'.base :=
    (hstate.inv.base_least hstate.settled).unique (hstate'.inv.base_least hstate'.settled)
  have hwindow : receiver.window = receiver'.window := by
    funext slot
    obtain ⟨q, hlow, hhigh, rfl⟩ := SlotRing.exists_seq_of_index early.base slot
    have hread := hstate.slot q hlow hhigh
    rw [hbase, ← hstate'.slot q hlow hhigh] at hread
    exact hread
  have hcount : receiver.chunksReceived = receiver'.chunksReceived := by
    rw [hstate.inv.count, hstate'.inv.count]
  have hbuffer : receiver.fileBuffer = receiver'.fileBuffer := by
    rw [hstate.buffer, hstate'.buffer, hbase]
  cases receiver
  cases receiver'
  simp only [Receiver.mk.injEq]
  exact ⟨hstate.peerAddr.trans hstate'.peerAddr.symm, hbase, hwindow, hbuffer,
    hstate.fileSize.trans hstate'.fileSize.symm,
    hstate.numChunks.trans hstate'.numChunks.symm, hcount⟩

/-- Nothing of the batch is stored at first. -/
theorem of_early (hinv : ReceiverInv early stored content) (hsettled : early.base ∉ stored) :
    BatchState early stored content ∅ early where
  inv := by simpa using hinv
  settled := by simpa using hsettled
  base_le := le_rfl
  window := by simpa using hinv.stored_window
  slot := by
    intro q hlow _
    simp [slotAfter, hlow]
  buffer := by simp
  peerAddr := rfl
  fileSize := rfl
  numChunks := rfl

/-- The flags before and after a slide from `low` to `high`. -/
theorem decide_slide {low high q : Nat} (hle : low ≤ high) :
    (decide (low ≤ q) && !decide (low ≤ q ∧ q < high)) = decide (high ≤ q) := by
  rw [Bool.eq_iff_iff]
  simp only [Bool.and_eq_true, Bool.not_eq_true', decide_eq_true_eq, decide_eq_false_iff_not]
  omega

/-- A slide from `low` to `high` marks the slots it passes as delivered. -/
theorem slotAfter_slide {low high k : Nat} (hle : low ≤ high) :
    { slotAfter early content fresh low k with
      received := (slotAfter early content fresh low k).received &&
        !decide (low ≤ k ∧ k < high) } = slotAfter early content fresh high k := by
  have hflag := decide_slide (q := k) hle
  by_cases hmem : k ∈ fresh
  · simp only [slotAfter, hmem, if_true, hflag]
  · simp only [slotAfter, hmem, if_false, Bool.and_assoc, hflag]

/-- The write of a new chunk, before the base slides. -/
theorem read_store (hstate : BatchState early stored content fresh receiver) {q k : Nat}
    (hfresh : q ∉ fresh) (hlow : receiver.base ≤ q) (hhigh : q < early.base + windowSize)
    (hklow : early.base ≤ k) (hkhigh : k < early.base + windowSize) :
    (receiver.window.write q
      { received := true
        seqNum := q
        data := (receiver.window.read q).data.copyIn (content q)
        dataLen := (content q).length }).read k =
      slotAfter early content (insert q fresh) receiver.base k := by
  by_cases heq : k = q
  · subst heq
    simp only [SlotRing.read_write_self, hstate.slot k hklow hkhigh, slotAfter, hfresh,
      Finset.mem_insert_self, if_true, if_false, hlow, decide_true]
  · have hearly : early.base ≤ q := hstate.base_le.trans hlow
    rw [SlotRing.read_write_of_window _ _ ⟨hearly, hhigh⟩ ⟨hklow, hkhigh⟩ heq,
      hstate.slot k hklow hkhigh]
    simp only [slotAfter, Finset.mem_insert, heq, false_or]

/-- A new chunk of the batch joins the stored ones. -/
theorem store (hstate : BatchState early stored content fresh receiver) {host : ByteOrder}
    {packet : Bytes} {q : Nat}
    (haccepts : accepts host receiver packet = some (q, content q))
    (hnew : q ∉ stored ∪ fresh) (hhigh : q < early.base + windowSize)
    (hfits : (content q).length ≤ chunkSize) :
    BatchState early stored content (insert q fresh)
      (srReceiverHandleData host receiver packet).receiver := by
  obtain ⟨hinv', hgap', hlow, hle, hpeer, hsize, hchunks, -, hcopies, hbuffer⟩ :=
    hstate.inv.handleData_of_new haccepts hnew hfits
  have hbase := hstate.base_le
  have hset : insert q (stored ∪ fresh) = stored ∪ insert q fresh :=
    (Finset.union_insert q stored fresh).symm
  have hcontent : Function.update content q (content q) = content :=
    Function.update_eq_self q content
  rw [hset, hcontent] at hinv'
  rw [hset] at hgap'
  rw [hcontent] at hcopies
  have hwindow : ∀ k ∈ stored ∪ insert q fresh, k < early.base + windowSize := by
    intro k hk
    rw [← hset, Finset.mem_insert] at hk
    rcases hk with rfl | hk
    · exact hhigh
    · exact hstate.window k hk
  have hfresh : q ∉ fresh := fun hmem => hnew (Finset.mem_union_right _ hmem)
  refine
    { inv := hinv'
      settled := hgap'
      base_le := hbase.trans hle
      window := hwindow
      slot := ?_
      buffer := ?_
      peerAddr := hpeer.trans hstate.peerAddr
      fileSize := hsize.trans hstate.fileSize
      numChunks := hchunks.trans hstate.numChunks }
  · intro k hklow hkhigh
    have hchunks' : q < receiver.numChunks := (accepts_eq_some haccepts).2.1
    have hkept := hstate.inv.keeps_store hlow (by omega) hchunks' hnew hfits
    rw [hset, hcontent] at hkept
    rw [hstate.inv.handleData_eq_slide haccepts hnew] at hle ⊢
    rw [(hkept.receiverSlide_slot hbase hwindow _ hklow hkhigh).2]
    have hread := hstate.read_store hfresh hlow hhigh hklow hkhigh
    simp only [hread]
    exact slotAfter_slide hle
  · rw [hbuffer, hstate.buffer, ← List.foldl_append, hcopies, ← List.map_append]
    congr 2
    have happend : List.range' early.base (receiver.base - early.base) ++
        List.range' (early.base + (receiver.base - early.base))
          ((srReceiverHandleData host receiver packet).receiver.base - receiver.base) = _ :=
      List.range'_append_1
    rw [Nat.add_sub_cancel' hbase] at happend
    rw [happend]
    congr 1
    omega

/-- A packet under a stored number changes nothing. -/
theorem keep (hstate : BatchState early stored content fresh receiver) {host : ByteOrder}
    {packet payload : Bytes} {q : Nat} (hdecode : decodeData host packet = some (q, payload))
    (hold : q ∈ stored ∪ fresh) :
    (srReceiverHandleData host receiver packet).receiver = receiver := by
  cases haccepts : accepts host receiver packet with
  | none => rw [handleData_of_rejected haccepts]
  | some chunk =>
      obtain ⟨k, data⟩ := chunk
      obtain ⟨hdecode', -⟩ := accepts_eq_some haccepts
      rw [hdecode] at hdecode'
      obtain ⟨rfl, rfl⟩ := Prod.mk.inj (Option.some.inj hdecode')
      rw [hstate.inv.handleData_of_stored hstate.settled haccepts hold]

/-- The base stays inside the window of the first state. -/
theorem base_le_window (hstate : BatchState early stored content fresh receiver) :
    receiver.base ≤ early.base + windowSize :=
  isLeast_missing_le (hstate.inv.base_least hstate.settled) hstate.window

theorem base_le_of_notMem (hstate : BatchState early stored content fresh receiver) {q : Nat}
    (hq : q ∉ stored ∪ fresh) : receiver.base ≤ q :=
  (hstate.inv.base_least hstate.settled).2 hq

end BatchState

/-! ## Feeding a batch -/

/-- A batch for the window of `early`, whose stored numbers are `stored`. -/
structure BatchFits {host : ByteOrder} (batch : Batch host) (early : Receiver)
    (stored : Finset Nat) (content : Nat → Bytes) : Prop where
  inv : ReceiverInv early stored content
  settled : early.base ∉ stored
  content : ∀ q, batch.Whole q → q ∉ stored → content q = batch.payload q
  window : ∀ q ∈ batch.numbers, q < early.base + windowSize
  chunks : ∀ q ∈ batch.numbers, q < early.numChunks
  noWrap : early.base + windowSize < 2 ^ 32

/-- The numbers of a sequence that have something to store. -/
def newNumbers {host : ByteOrder} (batch : Batch host) (stored : Finset Nat)
    (sequence : List Nat) : Finset Nat :=
  sequence.toFinset.filter fun q => batch.Whole q ∧ q ∉ stored

theorem mem_newNumbers {host : ByteOrder} {batch : Batch host} {stored : Finset Nat}
    {sequence : List Nat} {q : Nat} :
    q ∈ newNumbers batch stored sequence ↔ q ∈ sequence ∧ batch.Whole q ∧ q ∉ stored := by
  rw [newNumbers, Finset.mem_filter, List.mem_toFinset]

/-- A number that is stored by its packet joins the stored ones. -/
theorem newNumbers_concat_new {host : ByteOrder} {batch : Batch host} {stored : Finset Nat}
    {sequence : List Nat} {q : Nat} (hwhole : batch.Whole q) (hq : q ∉ stored) :
    newNumbers batch stored (sequence ++ [q]) = insert q (newNumbers batch stored sequence) := by
  ext k
  simp only [mem_newNumbers, Finset.mem_insert, List.mem_append, List.mem_singleton]
  constructor
  · rintro ⟨hk | hk, hrest⟩
    · exact .inr ⟨hk, hrest⟩
    · exact .inl hk
  · rintro (rfl | ⟨hk, hrest⟩)
    · exact ⟨.inr rfl, hwhole, hq⟩
    · exact ⟨.inl hk, hrest⟩

theorem newNumbers_concat_idle {host : ByteOrder} {batch : Batch host} {stored : Finset Nat}
    {sequence : List Nat} {q : Nat}
    (hidle : batch.Whole q → q ∈ stored ∪ newNumbers batch stored sequence) :
    newNumbers batch stored (sequence ++ [q]) = newNumbers batch stored sequence := by
  ext k
  simp only [mem_newNumbers, List.mem_append, List.mem_singleton]
  constructor
  · rintro ⟨hk | rfl, hwhole, hk'⟩
    · exact ⟨hk, hwhole, hk'⟩
    · have hin := hidle hwhole
      rw [Finset.mem_union, mem_newNumbers] at hin
      exact hin.resolve_left hk'
  · rintro ⟨hk, hrest⟩
    exact ⟨.inl hk, hrest⟩

namespace BatchFits

variable {host : ByteOrder} {batch : Batch host} {early receiver : Receiver}
  {stored fresh : Finset Nat} {content : Nat → Bytes} {q : Nat}

/-- Below the wrap a new packet of the batch is stored. -/
theorem step_open (hfits : BatchFits batch early stored content)
    (hstate : BatchState early stored content fresh receiver) (hwhole : batch.Whole q)
    (hnew : q ∉ stored ∪ fresh) (hopen : receiver.base + windowSize < 2 ^ 32) :
    BatchState early stored content (insert q fresh)
      (srReceiverHandleData host receiver (batch.packet q).bytes).receiver := by
  have hstored : q ∉ stored := fun hmem => hnew (Finset.mem_union_left _ hmem)
  have hhigh := hfits.window q hwhole.1
  have hbase := hstate.base_le
  have hcontent := hfits.content q hwhole hstored
  have haccepts : accepts host receiver (batch.packet q).bytes = some (q, content q) := by
    have hchunks : q < receiver.numChunks := by
      rw [hstate.numChunks]
      exact hfits.chunks q hwhole.1
    have hahead : q < u32 (receiver.base + windowSize) := by
      rw [u32_of_lt hopen]
      omega
    simp [accepts, Batch.decode_whole hwhole, hcontent, hchunks, hahead]
  refine hstate.store haccepts hnew hhigh ?_
  rw [hcontent]
  exact batch.payload_length_le q

/-- A packet that has nothing to store changes nothing. -/
theorem step_idle (hstate : BatchState early stored content fresh receiver)
    (hmem : q ∈ batch.numbers) (hidle : batch.Whole q → q ∈ stored ∪ fresh) :
    (srReceiverHandleData host receiver (batch.packet q).bytes).receiver = receiver := by
  by_cases hwhole : batch.Whole q
  · exact hstate.keep (Batch.decode_whole hwhole) (hidle hwhole)
  · have hnone : accepts host receiver (batch.packet q).bytes = none := by
      simp [accepts, Batch.decode_not_whole hmem hwhole]
    rw [handleData_of_rejected hnone]

/-- Once the base has reached `2 ^ 32 - WINDOW_SIZE`, nothing is stored any more. -/
theorem step_wrapped (hfits : BatchFits batch early stored content)
    (hstate : BatchState early stored content fresh receiver) (hmem : q ∈ batch.numbers)
    (hwrap : 2 ^ 32 ≤ receiver.base + windowSize) :
    (srReceiverHandleData host receiver (batch.packet q).bytes).receiver = receiver := by
  by_cases hnew : q ∈ stored ∪ fresh
  · exact step_idle hstate hmem fun _ => hnew
  have hbase := hstate.base_le_of_notMem hnew
  have hend := hstate.base_le_window
  have hnoWrap := hfits.noWrap
  have hsmall : u32 (receiver.base + windowSize) ≤ receiver.base := by
    unfold u32 windowSize at *
    omega
  have hnone : accepts host receiver (batch.packet q).bytes = none := by
    by_cases hwhole : batch.Whole q
    · have hahead : ¬ q < u32 (receiver.base + windowSize) := by omega
      simp [accepts, Batch.decode_whole hwhole, hahead, hbase]
    · simp [accepts, Batch.decode_not_whole hmem hwhole]
  rw [handleData_of_rejected hnone]

/-- Feeding the numbers of `sequence` in a state where each new one is below the
wrap stores all of them. -/
theorem feed_open (hfits : BatchFits batch early stored content) {sequence : List Nat}
    (hsequence : ∀ q ∈ sequence, q ∈ batch.numbers)
    (hopen : ∀ fresh receiver, BatchState early stored content fresh receiver →
      (∀ q ∈ fresh, batch.Whole q) → ∀ q ∈ sequence, batch.Whole q → q ∉ stored ∪ fresh →
        receiver.base + windowSize < 2 ^ 32) :
    BatchState early stored content (newNumbers batch stored sequence)
      (feed host early (sequence.map batch.packet)) := by
  induction sequence using List.reverseRecOn with
  | nil =>
      have hempty : newNumbers batch stored [] = ∅ := rfl
      rw [hempty]
      exact BatchState.of_early hfits.inv hfits.settled
  | append_singleton sequence q ih =>
      have hstate := ih (fun k hk => hsequence k (List.mem_append_left _ hk))
        fun fresh receiver hstate hwhole k hk =>
          hopen fresh receiver hstate hwhole k (List.mem_append_left _ hk)
      have hmem := hsequence q (by simp)
      rw [List.map_append, feed_append]
      show BatchState early stored content _ (srReceiverHandleData host
        (feed host early (sequence.map batch.packet)) (batch.packet q).bytes).receiver
      by_cases hnew : batch.Whole q ∧ q ∉ stored ∪ newNumbers batch stored sequence
      · have hq : q ∉ stored := fun hin => hnew.2 (Finset.mem_union_left _ hin)
        rw [newNumbers_concat_new hnew.1 hq]
        apply hfits.step_open hstate hnew.1 hnew.2
        exact hopen _ _ hstate (fun k hk => (mem_newNumbers.mp hk).2.1) q (by simp) hnew.1 hnew.2
      · have hidle : batch.Whole q → q ∈ stored ∪ newNumbers batch stored sequence :=
          not_and_not_right.mp hnew
        rw [newNumbers_concat_idle hidle, step_idle hstate hmem hidle]
        exact hstate

/-- Whatever is fed, what was stored stays stored. -/
theorem feed_grows (hfits : BatchFits batch early stored content)
    (hstate : BatchState early stored content fresh receiver) {sequence : List Nat}
    (hsequence : ∀ q ∈ sequence, q ∈ batch.numbers) :
    ∃ later, fresh ⊆ later ∧ BatchState early stored content later
      (feed host receiver (sequence.map batch.packet)) := by
  induction sequence generalizing receiver fresh with
  | nil => exact ⟨fresh, Finset.Subset.refl _, hstate⟩
  | cons q sequence ih =>
      have hmem := hsequence q List.mem_cons_self
      have hrest : ∀ k ∈ sequence, k ∈ batch.numbers :=
        fun k hk => hsequence k (List.mem_cons_of_mem q hk)
      rw [List.map_cons, feed_cons]
      by_cases hnew : batch.Whole q ∧ q ∉ stored ∪ fresh
      · by_cases hopen : receiver.base + windowSize < 2 ^ 32
        · obtain ⟨later, hsub, hlater⟩ :=
            ih (hfits.step_open hstate hnew.1 hnew.2 hopen) hrest
          exact ⟨later, (Finset.subset_insert q fresh).trans hsub, hlater⟩
        · rw [hfits.step_wrapped hstate hmem (by omega)]
          exact ih hstate hrest
      · rw [step_idle hstate hmem (not_and_not_right.mp hnew)]
        exact ih hstate hrest

/-- Past the wrap the state does not change. -/
theorem feed_wrapped (hfits : BatchFits batch early stored content)
    (hstate : BatchState early stored content fresh receiver)
    (hwrap : 2 ^ 32 ≤ receiver.base + windowSize) {sequence : List Nat}
    (hsequence : ∀ q ∈ sequence, q ∈ batch.numbers) :
    feed host receiver (sequence.map batch.packet) = receiver := by
  induction sequence with
  | nil => rfl
  | cons q sequence ih =>
      rw [List.map_cons, feed_cons,
        hfits.step_wrapped hstate (hsequence q List.mem_cons_self) hwrap]
      exact ih fun k hk => hsequence k (List.mem_cons_of_mem q hk)

/-! ## The criterion -/

/-- Below the wrap every sequence over the batch ends in one state. -/
theorem feed_covers (hfits : BatchFits batch early stored content)
    (hkeeps : KeepsBelowWrap batch early stored) {sequence : List Nat}
    (hcovers : batch.Covers sequence) :
    BatchState early stored content (batch.numbers.filter fun q => batch.Whole q ∧ q ∉ stored)
      (feed host early (sequence.map batch.packet)) := by
  have hset : (batch.numbers.filter fun q => batch.Whole q ∧ q ∉ stored) =
      newNumbers batch stored sequence := by
    ext q
    rw [Finset.mem_filter, mem_newNumbers, hcovers q]
  rw [hset]
  apply hfits.feed_open fun q hq => (hcovers q).mp hq
  intro fresh receiver hstate hfresh q hq hwhole hnew
  rcases hkeeps with ⟨k, -, hk, hmissing, hother⟩ | hbelow
  · -- `k` is never stored and holds the base back
    have hnot : k ∉ stored ∪ fresh := by
      rw [Finset.mem_union, not_or]
      exact ⟨hmissing, fun hin => hother (hfresh k hin)⟩
    have hbase := hstate.base_le_of_notMem hnot
    omega
  · have hstored : q ∉ stored := fun hin => hnew (Finset.mem_union_left _ hin)
    have hq' : ¬ 2 ^ 32 ≤ q + windowSize := fun hwrap => hstored (hbelow q hwhole hwrap)
    have hbase := hstate.base_le_of_notMem hnew
    omega

/-- With nothing to hold the base back, feeding the low numbers first takes it to
the wrap, and the others are dropped. -/
theorem feed_lowFirst (hfits : BatchFits batch early stored content)
    (hall : ∀ k, early.base ≤ k → k + windowSize < 2 ^ 32 → k ∉ stored → batch.Whole k) :
    BatchState early stored content (newNumbers batch stored batch.lowNumbers)
      (feed host early ((batch.lowNumbers ++ batch.highNumbers).map batch.packet)) := by
  have hlow : BatchState early stored content (newNumbers batch stored batch.lowNumbers)
      (feed host early (batch.lowNumbers.map batch.packet)) := by
    apply hfits.feed_open fun k hk => (Batch.mem_lowNumbers.mp hk).1
    intro fresh receiver hstate _ k hk _ hnew
    have hbase := hstate.base_le_of_notMem hnew
    have hbound := (Batch.mem_lowNumbers.mp hk).2
    omega
  have hwrap : 2 ^ 32 ≤ (feed host early (batch.lowNumbers.map batch.packet)).base +
      windowSize := by
    by_contra hnot
    have hsettled := hlow.settled
    rw [Finset.mem_union, mem_newNumbers, not_or] at hsettled
    have hin := hall _ hlow.base_le (by omega) hsettled.1
    exact hsettled.2 ⟨Batch.mem_lowNumbers.mpr ⟨hin.1, by omega⟩, hin, hsettled.1⟩
  rw [List.map_append, feed_append, hfits.feed_wrapped hlow hwrap fun k hk =>
    (Batch.mem_highNumbers.mp hk).1]
  exact hlow

/-- A new packet that comes first is stored. -/
theorem feed_first (hfits : BatchFits batch early stored content) (hwhole : batch.Whole q)
    (hmissing : q ∉ stored) :
    ∃ later, q ∈ later ∧ BatchState early stored content later
      (feed host early ((q :: batch.numbers.toList).map batch.packet)) := by
  have hstart := BatchState.of_early hfits.inv hfits.settled
  have hnew : q ∉ stored ∪ (∅ : Finset Nat) := by simpa using hmissing
  have hstate := hfits.step_open hstart hwhole hnew hfits.noWrap
  have hnumbers : ∀ k ∈ batch.numbers.toList, k ∈ batch.numbers :=
    fun k hk => Finset.mem_toList.mp hk
  obtain ⟨later, hsub, hlater⟩ := hfits.feed_grows hstate hnumbers
  exact ⟨later, hsub (Finset.mem_insert_self q ∅), hlater⟩

/-- If nothing holds the base back, a packet from `2 ^ 32 - WINDOW_SIZE` on is lost
when it comes last and stored when it comes first. -/
theorem not_orderIndependent (hfits : BatchFits batch early stored content)
    (hkeeps : ¬ KeepsBelowWrap batch early stored) : ¬ OrderIndependent batch early := by
  rw [KeepsBelowWrap, not_or] at hkeeps
  obtain ⟨hall, hlate⟩ := hkeeps
  push Not at hall hlate
  obtain ⟨q, hwhole, hhigh, hmissing⟩ := hlate
  have hlow := hfits.feed_lowFirst hall
  have hqlow : q ∉ stored ∪ newNumbers batch stored batch.lowNumbers := by
    rw [Finset.mem_union, mem_newNumbers, not_or]
    refine ⟨hmissing, ?_⟩
    rintro ⟨hin, -⟩
    have hbound := (Batch.mem_lowNumbers.mp hin).2
    omega
  obtain ⟨later, hq, hlater⟩ := hfits.feed_first hwhole hmissing
  intro hindependent
  obtain ⟨hsame, -⟩ := hindependent _ _ batch.covers_lowFirst (batch.covers_first hwhole.1)
  -- one state cannot both hold `q` and miss it
  rw [← hsame] at hlater
  have hstored : q ∈ stored ∪ later := Finset.mem_union_right _ hq
  have hbase := hlow.base_le_of_notMem hqlow
  have hwindow := hlater.inv.stored_window q hstored
  exact hqlow ((hlow.inv.received_iff q hbase hwindow).mp
    ((hlater.inv.received_iff q hbase hwindow).mpr hstored))

theorem orderIndependent_iff (hfits : BatchFits batch early stored content) :
    OrderIndependent batch early ↔ KeepsBelowWrap batch early stored := by
  constructor
  · intro hindependent
    by_contra hkeeps
    exact hfits.not_orderIndependent hkeeps hindependent
  · intro hkeeps sequence sequence' hcovers hcovers'
    have hstate := hfits.feed_covers hkeeps hcovers
    exact ⟨hstate.unique (hfits.feed_covers hkeeps hcovers'),
      hstate.unique (hfits.feed_covers hkeeps batch.covers_sort)⟩

end BatchFits

/-- A reachable state with a batch for its window. -/
theorem batchFits_run {host : ByteOrder} {start : Receiver}
    (hinv : ReceiverInv start ∅ (contentOf [])) (hzero : start.base = 0)
    {before : List Datagram} {batch : Batch host}
    (hbase : (runReceiver host start before).receiver.base + windowSize < 2 ^ 32)
    (hnumbers : ∀ q ∈ batch.numbers, q < min
      ((runReceiver host start before).receiver.base + windowSize)
      (runReceiver host start before).receiver.numChunks) :
    BatchFits batch (runReceiver host start before).receiver
      (runReceiver host start before).stored.toFinset
      (fun q => if q ∈ (runReceiver host start before).stored then
        contentOf (runReceiver host start before).accepted q else batch.payload q) := by
  have hhistory := receiverHistoryInv_run host hinv hzero before
  refine
    { inv := ?_
      settled := hhistory.settled
      content := ?_
      window := fun q hq => (lt_min_iff.mp (hnumbers q hq)).1
      chunks := fun q hq => (lt_min_iff.mp (hnumbers q hq)).2
      noWrap := hbase }
  · apply hhistory.inv.congr_content
    intro q hq
    rw [if_pos (List.mem_toFinset.mp hq)]
  · intro q _ hq
    rw [if_neg fun hmem => hq (List.mem_toFinset.mpr hmem)]

/-- In every reachable receiver state whose window ends below `2 ^ 32`, a batch of
valid packets for the window leads to the same state in every order and with any
repetitions exactly when the base cannot slide to `2 ^ 32 - WINDOW_SIZE` before all
of it is stored. -/
theorem receiver_order_independent_iff {host : ByteOrder} {peerAddr : SockAddr}
    {link : LossyLink} {fileSize numChunks : UInt32} {heap : Nat → UInt8} {start : Receiver}
    (hinit : srReceiverInit (some peerAddr) fileSize numChunks (some link) (some heap) =
      some start)
    (before : List Datagram) (batch : Batch host)
    (hbase : (runReceiver host start before).receiver.base + windowSize < 2 ^ 32)
    (hnumbers : ∀ q ∈ batch.numbers, q < min
      ((runReceiver host start before).receiver.base + windowSize)
      (runReceiver host start before).receiver.numChunks) :
    OrderIndependent batch (runReceiver host start before).receiver ↔
      KeepsBelowWrap batch (runReceiver host start before).receiver
        (runReceiver host start before).stored.toFinset := by
  obtain ⟨start', hinit', -, -, -, hzero, -, hinv⟩ :=
    srReceiverInit_inv peerAddr link fileSize numChunks heap
  obtain rfl : start' = start := Option.some.inj (hinit'.symm.trans hinit)
  exact (batchFits_run hinv hzero hbase hnumbers).orderIndependent_iff

/-- A valid packet with number `q` and no payload. -/
def emptyChunk (host : ByteOrder) (q : Nat) : Datagram where
  bytes := buildDataPacket host q [] 0
  length_le := by
    rw [buildDataPacket_length host q (by simp)]
    decide

theorem decodeData_emptyChunk (host : ByteOrder) {q : Nat} (hq : q < 2 ^ 32) :
    decodeData host (emptyChunk host q).bytes = some (q, []) :=
  decodeData_buildDataPacket host hq (by decide) (by simp)

theorem validData_emptyChunk (host : ByteOrder) {q : Nat} (hq : q < 2 ^ 32) :
    ValidData host (emptyChunk host q).bytes q := by
  obtain ⟨hlength, hchecksum, htype, hseq, -⟩ :=
    decodeData_eq_some (decodeData_emptyChunk host hq)
  exact ⟨by omega, hchecksum, htype, hseq.symm⟩

/-- Empty chunks under the given numbers. -/
def emptyBatch (host : ByteOrder) (numbers : Finset Nat) (hnumbers : ∀ q ∈ numbers, q < 2 ^ 32) :
    Batch host where
  numbers := numbers
  packet := emptyChunk host
  valid := fun q hq => validData_emptyChunk host (hnumbers q hq)

theorem whole_emptyBatch {host : ByteOrder} {numbers : Finset Nat}
    {hnumbers : ∀ q ∈ numbers, q < 2 ^ 32} {q : Nat} :
    (emptyBatch host numbers hnumbers).Whole q ↔ q ∈ numbers := by
  constructor
  · exact fun hwhole => hwhole.1
  · intro hq
    refine ⟨hq, ?_⟩
    show (decodeData host (emptyChunk host q).bytes).isSome
    rw [decodeData_emptyChunk host (hnumbers q hq)]
    rfl

/-- Three chunks in a fresh receiver. -/
def threeBatch : Batch .little := emptyBatch .little {0, 1, 2} (by decide)

theorem receiver_order_independent_three :
    ∃ start, srReceiverInit (some ⟨0, 0⟩) 3 3 (some ⟨0, 0, 1⟩) (some fun _ => 0) =
        some start ∧
      OrderIndependent threeBatch (runReceiver .little start []).receiver := by
  obtain ⟨start, hinit, -, -, hchunks, hzero, -, -⟩ :=
    srReceiverInit_inv ⟨0, 0⟩ ⟨0, 0, 1⟩ 3 3 fun _ => 0
  have hcount : start.numChunks = 3 := hchunks
  refine ⟨start, hinit, (receiver_order_independent_iff hinit [] threeBatch ?_ ?_).mpr ?_⟩
  · show start.base + windowSize < 2 ^ 32
    rw [hzero]
    decide
  · intro q hq
    show q < min (start.base + windowSize) start.numChunks
    rw [hzero, hcount]
    revert q
    decide
  · refine .inr fun q hwhole hwrap => ?_
    have hq : q ∈ ({0, 1, 2} : Finset Nat) := whole_emptyBatch.mp hwhole
    unfold windowSize at hwrap
    simp only [Finset.mem_insert, Finset.mem_singleton] at hq
    omega

/-- The last two numbers whose window does not wrap at both. -/
def wrapBatch : Batch .little :=
  emptyBatch .little {2 ^ 32 - 65, 2 ^ 32 - 64} (by decide)

/-- A peer announces `2 ^ 32 - 1` chunks and sends all but the last 64 of them in
order.  Of the next two, the second is stored when it overtakes the first and lost
when it does not. -/
theorem order_dependent_at_wrap :
    ∃ start, srReceiverInit (some ⟨0, 0⟩) 4294967295 4294967295 (some ⟨0, 0, 1⟩)
        (some fun _ => 0) = some start ∧
      let before := (List.range (2 ^ 32 - 65)).map (emptyChunk .little)
      (runReceiver .little start before).receiver.base = 2 ^ 32 - 65 ∧
        (∀ q ∈ wrapBatch.numbers, q < min
          ((runReceiver .little start before).receiver.base + windowSize)
          (runReceiver .little start before).receiver.numChunks) ∧
        ¬ OrderIndependent wrapBatch (runReceiver .little start before).receiver := by
  obtain ⟨start, hinit, -, -, hchunks, hzero, -, hinv⟩ :=
    srReceiverInit_inv ⟨0, 0⟩ ⟨0, 0, 1⟩ 4294967295 4294967295 fun _ => 0
  have hcount : start.numChunks = 2 ^ 32 - 1 := hchunks
  have hstored : ∀ q, q ∈ (runReceiver .little start
      ((List.range (2 ^ 32 - 65)).map (emptyChunk .little))).stored ↔ q < 2 ^ 32 - 65 :=
    stored_inOrder hinv hzero (by omega) (by unfold windowSize; omega)
      fun q hq => decodeData_emptyChunk .little (by omega)
  have hhistory := receiverHistoryInv_run .little hinv hzero
    ((List.range (2 ^ 32 - 65)).map (emptyChunk .little))
  refine ⟨start, hinit, ?_⟩
  generalize (List.range (2 ^ 32 - 65)).map (emptyChunk .little) = before at hstored hhistory ⊢
  have hbase : (runReceiver .little start before).receiver.base = 2 ^ 32 - 65 := by
    have hleast := hhistory.inv.base_least hhistory.settled
    apply le_antisymm
    · exact isLeast_missing_le hleast fun k hk => (hstored k).mp (List.mem_toFinset.mp hk)
    · by_contra hlt
      exact hhistory.settled (List.mem_toFinset.mpr ((hstored _).mpr (by omega)))
  have hmem : ∀ q, wrapBatch.Whole q ↔ q = 2 ^ 32 - 65 ∨ q = 2 ^ 32 - 64 := by
    intro q
    rw [wrapBatch, whole_emptyBatch, Finset.mem_insert, Finset.mem_singleton]
  have hnumbers : ∀ q ∈ wrapBatch.numbers, q < min
      ((runReceiver .little start before).receiver.base + windowSize)
      (runReceiver .little start before).receiver.numChunks := by
    intro q hq
    have hcases : q ∈ ({2 ^ 32 - 65, 2 ^ 32 - 64} : Finset Nat) := hq
    rw [hbase, hhistory.numChunks, hcount]
    unfold windowSize
    simp only [Finset.mem_insert, Finset.mem_singleton] at hcases
    omega
  refine ⟨hbase, hnumbers, ?_⟩
  have hfits := batchFits_run hinv hzero (by rw [hbase]; decide) hnumbers
  apply hfits.not_orderIndependent
  rintro (⟨k, hlow, hhigh, hmissing, hother⟩ | hlate)
  · rw [hbase] at hlow
    rw [hmem] at hother
    unfold windowSize at hhigh
    omega
  · have hin := hlate (2 ^ 32 - 64) ((hmem _).mpr (.inr rfl)) (by decide)
    rw [List.mem_toFinset, hstored] at hin
    omega

end SelectiveRepeat
end PeerShare
