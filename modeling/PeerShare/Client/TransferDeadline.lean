import PeerShare.Client.RunningTransfer
import PeerShare.SelectiveRepeat.ClockSteps

/-!
# How long a transfer can last

Whatever acknowledgements arrive, a transfer ends: a chunk of the window that stays
pending is retransmitted at most `MAX_RETRIES` times and then the transfer is given
up.  The chunks of one window wait at the same time, and the next window is sent as
soon as the base moves, so the time is bounded by the number of windows.

The bound needs a clock that is not set back and a driver that comes round often
enough.  `poll` returns after 100 milliseconds, but a branch that ends in `continue`
skips the driver, so the distance between two of its readings is a parameter.
-/

namespace PeerShare
namespace Client

open Foundation Wire SelectiveRepeat

/-- The owner with the last clock reading of its driver. -/
structure TimedOwner where
  owner : Owner
  reading : Nat

/-- The readings of one event: the driver follows the last reading within `gap`
milliseconds, other events read no clock that matters. -/
def ReadsClock (gap : Nat) (before : Nat) (event : OwnerEvent) (after : Nat) : Prop :=
  match event with
  | .driver sendNow scanNow =>
      before ≤ sendNow.toNat ∧ sendNow.toNat ≤ scanNow.toNat ∧
        scanNow.toNat ≤ before + gap ∧ after = scanNow.toNat
  | _ => after = before

/-- A step of the loop that grants no request, with the clock watched. -/
def TimedStep (host : ByteOrder) (link : LossyLink) (gap : Nat) (before : TimedOwner)
    (event : OwnerEvent) (after : TimedOwner) : Prop :=
  RefusingStep host link before.owner event after.owner ∧
    ReadsClock gap before.reading event after.reading

/-- The longest time between two transmissions of a pending chunk. -/
def roundTime (gap : Nat) : Nat := timeoutMs.toNat + gap

/-- The longest time a chunk stays in the window. -/
def windowTime (gap : Nat) : Nat := (1 + maxRetries) * roundTime gap

/-- Chunk `q` is sent by this time, if it is sent at all. -/
def sentBy (start gap q : Nat) : Nat := start + q / windowSize * windowTime gap

/-- A transfer of `numChunks` chunks is over by this time. -/
def overBy (start gap numChunks : Nat) : Nat :=
  start + (numChunks + windowSize - 1) / windowSize * windowTime gap

/-! ## The time a pending chunk has been waiting -/

/-- The clock of a pending chunk: it was last sent recently, and its retries account
for the time since it was due to be sent first. -/
structure PendingPaced (start gap reading q : Nat) (entry : SendWindowEntry) : Prop where
  sent_le : entry.sendTimeMs.toNat ≤ reading
  recent : reading < entry.sendTimeMs.toNat + timeoutMs.toNat
  retries_le : entry.retries ≤ maxRetries
  paid : entry.sendTimeMs.toNat ≤ sentBy start gap q + entry.retries * roundTime gap

/-- A running transfer at a reading of the driver's clock. -/
structure PacedInv (start gap : Nat) (sender : Sender) (acked : Finset Nat) (reading : Nat) :
    Prop where
  pending : ∀ q, sender.base ≤ q → q < sender.nextSeq → q ∉ acked →
    PendingPaced start gap reading q (sender.window.read q)
  ahead : ∀ q, sender.nextSeq ≤ q → q < sender.numChunks → reading + gap ≤ sentBy start gap q
  inTime : reading ≤ overBy start gap sender.numChunks

section Times

variable {start gap reading q : Nat}

theorem windowTime_eq (gap : Nat) :
    windowTime gap = maxRetries * roundTime gap + roundTime gap := by
  unfold windowTime
  rw [Nat.add_comm, Nat.succ_mul]

/-- A chunk is pending for at most `windowTime`. -/
theorem PendingPaced.reading_lt {entry : SendWindowEntry}
    (hpaced : PendingPaced start gap reading q entry) :
    reading + gap < sentBy start gap q + windowTime gap := by
  have hrecent := hpaced.recent
  have hpaid := hpaced.paid
  have hretries : entry.retries * roundTime gap ≤ maxRetries * roundTime gap :=
    Nat.mul_le_mul_right _ hpaced.retries_le
  rw [windowTime_eq]
  unfold roundTime at *
  omega

/-- The chunk one window behind is due one `windowTime` later. -/
theorem sentBy_add_windowTime (start gap q : Nat) :
    sentBy start gap q + windowTime gap = sentBy start gap (q + windowSize) := by
  unfold sentBy
  rw [Nat.add_div_right q (by decide), Nat.succ_mul, Nat.add_assoc]

theorem sentBy_mono (start gap : Nat) {q q' : Nat} (hle : q ≤ q') :
    sentBy start gap q ≤ sentBy start gap q' :=
  Nat.add_le_add_left (Nat.mul_le_mul_right _ (Nat.div_le_div_right hle)) _

/-- Every chunk leaves the window in time. -/
theorem sentBy_add_le_overBy (start gap : Nat) {q numChunks : Nat} (hq : q < numChunks) :
    sentBy start gap q + windowTime gap ≤ overBy start gap numChunks := by
  rw [sentBy_add_windowTime]
  refine Nat.add_le_add_left (Nat.mul_le_mul_right _ (Nat.div_le_div_right ?_)) _
  omega

end Times

/-! ## One event -/

section Events

variable {file : FileImage} {sender : Sender} {acked : Finset Nat} {start gap reading : Nat}

/-- The first window of a transfer. -/
theorem pacedInv_start (hinv : SenderInv file sender ∅) (hnext : sender.nextSeq = 0)
    (host : ByteOrder) (now : UInt64) (gap : Nat) :
    PacedInv now.toNat gap (srSenderSendWindow host sender now).sender ∅ now.toNat := by
  have hzero : sender.base = 0 := by
    have hbase := hinv.base_le
    omega
  obtain ⟨hsent, -, hbase, hfilled, -⟩ := hinv.sendWindow_spec host now
  constructor
  · intro q hlow hhigh _
    rw [hbase] at hlow
    obtain ⟨-, hfresh⟩ := hinv.sendWindowLoop_entry host now
      (sender.numChunks - sender.nextSeq) hlow
    obtain ⟨hretries, htime⟩ := hfresh (by omega) hhigh
    rw [← srSenderSendWindow] at hretries htime
    refine ⟨by rw [htime], ?_, by rw [hretries]; exact Nat.zero_le _, ?_⟩
    · rw [htime]
      exact Nat.lt_add_of_pos_right (by decide)
    · rw [htime, hretries, Nat.zero_mul]
      exact Nat.le_add_right _ _
  · -- what does not fit into the first window has a `windowTime` to wait
    intro q hlow hhigh
    have hchunks := hsent.numChunks.trans hinv.numChunks.symm
    have hwindow : 0 + windowSize ≤ q := by omega
    have hdue := sentBy_mono now.toNat gap hwindow
    rw [← sentBy_add_windowTime, windowTime_eq] at hdue
    unfold sentBy roundTime at hdue
    unfold sentBy
    omega
  · exact Nat.le_add_right _ _

/-- An acknowledgement takes chunks away and leaves the clocks of the others alone. -/
theorem PacedInv.keeps_handleAck (hpaced : PacedInv start gap sender acked reading)
    (hinv : SenderInv file sender acked) (hsettled : Settled sender acked) (host : ByteOrder)
    (hdr : UdpHeader) :
    PacedInv start gap (srSenderHandleAck host sender hdr)
      (SenderInv.ackedAfter host sender hdr acked) reading := by
  obtain ⟨hinv', -, hnext, -⟩ := hinv.handleAck_spec hsettled host hdr
  have hchunks := hinv'.numChunks.trans hinv.numChunks.symm
  constructor
  · intro q hlow hhigh hmem
    rw [hnext] at hhigh
    obtain ⟨hlow', hmem', hentry⟩ := hinv.handleAck_entry hsettled host hdr hlow hhigh hmem
    rw [hentry]
    exact hpaced.pending q hlow' hhigh hmem'
  · rw [hnext, hchunks]
    exact hpaced.ahead
  · rw [hchunks]
    exact hpaced.inTime

/-- A pending chunk between the two halves of the driver: the scan will find room for
one more transmission up to `limit`. -/
structure ScanReady (start gap sendNow limit q : Nat) (entry : SendWindowEntry) : Prop where
  sent_le : entry.sendTimeMs.toNat ≤ sendNow
  retries_le : entry.retries ≤ maxRetries
  paid : entry.sendTimeMs.toNat ≤ sentBy start gap q + entry.retries * roundTime gap
  room : limit ≤ sentBy start gap q + (entry.retries + 1) * roundTime gap

/-- The first half of the driver sends what fits into the window. -/
theorem PacedInv.scanReady (hpaced : PacedInv start gap sender acked reading)
    (hinv : SenderInv file sender acked) (host : ByteOrder) {sendNow : UInt64}
    (hfirst : reading ≤ sendNow.toNat) (hgap : sendNow.toNat ≤ reading + gap) {q : Nat}
    (hlow : sender.base ≤ q) (hhigh : q < (srSenderSendWindow host sender sendNow).sender.nextSeq)
    (hmem : q ∉ acked) :
    ScanReady start gap sendNow.toNat (reading + gap) q
      ((srSenderSendWindow host sender sendNow).sender.window.read q) := by
  obtain ⟨hsent, -⟩ := hinv.sendWindow_spec host sendNow
  obtain ⟨hold, hnew⟩ := hinv.sendWindowLoop_entry host sendNow
    (sender.numChunks - sender.nextSeq) hlow
  rw [← srSenderSendWindow] at hold hnew
  by_cases hq : q < sender.nextSeq
  · -- pending before, and last sent less than a timeout ago
    have hbefore := hpaced.pending q hlow hq hmem
    have hrecent := hbefore.recent
    have hpaid := hbefore.paid
    rw [hold hq]
    refine ⟨hbefore.sent_le.trans hfirst, hbefore.retries_le, hpaid, ?_⟩
    rw [Nat.succ_mul]
    unfold roundTime at *
    omega
  · obtain ⟨hretries, htime⟩ := hnew (not_lt.mp hq) hhigh
    have hahead := hpaced.ahead q (not_lt.mp hq) (by
      have hchunks := hsent.numChunks.trans hinv.numChunks.symm
      have hle := hsent.next_le_chunks
      omega)
    refine ⟨by rw [htime], by rw [hretries]; exact Nat.zero_le _, ?_, ?_⟩
    · rw [htime]
      omega
    · omega

/-- The second half retransmits the chunk or finds it recently sent. -/
theorem ScanReady.scanned {q sendNow limit : Nat} {entry : SendWindowEntry} {now : UInt64}
    (hready : ScanReady start gap sendNow limit q entry) (hsecond : sendNow ≤ now.toNat)
    (hlimit : now.toNat ≤ limit) {due : Prop} [Decidable due]
    (hdue : due → entry.retries < maxRetries)
    (hkept : ¬ due → now.toNat < entry.sendTimeMs.toNat + timeoutMs.toNat) :
    PendingPaced start gap now.toNat q (if due then entry.restarted now else entry) := by
  by_cases hcase : due
  · rw [if_pos hcase]
    exact ⟨le_rfl, Nat.lt_add_of_pos_right (by decide), hdue hcase, hlimit.trans hready.room⟩
  · rw [if_neg hcase]
    exact ⟨hready.sent_le.trans hsecond, hkept hcase, hready.retries_le, hready.paid⟩

/-- What is not among the due chunks of a scan was sent less than a timeout ago. -/
theorem recent_of_notMem_dueChunks {now : UInt64} {q : Nat}
    (hinv : SenderInv file sender acked) (hlow : sender.base ≤ q) (hhigh : q < sender.nextSeq)
    (hmem : q ∉ acked) (hnot : q ∉ dueChunks sender now sender.base sender.nextSeq) :
    now.toNat < (sender.window.read q).sendTimeMs.toNat + timeoutMs.toNat := by
  have hstate : (sender.window.read q).state = .pending := by
    rw [(hinv.live q hlow hhigh).state, if_neg hmem]
  by_contra hlate
  exact hnot (mem_dueChunks.mpr ⟨hlow, hhigh,
    (dueAt_iff _ _ _).mpr (.inl ⟨hstate, not_lt.mp hlate⟩)⟩)

/-- The sender behind both halves of the driver. -/
def driven (host : ByteOrder) (sender : Sender) (sendNow scanNow : UInt64) : TimeoutResult :=
  srSenderCheckTimeouts host (srSenderSendWindow host sender sendNow).sender scanNow

/-- A driver that does not give up leaves the pending chunks on time. -/
theorem PacedInv.pending_driven (hpaced : PacedInv start gap sender acked reading)
    (hinv : SenderInv file sender acked) (host : ByteOrder) {sendNow scanNow : UInt64}
    (hfirst : reading ≤ sendNow.toNat) (hsecond : sendNow.toNat ≤ scanNow.toNat)
    (hgap : scanNow.toNat ≤ reading + gap)
    (hgoes : (driven host sender sendNow scanNow).exceeded = false) {q : Nat}
    (hlow : sender.base ≤ q) (hhigh : q < min (sender.base + windowSize) sender.numChunks)
    (hmem : q ∉ acked) :
    PendingPaced start gap scanNow.toNat q
      ((driven host sender sendNow scanNow).sender.window.read q) := by
  obtain ⟨hsent, -, hbase, hfilled, -⟩ := hinv.sendWindow_spec host sendNow
  obtain ⟨stop, hout⟩ := hsent.checkTimeouts_outcome host scanNow
  have hstop := hout.completed hgoes
  subst hstop
  have hlow' := hlow
  rw [← hbase] at hlow'
  rw [← hfilled] at hhigh
  have hready := hpaced.scanReady hinv host hfirst (hsecond.trans hgap) hlow hhigh hmem
  rw [driven, hout.entry q hlow' hhigh]
  exact hready.scanned hsecond hgap (hout.spared q)
    (recent_of_notMem_dueChunks hsent hlow' hhigh hmem)

/-- A driver that goes on leaves the transfer in time: its base is still pending, and
everything that is not yet sent waits for the base. -/
theorem PacedInv.keeps_drive (hpaced : PacedInv start gap sender acked reading)
    (hinv : SenderInv file sender acked) (hsettled : Settled sender acked) (host : ByteOrder)
    {sendNow scanNow : UInt64} (hfirst : reading ≤ sendNow.toNat)
    (hsecond : sendNow.toNat ≤ scanNow.toNat) (hgap : scanNow.toNat ≤ reading + gap)
    (hgoes : (driven host sender sendNow scanNow).exceeded = false)
    (hopen : srSenderIsComplete (driven host sender sendNow scanNow).sender = false) :
    PacedInv start gap (driven host sender sendNow scanNow).sender acked scanNow.toNat := by
  have hpending := fun q => hpaced.pending_driven hinv host hfirst hsecond hgap hgoes (q := q)
  obtain ⟨hsent, -, hbase, hfilled, -⟩ := hinv.sendWindow_spec host sendNow
  obtain ⟨hscan, -, hbase', hnext', -⟩ := hsent.checkTimeouts_spec host scanNow
  rw [← driven] at hscan hbase' hnext'
  rw [hbase] at hbase'
  rw [hfilled] at hnext'
  have hchunks := hscan.numChunks.trans hinv.numChunks.symm
  have hlt : sender.base < sender.numChunks := by
    have hcomplete := hscan.complete_iff (show Settled _ acked by rwa [Settled, hbase'])
    have hle := hscan.base_le.trans hscan.next_le_chunks
    rw [hopen, hbase', hchunks] at hcomplete
    have hne : sender.base ≠ sender.numChunks := fun heq =>
      Bool.false_ne_true (hcomplete.mpr heq)
    omega
  have htime := (hpending sender.base le_rfl (by unfold windowSize; omega) hsettled).reading_lt
  constructor
  · intro q hlow hhigh hmem
    exact hpending q (hbase' ▸ hlow) (hnext' ▸ hhigh) hmem
  · intro q hlow hhigh
    have hmono := sentBy_mono start gap
      (show sender.base + windowSize ≤ q by omega)
    rw [← sentBy_add_windowTime] at hmono
    omega
  · have hover := sentBy_add_le_overBy start gap hlt
    rw [hchunks]
    omega

end Events

/-! ## Whole transfers -/

/-- The owner while a transfer that began at `start` runs, or after its end. -/
def InTime (start gap : Nat) (timed : TimedOwner) : Prop :=
  ∃ file acked, SenderInv file timed.owner.globalSender acked ∧
    Settled timed.owner.globalSender acked ∧
    (timed.owner.transferActive = true →
      PacedInv start gap timed.owner.globalSender acked timed.reading)

section Runs

variable {host : ByteOrder} {link : LossyLink} {gap start : Nat}

/-- A driver that leaves the transfer active has not given up and is not done. -/
theorem drive_active {owner : Owner} {sendNow scanNow : UInt64}
    (hactive : (drive host owner sendNow scanNow).owner.transferActive = true) :
    owner.transferActive = true ∧
      (driven host owner.globalSender sendNow scanNow).exceeded = false ∧
      srSenderIsComplete (driven host owner.globalSender sendNow scanNow).sender = false := by
  unfold drive at hactive
  by_cases hbefore : owner.transferActive = true
  swap
  · rw [if_neg hbefore] at hactive
    exact absurd hactive hbefore
  rw [if_pos hbefore] at hactive
  refine ⟨hbefore, ?_, ?_⟩
  · by_contra hexceeded
    have hreturned : (driven host owner.globalSender sendNow scanNow).returned < 0 := by
      rw [(returned_eq_neg_one_iff _).mpr (Bool.not_eq_false _ ▸ hexceeded)]
      decide
    simp only [driven] at hreturned
    simp [hreturned, Owner.release] at hactive
  · by_contra hcomplete
    rw [Bool.not_eq_false] at hcomplete
    simp only [driven] at hcomplete
    simp [hcomplete, Owner.release] at hactive

/-- A datagram that is not a granted request is ignored or handled as an acknowledgement. -/
theorem datagram_of_refused {owner : Owner} {reception : Reception} {env : RequestEnv}
    {now : UInt64} (hrefused : Refused host owner (.datagram reception env now)) :
    (owner.apply host link (.datagram reception env now)).owner = owner ∨
      ∃ hdr, owner.transferActive = true ∧
        (owner.apply host link (.datagram reception env now)).owner =
          { owner with globalSender := srSenderHandleAck host owner.globalSender hdr } := by
  rcases reception with _ | ⟨peer, packet⟩
  · exact .inl rfl
  show (receiveDatagram host link owner (some (peer, packet)) env now).owner = owner ∨ ∃ hdr,
    owner.transferActive = true ∧
      (receiveDatagram host link owner (some (peer, packet)) env now).owner = _
  unfold receiveDatagram
  simp only
  split
  · exact .inl rfl
  · split
    · rename_i hrequest
      exact .inl (handleRequest_of_refused (hrefused hrequest) link peer now).1
    · split
      · unfold handleAck
        split
        · exact .inr ⟨_, ‹_›, rfl⟩
        · exact .inl rfl
      · exact .inl rfl

/-- Every event that grants no request keeps a running transfer in time. -/
theorem inTime_step {before after : TimedOwner} {event : OwnerEvent} (hin : InTime start gap before)
    (hstep : TimedStep host link gap before event after) : InTime start gap after := by
  obtain ⟨file, acked, hinv, hsettled, hpaced⟩ := hin
  obtain ⟨⟨howner, hrefused⟩, hclock⟩ := hstep
  cases event with
  | shared fileId fileSize hash filename =>
      refine ⟨file, acked, ?_⟩
      rw [howner, show after.reading = before.reading from hclock]
      exact ⟨hinv, hsettled, hpaced⟩
  | driver sendNow scanNow =>
      obtain ⟨hfirst, hsecond, hgap, hreading⟩ := hclock
      have hafter : after.owner = (drive host before.owner sendNow scanNow).owner := howner
      refine ⟨file, acked, ?_⟩
      rw [hafter, hreading]
      by_cases hactive : before.owner.transferActive = true
      swap
      · rw [drive, if_neg hactive]
        exact ⟨hinv, hsettled, fun h => absurd h hactive⟩
      obtain ⟨-, hinv', hsettled'⟩ := drive_sender hinv hsettled host sendNow scanNow
      rw [← drive_globalSender hactive] at hinv' hsettled'
      refine ⟨hinv', hsettled', ?_⟩
      intro hstill
      obtain ⟨-, hgoes, hopen⟩ := drive_active hstill
      rw [drive_globalSender hactive]
      exact (hpaced hactive).keeps_drive hinv hsettled host hfirst hsecond hgap hgoes hopen
  | datagram reception env now =>
      have hreading : after.reading = before.reading := hclock
      rcases datagram_of_refused hrefused with hsame | ⟨hdr, hactive, hack⟩
      · refine ⟨file, acked, ?_⟩
        rw [howner, hreading, hsame]
        exact ⟨hinv, hsettled, hpaced⟩
      · obtain ⟨hinv', hsettled', -⟩ := hinv.handleAck_spec hsettled host hdr
        refine ⟨file, SenderInv.ackedAfter host before.owner.globalSender hdr acked, ?_⟩
        rw [howner, hreading, hack]
        exact ⟨hinv', hsettled', fun _ => (hpaced hactive).keeps_handleAck hinv hsettled host hdr⟩

/-- A granted request starts the clock. -/
theorem inTime_granted {owner : Owner} {peer : SockAddr} {packet : Datagram} {env : RequestEnv}
    (hgranted : RequestGranted host owner.table packet env) (now : UInt64) :
    InTime now.toNat gap
      ⟨(handleRequest host link owner peer packet env now).1.owner, now.toNat⟩ := by
  obtain ⟨actualSize, hend, hread⟩ := hgranted.opened
  obtain ⟨file, hdata, hsize⟩ := exists_fileImage hread
  obtain ⟨sender, hinit, -, hinv, hsettled⟩ := srSenderInit_inv peer link file
  have hnext : sender.nextSeq = 0 := by
    cases hinit
    rfl
  obtain ⟨hsent, -⟩ := hinv.sendWindow_spec host now
  rw [handleRequest_eq_started hgranted hend hdata hsize hinit now]
  exact ⟨file, ∅, hsent, by simp [Settled], fun _ => pacedInv_start hinv hnext host now gap⟩

end Runs

/-- For every granted request and every continuation of the loop that grants no other
one: with a clock that is not set back and a driver that comes round within `gap`
milliseconds, a transfer that is still active has run for at most
`⌈num_chunks / WINDOW_SIZE⌉ · (1 + MAX_RETRIES) · (TIMEOUT_MS + gap)` milliseconds,
whatever datagrams arrive and from whom. -/
theorem transfer_over_in_time {host : ByteOrder} {link : LossyLink} {owner : Owner}
    {peer : SockAddr} {packet : Datagram} {env : RequestEnv} {now : UInt64} {gap : Nat}
    (hgranted : RequestGranted host owner.table packet env) {events : List OwnerEvent}
    {last : TimedOwner}
    (hrun : Run (TimedStep host link gap)
      ⟨(handleRequest host link owner peer packet env now).1.owner, now.toNat⟩ events last)
    (hactive : last.owner.transferActive = true) :
    last.reading ≤ overBy now.toNat gap last.owner.globalSender.numChunks := by
  obtain ⟨file, acked, -, -, hpaced⟩ :=
    hrun.invariant (fun _ _ _ hin hstep => inTime_step hin hstep) (inTime_granted hgranted now)
  exact (hpaced hactive).inTime

/-- File 1 is shared. -/
def offeringOwner : Owner :=
  (Owner.initial.apply .little ⟨3, 0, 1⟩ (.shared 1 1 (HashBytes.ofImage []) [97])).owner

/-- A peer has asked for it at 0. -/
def askedOwner : Owner :=
  (handleRequest .little ⟨3, 0, 1⟩ offeringOwner ⟨1, 1⟩ requestOne oneByteEnv 0).1.owner

/-- The driver has come round at 100. -/
def drivenOwner : Owner := (drive .little askedOwner 100 100).owner

/-- The one chunk of the file is still pending at 100: it has until 6600. -/
theorem transfer_over_in_time_one_byte :
    drivenOwner.transferActive = true ∧
      overBy 0 100 drivenOwner.globalSender.numChunks = 6600 ∧
      100 ≤ overBy 0 100 drivenOwner.globalSender.numChunks := by
  have hgranted : RequestGranted .little offeringOwner.table requestOne oneByteEnv :=
    { length := by decide +kernel
      dataLen := by decide +kernel
      listed := ⟨⟨1, 1, HashBytes.ofImage [], NameField.strncpy [97]⟩, by decide +kernel,
        by decide +kernel⟩
      opened := ⟨1, rfl, by decide⟩
      sent := by decide
      allocated := rfl }
  have hstep : TimedStep .little ⟨3, 0, 1⟩ 100 ⟨askedOwner, (0 : UInt64).toNat⟩ (.driver 100 100)
      ⟨drivenOwner, 100⟩ :=
    ⟨⟨rfl, trivial⟩, by decide, by decide, by decide, by decide⟩
  have hactive : drivenOwner.transferActive = true := by decide +kernel
  exact ⟨hactive, by decide +kernel,
    transfer_over_in_time hgranted (Run.single hstep) hactive⟩

end Client
end PeerShare
