import PeerShare.SelectiveRepeat.Retransmission
import PeerShare.SelectiveRepeat.TransferSafety

/-!
# Timeouts and clocks that step backwards

`sr_sender_check_timeouts` compares `now_ms - send_time_ms` with `TIMEOUT_MS` in
unsigned 64-bit arithmetic, and both samples come from `gettimeofday`.  When the
clock was set back in between, the difference wraps and every pending chunk looks
overdue.  The difference is the elapsed time exactly when no reading lies before
the send time it is compared with (or lies before it by almost `2 ^ 64`); in a run
whose scans all meet that, a timeout is one over the integers and an abort has
`MAX_RETRIES + 1` full waits behind it.
-/

namespace PeerShare
namespace SelectiveRepeat

open Foundation Wire

/-- Chunk `q` is pending and its timeout has elapsed over the integers. -/
def RealDueAt (sender : Sender) (now : UInt64) (q : Nat) : Prop :=
  (sender.window.read q).state = .pending ∧
    (sender.window.read q).sendTimeMs.toNat + timeoutMs.toNat ≤ now.toNat

/-- Chunk `q` is pending and `now` lies before its send time, by so little that
the unsigned difference is at least `TIMEOUT_MS`. -/
def BehindClock (sender : Sender) (now : UInt64) (q : Nat) : Prop :=
  (sender.window.read q).state = .pending ∧
    now.toNat < (sender.window.read q).sendTimeMs.toNat ∧
    (sender.window.read q).sendTimeMs.toNat + timeoutMs.toNat ≤ now.toNat + 2 ^ 64

instance (sender : Sender) (now : UInt64) (q : Nat) : Decidable (RealDueAt sender now q) :=
  inferInstanceAs (Decidable (_ ∧ _))

instance (sender : Sender) (now : UInt64) (q : Nat) : Decidable (BehindClock sender now q) :=
  inferInstanceAs (Decidable (_ ∧ _ ∧ _))

/-- No pending chunk was sent at a time that `now` has fallen behind. -/
def ClockKept (sender : Sender) (now : UInt64) : Prop :=
  ∀ q < sender.nextSeq, sender.base ≤ q → ¬ BehindClock sender now q

instance (sender : Sender) (now : UInt64) : Decidable (ClockKept sender now) :=
  inferInstanceAs (Decidable (∀ q < sender.nextSeq, _))

/-- Every scan of the run finds the clock kept. -/
def ClockKeptRun (host : ByteOrder) (start : Sender) (ops : List SenderOp) : Prop :=
  ∀ before now after, ops = before ++ .checkTimeouts now :: after →
    ClockKept (logSender host start before).sender now

/-- The chunks of `first, ..., stop - 1` whose timeout has really elapsed. -/
def realDueChunks (sender : Sender) (now : UInt64) (first stop : Nat) : List Nat :=
  (List.range' first (stop - first)).filter fun q => RealDueAt sender now q

/-- A scan judged by elapsed time: all overdue chunks are retransmitted once and in
order, and it fails only at an overdue chunk that has used all its retries. -/
structure ScanReal (file : FileImage) (host : ByteOrder) (sender : Sender)
    (now : UInt64) : Prop where
  completed : (srSenderCheckTimeouts host sender now).returned ≠ -1 →
    (srSenderCheckTimeouts host sender now).packets =
      (realDueChunks sender now sender.base sender.nextSeq).map (file.packet host)
  aborted : (srSenderCheckTimeouts host sender now).returned = -1 →
    ∃ stop, sender.base ≤ stop ∧ stop < sender.nextSeq ∧ RealDueAt sender now stop ∧
      (sender.window.read stop).retries = maxRetries ∧
      (srSenderCheckTimeouts host sender now).packets =
        (realDueChunks sender now sender.base stop).map (file.packet host)

/-- The clock reading of a transmission of chunk `q`. -/
def SenderAct.sentAt (host : ByteOrder) (q : Nat) : SenderAct → Option Nat
  | .transmitted packet now =>
      if (decodeData host packet).map Prod.fst = some q then some now.toNat else none
  | .counted _ => none

/-- The clock readings at which chunk `q` was transmitted, in order. -/
def transmissionTimes (host : ByteOrder) (acts : List SenderAct) (q : Nat) : List Nat :=
  acts.filterMap (SenderAct.sentAt host q)

/-- One wait of at least `TIMEOUT_MS` between two readings. -/
def FullWait (earlier later : Nat) : Prop := earlier + timeoutMs.toNat ≤ later

/-- Chunk `q` was transmitted `1 + MAX_RETRIES` times, and a full wait followed
each of these transmissions, the last one ending at `now`. -/
def WaitedOut (host : ByteOrder) (log : SenderLog) (now : UInt64) (q : Nat) : Prop :=
  (transmissionTimes host log.acts q).length = 1 + maxRetries ∧
    (transmissionTimes host log.acts q ++ [now.toNat]).IsChain FullWait

/-! ## The judgement of one scan -/

theorem returned_eq_neg_one_iff (result : TimeoutResult) :
    result.returned = -1 ↔ result.exceeded = true := by
  unfold TimeoutResult.returned
  split <;> simp_all

/-- The test of the source accepts the elapsed timeouts and the wrapped differences. -/
theorem dueAt_iff (sender : Sender) (now : UInt64) (q : Nat) :
    SenderInv.DueAt sender now q ↔ RealDueAt sender now q ∨ BehindClock sender now q := by
  have hnow : now.toNat < 2 ^ 64 := now.toNat_lt
  have hsend : (sender.window.read q).sendTimeMs.toNat < 2 ^ 64 :=
    (sender.window.read q).sendTimeMs.toNat_lt
  have htimeout : timeoutMs.toNat = 500 := by decide
  unfold SenderInv.DueAt RealDueAt BehindClock
  rw [UInt64.le_iff_toNat_le, UInt64.toNat_sub, htimeout, ← and_or_left]
  refine and_congr_right fun _ => ?_
  omega

/-- A wrapped difference is never an elapsed timeout. -/
theorem not_realDueAt_of_behind {sender : Sender} {now : UInt64} {q : Nat}
    (hbehind : BehindClock sender now q) : ¬ RealDueAt sender now q := by
  rintro ⟨-, helapsed⟩
  have hlt := hbehind.2.1
  omega

/-- With the clock kept, the scan sees the elapsed timeouts. -/
theorem dueAt_iff_of_kept {sender : Sender} {now : UInt64} (hkept : ClockKept sender now)
    {q : Nat} (hlow : sender.base ≤ q) (hnext : q < sender.nextSeq) :
    SenderInv.DueAt sender now q ↔ RealDueAt sender now q := by
  rw [dueAt_iff]
  exact or_iff_left (hkept q hnext hlow)

theorem dueChunks_eq_of_kept {sender : Sender} {now : UInt64}
    (hkept : ClockKept sender now) {stop : Nat} (hstop : stop ≤ sender.nextSeq) :
    dueChunks sender now sender.base stop = realDueChunks sender now sender.base stop := by
  unfold dueChunks realDueChunks
  apply List.filter_congr
  intro q hq
  rw [List.mem_range'_1] at hq
  exact decide_eq_decide.mpr (dueAt_iff_of_kept hkept hq.1 (by omega))

namespace LogInv

variable {host : ByteOrder} {file : FileImage} {log : SenderLog} {acked : Finset Nat}

/-- A scan with the clock kept judges by elapsed time. -/
theorem scanReal_of_kept (hlog : LogInv host file log acked) {now : UInt64}
    (hkept : ClockKept log.sender now) : ScanReal file host log.sender now := by
  obtain ⟨stop, hout⟩ := hlog.inv.checkTimeouts_outcome host now
  have hlist := dueChunks_eq_of_kept hkept hout.stop_le
  constructor
  · intro hreturned
    rw [ne_eq, returned_eq_neg_one_iff, Bool.not_eq_true] at hreturned
    rw [hout.packets, hlist, hout.completed hreturned]
  · intro hreturned
    rw [returned_eq_neg_one_iff] at hreturned
    obtain ⟨hlast, hdue, hspent⟩ := hout.stopped hreturned
    have hlow := hout.first_le
    have hmem := hlog.inv.notMem_of_dueAt hlow hlast hdue
    have htally := hlog.tally stop hlow hlast hmem
    have hbound := hlog.tally_le stop
    refine ⟨stop, hlow, hlast, (dueAt_iff_of_kept hkept hlow hlast).mp hdue, by omega, ?_⟩
    rw [hout.packets, hlist]

/-- A scan that does not fail and judges by elapsed time found the clock kept. -/
theorem kept_of_scanReal (hlog : LogInv host file log acked) {now : UInt64}
    (hreturned : (srSenderCheckTimeouts host log.sender now).returned ≠ -1)
    (hreal : ScanReal file host log.sender now) : ClockKept log.sender now := by
  obtain ⟨stop, hout⟩ := hlog.inv.checkTimeouts_outcome host now
  have hpackets := hreal.completed hreturned
  rw [ne_eq, returned_eq_neg_one_iff, Bool.not_eq_true] at hreturned
  rw [hout.packets, hout.completed hreturned] at hpackets
  intro q hnext hlow hbehind
  have hq : q ∈ dueChunks log.sender now log.sender.base log.sender.nextSeq :=
    mem_dueChunks.mpr ⟨hlow, hnext, (dueAt_iff _ _ _).mpr (.inr hbehind)⟩
  have hpacket := List.mem_map_of_mem (f := file.packet host) hq
  rw [hpackets, List.mem_map] at hpacket
  obtain ⟨k, hk, hsame⟩ := hpacket
  simp only [realDueChunks, List.mem_filter, List.mem_range'_1, decide_eq_true_eq] at hk
  obtain rfl : k = q :=
    file.packet_inj host (hlog.sent_lt (by omega)) (hlog.sent_lt hnext) hsame
  exact not_realDueAt_of_behind hbehind hk.2

end LogInv

/-! ## The waits of a run -/

theorem transmissionTimes_append (host : ByteOrder) (acts later : List SenderAct) (q : Nat) :
    transmissionTimes host (acts ++ later) q =
      transmissionTimes host acts q ++ transmissionTimes host later q :=
  List.filterMap_append

/-- A chunk has one reading for each transmission. -/
theorem length_transmissionTimes (host : ByteOrder) (acts : List SenderAct) (q : Nat) :
    (transmissionTimes host acts q).length = (transmittedChunks host acts).count q := by
  induction acts with
  | nil => rfl
  | cons act acts ih =>
      cases act with
      | counted k => exact ih
      | transmitted packet now =>
          unfold transmissionTimes transmittedChunks at ih ⊢
          cases hchunk : (decodeData host packet).map Prod.fst with
          | none => simp [SenderAct.chunk, SenderAct.sentAt, hchunk, ih]
          | some k =>
              by_cases heq : k = q
              · simp [SenderAct.chunk, SenderAct.sentAt, hchunk, heq, ih]
              · simp [SenderAct.chunk, SenderAct.sentAt, hchunk, heq, ih]

/-- In a burst of different chunks each has one reading. -/
theorem transmissionTimes_burst {file : FileImage} {host : ByteOrder} {now : UInt64}
    {burst : List Nat} (hburst : ∀ q ∈ burst, q < file.numChunks) (hnodup : burst.Nodup)
    (q : Nat) :
    transmissionTimes host (burstActs file host now burst) q =
      if q ∈ burst then [now.toNat] else [] := by
  induction burst with
  | nil => rfl
  | cons k burst ih =>
      obtain ⟨hfresh, hnodup⟩ := List.nodup_cons.mp hnodup
      have hrest := ih (fun j hj => hburst j (List.mem_cons_of_mem k hj)) hnodup
      have hdecode := file.decodeData_packet host (hburst k List.mem_cons_self)
      simp only [transmissionTimes, burstActs, List.map_cons] at hrest ⊢
      by_cases heq : k = q
      · subst heq
        rw [if_neg hfresh] at hrest
        rw [List.filterMap_cons_some (b := now.toNat) (by simp [SenderAct.sentAt, hdecode]),
          hrest, if_pos List.mem_cons_self]
      · rw [List.filterMap_cons_none (by simp [SenderAct.sentAt, hdecode, heq]), hrest]
        simp only [List.mem_cons, Ne.symm heq, false_or]

/-- The last transmission of a pending chunk is the one its slot remembers, and
full waits lie between its transmissions. -/
structure TimesInv (host : ByteOrder) (log : SenderLog) (acked : Finset Nat) : Prop where
  last : ∀ q, log.sender.base ≤ q → q < log.sender.nextSeq → q ∉ acked →
    (transmissionTimes host log.acts q).getLast? =
      some (log.sender.window.read q).sendTimeMs.toNat
  waits : ∀ q, (transmissionTimes host log.acts q).IsChain FullWait

namespace TimesInv

variable {host : ByteOrder} {file : FileImage} {log : SenderLog} {acked : Finset Nat}

/-- One more reading at the end, a full wait after the last one. -/
theorem waits_concat (htimes : TimesInv host log acked) {q : Nat} {now : Nat}
    (hwait : ∀ last ∈ (transmissionTimes host log.acts q).getLast?, FullWait last now) :
    (transmissionTimes host log.acts q ++ [now]).IsChain FullWait := by
  refine List.isChain_append.mpr ⟨htimes.waits q, List.isChain_singleton _, ?_⟩
  intro last hlast later hlater
  rw [List.head?_cons, Option.mem_some_iff] at hlater
  subst hlater
  exact hwait last hlast

/-- A burst whose chunks all waited, or were never sent. -/
theorem keeps_burst (htimes : TimesInv host log acked) {sender : Sender} {now : UInt64}
    {burst : List Nat} (hchunks : ∀ q ∈ burst, q < file.numChunks) (hnodup : burst.Nodup)
    (hwait : ∀ q ∈ burst, ∀ last ∈ (transmissionTimes host log.acts q).getLast?,
      FullWait last now.toNat)
    (hlast : ∀ q, sender.base ≤ q → q < sender.nextSeq → q ∉ acked →
      if q ∈ burst then (sender.window.read q).sendTimeMs = now
      else log.sender.base ≤ q ∧ q < log.sender.nextSeq ∧
        sender.window.read q = log.sender.window.read q) :
    TimesInv host ⟨sender, log.acts ++ burstActs file host now burst⟩ acked := by
  have happend : ∀ q, transmissionTimes host
      (log.acts ++ burstActs file host now burst) q =
        transmissionTimes host log.acts q ++ if q ∈ burst then [now.toNat] else [] := by
    intro q
    rw [transmissionTimes_append, transmissionTimes_burst hchunks hnodup]
  constructor
  · intro q hlow hnext hmem
    have hentry := hlast q hlow hnext hmem
    simp only [happend]
    by_cases hq : q ∈ burst
    · rw [if_pos hq] at hentry
      rw [if_pos hq, hentry, List.getLast?_concat]
    · rw [if_neg hq] at hentry
      obtain ⟨hlow', hnext', hread⟩ := hentry
      rw [if_neg hq, List.append_nil, hread]
      exact htimes.last q hlow' hnext' hmem
  · intro q
    simp only [happend]
    by_cases hq : q ∈ burst
    · rw [if_pos hq]
      exact htimes.waits_concat (hwait q hq)
    · rw [if_neg hq, List.append_nil]
      exact htimes.waits q

theorem keeps_sendWindow (htimes : TimesInv host log acked)
    (hlog : LogInv host file log acked) (now : UInt64) :
    TimesInv host (log.record host (.sendWindow now)) acked := by
  obtain ⟨-, -, hbase, hnext, -, hpackets⟩ := hlog.inv.sendWindow_spec host now
  have hchunks := hlog.inv.numChunks
  show TimesInv host ⟨(srSenderSendWindow host log.sender now).sender, log.acts ++ _⟩ acked
  simp only [SenderOp.acts]
  rw [hpackets]
  apply htimes.keeps_burst
  · intro q hq
    rw [List.mem_range'_1] at hq
    omega
  · exact List.nodup_range'
  · -- a chunk that was never sent has no reading
    intro q hq last hmem
    have hnever : (transmissionTimes host log.acts q).length = 0 := by
      rw [length_transmissionTimes, List.count_eq_zero, hlog.sent q]
      have hge := (List.mem_range'_1.mp hq).1
      omega
    rw [List.length_eq_zero_iff.mp hnever] at hmem
    cases hmem
  · intro q hlow hlt hmem
    rw [hbase] at hlow
    obtain ⟨hkept, hfresh⟩ := hlog.inv.sendWindowLoop_entry host now
      (log.sender.numChunks - log.sender.nextSeq) hlow
    by_cases hq : q < log.sender.nextSeq
    · rw [if_neg (by rw [List.mem_range'_1]; omega)]
      exact ⟨hlow, hq, hkept hq⟩
    · rw [hnext] at hlt
      rw [if_pos (by rw [List.mem_range'_1]; omega)]
      exact (hfresh (by omega) (hlt.trans_eq hnext.symm)).2

theorem keeps_checkTimeouts (htimes : TimesInv host log acked)
    (hlog : LogInv host file log acked) {now : UInt64} (hkept : ClockKept log.sender now) :
    TimesInv host (log.record host (.checkTimeouts now)) acked := by
  obtain ⟨-, -, hbase, hnext, -⟩ := hlog.inv.checkTimeouts_spec host now
  obtain ⟨stop, hout⟩ := hlog.inv.checkTimeouts_outcome host now
  have hstop := hout.stop_le
  show TimesInv host ⟨(srSenderCheckTimeouts host log.sender now).sender, log.acts ++ _⟩ acked
  simp only [SenderOp.acts]
  rw [hout.packets]
  apply htimes.keeps_burst
  · intro q hq
    exact hlog.sent_lt ((mem_dueChunks.mp hq).2.1.trans_le hstop)
  · exact dueChunks_nodup _ _ _ _
  · intro q hq last hlast
    obtain ⟨hlow, hhigh, hdue⟩ := mem_dueChunks.mp hq
    have hqnext := hhigh.trans_le hstop
    have hmem := hlog.inv.notMem_of_dueAt hlow hqnext hdue
    rw [htimes.last q hlow hqnext hmem, Option.mem_some_iff] at hlast
    subst hlast
    exact ((dueAt_iff_of_kept hkept hlow hqnext).mp hdue).2
  · intro q hlow hqnext hmem
    rw [hbase] at hlow
    rw [hnext] at hqnext
    rw [hout.entry q hlow hqnext]
    by_cases hq : q ∈ dueChunks log.sender now log.sender.base stop
    · rw [if_pos hq, if_pos hq]
      rfl
    · rw [if_neg hq, if_neg hq]
      exact ⟨hlow, hqnext, rfl⟩

theorem keeps_handleAck (htimes : TimesInv host log acked)
    (hlog : LogInv host file log acked) (hdr : UdpHeader) :
    TimesInv host (log.record host (.handleAck hdr))
      (SenderInv.ackedAfter host log.sender hdr acked) := by
  obtain ⟨-, -, hnext, -⟩ := hlog.inv.handleAck_spec hlog.settled host hdr
  have hsame : ∀ q, transmissionTimes host
      (log.acts ++ (ackCounted host log.sender hdr).toList.map .counted) q =
        transmissionTimes host log.acts q := by
    intro q
    rw [transmissionTimes_append]
    cases ackCounted host log.sender hdr with
    | none => exact List.append_nil _
    | some k => exact List.append_nil _
  constructor
  · intro q hlow hqnext hmem
    have hqnext' : q < log.sender.nextSeq := by
      rwa [← hnext]
    obtain ⟨hlow', hmem', hentry⟩ :=
      hlog.inv.handleAck_entry hlog.settled host hdr hlow hqnext' hmem
    show (transmissionTimes host (log.acts ++ _) q).getLast? =
      some ((srSenderHandleAck host log.sender hdr).window.read q).sendTimeMs.toNat
    rw [hentry, ← htimes.last q hlow' hqnext' hmem']
    exact congrArg List.getLast? (hsame q)
  · intro q
    have hwaits := htimes.waits q
    rw [← hsame q] at hwaits
    exact hwaits

/-- Both invariants along a run whose scans find the clock kept. -/
theorem of_run {sender : Sender} (hinv : SenderInv file sender ∅)
    (hsettled : Settled sender ∅) (hnext : sender.nextSeq = 0) {ops : List SenderOp}
    (hkept : ClockKeptRun host sender ops) :
    ∃ acked, LogInv host file (logSender host sender ops) acked ∧
      TimesInv host (logSender host sender ops) acked := by
  induction ops using List.reverseRecOn with
  | nil =>
      refine ⟨∅, LogInv.of_fresh hinv hsettled hnext, ?_, fun q => List.isChain_nil⟩
      intro q _ hlt
      exact absurd hlt (by simp [logSender, hnext])
  | append_singleton ops op ih =>
      obtain ⟨acked, hlog, htimes⟩ := ih (by
        intro before now after hsplit
        exact hkept before now (after ++ [op]) (by rw [hsplit]; simp))
      have hrecord : logSender host sender (ops ++ [op]) =
          (logSender host sender ops).record host op := by
        rw [logSender, List.foldl_concat]
        rfl
      rw [hrecord]
      cases op with
      | sendWindow now =>
          exact ⟨acked, hlog.keeps_sendWindow now, htimes.keeps_sendWindow hlog now⟩
      | handleAck hdr =>
          exact ⟨_, hlog.keeps_handleAck hdr, htimes.keeps_handleAck hlog hdr⟩
      | checkTimeouts now =>
          exact ⟨acked, hlog.keeps_checkTimeouts now,
            htimes.keeps_checkTimeouts hlog (hkept ops now [] rfl)⟩

/-- A scan that fails has found a chunk that waited out all its transmissions. -/
theorem waitedOut_of_aborted (htimes : TimesInv host log acked)
    (hlog : LogInv host file log acked) {now : UInt64} (hkept : ClockKept log.sender now)
    (hreturned : (srSenderCheckTimeouts host log.sender now).returned = -1) :
    ∃ q, log.sender.base ≤ q ∧ q < log.sender.nextSeq ∧ WaitedOut host log now q := by
  obtain ⟨q, hlow, hnext, hdue, hspent, -⟩ :=
    (hlog.scanReal_of_kept hkept).aborted hreturned
  have hmem := hlog.inv.notMem_of_dueAt hlow hnext
    ((dueAt_iff_of_kept hkept hlow hnext).mpr hdue)
  refine ⟨q, hlow, hnext, ?_, htimes.waits_concat ?_⟩
  · rw [length_transmissionTimes, hlog.tally q hlow hnext hmem, hspent, Nat.add_comm]
  · intro last hlast
    rw [htimes.last q hlow hnext hmem, Option.mem_some_iff] at hlast
    subst hlast
    exact hdue.2

end TimesInv

/-- In every run whose scans find the clock kept, each scan retransmits exactly
the chunks whose timeout elapsed over the integers, and a scan that returns `-1`
has a chunk behind it with `MAX_RETRIES + 1` full waits.  A scan that does not
fail and finds the clock set back judges wrongly, in any run. -/
theorem timeouts_real_of_clock_kept {host : ByteOrder} {peerAddr : SockAddr}
    {link : LossyLink} {file : FileImage} {start : Sender}
    (hinit : srSenderInit (some peerAddr) (some file.data) file.size (some link) = some start)
    (ops : List SenderOp) :
    (ClockKeptRun host start ops → ∀ before now after,
      ops = before ++ .checkTimeouts now :: after →
        let log := logSender host start before
        ScanReal file host log.sender now ∧
          ((srSenderCheckTimeouts host log.sender now).returned = -1 →
            ∃ q, log.sender.base ≤ q ∧ q < log.sender.nextSeq ∧
              WaitedOut host log now q)) ∧
      ∀ now, (srSenderCheckTimeouts host (logSender host start ops).sender now).returned ≠ -1 →
        (ScanReal file host (logSender host start ops).sender now ↔
          ClockKept (logSender host start ops).sender now) := by
  obtain ⟨start', hinit', -, hinv, hsettled⟩ := srSenderInit_inv peerAddr link file
  obtain rfl : start' = start := Option.some.inj (hinit'.symm.trans hinit)
  have hnext : start'.nextSeq = 0 := by
    cases hinit
    rfl
  constructor
  · rintro hkept before now after rfl
    have hscan := hkept before now after rfl
    have hbefore : ClockKeptRun host start' before := by
      intro earlier time later hsplit
      exact hkept earlier time (later ++ .checkTimeouts now :: after) (by rw [hsplit]; simp)
    obtain ⟨acked, hlog, htimes⟩ := TimesInv.of_run hinv hsettled hnext hbefore
    exact ⟨hlog.scanReal_of_kept hscan, htimes.waitedOut_of_aborted hlog hscan⟩
  · intro now hreturned
    obtain ⟨acked, hlog⟩ : ∃ acked, LogInv host file (logSender host start' ops) acked :=
      LogInv.of_run hinv hsettled hnext ops
    exact ⟨hlog.kept_of_scanReal hreturned, hlog.scanReal_of_kept⟩

/-- Sent at 1000 and scanned at 1500, the chunk is retransmitted on time. -/
theorem timeouts_real_of_clock_kept_one_byte :
    ClockKeptRun .little oneByteStart.sender [.sendWindow 1000, .checkTimeouts 1500] ∧
      ScanReal oneByteFile .little (logSender .little oneByteStart.sender [.sendWindow 1000]).sender 1500 ∧
      (srSenderCheckTimeouts .little
        (logSender .little oneByteStart.sender [.sendWindow 1000]).sender 1500).returned = 1 := by
  have hkept : ClockKeptRun .little oneByteStart.sender [.sendWindow 1000, .checkTimeouts 1500] := by
    intro before now after hsplit
    rcases before with _ | ⟨first, _ | ⟨second, before⟩⟩
    · cases hsplit
    · cases hsplit
      decide +kernel
    · simp at hsplit
  have hinit : srSenderInit (some ⟨0, 0⟩) (some oneByteFile.data) oneByteFile.size
      (some ⟨0, 0, 1⟩) = some oneByteStart.sender := rfl
  obtain ⟨hreal, -⟩ := (timeouts_real_of_clock_kept hinit _).1 hkept
    [.sendWindow 1000] 1500 [] rfl
  exact ⟨hkept, hreal, by decide +kernel⟩

/-- The chunk is sent at 1000 and the clock is set back to 999: the next scan
retransmits it although nothing has elapsed, and while the clock is set back by
one more millisecond before each scan the eleventh scan gives the transfer up. -/
theorem clock_set_back_aborts :
    ¬ ScanReal oneByteFile .little
        (logSender .little oneByteStart.sender [.sendWindow 1000]).sender 999 ∧
      (srSenderCheckTimeouts .little
        (logSender .little oneByteStart.sender [.sendWindow 1000]).sender 999).packets =
          [oneByteFile.packet .little 0] ∧
      let log := logSender .little oneByteStart.sender (.sendWindow 1000 ::
        [999, 998, 997, 996, 995, 994, 993, 992, 991, 990].map .checkTimeouts)
      (srSenderCheckTimeouts .little log.sender 989).returned = -1 ∧
        ¬ ∃ q, log.sender.base ≤ q ∧ q < log.sender.nextSeq ∧
          WaitedOut .little log 989 q := by
  refine ⟨?_, by decide +kernel, by decide +kernel, ?_⟩
  · intro hreal
    exact absurd (hreal.completed (by decide +kernel)) (by decide +kernel)
  · rintro ⟨q, -, hnext, -, hwaits⟩
    have hq : q = 0 := by
      have hone : (logSender .little oneByteStart.sender (.sendWindow 1000 ::
        [999, 998, 997, 996, 995, 994, 993, 992, 991, 990].map .checkTimeouts)).sender.nextSeq =
          1 := by decide +kernel
      omega
    subst hq
    revert hwaits
    unfold FullWait
    decide +kernel

end SelectiveRepeat
end PeerShare
