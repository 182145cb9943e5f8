import PeerShare.SelectiveRepeat.SenderRun
import PeerShare.SelectiveRepeat.TimeoutScan

/-!
# The transmissions of a whole run

The history of `SenderRun` keeps the acknowledgements that were counted.  Here a
run also records every datagram it hands to the link, with the clock reading of
the call, in one chronological log.  A slot of the ring is recycled for later
chunks and its retry counter starts again, so the number of transmissions of a
chunk is tied to the counter only while the slot belongs to it; before that the
chunk was never sent, and afterwards it is never sent again.
-/

namespace PeerShare
namespace SelectiveRepeat

open Foundation Wire

/-- What a run does to the outside, in order. -/
inductive SenderAct where
  | transmitted (packet : Bytes) (now : UInt64)
  | counted (q : Nat)

/-- The chunk number that a transmitted datagram carries. -/
def SenderAct.chunk (host : ByteOrder) : SenderAct → Option Nat
  | .transmitted packet _ => (decodeData host packet).map Prod.fst
  | .counted _ => none

/-- A sender with its log. -/
structure SenderLog where
  sender : Sender
  acts : List SenderAct

/-- What one call adds to the log. -/
def SenderOp.acts (host : ByteOrder) (sender : Sender) : SenderOp → List SenderAct
  | .sendWindow now =>
      (srSenderSendWindow host sender now).packets.map fun packet => .transmitted packet now
  | .handleAck hdr => (ackCounted host sender hdr).toList.map .counted
  | .checkTimeouts now =>
      (srSenderCheckTimeouts host sender now).packets.map fun packet => .transmitted packet now

/-- The sender after one call; the return code of the timeout scan does not stop it. -/
def SenderOp.next (host : ByteOrder) (sender : Sender) : SenderOp → Sender
  | .sendWindow now => (srSenderSendWindow host sender now).sender
  | .handleAck hdr => srSenderHandleAck host sender hdr
  | .checkTimeouts now => (srSenderCheckTimeouts host sender now).sender

def SenderLog.record (host : ByteOrder) (log : SenderLog) (op : SenderOp) : SenderLog where
  sender := op.next host log.sender
  acts := log.acts ++ op.acts host log.sender

/-- All calls of a run, with the log of all of them. -/
def logSender (host : ByteOrder) (sender : Sender) (ops : List SenderOp) : SenderLog :=
  ops.foldl (SenderLog.record host) ⟨sender, []⟩

/-- The numbers of the transmitted chunks, in order. -/
def transmittedChunks (host : ByteOrder) (acts : List SenderAct) : List Nat :=
  acts.filterMap (SenderAct.chunk host)

/-- Every number below an entry stands in front of it. -/
def GapFree (numbers : List Nat) : Prop :=
  ∀ before q after, numbers = before ++ q :: after → ∀ p < q, p ∈ before

/-- Nothing follows a counted chunk that transmits it. -/
def QuietAfterCounted (host : ByteOrder) (acts : List SenderAct) : Prop :=
  acts.Pairwise fun earlier later => ∀ q, earlier = .counted q → later.chunk host ≠ some q

/-! ## The entries that a call leaves alone -/

namespace SenderInv

variable {file : FileImage} {sender : Sender} {acked : Finset Nat}

/-- The send loop keeps the entries of the sent chunks and starts the clocks of
the new ones. -/
theorem sendWindowLoop_entry (hinv : SenderInv file sender acked) (host : ByteOrder)
    (now : UInt64) (rounds : Nat) {q : Nat} (hlow : sender.base ≤ q) :
    let result := sendWindowLoop host now rounds sender
    (q < sender.nextSeq → result.sender.window.read q = sender.window.read q) ∧
      (sender.nextSeq ≤ q → q < result.sender.nextSeq →
        (result.sender.window.read q).retries = 0 ∧
          (result.sender.window.read q).sendTimeMs = now) := by
  induction rounds generalizing sender with
  | zero => exact ⟨fun _ => rfl, fun hge hlt => absurd hlt (by simpa [sendWindowLoop] using hge)⟩
  | succ rounds ih =>
      rw [sendWindowLoop, hinv.window_end_eq]
      by_cases hcond : sender.nextSeq < sender.base + windowSize ∧
          sender.nextSeq < sender.numChunks
      · have hempty := hinv.idle sender.nextSeq le_rfl hcond.1
        have hstep := hinv.keeps_sendChunk now hcond.1 hcond.2
        have hbase := hinv.base_le
        rw [if_pos hcond, if_neg (by simp [hempty]), hinv.sendChunk_eq host now hcond.2]
        obtain ⟨hold, hnew⟩ := ih hstep hlow
        simp only at hold hnew ⊢
        constructor
        · intro hlt
          rw [hold (by omega), SlotRing.read_write_of_window _ _ ⟨hbase, hcond.1⟩
            ⟨hlow, by omega⟩ hlt.ne]
        · intro hge hlt
          by_cases heq : q = sender.nextSeq
          · subst heq
            rw [hold (by omega), SlotRing.read_write_self]
            exact ⟨rfl, rfl⟩
          · exact hnew (by omega) hlt
      · rw [if_neg hcond]
        exact ⟨fun _ => rfl, fun hge hlt => absurd hlt (by simpa using hge)⟩

/-- Releasing slots at the base leaves the entries above it alone. -/
theorem senderSlide_entry (hinv : SenderInv file sender acked) (rounds : Nat) {q : Nat}
    (hlow : (senderSlide rounds sender).base ≤ q) (hnext : q < sender.nextSeq) :
    sender.base ≤ q ∧ (senderSlide rounds sender).window.read q = sender.window.read q := by
  induction rounds generalizing sender with
  | zero => exact ⟨hlow, rfl⟩
  | succ rounds ih =>
      have hwindow := hinv.next_le_window
      have hsmall := file.numChunks_lt
      have hchunks := hinv.numChunks
      rw [senderSlide] at hlow ⊢
      by_cases hcond : sender.base < sender.numChunks
      · simp only [if_pos hcond] at hlow ⊢
        by_cases hstate : (sender.window.read sender.base).state = .acked
        · have hinc : u32 (sender.base + 1) = sender.base + 1 := u32_of_lt (by omega)
          simp only [hstate, ne_eq, not_true_eq_false, if_false, hinc] at hlow ⊢
          have hstep := hinv.keeps_slide (hinv.base_state_acked_iff.mp hstate)
          obtain ⟨habove, hread⟩ := ih hstep hlow hnext
          simp only at habove hread
          refine ⟨by omega, ?_⟩
          rw [hread, SlotRing.read_write_of_window _ _ ⟨le_rfl, by unfold windowSize; omega⟩
            ⟨by omega, by omega⟩ (by omega)]
        · rw [if_pos hstate] at hlow ⊢
          exact ⟨hlow, rfl⟩
      · simp only [if_neg hcond] at hlow ⊢
        exact ⟨hlow, trivial⟩

/-- A chunk that still waits after an acknowledgement waited before it, with
the same entry. -/
theorem handleAck_entry (hinv : SenderInv file sender acked)
    (hsettled : Settled sender acked) (host : ByteOrder) (hdr : UdpHeader) {q : Nat}
    (hlow : (srSenderHandleAck host sender hdr).base ≤ q) (hnext : q < sender.nextSeq)
    (hmem : q ∉ ackedAfter host sender hdr acked) :
    sender.base ≤ q ∧ q ∉ acked ∧
      (srSenderHandleAck host sender hdr).window.read q = sender.window.read q := by
  cases hcounted : ackCounted host sender hdr with
  | none =>
      rw [hinv.handleAck_of_not_counted hsettled hcounted] at hlow ⊢
      rw [ackedAfter, hcounted] at hmem
      exact ⟨hlow, hmem, rfl⟩
  | some k =>
      obtain ⟨hack, rfl, hklow, hknext, hkmem⟩ := hinv.ackCounted_eq_some hcounted
      have hwindow := hinv.next_le_window
      have hpending : PendingAt sender (ackNumber host hdr) :=
        (hinv.pendingAt_iff hklow (by omega)).mpr ⟨hknext, hkmem⟩
      have hmarked := hinv.keeps_markAcked hklow hknext hkmem
      rw [ackedAfter, hcounted] at hmem
      obtain ⟨hne, hmem⟩ : q ≠ ackNumber host hdr ∧ q ∉ acked := by
        simpa only [Finset.mem_insert, not_or] using hmem
      have hcount := hinv.chunksAcked_succ
      rw [srSenderHandleAck, if_pos hack, markAcked, if_pos hpending, hcount] at hlow ⊢
      obtain ⟨habove, hread⟩ := hmarked.senderSlide_entry _ hlow hnext
      refine ⟨habove, hmem, ?_⟩
      rw [hread, SlotRing.read_write_of_window _ _ ⟨hklow, by omega⟩
        ⟨habove, by simp only at habove; omega⟩ hne]

end SenderInv

/-! ## Lists of transmitted numbers -/

theorem GapFree.append {numbers burst : List Nat} (hnumbers : GapFree numbers)
    (hburst : ∀ before q after, burst = before ++ q :: after →
      ∀ p < q, p ∈ numbers ++ before) : GapFree (numbers ++ burst) := by
  intro before q after hsplit
  rcases List.append_eq_append_iff.mp hsplit with ⟨mid, rfl, htail⟩ | ⟨mid, hhead, htail⟩
  · exact hburst mid q after htail
  · cases mid with
    | nil =>
        rw [List.append_nil] at hhead
        subst hhead
        simpa using hburst [] q after htail.symm
    | cons k mid =>
        obtain ⟨rfl, -⟩ := List.cons.inj htail
        exact hnumbers before q mid hhead

/-- The log entries for a burst of chunks of one file. -/
def burstActs (file : FileImage) (host : ByteOrder) (now : UInt64) (burst : List Nat) :
    List SenderAct :=
  (burst.map (file.packet host)).map fun packet => .transmitted packet now

theorem chunk_transmitted {file : FileImage} {q : Nat} (hq : q < file.numChunks)
    (host : ByteOrder) (now : UInt64) :
    (SenderAct.transmitted (file.packet host q) now).chunk host = some q := by
  rw [SenderAct.chunk, file.decodeData_packet host hq]
  rfl

theorem transmittedChunks_burst {file : FileImage} {host : ByteOrder} {now : UInt64}
    {burst : List Nat} (hburst : ∀ q ∈ burst, q < file.numChunks) :
    transmittedChunks host (burstActs file host now burst) = burst := by
  induction burst with
  | nil => rfl
  | cons q burst ih =>
      have hrest := ih fun k hk => hburst k (List.mem_cons_of_mem q hk)
      have hhead := chunk_transmitted (hburst q List.mem_cons_self) host now
      simp only [burstActs, transmittedChunks, List.map_cons] at hrest ⊢
      rw [List.filterMap_cons_some hhead, hrest]

theorem mem_burstActs {file : FileImage} {host : ByteOrder} {now : UInt64} {burst : List Nat}
    {act : SenderAct} (hact : act ∈ burstActs file host now burst) :
    ∃ q ∈ burst, act = .transmitted (file.packet host q) now := by
  simp only [burstActs, List.map_map, List.mem_map, Function.comp] at hact
  obtain ⟨q, hq, rfl⟩ := hact
  exact ⟨q, hq, rfl⟩

/-- A burst that avoids what was counted keeps the log quiet. -/
theorem QuietAfterCounted.append_burst {file : FileImage} {host : ByteOrder} {now : UInt64}
    {acts : List SenderAct} {burst : List Nat} (hquiet : QuietAfterCounted host acts)
    (hchunks : ∀ q ∈ burst, q < file.numChunks)
    (huncounted : ∀ q ∈ burst, .counted q ∉ acts) :
    QuietAfterCounted host (acts ++ burstActs file host now burst) := by
  refine List.pairwise_append.mpr ⟨hquiet, ?_, ?_⟩
  · refine List.pairwise_of_forall_mem_list ?_
    rintro earlier hearlier later - q rfl
    obtain ⟨k, -, hk⟩ := mem_burstActs hearlier
    cases hk
  · rintro earlier hearlier later hlater q rfl hq
    obtain ⟨k, hk, rfl⟩ := mem_burstActs hlater
    rw [chunk_transmitted (hchunks k hk), Option.some.injEq] at hq
    subst hq
    exact huncounted k hk hearlier

/-- Consecutive numbers are preceded by all smaller ones of the row. -/
theorem mem_before_of_range' {low count q p : Nat} {before after : List Nat}
    (hsplit : List.range' low count = before ++ q :: after) (hlow : low ≤ p) (hp : p < q) :
    p ∈ before := by
  obtain ⟨k, hk, rfl, htail⟩ := List.range'_eq_append_iff.mp hsplit
  have hq : q = low + k := by
    cases hcount : count - k with
    | zero =>
        rw [hcount] at htail
        cases htail
    | succ n =>
        rw [hcount, List.range'_succ] at htail
        simpa using (List.cons.inj htail).1
  rw [List.mem_range'_1]
  omega

theorem transmittedChunks_append (host : ByteOrder) (acts later : List SenderAct) :
    transmittedChunks host (acts ++ later) =
      transmittedChunks host acts ++ transmittedChunks host later :=
  List.filterMap_append

/-! ## The invariant of a logged run -/

/-- The state between two calls.  `tally` is the tie between the counter of a
slot and the log; it speaks only of the chunk that owns the slot now. -/
structure LogInv (host : ByteOrder) (file : FileImage) (log : SenderLog)
    (acked : Finset Nat) : Prop where
  inv : SenderInv file log.sender acked
  settled : Settled log.sender acked
  counted : ∀ q, .counted q ∈ log.acts → q ∈ acked
  faithful : ∀ packet now, .transmitted packet now ∈ log.acts →
    ∃ q < file.numChunks, packet = file.packet host q
  sent : ∀ q, q ∈ transmittedChunks host log.acts ↔ q < log.sender.nextSeq
  tally : ∀ q, log.sender.base ≤ q → q < log.sender.nextSeq → q ∉ acked →
    (transmittedChunks host log.acts).count q = (log.sender.window.read q).retries + 1
  tally_le : ∀ q, (transmittedChunks host log.acts).count q ≤ 1 + maxRetries
  quiet : QuietAfterCounted host log.acts
  gapFree : GapFree (transmittedChunks host log.acts)

namespace LogInv

variable {host : ByteOrder} {file : FileImage} {log : SenderLog} {acked : Finset Nat}

theorem sent_lt (hlog : LogInv host file log acked) {q : Nat}
    (hq : q < log.sender.nextSeq) : q < file.numChunks := by
  rw [← hlog.inv.numChunks]
  exact hq.trans_le hlog.inv.next_le_chunks

/-- A burst of uncounted chunks, each at most once and each with a retry left,
keeps the invariant. -/
theorem keeps_burst (hlog : LogInv host file log acked) {sender : Sender} {now : UInt64}
    {burst : List Nat} (hinv : SenderInv file sender acked)
    (hbase : sender.base = log.sender.base)
    (hnodup : burst.Nodup) (huncounted : ∀ q ∈ burst, q ∉ acked)
    (hsent : ∀ q, q < log.sender.nextSeq ∨ q ∈ burst ↔ q < sender.nextSeq)
    (hroom : ∀ q ∈ burst, (transmittedChunks host log.acts).count q ≤ maxRetries)
    (htally : ∀ q, sender.base ≤ q → q < sender.nextSeq → q ∉ acked →
      (sender.window.read q).retries + 1 =
        (transmittedChunks host log.acts).count q + if q ∈ burst then 1 else 0)
    (hgap : ∀ before q after, burst = before ++ q :: after →
      ∀ p < q, p ∈ transmittedChunks host log.acts ++ before) :
    LogInv host file ⟨sender, log.acts ++ burstActs file host now burst⟩ acked := by
  have hchunks : ∀ q ∈ burst, q < file.numChunks := by
    intro q hq
    rw [← hinv.numChunks]
    exact ((hsent q).mp (.inr hq)).trans_le hinv.next_le_chunks
  have happend : transmittedChunks host (log.acts ++ burstActs file host now burst) =
      transmittedChunks host log.acts ++ burst := by
    rw [transmittedChunks_append, transmittedChunks_burst hchunks]
  have hcount : ∀ q, (transmittedChunks host log.acts ++ burst).count q =
      (transmittedChunks host log.acts).count q + if q ∈ burst then 1 else 0 := by
    intro q
    rw [List.count_append, hnodup.count]
  refine
    { inv := hinv
      settled := ?_
      counted := ?_
      faithful := ?_
      sent := ?_
      tally := ?_
      tally_le := ?_
      quiet := ?_
      gapFree := ?_ }
  · have hsettled := hlog.settled
    unfold Settled at hsettled ⊢
    rwa [hbase]
  · intro q hq
    rcases List.mem_append.mp hq with hq | hq
    · exact hlog.counted q hq
    · obtain ⟨k, -, hk⟩ := mem_burstActs hq
      cases hk
  · intro packet time hpacket
    rcases List.mem_append.mp hpacket with hpacket | hpacket
    · exact hlog.faithful packet time hpacket
    · obtain ⟨k, hk, heq⟩ := mem_burstActs hpacket
      cases heq
      exact ⟨k, hchunks k hk, rfl⟩
  · intro q
    rw [happend, List.mem_append, hlog.sent q]
    exact hsent q
  · intro q hlow hnext hmem
    rw [happend, hcount]
    exact (htally q hlow hnext hmem).symm
  · intro q
    rw [happend, hcount]
    have hold := hlog.tally_le q
    split
    · have hleft := hroom q ‹_›
      omega
    · omega
  · -- what is counted so far is in the set, and the burst avoids the set
    refine hlog.quiet.append_burst hchunks ?_
    intro q hq hcounted
    exact huncounted q hq (hlog.counted q hcounted)
  · rw [happend]
    exact hlog.gapFree.append hgap

/-- `sr_sender_send_window` transmits the chunks from `next_seq` to the end of the window. -/
theorem keeps_sendWindow (hlog : LogInv host file log acked) (now : UInt64) :
    LogInv host file (log.record host (.sendWindow now)) acked := by
  obtain ⟨hinv, -, hbase, hnext, -, hpackets⟩ := hlog.inv.sendWindow_spec host now
  have hold := hlog.inv.next_le_window
  have hold' := hlog.inv.next_le_chunks
  have hentry := fun q => hlog.inv.sendWindowLoop_entry host now
    (log.sender.numChunks - log.sender.nextSeq) (q := q)
  have hnever : ∀ q, log.sender.nextSeq ≤ q →
      (transmittedChunks host log.acts).count q = 0 := by
    intro q hq
    rw [List.count_eq_zero, hlog.sent q]
    omega
  show LogInv host file ⟨_, log.acts ++ List.map _ _⟩ acked
  rw [hpackets]
  apply hlog.keeps_burst hinv hbase List.nodup_range'
  · intro q hq hmem
    have hlt := hlog.inv.acked_lt q hmem
    have hge := (List.mem_range'_1.mp hq).1
    omega
  · intro q
    rw [hnext, List.mem_range'_1]
    omega
  · intro q hq
    rw [hnever q (List.mem_range'_1.mp hq).1]
    exact Nat.zero_le _
  · intro q hlow hlt hmem
    rw [hbase] at hlow
    obtain ⟨hkept, hfresh⟩ := hentry q hlow
    by_cases hq : q < log.sender.nextSeq
    · have hout : q ∉ List.range' log.sender.nextSeq
          (min (log.sender.base + windowSize) log.sender.numChunks - log.sender.nextSeq) := by
        intro hin
        have hge := (List.mem_range'_1.mp hin).1
        omega
      rw [if_neg hout, hlog.tally q hlow hq hmem, Nat.add_zero]
      exact congrArg (fun entry => entry.retries + 1) (hkept hq)
    · have hin : q ∈ List.range' log.sender.nextSeq
          (min (log.sender.base + windowSize) log.sender.numChunks - log.sender.nextSeq) := by
        rw [List.mem_range'_1]
        rw [hnext] at hlt
        omega
      rw [if_pos hin, hnever q (by omega)]
      exact congrArg (· + 1) (hfresh (by omega) hlt).1
  · intro before q after hsplit p hp
    rw [List.mem_append, hlog.sent p]
    by_cases hold : p < log.sender.nextSeq
    · exact Or.inl hold
    · exact Or.inr (mem_before_of_range' hsplit (not_lt.mp hold) hp)

/-- `sr_sender_check_timeouts` retransmits due chunks that have a retry left. -/
theorem keeps_checkTimeouts (hlog : LogInv host file log acked) (now : UInt64) :
    LogInv host file (log.record host (.checkTimeouts now)) acked := by
  obtain ⟨hinv, -, hbase, hnext, -⟩ := hlog.inv.checkTimeouts_spec host now
  obtain ⟨stop, hout⟩ := hlog.inv.checkTimeouts_outcome host now
  have hlive : ∀ q ∈ dueChunks log.sender now log.sender.base stop,
      log.sender.base ≤ q ∧ q < log.sender.nextSeq ∧ q ∉ acked := by
    intro q hq
    obtain ⟨hlow, hhigh, hdue⟩ := mem_dueChunks.mp hq
    have hqnext := hhigh.trans_le hout.stop_le
    exact ⟨hlow, hqnext, hlog.inv.notMem_of_dueAt hlow hqnext hdue⟩
  show LogInv host file ⟨_, log.acts ++ List.map _ _⟩ acked
  rw [hout.packets]
  apply hlog.keeps_burst hinv hbase (dueChunks_nodup _ _ _ _)
  · intro q hq
    exact (hlive q hq).2.2
  · intro q
    rw [hnext]
    constructor
    · rintro (hq | hq)
      · exact hq
      · exact (hlive q hq).2.1
    · exact .inl
  · intro q hq
    obtain ⟨hlow, hqnext, hmem⟩ := hlive q hq
    rw [hlog.tally q hlow hqnext hmem]
    exact hout.spared q hq
  · intro q hlow hqnext hmem
    rw [hbase] at hlow
    rw [hnext] at hqnext
    rw [hout.entry q hlow hqnext, hlog.tally q hlow hqnext hmem]
    split <;> rfl
  · intro before q after hsplit p hp
    have hq : q ∈ dueChunks log.sender now log.sender.base stop := by
      rw [hsplit]
      simp
    obtain ⟨-, hqnext, -⟩ := hlive q hq
    rw [List.mem_append, hlog.sent p]
    exact .inl (hp.trans hqnext)

/-- `sr_sender_handle_ack` transmits nothing. -/
theorem keeps_handleAck (hlog : LogInv host file log acked) (hdr : UdpHeader) :
    LogInv host file (log.record host (.handleAck hdr))
      (SenderInv.ackedAfter host log.sender hdr acked) := by
  obtain ⟨hinv, hsettled, hnext, -⟩ := hlog.inv.handleAck_spec hlog.settled host hdr
  have happend : transmittedChunks host
      (log.acts ++ (ackCounted host log.sender hdr).toList.map .counted) =
        transmittedChunks host log.acts := by
    rw [transmittedChunks_append]
    cases ackCounted host log.sender hdr with
    | none => exact List.append_nil _
    | some q => exact List.append_nil _
  refine
    { inv := hinv
      settled := hsettled
      counted := ?_
      faithful := ?_
      sent := ?_
      tally := ?_
      tally_le := ?_
      quiet := ?_
      gapFree := ?_ }
  · intro q hq
    unfold SenderInv.ackedAfter
    rcases List.mem_append.mp hq with hq | hq
    · have hold := hlog.counted q hq
      cases ackCounted host log.sender hdr with
      | none => exact hold
      | some k => exact Finset.mem_insert_of_mem hold
    · simp only [SenderOp.acts, List.mem_map, Option.mem_toList] at hq
      obtain ⟨k, hk, heq⟩ := hq
      cases heq
      rw [hk]
      exact Finset.mem_insert_self q acked
  · intro packet now hpacket
    rcases List.mem_append.mp hpacket with hpacket | hpacket
    · exact hlog.faithful packet now hpacket
    · simp [SenderOp.acts] at hpacket
  · intro q
    show q ∈ transmittedChunks host (log.acts ++ _) ↔ q < (srSenderHandleAck _ _ _).nextSeq
    rw [hnext, ← hlog.sent q]
    exact Iff.of_eq (congrArg (q ∈ ·) happend)
  · intro q hlow hqnext hmem
    have hqnext' : q < log.sender.nextSeq := by
      rwa [← hnext]
    obtain ⟨hlow', hmem', hentry⟩ :=
      hlog.inv.handleAck_entry hlog.settled host hdr hlow hqnext' hmem
    show (transmittedChunks host (log.acts ++ _)).count q =
      ((srSenderHandleAck host log.sender hdr).window.read q).retries + 1
    rw [hentry, ← hlog.tally q hlow' hqnext' hmem']
    exact congrArg (List.count q) happend
  · intro q
    exact (congrArg (List.count q) happend).trans_le (hlog.tally_le q)
  · refine List.pairwise_append.mpr ⟨hlog.quiet, ?_, ?_⟩
    · cases hcounted : ackCounted host log.sender hdr with
      | none => simp [SenderOp.acts, hcounted]
      | some k => simp [SenderOp.acts, hcounted]
    · rintro earlier - later hlater q -
      simp only [SenderOp.acts, List.mem_map, Option.mem_toList] at hlater
      obtain ⟨k, -, rfl⟩ := hlater
      simp [SenderAct.chunk]
  · have hgap := hlog.gapFree
    rw [← happend] at hgap
    exact hgap

/-- One call keeps the invariant. -/
theorem keeps_record (hlog : LogInv host file log acked) (op : SenderOp) :
    ∃ acked', LogInv host file (log.record host op) acked' := by
  cases op with
  | sendWindow now => exact ⟨acked, hlog.keeps_sendWindow now⟩
  | checkTimeouts now => exact ⟨acked, hlog.keeps_checkTimeouts now⟩
  | handleAck hdr => exact ⟨_, hlog.keeps_handleAck hdr⟩

/-- A fresh sender has an empty log. -/
theorem of_fresh {sender : Sender} (hinv : SenderInv file sender ∅)
    (hsettled : Settled sender ∅) (hnext : sender.nextSeq = 0) :
    LogInv host file ⟨sender, []⟩ ∅ where
  inv := hinv
  settled := hsettled
  counted := by simp
  faithful := by simp
  sent := by simp [transmittedChunks, hnext]
  tally := by simp [hnext]
  tally_le := by simp [transmittedChunks]
  quiet := List.Pairwise.nil
  gapFree := by simp [GapFree, transmittedChunks]

/-- Every run keeps it. -/
theorem of_run {sender : Sender} (hinv : SenderInv file sender ∅)
    (hsettled : Settled sender ∅) (hnext : sender.nextSeq = 0) (ops : List SenderOp) :
    ∃ acked, LogInv host file (logSender host sender ops) acked := by
  unfold logSender
  induction ops using List.reverseRecOn with
  | nil => exact ⟨∅, of_fresh hinv hsettled hnext⟩
  | append_singleton ops op ih =>
      obtain ⟨acked, hlog⟩ := ih
      rw [List.foldl_concat]
      exact hlog.keeps_record op

end LogInv

/-- In every run of a sender, whatever headers and clock readings it is given and
also past a `-1` of the timeout scan: each datagram is the data packet of a chunk
of the file, a chunk is transmitted at most `1 + MAX_RETRIES` times and not after
its acknowledgement was counted, and first transmissions are in order without
gaps. -/
theorem retransmission_discipline (host : ByteOrder) (peerAddr : SockAddr)
    (link : LossyLink) (file : FileImage) (ops : List SenderOp) :
    ∃ start,
      srSenderInit (some peerAddr) (some file.data) file.size (some link) = some start ∧
        let acts := (logSender host start ops).acts
        (∀ packet now, .transmitted packet now ∈ acts → ∃ q < file.numChunks,
          decodeData host packet = some (q, file.chunk q) ∧
            packet = buildDataPacket host q (file.chunk q) (file.chunk q).length) ∧
          (∀ q, (transmittedChunks host acts).count q ≤ 1 + maxRetries) ∧
          QuietAfterCounted host acts ∧ GapFree (transmittedChunks host acts) := by
  obtain ⟨start, hinit, -, hinv, hsettled⟩ := srSenderInit_inv peerAddr link file
  have hnext : start.nextSeq = 0 := by
    cases hinit
    rfl
  obtain ⟨acked, hlog⟩ := LogInv.of_run hinv hsettled hnext ops
  refine ⟨start, hinit, ?_, hlog.tally_le, hlog.quiet, hlog.gapFree⟩
  intro packet now hpacket
  obtain ⟨q, hq, rfl⟩ := hlog.faithful packet now hpacket
  exact ⟨q, hq, file.decodeData_packet host hq, rfl⟩

end SelectiveRepeat
end PeerShare
