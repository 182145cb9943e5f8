import PeerShare.SelectiveRepeat.SenderRefinement

/-!
# What one timeout scan does, exactly

`sr_sender_check_timeouts` rewrites the slots of the window while it reads them.
Under the ring invariant no slot is read after it was rewritten, so the scan may
be described by the state before it: up to the number where it stops, the due
chunks are retransmitted in order and their clocks restarted, and everything else
is as before.  It stops at the end of the window, or at the first due chunk that
has no retry left.
-/

namespace PeerShare
namespace SelectiveRepeat

open Foundation Wire

/-- The entry after one more transmission at `now`. -/
def SendWindowEntry.restarted (entry : SendWindowEntry) (now : UInt64) : SendWindowEntry :=
  { entry with sendTimeMs := now, retries := entry.retries + 1 }

/-- The due chunks of `first, ..., stop - 1`, in the order of the scan. -/
def dueChunks (sender : Sender) (now : UInt64) (first stop : Nat) : List Nat :=
  (List.range' first (stop - first)).filter fun q => SenderInv.DueAt sender now q

theorem mem_dueChunks {sender : Sender} {now : UInt64} {first stop q : Nat} :
    q ∈ dueChunks sender now first stop ↔
      first ≤ q ∧ q < stop ∧ SenderInv.DueAt sender now q := by
  simp only [dueChunks, List.mem_filter, List.mem_range'_1, decide_eq_true_eq]
  constructor
  · rintro ⟨⟨hlow, hhigh⟩, hdue⟩
    exact ⟨hlow, by omega, hdue⟩
  · rintro ⟨hlow, hhigh, hdue⟩
    exact ⟨⟨hlow, by omega⟩, hdue⟩

theorem notMem_dueChunks_of_lt {sender : Sender} {now : UInt64} {first stop q : Nat}
    (hq : q < first) : q ∉ dueChunks sender now first stop := by
  intro hmem
  exact absurd (mem_dueChunks.mp hmem).1 (not_le.mpr hq)

/-- Each due chunk occurs once, and they are scanned in increasing order. -/
theorem dueChunks_pairwise (sender : Sender) (now : UInt64) (first stop : Nat) :
    (dueChunks sender now first stop).Pairwise (· < ·) :=
  (List.pairwise_lt_range' _).filter _

theorem dueChunks_nodup (sender : Sender) (now : UInt64) (first stop : Nat) :
    (dueChunks sender now first stop).Nodup :=
  (dueChunks_pairwise sender now first stop).imp fun hlt => hlt.ne

/-- The outcome of a scan that starts at `first` in `before` and ends at `stop`. -/
structure ScanOutcome (file : FileImage) (host : ByteOrder) (now : UInt64)
    (before : Sender) (first stop : Nat) (result : TimeoutResult) : Prop where
  first_le : first ≤ stop
  stop_le : stop ≤ before.nextSeq
  packets : result.packets = (dueChunks before now first stop).map (file.packet host)
  spared : ∀ q ∈ dueChunks before now first stop,
    (before.window.read q).retries < maxRetries
  completed : result.exceeded = false → stop = before.nextSeq
  stopped : result.exceeded = true → stop < before.nextSeq ∧
    SenderInv.DueAt before now stop ∧ maxRetries ≤ (before.window.read stop).retries
  entry : ∀ q, before.base ≤ q → q < before.nextSeq →
    result.sender.window.read q =
      if q ∈ dueChunks before now first stop then (before.window.read q).restarted now
      else before.window.read q

namespace SenderInv

variable {file : FileImage} {sender : Sender} {acked : Finset Nat}

/-- A due chunk is one whose acknowledgement was not counted. -/
theorem notMem_of_dueAt (hinv : SenderInv file sender acked) {now : UInt64} {q : Nat}
    (hlow : sender.base ≤ q) (hnext : q < sender.nextSeq) (hdue : DueAt sender now q) :
    q ∉ acked := by
  intro hmem
  have hstate := hdue.1
  rw [(hinv.live q hlow hnext).state, if_pos hmem] at hstate
  contradiction

/-- Restarting `first` does not change which later chunks are due. -/
theorem dueAt_restart (hinv : SenderInv file sender acked) {now : UInt64} {first q : Nat}
    (hlow : sender.base ≤ first) (hlt : first < q) (hnext : q < sender.nextSeq)
    (entry : SendWindowEntry) :
    DueAt { sender with window := sender.window.write first entry } now q ↔
      DueAt sender now q := by
  have hwindow := hinv.next_le_window
  unfold DueAt
  simp only
  rw [SlotRing.read_write_of_window _ _ ⟨hlow, by omega⟩ ⟨by omega, by omega⟩ (by omega)]

theorem dueChunks_restart (hinv : SenderInv file sender acked) (now : UInt64)
    {first stop : Nat} (hlow : sender.base ≤ first) (hstop : stop ≤ sender.nextSeq)
    (entry : SendWindowEntry) :
    dueChunks { sender with window := sender.window.write first entry } now (first + 1) stop =
      dueChunks sender now (first + 1) stop := by
  unfold dueChunks
  apply List.filter_congr
  intro q hq
  rw [List.mem_range'_1] at hq
  exact decide_eq_decide.mpr (hinv.dueAt_restart hlow (by omega) (by omega) entry)

/-- The number under the scan comes first among the due chunks. -/
theorem dueChunks_cons (sender : Sender) (now : UInt64) {first stop : Nat}
    (hstop : first + 1 ≤ stop) :
    dueChunks sender now first stop =
      if DueAt sender now first then first :: dueChunks sender now (first + 1) stop
      else dueChunks sender now (first + 1) stop := by
  have hcount : stop - first = stop - (first + 1) + 1 := by omega
  rw [dueChunks, hcount, List.range'_succ, List.filter_cons]
  simp only [decide_eq_true_eq, dueChunks]

@[simp] theorem dueChunks_self (sender : Sender) (now : UInt64) (first : Nat) :
    dueChunks sender now first first = [] := by
  simp [dueChunks]

/-- A retransmission in front of a scan of the later numbers. -/
theorem scanOutcome_cons (hinv : SenderInv file sender acked) {host : ByteOrder}
    {now : UInt64} {first stop : Nat} {rest : TimeoutResult} (hlow : sender.base ≤ first)
    (hnext : first < sender.nextSeq) (hdue : DueAt sender now first)
    (hretries : (sender.window.read first).retries < maxRetries)
    (hrest : ScanOutcome file host now
      { sender with
        window := sender.window.write first ((sender.window.read first).restarted now) }
      (first + 1) stop rest) :
    ScanOutcome file host now sender first stop
      { rest with packets := file.packet host first :: rest.packets } := by
  have hfirst := hrest.first_le
  have hstop : stop ≤ sender.nextSeq := hrest.stop_le
  have hwindow := hinv.next_le_window
  have hsame := hinv.dueChunks_restart now hlow hstop
    ((sender.window.read first).restarted now)
  have hlist : dueChunks sender now first stop =
      first :: dueChunks sender now (first + 1) stop := by
    rw [dueChunks_cons sender now hfirst, if_pos hdue]
  have hahead : first ∉ dueChunks sender now (first + 1) stop :=
    notMem_dueChunks_of_lt (Nat.lt_succ_self first)
  have hread : ∀ q, first < q → q < sender.nextSeq →
      (sender.window.write first ((sender.window.read first).restarted now)).read q =
        sender.window.read q := by
    intro q hq hqnext
    exact SlotRing.read_write_of_window _ _ ⟨hlow, by omega⟩ ⟨by omega, by omega⟩ (by omega)
  refine ⟨by omega, hstop, ?_, ?_, hrest.completed, ?_, ?_⟩
  · rw [hlist, List.map_cons, ← hsame, ← hrest.packets]
  · intro q hq
    rw [hlist, List.mem_cons] at hq
    rcases hq with rfl | hq
    · exact hretries
    · have hspared := hrest.spared q (by rwa [hsame])
      obtain ⟨hqlow, hqhigh, -⟩ := mem_dueChunks.mp hq
      simp only at hspared
      rwa [hread q (by omega) (by omega)] at hspared
  · intro hexceeded
    obtain ⟨hlast, hdue', hspent⟩ := hrest.stopped hexceeded
    simp only at hlast hspent
    rw [hread stop (by omega) hlast] at hspent
    exact ⟨hlast, (hinv.dueAt_restart hlow (by omega) hlast _).mp hdue', hspent⟩
  · intro q hqlow hqnext
    have hentry := hrest.entry q hqlow hqnext
    rw [hsame] at hentry
    simp only at hentry ⊢
    rw [hentry, hlist]
    rcases lt_trichotomy q first with hlt | rfl | hgt
    · have hbehind : q ∉ dueChunks sender now (first + 1) stop :=
        notMem_dueChunks_of_lt (Nat.lt_succ_of_lt hlt)
      rw [if_neg hbehind, if_neg (by simp [hbehind, hlt.ne]),
        SlotRing.read_write_of_window _ _ ⟨hlow, by omega⟩ ⟨hqlow, by omega⟩ hlt.ne]
    · rw [if_neg hahead, if_pos List.mem_cons_self, SlotRing.read_write_self]
    · rw [hread q hgt hqnext]
      simp only [List.mem_cons, hgt.ne', false_or]

/-- The scan, read off the state before it. -/
theorem checkTimeoutsLoop_outcome (hinv : SenderInv file sender acked) (host : ByteOrder)
    (now : UInt64) {rounds first : Nat} (hlow : sender.base ≤ first)
    (hend : first + rounds = sender.nextSeq) :
    ∃ stop, ScanOutcome file host now sender first stop
      (checkTimeoutsLoop host now rounds first sender) := by
  -- by induction on the numbers left; a rewritten slot lies behind the scan
  induction rounds generalizing sender first with
  | zero =>
      refine ⟨first, le_rfl, by omega, ?_, ?_, fun _ => by omega, ?_, ?_⟩
      · simp [checkTimeoutsLoop]
      · simp
      · simp [checkTimeoutsLoop]
      · simp [checkTimeoutsLoop]
  | succ rounds ih =>
      have hnext : first < sender.nextSeq := by omega
      rw [hinv.checkTimeoutsLoop_succ host now rounds hlow hnext]
      by_cases hdue : DueAt sender now first
      · rw [if_pos hdue]
        by_cases hretries : maxRetries ≤ (sender.window.read first).retries
        · -- the scan is left at `first`, before anything is sent for it
          rw [if_pos hretries]
          refine ⟨first, le_rfl, hnext.le, ?_, ?_, ?_, fun _ => ⟨hnext, hdue, hretries⟩, ?_⟩
          · simp
          · simp
          · simp
          · simp
        · rw [if_neg hretries]
          have hstep := hinv.keeps_restart hlow hnext now
            ((sender.window.read first).retries + 1)
          obtain ⟨stop, hout⟩ := ih hstep (Nat.le_succ_of_le hlow) (by simp only; omega)
          exact ⟨stop, hinv.scanOutcome_cons hlow hnext hdue (by omega) hout⟩
      · rw [if_neg hdue]
        obtain ⟨stop, hout⟩ := ih hinv (Nat.le_succ_of_le hlow) (by omega)
        have hfirst := hout.first_le
        have hlist : dueChunks sender now first stop =
            dueChunks sender now (first + 1) stop := by
          rw [dueChunks_cons sender now hfirst, if_neg hdue]
        refine ⟨stop, by omega, hout.stop_le, ?_, ?_, hout.completed, hout.stopped, ?_⟩
        · rw [hlist]
          exact hout.packets
        · rw [hlist]
          exact hout.spared
        · rw [hlist]
          exact hout.entry

theorem checkTimeouts_outcome (hinv : SenderInv file sender acked) (host : ByteOrder)
    (now : UInt64) :
    ∃ stop, ScanOutcome file host now sender sender.base stop
      (srSenderCheckTimeouts host sender now) := by
  have hbase := hinv.base_le
  exact hinv.checkTimeoutsLoop_outcome host now le_rfl (by omega)

end SenderInv
end SelectiveRepeat
end PeerShare
