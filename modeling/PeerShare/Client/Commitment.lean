import PeerShare.Client.RunningTransfer

/-!
# The announcement as a commitment

`UDP_FILE_START` confirms that a transfer starts.  The request branch sends it
before it has allocated and read the file, so a failing `malloc` or a short `fread`
leaves a requester with a confirmation and no transfer; and the announced number of
chunks is computed in other widths than the one of the sender.  Everything that
fails before the send is silent.
-/

namespace PeerShare
namespace Client

open Foundation Wire SelectiveRepeat

/-- The datagram is a `UDP_FILE_START`. -/
def IsFileStart (host : ByteOrder) (packet : Bytes) : Prop :=
  (UdpHeader.ofImage host packet).msgType = udpFileStart

/-- The file size that a `UDP_FILE_START` carries. -/
def startFileSize (host : ByteOrder) (packet : Bytes) : Nat :=
  ntoh host 4 (fieldAt host packet 16 4)

/-- The number of chunks that a `UDP_FILE_START` carries. -/
def startNumChunks (host : ByteOrder) (packet : Bytes) : Nat :=
  ntoh host 4 (fieldAt host packet 20 4)

/-- The transfer is under way, for `peer` and as `packet` announces it. -/
structure Serves (host : ByteOrder) (owner : Owner) (peer : SockAddr) (packet : Bytes) :
    Prop where
  active : owner.transferActive = true
  peerAddr : owner.globalSender.peerAddr = peer
  fileSize : owner.globalSender.fileSize = startFileSize host packet
  numChunks : owner.globalSender.numChunks = startNumChunks host packet

/-- An announcement goes out exactly when the branch starts the transfer it
announces; otherwise nothing is sent and the transfer state is as before. -/
structure Commits (host : ByteOrder) (owner : Owner) (peer : SockAddr)
    (outcome : OwnerResult × RequestExit) : Prop where
  announced_iff : (∃ packet, (peer, packet) ∈ outcome.1.sent ∧ IsFileStart host packet) ↔
    outcome.2 = .started ∧ ∃ packet, (peer, packet) ∈ outcome.1.sent ∧
      IsFileStart host packet ∧ Serves host outcome.1.owner peer packet
  silent : outcome.2 ≠ .started → outcome.1.sent = [] ∧
    outcome.1.owner.globalSender = owner.globalSender ∧
    outcome.1.owner.globalFileBuffer = owner.globalFileBuffer ∧
    outcome.1.owner.transferActive = owner.transferActive

/-- The branch leaves before it sends anything. -/
def RefusedBeforeSend (host : ByteOrder) (table : SharedTable) (packet : Datagram)
    (env : RequestEnv) : Prop :=
  (∀ file, requestedFile host table packet ≠ .ok file) ∨ env.fileEnd = none ∨
    env.sendResult ≤ 0

/-- Nothing fails after the send, and both computations of the number of chunks
agree: the sum `actual_size + 1023` has no bit between 32 and 41. -/
def CarriedThrough (env : RequestEnv) : Prop :=
  env.allocated = true ∧ ∃ actualSize, env.fileEnd = some actualSize ∧
    (env.readBytes.length : Int) = actualSize % 2 ^ 64 ∧
    (actualSize + 1023) % 2 ^ 42 < 2 ^ 32

/-! ## The packets -/

theorem isFileStart_build (host : ByteOrder) (fileSize numChunks : Nat) :
    IsFileStart host (buildFileStart host fileSize numChunks) :=
  msgType_sealPacket host (fileStartHeader host) _

theorem startFileSize_build (host : ByteOrder) {fileSize : Nat} (hsize : fileSize < 2 ^ 32)
    (numChunks : Nat) : startFileSize host (buildFileStart host fileSize numChunks) = fileSize := by
  rw [startFileSize, (fieldAt_buildFileStart host fileSize numChunks).1, ntoh_hton]
  exact Nat.mod_eq_of_lt hsize

theorem startNumChunks_build (host : ByteOrder) (fileSize : Nat) {numChunks : Nat}
    (hchunks : numChunks < 2 ^ 32) :
    startNumChunks host (buildFileStart host fileSize numChunks) = numChunks := by
  rw [startNumChunks, (fieldAt_buildFileStart host fileSize numChunks).2, ntoh_hton]
  exact Nat.mod_eq_of_lt hchunks

theorem not_isFileStart_packet (file : FileImage) (host : ByteOrder) {q : Nat}
    (hq : q < file.numChunks) : ¬ IsFileStart host (file.packet host q) := by
  obtain ⟨-, -, htype, -⟩ := decodeData_eq_some (file.decodeData_packet host hq)
  rw [IsFileStart, htype]
  decide

theorem announcedSize_lt (actualSize : Int) : announcedSize actualSize < 2 ^ 32 := by
  unfold announcedSize
  omega

theorem announcedChunks_lt (actualSize : Int) : announcedChunks actualSize < 2 ^ 32 := by
  unfold announcedChunks
  omega

/-- A size that `ftell` can return is divided as in the integers. -/
theorem announcedChunks_quotient {actualSize : Int} (hsize : -1 ≤ actualSize) :
    (actualSize + chunkSize - 1).tdiv chunkSize = (actualSize + 1023) / 1024 := by
  rw [Int.tdiv_eq_ediv_of_nonneg (by unfold chunkSize; omega)]
  unfold chunkSize
  congr 1
  omega

/-- The two computations of the number of chunks agree exactly when the bits
between 32 and 41 of the sum are zero. -/
theorem announcedChunks_eq_iff {actualSize : Int} (hsize : -1 ≤ actualSize) :
    u32 (announcedSize actualSize + chunkSize - 1) / chunkSize = announcedChunks actualSize ↔
      (actualSize + 1023) % 2 ^ 42 < 2 ^ 32 := by
  rw [announcedChunks, announcedChunks_quotient hsize]
  unfold u32 announcedSize chunkSize
  omega

/-! ## The three ways the branch ends -/

section RequestOutcome

variable {host : ByteOrder} {owner : Owner} {peer : SockAddr} {packet : Datagram}
  {env : RequestEnv}

theorem requestedFile_error_ne_started {table : SharedTable} {exit : RequestExit}
    (hfile : requestedFile host table packet = .error exit) : exit ≠ .started := by
  unfold requestedFile at hfile
  simp only at hfile
  rintro rfl
  by_cases hlength : packet.bytes.length < udpHeaderSize + udpRequestFileSize
  · simp [hlength] at hfile
  by_cases hdataLen : ntoh host 2 (UdpHeader.ofImage host packet.bytes).dataLen =
      udpRequestFileSize
  swap
  · simp [hlength, hdataLen] at hfile
  cases hfind : table.findSharedFileById (ntoh host 4 (fieldAt host packet.bytes 16 4)) with
  | none => simp [hlength, hdataLen, hfind] at hfile
  | some found =>
      by_cases hhash : found.hash = HashBytes.ofImage (packet.bytes.drop 20)
      · simp [hlength, hdataLen, hfind, hhash] at hfile
      · simp [hlength, hdataLen, hfind, hhash] at hfile

/-- Before the send a failure is silent. -/
theorem handleRequest_of_refusedBeforeSend
    (hrefused : RefusedBeforeSend host owner.table packet env) (link : LossyLink)
    (peer : SockAddr) (now : UInt64) :
    ∃ exit, exit ≠ .started ∧
      handleRequest host link owner peer packet env now = (⟨owner, [], true⟩, exit) := by
  unfold handleRequest
  cases hfile : requestedFile host owner.table packet with
  | error exit => exact ⟨exit, requestedFile_error_ne_started hfile, rfl⟩
  | ok file =>
      cases hend : env.fileEnd with
      | none => exact ⟨.openFailed, by decide, rfl⟩
      | some actualSize =>
          have hsend : env.sendResult ≤ 0 := by
            rcases hrefused with hother | hnone | hsend
            · exact absurd hfile (hother file)
            · rw [hend] at hnone
              cases hnone
            · exact hsend
          exact ⟨.sendFailed, by decide, by simp only [if_pos hsend]⟩

/-- After the send, a failure has already announced the file. -/
theorem handleRequest_of_failedAfterSend
    (hsent : ¬ RefusedBeforeSend host owner.table packet env)
    (hrefused : ¬ RequestGranted host owner.table packet env) (link : LossyLink)
    (peer : SockAddr) (now : UInt64) :
    (handleRequest host link owner peer packet env now).1.sent ≠ [] ∧
      (handleRequest host link owner peer packet env now).2 ≠ .started := by
  unfold RefusedBeforeSend at hsent
  push Not at hsent
  obtain ⟨⟨file, hfile⟩, hopen, hsend⟩ := hsent
  obtain ⟨hlength, hdataLen, hlisted, hhash⟩ := requestedFile_eq_ok_iff.mp hfile
  obtain ⟨actualSize, hend⟩ := Option.ne_none_iff_exists'.mp hopen
  unfold handleRequest
  simp only [hfile, hend, if_neg (not_le.mpr hsend)]
  by_cases hallocated : env.allocated = true
  · have hread : (env.readBytes.length : Int) ≠ actualSize % 2 ^ 64 := by
      intro hread
      exact hrefused ⟨hlength, hdataLen, ⟨file, hlisted, hhash⟩, ⟨actualSize, hend, hread⟩,
        hsend, hallocated⟩
    simp only [hallocated, Bool.true_eq_false, if_false, if_pos hread]
    exact ⟨List.cons_ne_nil _ _, by decide⟩
  · simp [hallocated]

/-- A granted request announces once and serves the requester, with the size it
announced and the number of chunks that `sr_sender_init` computes. -/
theorem handleRequest_of_carried (hgranted : RequestGranted host owner.table packet env)
    {actualSize : Int} (hend : env.fileEnd = some actualSize) (link : LossyLink)
    (peer : SockAddr) (now : UInt64) :
    ∃ (file : FileImage) (numbers : List Nat) (after : Owner),
      (∀ q ∈ numbers, q < file.numChunks) ∧
      file.numChunks = u32 (announcedSize actualSize + chunkSize - 1) / chunkSize ∧
      after.transferActive = true ∧ after.globalSender.peerAddr = peer ∧
      after.globalSender.fileSize = announcedSize actualSize ∧
      after.globalSender.numChunks = file.numChunks ∧
      handleRequest host link owner peer packet env now =
        (⟨after,
          (peer, buildFileStart host (announcedSize actualSize) (announcedChunks actualSize)) ::
            (numbers.map (file.packet host)).map fun data => (peer, data),
          false⟩, .started) := by
  obtain ⟨size, hsize, hread⟩ := hgranted.opened
  rw [hend] at hsize
  cases hsize
  obtain ⟨file, hdata, hfileSize⟩ := exists_fileImage hread
  have hword : file.size.toNat = announcedSize actualSize := by
    rw [hfileSize, UInt32.toNat_ofNat']
    exact Nat.mod_eq_of_lt (announcedSize_lt actualSize)
  obtain ⟨sender, hinit, hpeer, hinv, -⟩ := srSenderInit_inv peer link file
  obtain ⟨hwindow, hkept, -, -, -, hpackets⟩ := hinv.sendWindow_spec host now
  refine ⟨file, List.range' sender.nextSeq
      (min (sender.base + windowSize) sender.numChunks - sender.nextSeq),
    { owner with
      globalSender := (srSenderSendWindow host sender now).sender
      globalFileBuffer := some env.readBytes
      transferActive := true }, ?_, ?_, rfl, hkept.trans hpeer, ?_, hwindow.numChunks, ?_⟩
  · intro q hq
    have hchunks := hinv.numChunks
    rw [List.mem_range'_1] at hq
    omega
  · rw [FileImage.numChunks, hword]
  · show (srSenderSendWindow host sender now).sender.fileSize = announcedSize actualSize
    rw [hwindow.fileSize, hword]
  · rw [handleRequest_eq_started hgranted hend hdata hfileSize hinit now, hpackets, hkept, hpeer]

/-- A refusal before the send announces nothing, so there is nothing to keep. -/
theorem commits_of_refusedBeforeSend
    (hrefused : RefusedBeforeSend host owner.table packet env) (link : LossyLink)
    (now : UInt64) :
    Commits host owner peer (handleRequest host link owner peer packet env now) := by
  obtain ⟨exit, hexit, hresult⟩ := handleRequest_of_refusedBeforeSend hrefused link peer now
  rw [hresult]
  refine ⟨?_, fun _ => ⟨rfl, rfl, rfl, rfl⟩⟩
  constructor
  · rintro ⟨_, hmem, -⟩
    exact absurd hmem (by simp)
  · rintro ⟨hstarted, -⟩
    exact absurd hstarted hexit

/-- What a granted request announces is what the sender computes, or the branch
does not commit. -/
theorem commits_iff_of_granted (hgranted : RequestGranted host owner.table packet env)
    {actualSize : Int} (hend : env.fileEnd = some actualSize) (hsize : -1 ≤ actualSize)
    (link : LossyLink) (now : UInt64) :
    Commits host owner peer (handleRequest host link owner peer packet env now) ↔
      (actualSize + 1023) % 2 ^ 42 < 2 ^ 32 := by
  obtain ⟨file, numbers, after, hnumbers, hchunks, hactive, hpeer, hfileSize, hnumChunks,
    hresult⟩ := handleRequest_of_carried hgranted hend link peer now
  have hstart := isFileStart_build host (announcedSize actualSize) (announcedChunks actualSize)
  rw [hresult, ← announcedChunks_eq_iff hsize, ← hchunks]
  constructor
  · rintro ⟨hannounced, -⟩
    obtain ⟨-, start, hmem, htype, hserves⟩ := hannounced.mp ⟨_, List.mem_cons_self, hstart⟩
    -- the announcement is the only `UDP_FILE_START` among the datagrams
    have honly : start =
        buildFileStart host (announcedSize actualSize) (announcedChunks actualSize) := by
      rcases List.mem_cons.mp hmem with heq | hdata
      · exact (Prod.mk.inj heq).2
      · simp only [List.map_map, List.mem_map, Function.comp] at hdata
        obtain ⟨q, hq, heq⟩ := hdata
        obtain ⟨-, rfl⟩ := Prod.mk.inj heq
        exact absurd htype (not_isFileStart_packet file host (hnumbers q hq))
    have hcount := hserves.numChunks
    simp only at hcount
    rw [honly, startNumChunks_build host _ (announcedChunks_lt actualSize)] at hcount
    rw [← hnumChunks]
    exact hcount
  · intro hagree
    have hserves : Serves host after peer
        (buildFileStart host (announcedSize actualSize) (announcedChunks actualSize)) := by
      refine ⟨hactive, hpeer, ?_, ?_⟩
      · rw [hfileSize, startFileSize_build host (announcedSize_lt actualSize)]
      · rw [hnumChunks, hagree, startNumChunks_build host _ (announcedChunks_lt actualSize)]
    refine ⟨⟨fun _ => ⟨rfl, _, List.mem_cons_self, hstart, hserves⟩, ?_⟩, ?_⟩
    · rintro ⟨-, start, hmem, htype, -⟩
      exact ⟨start, hmem, htype⟩
    · intro hexit
      exact absurd rfl hexit

end RequestOutcome

/-- The owner that has shared file 1. -/
def sharingOwner : Owner :=
  (Owner.initial.apply .little ⟨3, 0, 1⟩ (.shared 1 1 (HashBytes.ofImage []) [97])).owner

end Client
end PeerShare
