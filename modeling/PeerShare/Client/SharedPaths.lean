import PeerShare.Client.CommandLine
import PeerShare.Client.RunningTransfer

/-!
# The path of a shared file

`share` reads and hashes the file under the path that was typed, up to 511 bytes of
it.  The table of shared files keeps 255 bytes, and a later request opens what the
table keeps.  The first entry under an id is the one that is found, and a full table
takes no entry at all; entries are never changed, so what holds right after `share`
holds from then on.
-/

namespace PeerShare
namespace Client

open Foundation Wire SelectiveRepeat

/-- A request for the id and the hash opens `path`, with the size that was announced. -/
def Reopens (host : ByteOrder) (table : SharedTable) (fileId : Nat) (path : Bytes)
    (hash : HashBytes) (fileSize : Nat) : Prop :=
  ∃ entry, requestedFile host table (Datagram.recv (buildRequestFile host fileId hash)) =
      .ok entry ∧
    cString entry.fileName.bytes = path ∧ entry.fileSize = fileSize

/-- The table already holds the file under this id, in exactly this way. -/
def AlreadyHeld (table : SharedTable) (fileId : Nat) (path : Bytes) (hash : HashBytes)
    (fileSize : Nat) : Prop :=
  ∃ entry, table.findSharedFileById fileId = some entry ∧ entry.hash = hash ∧
    cString entry.fileName.bytes = path ∧ entry.fileSize = fileSize

/-- The id is new to the table, the path fits a name field, and there is room for one
more entry. -/
def FitsTable (table : SharedTable) (fileId : Nat) (path : Bytes) : Prop :=
  table.findSharedFileById fileId = none ∧ path.length ≤ 255 ∧
    table.files.length < maxSharedFiles

/-! ## The argument of `share` -/

/-- The argument that `sscanf` stores is cut out of the text. -/
theorem scanCommand_arg (text : Bytes) :
    (scanCommand text).arg.length ≤ 511 ∧ (scanCommand text).arg ⊆ text := by
  unfold scanCommand
  simp only
  refine ⟨(List.length_take_le ..), ?_⟩
  intro byte hbyte
  have htail := (List.takeWhile_sublist _).subset (List.mem_of_mem_take hbyte)
  have hword := List.mem_of_mem_drop ((List.dropWhile_sublist _).subset htail)
  exact (List.dropWhile_sublist _).subset hword

/-- `share` is called with what is left of the argument behind its spaces. -/
theorem parseCommand_share_eq {line path : Bytes} (hline : parseCommand line = .share path) :
    path ≠ [] ∧ ∃ text : Bytes, text ⊆ cString line ∧
      path = (scanCommand text).arg.dropWhile isSpace := by
  have htext : ((cString line).takeWhile (· ≠ newline)).dropWhile isSpace ⊆ cString line :=
    ((List.dropWhile_sublist _).trans (List.takeWhile_sublist _)).subset
  unfold parseCommand at hline
  simp only at hline
  generalize ((cString line).takeWhile (· ≠ newline)).dropWhile isSpace = text at hline htext
  split at hline
  · cases hline
  split at hline
  · split at hline
    · cases hline
    split at hline
    · cases hline
    · next hne =>
        cases hline
        exact ⟨hne, text, htext, rfl⟩
  -- no other command is a `share`
  · split at hline
    · cases hline
    split at hline
    · split at hline
      · cases hline
      · split at hline <;> cases hline
    · split at hline <;> cases hline

/-- A path that `share` is given is a nonempty C string of at most 511 bytes. -/
theorem parseCommand_share {line path : Bytes} (hline : parseCommand line = .share path) :
    path ≠ [] ∧ path.length ≤ 511 ∧ ∀ byte ∈ path, byte ≠ 0 := by
  obtain ⟨hne, text, htext, rfl⟩ := parseCommand_share_eq hline
  obtain ⟨hlength, hsubset⟩ := scanCommand_arg text
  refine ⟨hne, (List.dropWhile_sublist _).length_le.trans hlength, ?_⟩
  intro byte hbyte
  have hmem : byte ∈ line.takeWhile (· ≠ 0) :=
    htext (hsubset ((List.dropWhile_sublist _).subset hbyte))
  have hclean := List.mem_takeWhile_imp hmem
  exact of_decide_eq_true hclean

theorem cString_of_clean {path : Bytes} (hclean : ∀ byte ∈ path, byte ≠ 0) :
    cString path = path :=
  List.takeWhile_eq_self_iff.mpr fun byte hbyte => decide_eq_true (hclean byte hbyte)

/-! ## The table -/

namespace SharedTable

variable {table : SharedTable} {fileId : Nat} {entry : SharedFile}

/-- An entry that is found is found for ever. -/
theorem findSharedFileById_add (hfind : table.findSharedFileById fileId = some entry)
    (otherId fileSize : Nat) (hash : HashBytes) (filename : Bytes) :
    (table.addSharedFile otherId fileSize hash filename).findSharedFileById fileId =
      some entry := by
  unfold findSharedFileById at hfind ⊢
  by_cases hroom : table.files.length < maxSharedFiles
  · rw [addSharedFile_files hroom, List.find?_append, hfind, Option.some_or]
  · rw [addSharedFile, dif_neg hroom, hfind]

/-- A new id is found if there was room for its entry. -/
theorem findSharedFileById_add_new (hfind : table.findSharedFileById fileId = none)
    (fileSize : Nat) (hash : HashBytes) (filename : Bytes) :
    (table.addSharedFile fileId fileSize hash filename).findSharedFileById fileId =
      if table.files.length < maxSharedFiles then
        some ⟨fileId, fileSize, hash, NameField.strncpy filename⟩
      else none := by
  unfold findSharedFileById at hfind ⊢
  by_cases hroom : table.files.length < maxSharedFiles
  · rw [addSharedFile_files hroom, List.find?_append, hfind, if_pos hroom]
    simp
  · rw [addSharedFile, dif_neg hroom, hfind, if_neg hroom]

end SharedTable

/-- The name field of a clean path holds the path if it fits. -/
theorem cString_strncpy_eq_iff {path : Bytes} (hclean : ∀ byte ∈ path, byte ≠ 0) :
    cString (NameField.strncpy path).bytes = path ↔ path.length ≤ 255 := by
  rw [NameField.cString_strncpy, cString_of_clean hclean, List.take_eq_self_iff]

/-- Right after `add_shared_file`. -/
theorem alreadyHeld_add_iff {table : SharedTable} {path : Bytes}
    (hclean : ∀ byte ∈ path, byte ≠ 0) (fileId fileSize : Nat) (hash : HashBytes) :
    AlreadyHeld (table.addSharedFile fileId fileSize hash path) fileId path hash fileSize ↔
      FitsTable table fileId path ∨ AlreadyHeld table fileId path hash fileSize := by
  unfold AlreadyHeld FitsTable
  cases hfind : table.findSharedFileById fileId with
  | some old =>
      rw [SharedTable.findSharedFileById_add hfind]
      simp
  | none =>
      rw [SharedTable.findSharedFileById_add_new hfind]
      by_cases hroom : table.files.length < maxSharedFiles
      · simp [hroom, cString_strncpy_eq_iff hclean]
      · simp [hroom]

/-- The request branch opens what the table holds. -/
theorem reopens_iff {host : ByteOrder} {table : SharedTable} {fileId : Nat} {path : Bytes}
    {hash : HashBytes} {fileSize : Nat} (hid : fileId < 2 ^ 32) :
    Reopens host table fileId path hash fileSize ↔
      AlreadyHeld table fileId path hash fileSize := by
  unfold Reopens AlreadyHeld
  refine exists_congr fun entry => ?_
  rw [requestedFile_buildRequestFile_iff host hid, and_assoc]

/-! ## Every later state -/

/-- No event but a `share` touches the table. -/
theorem apply_table (host : ByteOrder) (link : LossyLink) (owner : Owner) (event : OwnerEvent) :
    (owner.apply host link event).owner.table = owner.table ∨
      ∃ fileId fileSize hash filename, (owner.apply host link event).owner.table =
        owner.table.addSharedFile fileId fileSize hash filename := by
  cases event with
  | shared fileId fileSize hash filename => exact .inr ⟨fileId, fileSize, hash, filename, rfl⟩
  | driver sendNow scanNow =>
      left
      show (drive host owner sendNow scanNow).owner.table = owner.table
      unfold drive
      split
      · simp only
        split
        · rfl
        · split <;> rfl
      · rfl
  | datagram reception env now =>
      left
      show (receiveDatagram host link owner reception env now).owner.table = owner.table
      rcases reception with _ | ⟨peer, packet⟩
      · rfl
      unfold receiveDatagram
      simp only
      split
      · rfl
      split
      · by_cases hgranted : RequestGranted host owner.table packet env
        · obtain ⟨_, _, _, _, -, -, -, hresult⟩ :=
            handleRequest_of_granted hgranted link peer now
          rw [hresult]
        · rw [(handleRequest_of_refused hgranted link peer now).1]
      split
      · unfold handleAck
        split <;> rfl
      · rfl

/-- What the table holds it holds in every later state. -/
theorem alreadyHeld_run {host : ByteOrder} {link : LossyLink} {owner later : Owner}
    {events : List OwnerEvent} {fileId : Nat} {path : Bytes} {hash : HashBytes}
    {fileSize : Nat} (hrun : Run (OwnerStep host link) owner events later)
    (hheld : AlreadyHeld owner.table fileId path hash fileSize) :
    AlreadyHeld later.table fileId path hash fileSize := by
  induction hrun with
  | nil => exact hheld
  | snoc _ hstep ih =>
      obtain ⟨entry, hfind, hrest⟩ := ih
      refine ⟨entry, ?_, hrest⟩
      rw [hstep]
      rcases apply_table host link _ _ with hsame | ⟨otherId, size, digest, filename, hadd⟩
      · rw [hsame]
        exact hfind
      · rw [hadd]
        exact SharedTable.findSharedFileById_add hfind otherId size digest filename

/-! ## A successful `share` -/

/-- An acknowledged id is a 32-bit number. -/
theorem readShareAck_lt {host : ByteOrder} {stream rest : Bytes} {fileId : Nat}
    (hack : readShareAck host stream = .done fileId rest) : fileId < 2 ^ 32 := by
  unfold readShareAck at hack
  cases hreply : readReply host tcpShareAck tcpShareAckSize stream with
  | blocked =>
      rw [hreply] at hack
      cases hack
  | failed =>
      rw [hreply] at hack
      cases hack
  | done payload left =>
      rw [hreply] at hack
      cases hack
      exact ntoh_lt host 4 _

/-- What a `share` that returns 0 has done to the table. -/
theorem share_table {host : ByteOrder} {env : CommandEnv} {table : SharedTable}
    {path contents rest : Bytes} {fileId : Nat} (hfile : env.readFile path = some contents)
    (hack : readShareAck host env.link.answer = .done fileId rest)
    (hreturned : (share host env table path).code = some 0) :
    (share host env table path).table = table.addSharedFile fileId contents.length
      (env.getEnv.sha256 contents) path := by
  unfold share at hreturned ⊢
  cases hannounce : announce env.getEnv.sha256 path (env.readFile path) with
  | none =>
      rw [hannounce] at hreturned
      cases hreturned
  | some announced =>
      rw [hannounce] at hreturned
      simp only [hack] at hreturned ⊢
      split at hreturned
      · cases hreturned
      · next hwhole =>
          rw [if_neg hwhole]
          rw [hfile] at hannounce
          unfold announce at hannounce
          simp only at hannounce
          split at hannounce
          · cases hannounce
          · cases hannounce
            rfl

/-- For every line, file and table for which `share` returns 0: in every later state a
request for the acknowledged id and the announced hash opens the path that was
shared exactly when the path has at most 255 bytes, the table has room and the id is
new to it (or the table held the same entry before). -/
theorem shared_path_reopened_iff {host : ByteOrder} {link : LossyLink} {env : CommandEnv}
    {client : ClientState} {line path contents rest : Bytes} {fileId : Nat}
    (hline : parseCommand line = .share path) (hfile : env.readFile path = some contents)
    (hack : readShareAck host env.link.answer = .done fileId rest)
    (hreturned : (share host env client.owner.table path).code = some 0) :
    (∀ events later,
      Run (OwnerStep host link) (handleCommand host env client line).client.owner events later →
        Reopens host later.table fileId path (env.getEnv.sha256 contents) contents.length) ↔
      FitsTable client.owner.table fileId path ∨
        AlreadyHeld client.owner.table fileId path (env.getEnv.sha256 contents)
          contents.length := by
  obtain ⟨-, -, hclean⟩ := parseCommand_share hline
  have hid : fileId < 2 ^ 32 := readShareAck_lt hack
  have htable : (handleCommand host env client line).client.owner.table =
      client.owner.table.addSharedFile fileId contents.length (env.getEnv.sha256 contents)
        path := by
    simp only [handleCommand, hline, conclude, hreturned]
    exact share_table hfile hack hreturned
  rw [← alreadyHeld_add_iff hclean, ← htable]
  constructor
  · intro hlater
    exact (reopens_iff hid).mp (hlater [] _ (Run.nil _))
  · intro hheld events later hrun
    exact (reopens_iff hid).mpr (alreadyHeld_run hrun hheld)

/-- Every path names the file with the single byte 7, and the server acknowledges the
file as number 1. -/
def sevenCommandEnv : CommandEnv where
  link := ⟨none, controlMessage .little tcpShareAck errNone (idImage .little 1), false⟩
  readFile := fun _ => some [7]
  listRoom := true
  getEnv := sevenEnv
  requestSent := 52
  receptions := []

theorem readShareAck_seven :
    readShareAck .little sevenCommandEnv.link.answer = .done 1 [] :=
  readShareAck_done .little (by decide)

/-- `share a`: the request opens `a`. -/
theorem shared_path_reopened_short :
    FitsTable idleClient.owner.table 1 [97] ∧
      ∀ events later, Run (OwnerStep .little ⟨3, 0, 1⟩)
          (handleCommand .little sevenCommandEnv idleClient
            (shareWord ++ [32, 97, newline])).client.owner events later →
        Reopens .little later.table 1 [97] sevenDigest 1 := by
  have hline : parseCommand (shareWord ++ [32, 97, newline]) = .share [97] := by
    decide +kernel
  have hreturned : (share .little sevenCommandEnv idleClient.owner.table [97]).code =
      some 0 := by decide +kernel
  have hfits : FitsTable idleClient.owner.table 1 [97] := ⟨rfl, by decide, by decide⟩
  refine ⟨hfits, ?_⟩
  exact (shared_path_reopened_iff hline rfl readShareAck_seven hreturned).mpr (.inl hfits)

/-- A path of 256 letters. -/
def longPath : Bytes := List.replicate 256 97

/-- `share` with that path succeeds, and the request opens a name of 255 letters. -/
theorem long_path_not_reopened :
    parseCommand (shareWord ++ 32 :: longPath) = .share longPath ∧
      (share .little sevenCommandEnv Owner.initial.table longPath).code = some 0 ∧
      ∃ entry, (handleCommand .little sevenCommandEnv idleClient
          (shareWord ++ 32 :: longPath)).client.owner.table.findSharedFileById 1 =
            some entry ∧
        cString entry.fileName.bytes = longPath.take 255 ∧
        ¬ Reopens .little (handleCommand .little sevenCommandEnv idleClient
          (shareWord ++ 32 :: longPath)).client.owner.table 1 longPath sevenDigest 1 := by
  have hline : parseCommand (shareWord ++ 32 :: longPath) = .share longPath := by
    decide +kernel
  have hreturned : (share .little sevenCommandEnv idleClient.owner.table longPath).code =
      some 0 := by decide +kernel
  have htable : (handleCommand .little sevenCommandEnv idleClient
      (shareWord ++ 32 :: longPath)).client.owner.table =
        idleClient.owner.table.addSharedFile 1 1 sevenDigest longPath := by
    simp only [handleCommand, hline, conclude, hreturned]
    exact share_table rfl readShareAck_seven hreturned
  have hname : cString (NameField.strncpy longPath).bytes = longPath.take 255 := by
    decide +kernel
  refine ⟨hline, hreturned, ⟨1, 1, sevenDigest, NameField.strncpy longPath⟩, ?_, hname, ?_⟩
  · rw [htable]
    rfl
  · rw [htable, reopens_iff (by decide)]
    rintro ⟨entry, hfind, -, hpath, -⟩
    cases hfind
    rw [hname] at hpath
    exact absurd (congrArg List.length hpath) (by decide +kernel)

end Client
end PeerShare
