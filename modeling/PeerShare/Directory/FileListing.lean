import PeerShare.Directory.Isolation
import PeerShare.Directory.Dialogue

/-!
# The file list, from the registry to the screen

`handle_list_files` sends one record of 297 bytes for each entry and their total
length in 16 bits.  `list` trusts that length: it reads so many bytes, divides
by the size of a record and prints the records.  What it prints is the registry
as long as 16 bits hold the length, which is up to 220 entries.
-/

namespace PeerShare
namespace Client

open Foundation Wire

/-- What `list` prints of one `file_info_t`. -/
structure ListedFile where
  fileId : Nat
  fileSize : Nat
  numPeers : Nat
  filename : Bytes
  deriving DecidableEq

/-- The record at the start of a memory image. -/
def ListedFile.ofImage (host : ByteOrder) (info : Bytes) : ListedFile where
  fileId := ntoh host 4 (fieldAt host info 0 4)
  fileSize := ntoh host 4 (fieldAt host info 4 4)
  numPeers := (info.getD 40 0).toNat
  filename := cString (NameField.ofImage (info.drop 41)).bytes

/-- The loop of `list` over the body it has read. -/
def listedFiles (host : ByteOrder) (body : Bytes) : List ListedFile :=
  (List.range (body.length / fileInfoSize)).map fun i =>
    ListedFile.ofImage host (body.drop (i * fileInfoSize))

/-- `list`, from the answer on. -/
def list (host : ByteOrder) (room : Bool) (stream : Bytes) : ReadOutcome (List ListedFile) :=
  (readFileList host room stream).map (listedFiles host)

end Client

namespace Directory

open Foundation Wire Client

/-- An entry as it should be printed. -/
def DirectoryFile.listed (file : DirectoryFile) : ListedFile where
  fileId := file.fileId
  fileSize := file.fileSize
  numPeers := 1
  filename := cString file.filename.bytes

/-- A record that the server wrote, read by the client. -/
theorem ofImage_fileInfo (host : ByteOrder) {file : DirectoryFile}
    (hid : file.fileId < 2 ^ 32) (hformed : file.Formed) (rest : Bytes) :
    ListedFile.ofImage host (Server.fileInfo host file ++ rest) = file.listed := by
  obtain ⟨hsize, hname⟩ := hformed
  have hhash := file.hash.length_eq
  have hfirst : fieldAt host (Server.fileInfo host file ++ rest) 0 4 =
      hton host 4 file.fileId := by
    simp only [Server.fileInfo, List.append_assoc, fieldAt_storeWord_append, hton_mod]
  have hsecond : fieldAt host (Server.fileInfo host file ++ rest) 4 4 =
      hton host 4 file.fileSize := by
    simp only [Server.fileInfo, List.append_assoc]
    rw [fieldAt_append host _ _ 4 (storeWord_length ..), fieldAt_storeWord_append, hton_mod]
  have hbefore : (storeWord host 4 (hton host 4 file.fileId) ++
      storeWord host 4 (hton host 4 file.fileSize) ++ file.hash.bytes).length = 40 := by
    simp [hhash]
  have hpeers : (Server.fileInfo host file ++ rest).getD 40 0 = 1 := by
    rw [Server.fileInfo, hname, List.append_assoc, List.append_assoc, List.getD_eq_getElem?_getD,
      List.getElem?_append_right (le_of_eq hbefore), hbefore]
    rfl
  have hlast : (Server.fileInfo host file ++ rest).drop 41 = file.filename.bytes ++ rest := by
    have hlength : (storeWord host 4 (hton host 4 file.fileId) ++
        storeWord host 4 (hton host 4 file.fileSize) ++ file.hash.bytes ++ [1]).length = 41 := by
      simp [hhash]
    rw [Server.fileInfo, hname, List.append_assoc, List.drop_left' hlength]
  rw [ListedFile.ofImage, hfirst, hsecond, hpeers, hlast, NameField.ofImage_append, ntoh_hton,
    ntoh_hton, show file.fileId % 256 ^ 4 = file.fileId from Nat.mod_eq_of_lt hid,
    show file.fileSize % 256 ^ 4 = file.fileSize from Nat.mod_eq_of_lt hsize]
  rfl

/-- The records from index `i` on. -/
theorem drop_fileInfos (host : ByteOrder) (files : List DirectoryFile) (i : Nat) :
    (files.flatMap (Server.fileInfo host)).drop (i * fileInfoSize) =
      (files.drop i).flatMap (Server.fileInfo host) := by
  induction i generalizing files with
  | zero => simp
  | succ i ih =>
      cases files with
      | nil => simp
      | cons file files =>
          rw [List.flatMap_cons, List.drop_succ_cons, ← ih files, Nat.succ_mul, Nat.add_comm,
            ← List.drop_drop, List.drop_left' (fileInfo_length host file)]

/-- What the client makes of the records is the registry. -/
theorem listedFiles_fileInfos (host : ByteOrder) {files : List DirectoryFile}
    (hid : ∀ file ∈ files, file.fileId < 2 ^ 32) (hformed : ∀ file ∈ files, file.Formed) :
    listedFiles host (files.flatMap (Server.fileInfo host)) =
      files.map DirectoryFile.listed := by
  have hcount : files.length * fileInfoSize / fileInfoSize = files.length :=
    Nat.mul_div_cancel _ (by decide)
  unfold listedFiles
  rw [fileList_length, hcount]
  apply List.ext_getElem
  · simp
  · intro i hi hi'
    have hlt : i < files.length := by simpa using hi'
    have hmem : files[i] ∈ files := List.getElem_mem hlt
    rw [List.getElem_map, List.getElem_range, drop_fileInfos, List.drop_eq_getElem_cons hlt,
      List.flatMap_cons, ofImage_fileInfo host (hid _ hmem) (hformed _ hmem), List.getElem_map]

/-! ## The announced length -/

/-- The client decodes the answer into exactly the registry: the announced
length is that of the body, the entries are those of the registry in order, and
nothing stays unread on the stream. -/
structure ListDecodes (host : ByteOrder) (registry : Registry) (answer : Bytes) : Prop where
  bodyLen : tcpHeaderSize + ntoh host 2 (TcpHeader.ofImage host answer).dataLen = answer.length
  decoded : Client.list host true answer = .done (registry.files.map DirectoryFile.listed) []

/-- The answer to `TCP_LIST_FILES`. -/
def Server.listAnswer (host : ByteOrder) (server : Server) : Bytes :=
  controlMessage host tcpFileList errNone (server.registry.files.flatMap (Server.fileInfo host))

section Answer

variable {host : ByteOrder} {server : Server}

theorem bodyLen_listAnswer :
    ntoh host 2 (TcpHeader.ofImage host (server.listAnswer host)).dataLen =
      server.registry.files.length * fileInfoSize % 2 ^ 16 := by
  rw [Server.listAnswer, ofImage_controlMessage]
  simp only [ntoh_hton, fileList_length]
  rfl

theorem listAnswer_length :
    (server.listAnswer host).length =
      tcpHeaderSize + server.registry.files.length * fileInfoSize := by
  rw [Server.listAnswer, controlMessage_length, fileList_length]

/-- Whether the client decodes the answer is a question of its length. -/
theorem listDecodes_iff (h : FilesFormed server) :
    ListDecodes host server.registry (server.listAnswer host) ↔
      server.registry.files.length ≤ 220 := by
  have hlength := fileList_length host server.registry.files
  constructor
  · intro hdecodes
    have hbody := hdecodes.bodyLen
    rw [bodyLen_listAnswer, listAnswer_length] at hbody
    unfold fileInfoSize at hbody
    omega
  · intro hshort
    constructor
    · rw [bodyLen_listAnswer, listAnswer_length, Nat.mod_eq_of_lt]
      unfold fileInfoSize
      omega
    · rw [Client.list, Server.listAnswer, readFileList_done host hlength hshort,
        ReadOutcome.map, listedFiles_fileInfos host h.fileId_fits h.formed]

end Answer

theorem filesFormed_run {host : ByteOrder} {server : Server} {events : List ServerEvent}
    (hrun : Run (ServerStep host) Server.initial events server) : FilesFormed server := by
  refine hrun.invariant (P := FilesFormed) ?_ filesFormed_initial
  intro s event t h hstep
  rw [hstep]
  exact filesFormed_effect h (apply_effect host s event)

/-- The answer is in network order, whatever the byte order of the server. -/
theorem listAnswer_host (server : Server) (host other : ByteOrder) :
    server.listAnswer host = server.listAnswer other := by
  have hinfo : Server.fileInfo host = Server.fileInfo other := by
    ext1 file
    simp only [Server.fileInfo, storeWord_hton]
  rw [Server.listAnswer, Server.listAnswer, hinfo]
  simp only [controlMessage, TcpHeader.image, storeWord_hton]

/-- In every reachable state, the answer to `TCP_LIST_FILES` is decoded into
exactly the registry if and only if it lists at most 220 files. -/
theorem file_list_round_trip_iff {host : ByteOrder} {server : Server}
    {events : List ServerEvent} (hrun : Run (ServerStep host) Server.initial events server)
    (i : Fin maxClients) (client : ByteOrder) :
    ∃ answer, (server.handleListFiles host i true).replies =
        [⟨(server.clients i).fd, answer⟩] ∧
      (ListDecodes client server.registry answer ↔ server.registry.files.length ≤ 220) := by
  refine ⟨server.listAnswer host, ?_, ?_⟩
  · rw [Server.handleListFiles, if_neg (by decide)]
    rfl
  · rw [listAnswer_host server host client]
    exact listDecodes_iff (filesFormed_run hrun)

/-! ### A client that shares the same file many times -/

/-- One client connects, registers and shares `count` files. -/
def manyShares (count : Nat) : List ServerEvent :=
  [.accept 5 ⟨1, 2⟩, fromConnection 5 registration] ++
    List.replicate count (fromConnection 5 offer)

/-- Each of the shares is granted until the array is full. -/
theorem manyShares_run {count : Nat} (hcount : count ≤ maxFiles) :
    ∃ server, Run (ServerStep .little) Server.initial (manyShares count) server ∧
      server.findClientByFd 5 = some 0 ∧ server.registry.files.length = count := by
  induction count with
  | zero => exact ⟨_, Run.snoc (Run.single rfl) rfl, by decide +kernel, by decide +kernel⟩
  | succ count ih =>
      obtain ⟨server, hrun, hfind, hlength⟩ := ih (Nat.le_of_succ_le hcount)
      have hmessage : readMessage .little offer = some (.shareFile offeredFile) :=
        readMessage_share .little (by norm_num [offeredFile])
      have hroom : server.registry.files.length < maxFiles := by
        rw [hlength]
        exact hcount
      have hadd : ∃ registry,
          server.registry.add (server.sharedFile 0 offeredFile) = some registry :=
        ⟨_, dif_pos hroom⟩
      obtain ⟨registry, hadd⟩ := hadd
      have happly : (server.apply .little (fromConnection 5 offer)).server =
          server.enter registry := by
        rw [fromConnection, apply_readable hfind hmessage, Server.handle, Server.handleShareFile,
          hadd]
      refine ⟨server.enter registry, ?_, hfind, ?_⟩
      · have hstep : ServerStep .little server (fromConnection 5 offer)
            (server.enter registry) := happly.symm
        have hlonger := Run.snoc hrun hstep
        rwa [manyShares, List.append_assoc, ← List.replicate_succ'] at hlonger
      · show registry.files.length = count + 1
        rw [(Registry.add_eq_some hadd).2, List.length_append, hlength]
        rfl

/-- A list of one file arrives. -/
theorem file_list_one_share :
    ∃ server answer, Run (ServerStep .little) Server.initial (manyShares 1) server ∧
      server.registry.files.length = 1 ∧
      (server.handleListFiles .little 0 true).replies = [⟨(server.clients 0).fd, answer⟩] ∧
      ListDecodes .little server.registry answer := by
  obtain ⟨server, hrun, -, hlength⟩ := manyShares_run (show 1 ≤ maxFiles by decide)
  obtain ⟨answer, hanswer, hdecodes⟩ := file_list_round_trip_iff hrun 0 .little
  exact ⟨server, answer, hrun, hlength, hanswer, hdecodes.mpr (by rw [hlength]; decide)⟩

/-- A list of 221 files is announced with a length that is no multiple of a
record, and `list` gives up. -/
theorem file_list_overflows :
    ∃ server answer, Run (ServerStep .little) Server.initial (manyShares 221) server ∧
      server.registry.files.length = 221 ∧
      (server.handleListFiles .little 0 true).replies = [⟨(server.clients 0).fd, answer⟩] ∧
      ntoh .little 2 (TcpHeader.ofImage .little answer).dataLen = 101 ∧
      Client.list .little true answer = .failed ∧
      ¬ ListDecodes .little server.registry answer := by
  obtain ⟨server, hrun, -, hlength⟩ := manyShares_run (show 221 ≤ maxFiles by decide)
  have hfailed : Client.list .little true (server.listAnswer .little) = .failed := by
    rw [Client.list, Server.listAnswer, readFileList_failed .little true
      (fileList_length .little server.registry.files) (by rw [hlength]; decide)
      (by rw [hlength]; decide)]
    rfl
  refine ⟨server, server.listAnswer .little, hrun, hlength, rfl, ?_, hfailed, ?_⟩
  · rw [bodyLen_listAnswer, hlength]
    rfl
  · intro hdecodes
    have hdone := hdecodes.decoded
    rw [hfailed] at hdone
    cases hdone

end Directory
end PeerShare
