import PeerShare.Client.GetRun
import PeerShare.Directory.FileListing
import PeerShare.Directory.Isolation

/-!
# The name a download is saved under

`get` opens the name that the directory's answer carries.  That name was copied
twice by the server and once by `share`, each time with `strncpy` into a field of
256 bytes, and nobody on the way looks at it: `share` sends the path it was given
and not the last component, the server accepts any bytes, and `get` hands them to
`fopen`.

So the file lands in the current directory exactly when the registered name is a
plain file name already.
-/

namespace PeerShare
namespace Directory

open Foundation Wire Client

/-! ## Names -/

/-- A name that stays in the current directory: no `/` in it, and neither `.` nor
`..`. -/
def LocalName (name : Bytes) : Prop :=
  47 ∉ name ∧ name ≠ [46] ∧ name ≠ [46, 46]

instance (name : Bytes) : Decidable (LocalName name) :=
  inferInstanceAs (Decidable (47 ∉ name ∧ name ≠ [46] ∧ name ≠ [46, 46]))

/-- The part of a path behind its last `/`. -/
def baseName (path : Bytes) : Bytes :=
  (path.reverse.takeWhile (· ≠ 47)).reverse

theorem baseName_of_local {path : Bytes} (hlocal : LocalName path) : baseName path = path := by
  have hall : ∀ byte ∈ path.reverse, (fun byte : UInt8 => decide (byte ≠ 47)) byte = true := by
    intro byte hbyte
    refine decide_eq_true ?_
    rintro rfl
    exact hlocal.1 (List.mem_reverse.mp hbyte)
  rw [baseName, List.takeWhile_eq_self_iff.mpr hall, List.reverse_reverse]

/-- The name under which the directory keeps a share. -/
def registeredName (share : ShareFile) : Bytes := (cString share.filename.bytes).take 255

/-! ## The shares of a run -/

/-- The share that an event enters into the registry, with its id. -/
def acceptedShare (host : ByteOrder) (server : Server) : ServerEvent → Option (Nat × ShareFile)
  | .readable fd (.bytes data) _ =>
      match server.findClientByFd fd, readMessage host data with
      | some i, some (.shareFile share) =>
          (server.registry.add (server.sharedFile i share)).map fun _ =>
            (server.nextFileId, share)
      | _, _ => none
  | _ => none

/-- The shares that a run enters, in their order. -/
def acceptedShares (host : ByteOrder) : Server → List ServerEvent → List (Nat × ShareFile)
  | _, [] => []
  | server, event :: events =>
      (acceptedShare host server event).toList ++
        acceptedShares host (server.apply host event).server events

section Trail

variable {host : ByteOrder} {server server' : Server} {events : List ServerEvent}

theorem acceptedShares_append (first second : List ServerEvent) (server : Server) :
    acceptedShares host server (first ++ second) =
      acceptedShares host server first ++
        acceptedShares host
          (first.foldl (fun server event => (server.apply host event).server) server) second := by
  induction first generalizing server with
  | nil => rfl
  | cons event first ih =>
      rw [List.cons_append, acceptedShares, acceptedShares, ih, List.append_assoc,
        List.foldl_cons]

/-- The last event of a run adds the share that it enters. -/
theorem acceptedShares_concat (hrun : Run (ServerStep host) server events server')
    (event : ServerEvent) :
    acceptedShares host server (events ++ [event]) =
      acceptedShares host server events ++ (acceptedShare host server' event).toList := by
  have hend := hrun.eq_foldl fun _ _ _ hstep => hstep
  rw [acceptedShares_append, ← hend, acceptedShares, acceptedShares, List.append_nil]

/-- An accepted share takes the next id and counts as one more. -/
theorem acceptedShare_eq_some {event : ServerEvent} {entry : Nat × ShareFile}
    (haccepted : acceptedShare host server event = some entry) :
    entry.1 = server.nextFileId ∧
      (server.apply host event).server.shared = server.shared + 1 := by
  unfold acceptedShare at haccepted
  split at haccepted
  · next fd data room =>
      split at haccepted
      · next i share hfind hmessage =>
          obtain ⟨registry, hadd, rfl⟩ := Option.map_eq_some_iff.mp haccepted
          refine ⟨rfl, ?_⟩
          rw [apply_readable hfind hmessage]
          simp only [Server.handle, Server.handleShareFile, hadd]
          rfl
      · cases haccepted
  · cases haccepted

/-- An entry of the registry was there before, or the event's share made it. -/
theorem filename_of_effect {event : ServerEvent} (heffect : Effect host server event server')
    {file : DirectoryFile} (hfile : file ∈ server'.registry.files) :
    file ∈ server.registry.files ∨
      ∃ share, acceptedShare host server event = some (file.fileId, share) ∧
        file.filename = NameField.strncpy share.filename.bytes := by
  cases heffect with
  | dropped => exact Or.inl ((dropClient_files_sublist _ _).mem hfile)
  | endedDropped => exact Or.inl ((dropClient_files_sublist _ _).mem hfile)
  | @shared fd data room i share registry hfind hmessage hadd =>
      change file ∈ registry.files at hfile
      rw [(Registry.add_eq_some hadd).2] at hfile
      rcases List.mem_append.mp hfile with hold | hnew
      · exact Or.inl hold
      · rw [List.mem_singleton] at hnew
        subst hnew
        refine Or.inr ⟨share, ?_, rfl⟩
        simp only [acceptedShare, hfind, hmessage, hadd, Option.map_some]
        rfl
  | _ => exact Or.inl hfile

/-- Every entry of the registry goes back to a share of the run. -/
theorem filename_of_run (hrun : Run (ServerStep host) Server.initial events server)
    {file : DirectoryFile} (hfile : file ∈ server.registry.files) :
    ∃ share, (file.fileId, share) ∈ acceptedShares host Server.initial events ∧
      file.filename = NameField.strncpy share.filename.bytes := by
  induction hrun generalizing file with
  | nil => cases hfile
  | @snoc before server events event hrun hstep ih =>
      rw [acceptedShares_concat hrun]
      rw [hstep] at hfile
      rcases filename_of_effect (apply_effect host before event) hfile with hold | hnew
      · obtain ⟨share, hmem, hname⟩ := ih hold
        exact ⟨share, List.mem_append_left _ hmem, hname⟩
      · obtain ⟨share, haccepted, hname⟩ := hnew
        exact ⟨share, List.mem_append_right _ (Option.mem_toList.mpr haccepted), hname⟩

/-- While the ids do not wrap, the shares of a run have different ones. -/
theorem acceptedShares_increasing (hrun : Run (ServerStep host) Server.initial events server)
    (hrange : server.shared < 2 ^ 32 - 1) :
    FileIdentity server ∧
      (acceptedShares host Server.initial events).Pairwise
        (fun entry later => entry.1 < later.1) ∧
      ∀ entry ∈ acceptedShares host Server.initial events, entry.1 ≤ server.shared := by
  induction hrun with
  | nil =>
      refine ⟨fileIdentity_initial, List.Pairwise.nil, ?_⟩
      intro entry hmem
      cases hmem
  | @snoc before server events event hrun hstep ih =>
      have heffect := apply_effect host before event
      rw [hstep] at hrange ⊢
      have hless := (counters_le_of_effect heffect).2
      obtain ⟨hidentity, hpairwise, hbound⟩ := ih (lt_of_le_of_lt hless hrange)
      rw [acceptedShares_concat hrun]
      refine ⟨fileIdentity_effect hidentity heffect hrange,
        List.pairwise_append.mpr ⟨hpairwise, ?_, ?_⟩, ?_⟩
      · cases acceptedShare host before event with
        | none => exact List.Pairwise.nil
        | some entry => exact List.pairwise_singleton _ _
      -- the new id is the number of shares so far, plus one
      · intro entry hentry later hlater
        have hid := (acceptedShare_eq_some (Option.mem_toList.mp hlater)).1
        rw [hid, hidentity.nextFileId_eq]
        exact Nat.lt_succ_of_le (hbound entry hentry)
      · intro entry hentry
        rcases List.mem_append.mp hentry with hold | hnew
        · exact le_trans (hbound entry hold) hless
        · obtain ⟨hid, hcount⟩ := acceptedShare_eq_some (Option.mem_toList.mp hnew)
          rw [hid, hcount, hidentity.nextFileId_eq]

theorem acceptedShares_unique (hrun : Run (ServerStep host) Server.initial events server)
    (hrange : server.shared < 2 ^ 32 - 1) {fileId : Nat} {share other : ShareFile}
    (hshare : (fileId, share) ∈ acceptedShares host Server.initial events)
    (hother : (fileId, other) ∈ acceptedShares host Server.initial events) : other = share := by
  have hpairwise := (acceptedShares_increasing hrun hrange).2.1
  have hsame := List.inj_on_of_nodup_map (nodup_keys_of_increasing hpairwise) hother hshare rfl
  exact congrArg Prod.snd hsame

end Trail

/-! ## The name that is opened -/

/-- What `get` hands to `fopen`, if it comes to that. -/
def openedName (host : ByteOrder) (env : GetEnv) (fileId : Nat) (answer : Bytes)
    (requestSent : Int) (receptions : List Reception) : Option Bytes :=
  match requestLocation host fileId answer requestSent with
  | .error _ => none
  | .ok location =>
      ((completedReceiver host env location .awaitingStart receptions).filter
        (opensFile env.sha256 location)).map fun _ => cString location.filename.bytes

section Opened

variable {host : ByteOrder} {env : GetEnv} {fileId : Nat} {answer : Bytes} {requestSent : Int}
  {receptions : List Reception} {name : Bytes}

/-- A file that `get` saves has the name that it opened. -/
theorem openedName_of_saved {code : Int} {bytes : Bytes}
    (hsaved : (Client.get host env fileId answer requestSent receptions).returned =
      some ⟨code, some (name, bytes)⟩) :
    openedName host env fileId answer requestSent receptions = some name := by
  unfold Client.get at hsaved
  unfold openedName
  cases hlocation : requestLocation host fileId answer requestSent with
  | error outcome =>
      rw [hlocation] at hsaved
      unfold requestLocation at hlocation
      split at hlocation
      · cases hlocation
        cases hsaved
      · cases hlocation
        cases hsaved
      · split at hlocation
        · cases hlocation
          cases hsaved
        · cases hlocation
  | ok location =>
      simp only [hlocation] at hsaved ⊢
      rcases getRun_returned hsaved with hfinished | hnone | ⟨receiver, hcompleted, hresult⟩
      · cases hfinished
      · cases hnone
      · have hwritten := congrArg GetReturn.saved hresult
        have hopens := (finishGet_saved hwritten.symm).2
        rw [hcompleted, Option.filter_some_pos hopens, Option.map_some]
        simp only [finishGet] at hwritten
        split at hwritten
        · split at hwritten
          · cases hwritten
            rfl
          · cases hwritten
        · cases hwritten

/-- The name comes from the answer. -/
theorem openedName_eq_some
    (hopens : openedName host env fileId answer requestSent receptions = some name) :
    ∃ location rest, readFileLocation host fileId answer = .done location rest ∧
      name = cString location.filename.bytes := by
  unfold openedName requestLocation at hopens
  cases hread : readFileLocation host fileId answer with
  | blocked =>
      rw [hread] at hopens
      cases hopens
  | failed =>
      rw [hread] at hopens
      cases hopens
  | done location rest =>
      refine ⟨location, rest, rfl, ?_⟩
      rw [hread] at hopens
      simp only at hopens
      split at hopens
      · cases hopens
      · next hsent =>
          split at hsent
          · cases hsent
          · cases hsent
            obtain ⟨-, -, rfl⟩ := Option.map_eq_some_iff.mp hopens
            rfl

end Opened

/-- The answer to a request carries the name of an entry with the requested id. -/
theorem name_of_reply {host : ByteOrder} {server : Server} (hformed : FilesFormed server)
    {fileId : Nat} (hid : fileId < 2 ^ 32) {fd : Int} {room : Bool} {reply : Reply}
    (hreply : reply ∈
      (server.apply host (.readable fd (.bytes (requestMessage host fileId)) room)).replies)
    {location : FileLocation} {rest : Bytes}
    (hread : readFileLocation host fileId reply.bytes = .done location rest) :
    ∃ file ∈ server.registry.files, file.fileId = fileId ∧
      location.filename = NameField.strncpy file.filename.bytes := by
  cases hfind : server.findClientByFd fd with
  | none =>
      simp only [Server.apply, Server.receive, hfind] at hreply
      cases hreply
  | some i =>
      rw [apply_readable hfind (readMessage_request host hid)] at hreply
      simp only [Server.handle, Server.handleRequestFile] at hreply
      split at hreply
      · rw [List.mem_singleton.mp hreply, readFileLocation, Server.errorResponse,
          readReply_error] at hread
        cases hread
      · next found hlocate =>
          obtain ⟨file, hmem, hfileId, hfoundId, hfoundSize, -, hname⟩ :=
            Server.locate_eq_ok hlocate
          have hfits := hformed.fileId_fits file hmem
          have hsize := (hformed.formed file hmem).1
          rw [hfileId, ← hfoundId] at hfits
          rw [← hfoundSize] at hsize
          have hdone := readFileLocation_done host hfits hsize
          rw [List.mem_singleton.mp hreply] at hread
          change readFileLocation host fileId
            (controlMessage host tcpFileLocation errNone (found.image host)) = _ at hread
          rw [← hfoundId, hdone] at hread
          cases hread
          exact ⟨file, hmem, hfileId, hname⟩

/-! ## Where downloads land -/

/-- A path given to `share` is registered as it is, cut to 255 bytes. -/
theorem registeredName_announce {sha256 : Bytes → HashBytes} {path : Bytes}
    {file : Option Bytes} {share : ShareFile}
    (hannounce : announce sha256 path file = some share) :
    registeredName share = (cString path).take 255 := by
  rw [registeredName, (announce_eq_some hannounce).2, NameField.cString_strncpy, List.take_take,
    min_self]

/-- In every run of the server, whoever asks it for a file and gets as far as
`fopen`: the name that is opened is the registered name of a share with that id.
It stays in the current directory if and only if that registered name does, so it
does in every run in which the names of all shares do.  There is one such share
only while the ids do not wrap.  For a share made by `share` the registered name
is the path, cut to 255 bytes; a shorter path is opened under its base name in
the current directory if and only if it is such a name as a whole. -/
theorem saved_name_local_iff {host : ByteOrder} {events : List ServerEvent} {server : Server}
    (hrun : Run (ServerStep host) Server.initial events server) {fileId : UInt32} {fd : Int}
    {room : Bool} {reply : Reply}
    (hreply : reply ∈ (server.apply host
      (.readable fd (.bytes (requestMessage host fileId.toNat)) room)).replies)
    {env : GetEnv} {requestSent : Int} {receptions : List Reception} {name : Bytes}
    (hopens : openedName host env fileId.toNat reply.bytes requestSent receptions = some name) :
    ((∀ share, (fileId.toNat, share) ∈ acceptedShares host Server.initial events →
      LocalName (registeredName share)) → LocalName name) ∧
    ∃ share, (fileId.toNat, share) ∈ acceptedShares host Server.initial events ∧
      (server.shared < 2 ^ 32 - 1 → ∀ other,
        (fileId.toNat, other) ∈ acceptedShares host Server.initial events → other = share) ∧
      (LocalName name ↔ LocalName (registeredName share)) ∧
      ∀ sha256 path file, announce sha256 path file = some share →
        (LocalName name ↔ LocalName ((cString path).take 255)) ∧
          ((cString path).length ≤ 255 →
            (LocalName name ∧ name = baseName (cString path) ↔ LocalName (cString path))) := by
  obtain ⟨location, rest, hread, hlocation⟩ := openedName_eq_some hopens
  obtain ⟨file, hfile, hid, hfilename⟩ :=
    name_of_reply (filesFormed_run hrun) fileId.toNat_lt hreply hread
  obtain ⟨share, hshare, hregistered⟩ := filename_of_run hrun hfile
  rw [hid] at hshare
  have hname : name = registeredName share := by
    rw [hlocation, hfilename, hregistered, NameField.strncpy_strncpy, NameField.cString_strncpy,
      registeredName]
  refine ⟨fun hall => hname ▸ hall share hshare, share, hshare, ?_, by rw [hname], ?_⟩
  · intro hrange other hother
    exact acceptedShares_unique hrun hrange hshare hother
  · intro sha256 path contents hannounce
    have hpath : name = (cString path).take 255 :=
      hname.trans (registeredName_announce hannounce)
    refine ⟨by rw [hpath], ?_⟩
    intro hshort
    rw [List.take_of_length_le hshort] at hpath
    rw [hpath]
    constructor
    · exact fun h => h.1
    · intro hlocal
      exact ⟨hlocal, (baseName_of_local hlocal).symm⟩

/-- A client shares a file with the single byte 7 under a path; another one
connects. -/
def sharedUnder (path : Bytes) : List ServerEvent :=
  [.accept 5 ⟨9, 2⟩, fromConnection 5 (registerMessage .little 9),
    fromConnection 5 (shareMessage .little ⟨1, sevenDigest, NameField.strncpy path⟩),
    .accept 6 ⟨1, 2⟩]

/-- What the other one is told about the file. -/
def toldAbout (path : Bytes) : Reply where
  fd := 6
  bytes := controlMessage .little tcpFileLocation errNone
    (FileLocation.image .little ⟨1, 1, sevenDigest, ⟨9, 9⟩, NameField.strncpy path⟩)

theorem run_sharedUnder (path : Bytes) :
    Run (ServerStep .little) Server.initial (sharedUnder path)
      (Server.after .little (sharedUnder path)) := by
  have hallowed : Run.Allowed (fun _ _ => True)
      (fun (server : Server) (event : ServerEvent) => (server.apply .little event).server)
      Server.initial (sharedUnder path) := ⟨trivial, trivial, trivial, trivial, trivial⟩
  have hstep : ∀ (server : Server) (event : ServerEvent), True →
      ServerStep .little server event (server.apply .little event).server := fun _ _ _ => rfl
  exact Run.of_allowed hstep hallowed

/-- A plain name stays where it is. -/
theorem saved_name_plain :
    toldAbout [97] ∈ ((Server.after .little (sharedUnder [97])).apply .little
        (.readable 6 (.bytes (requestMessage .little 1)) true)).replies ∧
      openedName .little sevenEnv 1 (toldAbout [97]).bytes 52
        ([sevenStart, sevenData].map some) = some [97] ∧
      LocalName [97] := by
  have hreply : toldAbout [97] ∈ ((Server.after .little (sharedUnder [97])).apply .little
      (.readable 6 (.bytes (requestMessage .little (1 : UInt32).toNat)) true)).replies := by
    decide +kernel
  have hopens : openedName .little sevenEnv (1 : UInt32).toNat (toldAbout [97]).bytes 52
      ([sevenStart, sevenData].map some) = some [97] := by
    decide +kernel
  have hshares : acceptedShares .little Server.initial (sharedUnder [97]) =
      [(1, ⟨1, sevenDigest, NameField.strncpy [97]⟩)] := by
    decide +kernel
  refine ⟨hreply, hopens, (saved_name_local_iff (run_sharedUnder [97]) hreply hopens).1 ?_⟩
  intro share hshare
  rw [hshares, List.mem_singleton] at hshare
  cases hshare
  decide +kernel

/-- `share ../a`: whoever gets the file writes it to the parent directory. -/
theorem saved_outside_directory :
    announce sevenEnv.sha256 [46, 46, 47, 97] (some [7]) =
        some ⟨1, sevenDigest, NameField.strncpy [46, 46, 47, 97]⟩ ∧
      Run (ServerStep .little) Server.initial (sharedUnder [46, 46, 47, 97])
        (Server.after .little (sharedUnder [46, 46, 47, 97])) ∧
      toldAbout [46, 46, 47, 97] ∈
        ((Server.after .little (sharedUnder [46, 46, 47, 97])).apply .little
          (.readable 6 (.bytes (requestMessage .little 1)) true)).replies ∧
      openedName .little sevenEnv 1 (toldAbout [46, 46, 47, 97]).bytes 52
        ([sevenStart, sevenData].map some) = some [46, 46, 47, 97] ∧
      (Client.get .little sevenEnv 1 (toldAbout [46, 46, 47, 97]).bytes 52
        ([sevenStart, sevenData].map some)).returned =
          some ⟨0, some ([46, 46, 47, 97], [7])⟩ ∧
      ¬ LocalName [46, 46, 47, 97] := by
  refine ⟨rfl, run_sharedUnder _, ?_, ?_, ?_, ?_⟩ <;> decide +kernel

end Directory
end PeerShare
