import PeerShare.Directory.Participants

/-!
# What is saved is what was shared

A file passes through four hands: `share` hashes it, the server keeps the hash
under an id, the answer to a request carries it to `get`, and `get` compares it
with what it assembled from datagrams that may come from anybody.

On every connection of a client each share that reaches the registry carries the
hash of what `share` read, and each location that reaches `get` is one the
registry held.  The last step is the hash function's.  There is no injective
function from byte strings to digests; what is asked for is that no two of the
byte strings hashed in the run have the same digest.
-/

namespace PeerShare
namespace Directory

open Foundation Wire Client SelectiveRepeat

/-! ## Entries that are made -/

theorem entered_share {server : Server} {i : Fin maxClients} {share : ShareFile}
    {registry : Registry}
    (hadd : server.registry.add (server.sharedFile i share) = some registry) :
    entered server (server.enter registry) = some (server.sharedFile i share) := by
  have hmore : (server.enter registry).shared ≠ server.shared := Nat.succ_ne_self _
  have hfiles : (server.enter registry).registry.files =
      server.registry.files ++ [server.sharedFile i share] := (Registry.add_eq_some hadd).2
  rw [entered, if_neg hmore, hfiles, List.getLast?_concat]

section Entered

variable {host : ByteOrder} {server server' : Server} {event : ServerEvent}

/-- Where the entries come from that a state has more than the one before. -/
theorem mem_files_or_entered (heffect : Effect host server event server') {file : DirectoryFile}
    (hfile : file ∈ server'.registry.files) :
    file ∈ server.registry.files ∨ entered server server' = some file := by
  rcases mem_files_of_effect heffect hfile with hold | ⟨i, share, registry, hadd, rfl, rfl⟩
  · exact Or.inl hold
  · exact Or.inr (entered_share hadd)

/-- An entry is made by a share that reaches its handler. -/
theorem share_of_entered (heffect : Effect host server event server') {file : DirectoryFile}
    (hentered : entered server server' = some file) :
    file ∈ server'.registry.files ∧
      ∃ fd data room i share, event = .readable fd (.bytes data) room ∧
        server.findClientByFd fd = some i ∧
        readMessage host data = some (.shareFile share) ∧ file = server.sharedFile i share := by
  cases heffect with
  | @shared fd data room i share registry hfind hmessage hadd =>
      rw [entered_share hadd] at hentered
      cases hentered
      refine ⟨?_, fd, data, room, i, share, rfl, hfind, hmessage, rfl⟩
      show _ ∈ registry.files
      rw [(Registry.add_eq_some hadd).2]
      exact List.mem_append_right _ (List.mem_singleton_self _)
  | _ =>
      have hnone : some file = none := hentered.symm.trans (if_pos rfl)
      cases hnone

end Entered

/-! ## The system -/

/-- What the record says about a `get` that returned. -/
structure Checked (sha256 : Bytes → HashBytes) (registrations : List Registration)
    (hashed : List Bytes) (download : Download) : Prop where
  assembled_mem : ∀ bytes, download.assembled = some bytes → bytes ∈ hashed
  opened_of_saved : ∀ bytes, download.saved = some bytes →
    download.assembled = some bytes ∧ download.opened = true
  backed : ∃ hash, Backed sha256 registrations download.fileId hash ∧
    (download.opened = true →
      ∃ bytes, download.assembled = some bytes ∧ sha256 bytes = hash)

theorem Checked.mono {sha256 : Bytes → HashBytes}
    {registrations registrations' : List Registration} {hashed hashed' : List Bytes}
    {download : Download} (h : Checked sha256 registrations hashed download)
    (hregistrations : registrations ⊆ registrations') (hhashed : hashed ⊆ hashed') :
    Checked sha256 registrations' hashed' download := by
  obtain ⟨hash, hbacked, hopened⟩ := h.backed
  exact
    { assembled_mem := fun bytes hbytes => hhashed (h.assembled_mem bytes hbytes)
      opened_of_saved := h.opened_of_saved
      backed := ⟨hash, hbacked.mono hregistrations, hopened⟩ }

/-- A `get` that returns, with the location it had. -/
theorem checked_download {host : ByteOrder} {sha256 : Bytes → HashBytes}
    {registrations : List Registration} (hashed : List Bytes) {location : FileLocation}
    (hbacked : Backed sha256 registrations location.fileId location.hash)
    {heap : Option (Nat → UInt8)} {canOpen : Bool} {link : LossyLink}
    {receptions : List Reception} {result : GetReturn}
    (hresult : (getRun host ⟨sha256, heap, canOpen, link⟩ location .awaitingStart
      receptions).returned = some result) :
    Checked sha256 registrations
      (hashed ++ ((completedReceiver host ⟨sha256, heap, canOpen, link⟩ location .awaitingStart
        receptions).map assembledFile).toList)
      (Download.of sha256 location
        (completedReceiver host ⟨sha256, heap, canOpen, link⟩ location .awaitingStart receptions)
        result) := by
  have hreturned := getRun_returned hresult
  generalize completedReceiver host ⟨sha256, heap, canOpen, link⟩ location .awaitingStart
    receptions = completed at hreturned ⊢
  constructor
  · intro bytes hbytes
    change completed.map assembledFile = some bytes at hbytes
    rw [hbytes]
    simp
  -- only the end of the loop writes a file, and it writes what it hashed
  · intro bytes hsaved
    change result.saved.map Prod.snd = some bytes at hsaved
    rcases hreturned with hfinished | hnone | ⟨receiver, rfl, rfl⟩
    · cases hfinished
    · rw [hnone] at hsaved
      cases hsaved
    · obtain ⟨saved, hresultSaved, rfl⟩ := Option.map_eq_some_iff.mp hsaved
      obtain ⟨hbytes, hopens⟩ := finishGet_saved hresultSaved
      exact ⟨congrArg some hbytes.symm, hopens⟩
  · refine ⟨location.hash, hbacked, ?_⟩
    intro hopened
    change completed.any (opensFile sha256 location) = true at hopened
    cases completed with
    | none => cases hopened
    | some receiver =>
        have hhash : sha256 (assembledFile receiver) = location.hash :=
          of_decide_eq_true hopened
        exact ⟨assembledFile receiver, rfl, hhash⟩

structure SystemInv (host : ByteOrder) (sha256 : Bytes → HashBytes) (s : System) : Prop where
  files : FileIdentity s.server
  formed : FilesFormed s.server
  backed : ∀ file ∈ s.server.registry.files, Backed sha256 s.registrations file.fileId file.hash
  fileId_lt : ∀ registration ∈ s.registrations, registration.fileId < s.server.nextFileId
  increasing : s.registrations.Pairwise fun registration later =>
    registration.fileId < later.fileId
  source_mem : ∀ registration ∈ s.registrations, ∀ contents,
    registration.source = some contents → contents ∈ s.hashed
  obtained_mem : ∀ registration ∈ s.obtained, registration ∈ s.registrations ∧
    ∃ contents, registration.source = some contents
  participants : ∀ n participant, s.participants n = some participant →
    ParticipantInv host sha256 s.registrations s.hashed participant
  downloads : ∀ download ∈ s.downloads, Checked sha256 s.registrations s.hashed download

theorem systemInv_initial (host : ByteOrder) (sha256 : Bytes → HashBytes) :
    SystemInv host sha256 System.initial where
  files := fileIdentity_initial
  formed := filesFormed_initial
  backed := by
    intro file hfile
    cases hfile
  fileId_lt := by
    intro registration hmem
    cases hmem
  increasing := List.Pairwise.nil
  source_mem := by
    intro registration hmem
    cases hmem
  obtained_mem := by
    intro registration hmem
    cases hmem
  participants := by
    intro n participant hsome
    cases hsome
  downloads := by
    intro download hmem
    cases hmem

section Steps

variable {host : ByteOrder} {sha256 : Bytes → HashBytes} {s : System}

/-- A client moves; the record grows by what it hashed, obtained and
downloaded. -/
theorem SystemInv.move (h : SystemInv host sha256 s) (n : Nat) {participant : Participant}
    {hashed : List Bytes} {obtained : List Registration} {downloads : List Download}
    (hparticipant : ParticipantInv host sha256 s.registrations (s.hashed ++ hashed) participant)
    (hobtained : ∀ registration ∈ obtained, registration ∈ s.registrations ∧
      ∃ contents, registration.source = some contents)
    (hdownloads : ∀ download ∈ downloads,
      Checked sha256 s.registrations (s.hashed ++ hashed) download) :
    SystemInv host sha256
      { s.setParticipant n participant with
        hashed := s.hashed ++ hashed
        obtained := s.obtained ++ obtained
        downloads := s.downloads ++ downloads } := by
  have hgrows : s.hashed ⊆ s.hashed ++ hashed := List.subset_append_left _ _
  refine
    { h with
      source_mem := fun registration hmem contents hsource =>
        hgrows (h.source_mem registration hmem contents hsource)
      obtained_mem := ?_
      participants := ?_
      downloads := ?_ }
  · intro registration hmem
    rcases List.mem_append.mp hmem with hold | hnew
    · exact h.obtained_mem registration hold
    · exact hobtained registration hnew
  · intro m other hother
    change Function.update s.participants n (some participant) m = some other at hother
    by_cases hm : m = n
    · rw [hm, Function.update_self] at hother
      cases hother
      exact hparticipant
    · rw [Function.update_of_ne hm] at hother
      exact (h.participants m other hother).mono (List.Subset.refl _) hgrows
  · intro download hmem
    rcases List.mem_append.mp hmem with hold | hnew
    · exact (h.downloads download hold).mono (List.Subset.refl _) hgrows
    · exact hdownloads download hnew

/-- The same for a move that leaves the record alone. -/
theorem SystemInv.setParticipant (h : SystemInv host sha256 s) (n : Nat)
    {participant : Participant}
    (hparticipant : ParticipantInv host sha256 s.registrations s.hashed participant) :
    SystemInv host sha256 (s.setParticipant n participant) := by
  have hnone : ParticipantInv host sha256 s.registrations (s.hashed ++ []) participant := by
    rwa [List.append_nil]
  have hmoved := h.move n hnone (fun _ => List.not_mem_nil.elim) (fun _ => List.not_mem_nil.elim)
  rw [List.append_nil, List.append_nil, List.append_nil] at hmoved
  exact hmoved

theorem SystemInv.accept (h : SystemInv host sha256 s) (fd : Int) (addr : SockAddr)
    (client : Option UInt16) : SystemInv host sha256 (s.accept host fd addr client) := by
  unfold System.accept
  split
  · exact h
  · next hfd =>
      cases hfree : s.server.freeSlot with
      | none => exact h
      | some i =>
          have hserver : (s.server.apply host (.accept fd addr)).server =
              s.server.place i fd addr := by
            simp only [Server.apply, Server.acceptNewClient, if_neg hfd, hfree]
          simp only [hserver]
          refine
            { h with
              files := { h.files with }
              formed := { h.formed with }
              participants := ?_ }
          intro m participant hsome
          simp only at hsome
          by_cases hm : m = s.server.accepted + 1
          · rw [hm, Function.update_self, Option.map_eq_some_iff] at hsome
            obtain ⟨udpPort, -, rfl⟩ := hsome
            exact ⟨⟨rfl, rfl⟩, shareSafe_of_nil rfl⟩
          · rw [Function.update_of_ne hm] at hsome
            exact h.participants m participant hsome

theorem mem_newRegistrations {i : Fin maxClients} {event : ServerEvent}
    {registration : Registration} (hmem : registration ∈ s.newRegistrations host i event) :
    ∃ file, entered s.server (s.server.apply host event).server = some file ∧
      registration = ⟨file.fileId, file.fileSize,
        (s.participants (s.server.clients i).conn).map Participant.contents⟩ := by
  rw [System.newRegistrations, Option.mem_toList, Option.map_eq_some_iff] at hmem
  obtain ⟨file, hentered, rfl⟩ := hmem
  exact ⟨file, hentered, rfl⟩

theorem mem_newRegistrations_of_entered {i : Fin maxClients} {event : ServerEvent}
    {file : DirectoryFile}
    (hentered : entered s.server (s.server.apply host event).server = some file) :
    ⟨file.fileId, file.fileSize,
        (s.participants (s.server.clients i).conn).map Participant.contents⟩ ∈
      s.newRegistrations host i event := by
  rw [System.newRegistrations, hentered]
  exact List.mem_singleton_self _

/-- A new entry has the next id. -/
theorem fileId_of_entered {server server' : Server} {event : ServerEvent}
    (heffect : Effect host server event server') {file : DirectoryFile}
    (hentered : entered server server' = some file) : file.fileId = server.nextFileId := by
  obtain ⟨-, fd, data, room, i, share, -, -, -, rfl⟩ := share_of_entered heffect hentered
  rfl

theorem participantOn_eq {fd : Int} {i : Fin maxClients} {participant : Participant}
    (hfind : s.server.findClientByFd fd = some i)
    (hsome : s.participants (s.server.clients i).conn = some participant) :
    s.participantOn fd = some participant := by
  rw [System.participantOn, hfind, Option.bind_some, hsome]

/-- A registration made for a client is for what the client read. -/
theorem SystemInv.entered_source (h : SystemInv host sha256 s) {fd : Int} {i : Fin maxClients}
    (hfind : s.server.findClientByFd fd = some i) {recv : Recv} {room : Bool}
    (hallows : s.Allows (.serve fd recv room)) {file : DirectoryFile}
    (hentered : entered s.server (s.server.apply host (.readable fd recv room)).server =
      some file) {contents : Bytes}
    (hsource : (s.participants (s.server.clients i).conn).map Participant.contents =
      some contents) :
    contents ∈ s.hashed ∧ file.hash = sha256 contents ∧ file.fileSize = contents.length := by
  obtain ⟨-, fd', data, room', i', share, hevent, hfind', hmessage, rfl⟩ :=
    share_of_entered (apply_effect host s.server (.readable fd recv room)) hentered
  cases hevent
  obtain ⟨participant, hsome, rfl⟩ := Option.map_eq_some_iff.mp hsource
  obtain ⟨hmem, hsize, -, hhash⟩ := (h.participants _ participant hsome).safe.announces
    (hallows participant (participantOn_eq hfind hsome)) hmessage
  exact ⟨hmem, hhash, hsize⟩

/-- The clients after a `recv`. -/
theorem SystemInv.participants_serve (h : SystemInv host sha256 s) {fd : Int}
    {i : Fin maxClients} (hfind : s.server.findClientByFd fd = some i) {recv : Recv}
    {room : Bool} (hallows : s.Allows (.serve fd recv room)) {m : Nat} {other : Participant}
    (hother : Function.update s.participants (s.server.clients i).conn
      ((s.participants (s.server.clients i).conn).map fun participant =>
        participant.served recv
          (s.server.apply host (.readable fd recv room)).replies) m = some other) :
    ParticipantInv host sha256
      (s.registrations ++ s.newRegistrations host i (.readable fd recv room)) s.hashed other := by
  have hgrows := List.subset_append_left s.registrations
    (s.newRegistrations host i (.readable fd recv room))
  by_cases hm : m = (s.server.clients i).conn
  · rw [hm, Function.update_self, Option.map_eq_some_iff] at hother
    obtain ⟨participant, hsome, rfl⟩ := hother
    have hinv := (h.participants _ participant hsome).mono hgrows (List.Subset.refl _)
    refine hinv.served h.formed (fun file hfile => (h.backed file hfile).mono hgrows) hfind ?_ ?_
    · rintro data rfl
      exact hallows participant (participantOn_eq hfind hsome)
    · -- a share that is granted is entered in this very step
      rintro data share registry rfl hmessage hadd
      have hserver : (s.server.apply host (.readable fd (.bytes data) room)).server =
          s.server.enter registry := by
        rw [apply_readable hfind hmessage]
        simp only [Server.handle, Server.handleShareFile, hadd]
      have hentered : entered s.server
          (s.server.apply host (.readable fd (.bytes data) room)).server =
          some (s.server.sharedFile i share) := by
        rw [hserver, entered_share hadd]
      have hmem := mem_newRegistrations_of_entered (i := i) hentered
      rw [hsome] at hmem
      exact List.mem_append_right _ hmem
  · rw [Function.update_of_ne hm] at hother
    exact (h.participants m other hother).mono hgrows (List.Subset.refl _)

theorem SystemInv.serve (h : SystemInv host sha256 s) {fd : Int} {recv : Recv} {room : Bool}
    (hallows : s.Allows (.serve fd recv room))
    (hrange : (s.serve host fd recv room).server.shared < 2 ^ 32 - 1) :
    SystemInv host sha256 (s.serve host fd recv room) := by
  revert hrange
  unfold System.serve
  cases hfind : s.server.findClientByFd fd with
  | none => exact fun _ => h
  | some i =>
      intro hrange
      simp only at hrange ⊢
      have heffect := apply_effect host s.server (.readable fd recv room)
      have hfiles := fileIdentity_effect h.files heffect hrange
      have hgrows := List.subset_append_left s.registrations
        (s.newRegistrations host i (.readable fd recv room))
      constructor
      · exact hfiles
      · exact filesFormed_effect h.formed heffect
      · intro file hfile
        rcases mem_files_or_entered heffect hfile with hold | hentered
        · exact (h.backed file hold).mono hgrows
        · refine ⟨_, List.mem_append_right _ (mem_newRegistrations_of_entered hentered), rfl, ?_⟩
          intro contents hsource
          exact (h.entered_source hfind hallows hentered hsource).2
      · intro registration hmem
        rcases List.mem_append.mp hmem with hold | hnew
        · exact lt_of_lt_of_le (h.fileId_lt registration hold)
            (nextFileId_le_of_effect h.files heffect hrange)
        · obtain ⟨file, hentered, rfl⟩ := mem_newRegistrations hnew
          exact hfiles.fileId_lt file (share_of_entered heffect hentered).1
      · refine List.pairwise_append.mpr ⟨h.increasing, ?_, ?_⟩
        · unfold System.newRegistrations
          cases entered s.server (s.server.apply host (.readable fd recv room)).server with
          | none => exact List.Pairwise.nil
          | some file => exact List.pairwise_singleton _ _
        · intro registration hold later hnew
          obtain ⟨file, hentered, rfl⟩ := mem_newRegistrations hnew
          show registration.fileId < file.fileId
          rw [fileId_of_entered heffect hentered]
          exact h.fileId_lt registration hold
      · intro registration hmem contents hsource
        rcases List.mem_append.mp hmem with hold | hnew
        · exact h.source_mem registration hold contents hsource
        · obtain ⟨file, hentered, rfl⟩ := mem_newRegistrations hnew
          exact (h.entered_source hfind hallows hentered hsource).1
      · intro registration hmem
        obtain ⟨hold, hsource⟩ := h.obtained_mem registration hmem
        exact ⟨hgrows hold, hsource⟩
      · intro m other hother
        exact h.participants_serve hfind hallows hother
      · intro download hmem
        exact (h.downloads download hmem).mono hgrows (List.Subset.refl _)

theorem SystemInv.download (h : SystemInv host sha256 s) {n : Nat} {participant : Participant}
    (hsome : s.participants n = some participant) {location : FileLocation}
    (hphase : participant.peer.phase = .fetching location) (around : Surroundings) :
    SystemInv host sha256 (s.download host sha256 n participant location around) := by
  have hinv := h.participants n participant hsome
  have hsituation := hinv.situation
  simp only [Situation, hphase] at hsituation
  unfold System.download
  simp only
  split
  · exact h.setParticipant n (hinv.fetched false)
  · split
    · exact h
    · next result hresult =>
        -- the location was backed when it was read, and the record only grows
        have hchecked := checked_download s.hashed hsituation.2 hresult
        have hmoved := h.move n ((hinv.fetched (decide (result.code = 0))).mono
          (List.Subset.refl _) (List.subset_append_left _ _)) (fun _ => List.not_mem_nil.elim)
          (fun download hmem => by rwa [List.mem_singleton.mp hmem])
        rw [List.append_nil] at hmoved
        exact hmoved

theorem systemInv_step {s' : System} {action : SystemAction} (h : SystemInv host sha256 s)
    (hstep : SystemStep host sha256 s action s') (hrange : s'.server.shared < 2 ^ 32 - 1) :
    SystemInv host sha256 s' := by
  obtain ⟨hallows, rfl⟩ := hstep
  cases action with
  | accept fd addr client => exact h.accept fd addr client
  | serve fd recv room => exact h.serve hallows hrange
  | register n =>
      simp only [System.apply]
      split
      · exact h
      · next participant hsome =>
          exact h.setParticipant n (h.participants n participant hsome).register
  | command n command =>
      simp only [System.apply]
      split
      · exact h
      · next participant hsome =>
          have hmoved := h.move n ((h.participants n participant hsome).command command)
            (fun _ => List.not_mem_nil.elim) (fun _ => List.not_mem_nil.elim)
          rw [List.append_nil, List.append_nil] at hmoved
          exact hmoved
  | read n room =>
      simp only [System.apply]
      split
      · exact h
      · next participant hsome =>
          have hinv := h.participants n participant hsome
          have hmoved := h.move n ((hinv.read room).mono (List.Subset.refl _)
            (List.subset_append_left _ [])) (fun registration hmem =>
              hinv.obtains_mem (Option.mem_toList.mp hmem)) (fun _ => List.not_mem_nil.elim)
          rw [List.append_nil, List.append_nil] at hmoved
          exact hmoved
  | download n around =>
      simp only [System.apply]
      split
      · exact h
      · next participant hsome =>
          split
          · next location hphase => exact h.download hsome hphase around
          · exact h
  | disconnect n arriving =>
      simp only [System.apply]
      split
      · exact h
      · next participant hsome =>
          exact h.setParticipant n ((h.participants n participant hsome).disconnected arriving)

/-- Only the server counts shares, and it only counts up. -/
theorem shared_le_of_systemStep {s' : System} {action : SystemAction}
    (hstep : SystemStep host sha256 s action s') : s.server.shared ≤ s'.server.shared := by
  obtain ⟨-, rfl⟩ := hstep
  have hevent : ∀ event, s.server.shared ≤ (s.server.apply host event).server.shared :=
    fun event => (counters_le_of_effect (apply_effect host s.server event)).2
  cases action with
  | accept fd addr client =>
      simp only [System.apply, System.accept]
      split
      · exact le_refl _
      · split
        · exact le_refl _
        · exact hevent _
  | serve fd recv room =>
      simp only [System.apply, System.serve]
      split
      · exact le_refl _
      · exact hevent _
  | download n around =>
      simp only [System.apply, System.download]
      split
      · exact le_refl _
      · split
        · split
          · exact le_refl _
          · split <;> exact le_refl _
        · exact le_refl _
  | _ =>
      simp only [System.apply]
      split <;> exact le_refl _

theorem systemInv_run {s' : System} {actions : List SystemAction}
    (hrun : Run (SystemStep host sha256) s actions s') (hstart : SystemInv host sha256 s)
    (hrange : s'.server.shared < 2 ^ 32 - 1) : SystemInv host sha256 s' :=
  hrun.invariant_within (Q := fun s => s.server.shared < 2 ^ 32 - 1)
    (fun _ _ _ hstep hrange => lt_of_le_of_lt (shared_le_of_systemStep hstep) hrange)
    (fun _ _ _ => systemInv_step) hstart hrange

end Steps

/-! ## Contents -/

/-- The `get` wrote nothing but these contents, in this size; if it assembled
anything else, it opened no file. -/
structure SavesOnly (download : Download) (contents : Bytes) (fileSize : Nat) : Prop where
  saved : ∀ bytes, download.saved = some bytes → bytes = contents ∧ bytes.length = fileSize
  unopened : download.assembled ≠ some contents →
    download.opened = false ∧ download.saved = none

theorem Checked.savesOnly {sha256 : Bytes → HashBytes} {registrations : List Registration}
    {hashed : List Bytes} {download : Download} {hash : HashBytes}
    (h : Checked sha256 registrations hashed download)
    (hinj : Set.InjOn sha256 {bytes | bytes ∈ hashed})
    (hopened : download.opened = true →
      ∃ bytes, download.assembled = some bytes ∧ sha256 bytes = hash)
    {contents : Bytes} (hmem : contents ∈ hashed) (hhash : hash = sha256 contents) {fileSize : Nat}
    (hsize : fileSize = contents.length) : SavesOnly download contents fileSize := by
  -- an opened file has the hash of the contents, so it is the contents
  have hsame : download.opened = true → download.assembled = some contents := by
    intro hopen
    obtain ⟨bytes, hbytes, hsha⟩ := hopened hopen
    rw [hbytes, hinj (h.assembled_mem bytes hbytes) hmem (hsha.trans hhash)]
  constructor
  · intro bytes hsaved
    obtain ⟨hassembled, hopen⟩ := h.opened_of_saved bytes hsaved
    have heq : bytes = contents := Option.some.inj (hassembled.symm.trans (hsame hopen))
    exact ⟨heq, by rw [heq, hsize]⟩
  · intro hother
    have hclosed : download.opened = false := by
      rw [← Bool.not_eq_true]
      exact fun hopen => hother (hsame hopen)
    refine ⟨hclosed, ?_⟩
    cases hsaved : download.saved with
    | none => rfl
    | some bytes =>
        rw [(h.opened_of_saved bytes hsaved).2] at hclosed
        cases hclosed

/-- An id names one registration. -/
theorem SystemInv.registration_eq {host : ByteOrder} {sha256 : Bytes → HashBytes} {s : System}
    (h : SystemInv host sha256 s) {registration other : Registration}
    (hmem : registration ∈ s.registrations) (hother : other ∈ s.registrations)
    (hid : registration.fileId = other.fileId) : registration = other :=
  List.inj_on_of_nodup_map (nodup_keys_of_increasing h.increasing) hmem hother hid

/-- In every run of the system with fewer than `2 ^ 32 - 1` shares, if no two of
the byte strings that were hashed have the same hash: every `get` that returned
was for an id that the server gave out exactly once, and if a client of
`client.c` shared that file, then the `get` wrote nothing but what `share` had
read, in the size that was registered, and opened no file if it assembled
anything else.  In particular this holds for the client that obtained the id. -/
theorem content_integrity {host : ByteOrder} {sha256 : Bytes → HashBytes} {s : System}
    {actions : List SystemAction}
    (hrun : Run (SystemStep host sha256) System.initial actions s)
    (hrange : s.server.shared < 2 ^ 32 - 1)
    (hinj : Set.InjOn sha256 {bytes | bytes ∈ s.hashed}) {download : Download}
    (hdownload : download ∈ s.downloads) :
    (∃! registration, registration ∈ s.registrations ∧
      registration.fileId = download.fileId) ∧
    (∀ registration ∈ s.registrations, registration.fileId = download.fileId →
      ∀ contents, registration.source = some contents →
        SavesOnly download contents registration.fileSize) ∧
    ∀ registration ∈ s.obtained, registration.fileId = download.fileId →
      ∃ contents, registration.source = some contents ∧
        SavesOnly download contents registration.fileSize := by
  have h := systemInv_run hrun (systemInv_initial host sha256) hrange
  have hchecked := h.downloads download hdownload
  obtain ⟨hash, ⟨backing, hbacking, hid, hsource⟩, hopened⟩ := hchecked.backed
  have hregistered : ∀ registration ∈ s.registrations, registration.fileId = download.fileId →
      ∀ contents, registration.source = some contents →
        SavesOnly download contents registration.fileSize := by
    intro registration hmem hsame contents hcontents
    -- the registration asked about is the one the location came from
    have heq := h.registration_eq hmem hbacking (hsame.trans hid.symm)
    subst heq
    obtain ⟨hhash, hsize⟩ := hsource contents hcontents
    exact hchecked.savesOnly hinj hopened (h.source_mem _ hmem contents hcontents) hhash hsize
  refine ⟨⟨backing, ⟨hbacking, hid⟩, ?_⟩, hregistered, ?_⟩
  · rintro other ⟨hmem, hsame⟩
    exact h.registration_eq hmem hbacking (hsame.trans hid.symm)
  · intro registration hobtained hsame
    obtain ⟨hmem, contents, hcontents⟩ := h.obtained_mem registration hobtained
    exact ⟨contents, hcontents, hregistered registration hmem hsame contents hcontents⟩

/-- One client shares a file with the single byte 7, another one gets it. -/
def sharedAndFetched : List SystemAction :=
  [.accept 5 ⟨9, 2⟩ (some 9),
    .register 1, .serve 5 (.bytes (registerMessage .little 9)) true, .read 1 true,
    .accept 6 ⟨1, 2⟩ (some 3),
    .register 2, .serve 6 (.bytes (registerMessage .little 3)) true, .read 2 true,
    .command 1 (.share [97] (some [7])),
    .serve 5 (.bytes (shareMessage .little ⟨1, sevenDigest, NameField.strncpy [97]⟩)) true,
    .read 1 true,
    .command 2 (.get 1), .serve 6 (.bytes (requestMessage .little 1)) true, .read 2 true,
    .download 2 ⟨52, sevenEnv.heap, true, sevenEnv.link, [sevenStart, sevenData].map some⟩]

def afterFetch : System :=
  sharedAndFetched.foldl (fun s action => s.apply .little sevenEnv.sha256 action) System.initial

/-- The byte arrives as it was shared. -/
theorem content_integrity_seven :
    afterFetch.obtained = [⟨1, 1, some [7]⟩] ∧
      afterFetch.downloads = [⟨1, some [7], true, some [7]⟩] ∧
      SavesOnly ⟨1, some [7], true, some [7]⟩ [7] 1 := by
  have hallowed : Run.Allowed System.Allows
      (fun s action => s.apply .little sevenEnv.sha256 action) System.initial
      sharedAndFetched := by
    decide +kernel
  have hrun : Run (SystemStep .little sevenEnv.sha256) System.initial sharedAndFetched
      afterFetch :=
    Run.of_allowed (fun _ _ hallows => ⟨hallows, rfl⟩) hallowed
  have hobtained : afterFetch.obtained = [⟨1, 1, some [7]⟩] := by decide +kernel
  have hdownloads : afterFetch.downloads = [⟨1, some [7], true, some [7]⟩] := by decide +kernel
  have hhashed : afterFetch.hashed = [[7], [7]] := by decide +kernel
  have hinj : Set.InjOn sevenEnv.sha256 {bytes | bytes ∈ afterFetch.hashed} := by
    intro bytes hbytes other hother _
    rw [Set.mem_ofPred_eq, hhashed] at hbytes hother
    simp only [List.mem_cons, List.not_mem_nil, or_false, or_self] at hbytes hother
    rw [hbytes, hother]
  have hmem : ⟨1, some [7], true, some [7]⟩ ∈ afterFetch.downloads := by
    rw [hdownloads]
    exact List.mem_singleton_self _
  have htold : ⟨1, 1, some [7]⟩ ∈ afterFetch.obtained := by
    rw [hobtained]
    exact List.mem_singleton_self _
  obtain ⟨-, -, hsaves⟩ := content_integrity hrun (by decide +kernel) hinj hmem
  obtain ⟨contents, hcontents, hsaves⟩ := hsaves _ htold rfl
  cases hcontents
  exact ⟨hobtained, hdownloads, hsaves⟩

end Directory
end PeerShare
