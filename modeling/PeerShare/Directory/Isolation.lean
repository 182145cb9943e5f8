import PeerShare.Directory.Identity
import PeerShare.Directory.Ownership

/-!
# Whole runs of the server

Ids stay unique over any run that does not exhaust a counter, whatever the
clients send.  An entry is appended under the next id and leaves with its owner
for good, so an id never comes to mean another file.

A connection acts under the id of its slot, also when that id is left over from
an earlier client.  Ids being unique, none of its messages reaches what belongs
to another client.
-/

namespace PeerShare
namespace Directory

open Foundation Wire

/-- An event of a server whose `accept` returns descriptors that are not open. -/
def FreshStep (host : ByteOrder) (server : Server) (event : ServerEvent)
    (server' : Server) : Prop :=
  ServerStep host server event server' ∧ FreshAccept server event

instance (server : Server) : (event : ServerEvent) → Decidable (FreshAccept server event)
  | .accept fd _ => inferInstanceAs (Decidable
      (∀ i, 0 < (server.clients i).fd → (server.clients i).fd ≠ fd))
  | .readable _ _ _ => isTrue trivial

theorem FreshStep.effect {host : ByteOrder} {server server' : Server} {event : ServerEvent}
    (hstep : FreshStep host server event server') : Effect host server event server' := by
  rw [hstep.1]
  exact apply_effect host server event

section Runs

variable {host : ByteOrder} {server server' : Server} {events : List ServerEvent}

theorem inRange_of_freshStep {event : ServerEvent} (hstep : FreshStep host server event server')
    (hrange : InRange server') : InRange server :=
  inRange_of_effect hstep.effect hrange

theorem inRange_of_freshRun (hrun : Run (FreshStep host) server events server')
    (hrange : InRange server') : InRange server :=
  hrun.within_start (Q := InRange) (fun _ _ _ => inRange_of_freshStep) hrange

theorem identityInv_run (hrun : Run (FreshStep host) server events server')
    (hstart : IdentityInv server) (hrange : InRange server') : IdentityInv server' :=
  hrun.invariant_within (Q := InRange) (fun _ _ _ => inRange_of_freshStep)
    (fun _ _ _ h hstep hrange => identityInv_effect h hstep.effect hstep.2 hrange) hstart hrange

/-- The part about clients needs no bound on the shares. -/
theorem clientIdentity_run (hrun : Run (FreshStep host) server events server')
    (hstart : ClientIdentity server) (hrange : server'.registered < 2 ^ 32 - 1) :
    ClientIdentity server' := by
  refine hrun.invariant_within (Q := fun server => server.registered < 2 ^ 32 - 1) ?_ ?_ hstart
    hrange
  · intro s event t hstep hrange
    exact lt_of_le_of_lt (counters_le_of_effect hstep.effect).1 hrange
  · intro s event t h hstep hrange
    exact clientIdentity_effect h hstep.effect hstep.2 hrange

/-! ## The history of an entry -/

/-- An event keeps entries, removes entries or appends one for a share. -/
theorem mem_files_of_effect {event : ServerEvent} (heffect : Effect host server event server')
    {file : DirectoryFile} (hfile : file ∈ server'.registry.files) :
    file ∈ server.registry.files ∨
      ∃ i share registry, server.registry.add (server.sharedFile i share) = some registry ∧
        server' = server.enter registry ∧ file = server.sharedFile i share := by
  cases heffect with
  | dropped => exact Or.inl ((dropClient_files_sublist _ _).mem hfile)
  | endedDropped => exact Or.inl ((dropClient_files_sublist _ _).mem hfile)
  | shared _ _ hadd =>
      rcases mem_enter_files hadd hfile with hold | hnew
      · exact Or.inl hold
      · exact Or.inr ⟨_, _, _, hadd, rfl, hnew⟩
  | _ => exact Or.inl hfile

/-- As long as it does not wrap, the counter of file ids only grows. -/
theorem nextFileId_le_of_effect {event : ServerEvent} (h : FileIdentity server)
    (heffect : Effect host server event server') (hrange : server'.shared < 2 ^ 32 - 1) :
    server.nextFileId ≤ server'.nextFileId := by
  have h' := fileIdentity_effect h heffect hrange
  rw [h.nextFileId_eq, h'.nextFileId_eq]
  exact Nat.succ_le_succ (counters_le_of_effect heffect).2

/-- What an entry of a later state was before: the same entry, or not yet
numbered. -/
structure FilesSince (before after : Server) : Prop where
  nextFileId_le : before.nextFileId ≤ after.nextFileId
  old_or_new : ∀ file ∈ after.registry.files,
    file ∈ before.registry.files ∨ before.nextFileId ≤ file.fileId

theorem FilesSince.refl (server : Server) : FilesSince server server where
  nextFileId_le := le_refl _
  old_or_new := fun _ hfile => Or.inl hfile

theorem FilesSince.effect {before : Server} {event : ServerEvent}
    (h : FilesSince before server) (hfiles : FileIdentity server)
    (heffect : Effect host server event server') (hrange : server'.shared < 2 ^ 32 - 1) :
    FilesSince before server' where
  nextFileId_le := le_trans h.nextFileId_le (nextFileId_le_of_effect hfiles heffect hrange)
  old_or_new := by
    intro file hfile
    rcases mem_files_of_effect heffect hfile with hold | ⟨i, share, registry, -, -, rfl⟩
    · exact h.old_or_new file hold
    · exact Or.inr h.nextFileId_le

theorem filesSince_run {step : Server → ServerEvent → Server → Prop}
    (hstep : ∀ s event t, step s event t → Effect host s event t)
    (hrun : Run step server events server') (hstart : FileIdentity server)
    (hrange : server'.shared < 2 ^ 32 - 1) :
    FileIdentity server' ∧ FilesSince server server' := by
  refine hrun.invariant_within (P := fun later => FileIdentity later ∧ FilesSince server later)
    (Q := fun server => server.shared < 2 ^ 32 - 1) ?_ ?_ ⟨hstart, FilesSince.refl server⟩ hrange
  · intro s event t hst hrange
    exact lt_of_le_of_lt (counters_le_of_effect (hstep s event t hst)).2 hrange
  · rintro s event t ⟨hfiles, hsince⟩ hst hrange
    exact ⟨fileIdentity_effect hfiles (hstep s event t hst) hrange,
      hsince.effect hfiles (hstep s event t hst) hrange⟩

/-- An entry that is found under an id in both states is the same entry. -/
theorem FilesSince.findFile_eq (h : FilesSince server server') (hfiles : FileIdentity server)
    {fileId : Nat} {file later : DirectoryFile}
    (hfile : server.registry.findFile fileId = some file)
    (hlater : server'.registry.findFile fileId = some later) : later = file := by
  have hmem : file ∈ server.registry.files := List.mem_of_find?_eq_some hfile
  have hmem' : later ∈ server'.registry.files := List.mem_of_find?_eq_some hlater
  have hid : file.fileId = fileId := by simpa using List.find?_some hfile
  have hid' : later.fileId = fileId := by simpa using List.find?_some hlater
  rcases h.old_or_new later hmem' with hold | hnew
  · have hfound := hfiles.findFile_eq hold
    rw [hid', hfile] at hfound
    exact (Option.some.inj hfound).symm
  · -- the id was given out before, so it is not a new one
    have hlt := hfiles.fileId_lt file hmem
    omega

/-- An id that was given out and is gone is gone for good. -/
theorem FilesSince.findFile_none (h : FilesSince server server') {fileId : Nat}
    (hused : fileId < server.nextFileId) (hgone : server.registry.findFile fileId = none) :
    server'.registry.findFile fileId = none := by
  cases hfound : server'.registry.findFile fileId with
  | none => rfl
  | some file =>
      have hmem : file ∈ server'.registry.files := List.mem_of_find?_eq_some hfound
      have hid : file.fileId = fileId := by simpa using List.find?_some hfound
      rcases h.old_or_new file hmem with hold | hnew
      · have hmissing := List.find?_eq_none.mp hgone file hold
        simp [hid] at hmissing
      · omega

end Runs

/-! ## The registry over a run -/

/-- What the ids of a state name. -/
structure IdsDistinct (server : Server) : Prop where
  numFiles_le : server.registry.files.length ≤ maxFiles
  fileId_increasing :
    server.registry.files.Pairwise fun file later => file.fileId < later.fileId
  fileId_lt : ∀ file ∈ server.registry.files, file.fileId < server.nextFileId
  ownerId_lt : ∀ file ∈ server.registry.files, file.ownerId < server.nextClientId
  clientId_lt : ∀ i, (server.clients i).active = true →
    (server.clients i).clientId < server.nextClientId
  clientId_inj : ∀ i j, (server.clients i).active = true → (server.clients j).active = true →
    (server.clients i).clientId = (server.clients j).clientId → i = j
  fd_inj : ∀ i j, 0 < (server.clients i).fd →
    (server.clients i).fd = (server.clients j).fd → i = j

theorem IdentityInv.idsDistinct {server : Server} (h : IdentityInv server) :
    IdsDistinct server where
  numFiles_le := server.registry.length_le
  fileId_increasing := h.increasing
  fileId_lt := h.fileId_lt
  ownerId_lt := h.ownerId_lt
  clientId_lt := fun i _ => h.clientId_lt i
  clientId_inj := fun i j hi _ hsame => h.clientId_inj i j hsame (h.clientId_ne i hi)
  fd_inj := fun i j hpos hsame => h.fd_inj i j hsame hpos

/-- In every run that does not exhaust the counters, ids name one thing in every
state, the entry of an id stays as it is while it is there, and an id that was
removed is never found again. -/
theorem registry_identity {host : ByteOrder} {server later latest : Server}
    {events laterEvents latestEvents : List ServerEvent}
    (hreach : Run (FreshStep host) Server.initial events server)
    (hlater : Run (FreshStep host) server laterEvents later)
    (hlatest : Run (FreshStep host) later latestEvents latest) (hrange : InRange latest) :
    IdsDistinct server ∧
      (∀ fileId file file', server.registry.findFile fileId = some file →
        later.registry.findFile fileId = some file' → file' = file) ∧
      ∀ fileId file, server.registry.findFile fileId = some file →
        later.registry.findFile fileId = none → latest.registry.findFile fileId = none := by
  have hrange' := inRange_of_freshRun hlatest hrange
  have hinv := identityInv_run hreach identityInv_initial (inRange_of_freshRun hlater hrange')
  obtain ⟨hfiles, hsince⟩ := filesSince_run (fun _ _ _ => FreshStep.effect) hlater
    hinv.toFileIdentity hrange'.2
  obtain ⟨-, hsince'⟩ := filesSince_run (fun _ _ _ => FreshStep.effect) hlatest hfiles hrange.2
  refine ⟨hinv.idsDistinct, ?_, ?_⟩
  · intro fileId file file' hfile hfile'
    exact hsince.findFile_eq hinv.toFileIdentity hfile hfile'
  · intro fileId file hfile hgone
    have hmem : file ∈ server.registry.files := List.mem_of_find?_eq_some hfile
    have hid : file.fileId = fileId := by simpa using List.find?_some hfile
    -- the id was given out long ago, so no later share gets it
    have hused : fileId < later.nextFileId := by
      rw [← hid]
      exact lt_of_lt_of_le (hinv.fileId_lt file hmem) hsince.nextFileId_le
    exact hsince'.findFile_none hused hgone

/-- Events with fresh descriptors are a run. -/
theorem freshRun_after {host : ByteOrder} (before : List ServerEvent) {events : List ServerEvent}
    (hallowed : Run.Allowed FreshAccept (fun server event => (server.apply host event).server)
      (Server.after host before) events) :
    Run (FreshStep host) (Server.after host before) events
      (Server.after host (before ++ events)) := by
  rw [Server.after, Server.after, List.foldl_append]
  exact Run.of_allowed (fun _ _ hfresh => ⟨rfl, hfresh⟩) hallowed

/-- A client registers and shares. -/
def firstShare : List ServerEvent :=
  [.accept 5 ⟨1, 2⟩, fromConnection 5 registration, fromConnection 5 offer]

/-- It leaves, and another client does the same. -/
def secondShare : List ServerEvent :=
  [.accept 6 ⟨3, 4⟩, fromConnection 6 registration, fromConnection 6 offer]

/-- File 1 is gone with its owner and is not found again when a second client
has shared a file. -/
theorem registry_identity_two_shares :
    (Server.after .little (firstShare ++ [fromConnection 5 []] ++ secondShare)).registry.findFile 1 =
        none ∧
      (Server.after .little
        (firstShare ++ [fromConnection 5 []] ++ secondShare)).registry.files.length = 1 := by
  have hfirst : Run (FreshStep .little) Server.initial firstShare
      (Server.after .little firstShare) := freshRun_after [] (by decide +kernel)
  have hleaves : Run (FreshStep .little) (Server.after .little firstShare) [fromConnection 5 []]
      (Server.after .little (firstShare ++ [fromConnection 5 []])) :=
    freshRun_after firstShare (by decide +kernel)
  have hsecond : Run (FreshStep .little) (Server.after .little (firstShare ++ [fromConnection 5 []]))
      secondShare (Server.after .little (firstShare ++ [fromConnection 5 []] ++ secondShare)) :=
    freshRun_after (firstShare ++ [fromConnection 5 []]) (by decide +kernel)
  have hrange : InRange (Server.after .little
      (firstShare ++ [fromConnection 5 []] ++ secondShare)) :=
    ⟨by decide +kernel, by decide +kernel⟩
  have hfound : ∃ file, (Server.after .little firstShare).registry.findFile 1 = some file :=
    Option.isSome_iff_exists.mp (by decide +kernel)
  obtain ⟨file, hfile⟩ := hfound
  refine ⟨(registry_identity hfirst hleaves hsecond hrange).2.2 1 file hfile ?_, ?_⟩
  · decide +kernel
  · decide +kernel

/-! ## One client's messages and another's entries -/

/-- The client in slot `j` keeps its slot and its files, and nothing is sent to
it. -/
structure LeavesAlone (server : Server) (j : Fin maxClients) (result : ServerResult) : Prop where
  slot : result.server.clients j = server.clients j
  files : result.server.filesOf (server.clients j).clientId =
    server.filesOf (server.clients j).clientId
  silent : ∀ reply ∈ result.replies, reply.fd ≠ (server.clients j).fd

/-- Whatever a handler sends goes to the connection it serves. -/
theorem fd_of_handle_reply {host : ByteOrder} {server : Server} {i : Fin maxClients}
    {message : ClientMessage} {room : Bool} {reply : Reply}
    (hreply : reply ∈ (server.handle host i message room).replies) :
    reply.fd = (server.clients i).fd := by
  cases message with
  | register udpPort =>
      rw [List.mem_singleton.mp hreply]
  | shareFile share =>
      simp only [Server.handle, Server.handleShareFile] at hreply
      split at hreply <;> rw [List.mem_singleton.mp hreply]
  | listFiles =>
      simp only [Server.handle, Server.handleListFiles] at hreply
      split at hreply
      · cases hreply
      · rw [List.mem_singleton.mp hreply]
  | requestFile fileId =>
      simp only [Server.handle, Server.handleRequestFile] at hreply
      split at hreply <;> rw [List.mem_singleton.mp hreply]
  | unregister => cases hreply

theorem fd_of_process_reply {host : ByteOrder} {server : Server} {i : Fin maxClients}
    {data : Bytes} {room : Bool} {reply : Reply}
    (hreply : reply ∈ (server.processClientMessage host i data room).replies) :
    reply.fd = (server.clients i).fd := by
  unfold Server.processClientMessage at hreply
  split at hreply
  · cases hreply
  · exact fd_of_handle_reply hreply

/-- What is read from a connection is sent back on it, if anything is sent. -/
theorem fd_of_receive_reply {host : ByteOrder} {server : Server} {fd : Int}
    {recv : Recv} {room : Bool} {reply : Reply}
    (hreply : reply ∈ (server.receive host fd recv room).replies) : reply.fd = fd := by
  unfold Server.receive at hreply
  split at hreply
  · cases hreply
  · next i hfind =>
      rw [← (Server.fd_of_findClientByFd hfind).1]
      rcases recv with _ | data
      · cases hreply
      · cases data with
        | nil => cases hreply
        | cons byte data => exact fd_of_process_reply hreply

section Alone

variable {host : ByteOrder} {server : Server} {i j : Fin maxClients}

/-- Anything read from a connection leaves the other clients alone. -/
theorem ClientIdentity.receive_leavesAlone (h : ClientIdentity server)
    (hopen : 0 < (server.clients i).fd) (hij : i ≠ j) (hactive : (server.clients j).active = true)
    (recv : Recv) (room : Bool) :
    LeavesAlone server j (server.receive host (server.clients i).fd recv room) := by
  have hfind := findClientByFd_eq h.fd_inj hopen
  -- the descriptor leads to slot `i` and to no other
  have hother : ¬ server.Touches j (.readable (server.clients i).fd recv room) := by
    intro htouches
    change server.findClientByFd (server.clients i).fd = some j at htouches
    rw [hfind] at htouches
    exact hij (Option.some.inj htouches)
  have heffect := apply_effect host server (.readable (server.clients i).fd recv room)
  obtain ⟨hslot, hfiles⟩ := effect_other h heffect hother
  constructor
  · exact hslot
  · exact hfiles hactive
  · intro reply hreply hsame
    rw [fd_of_receive_reply hreply] at hsame
    exact hij (h.fd_inj i j hsame hopen)

theorem ClientIdentity.process_leavesAlone (h : ClientIdentity server)
    (hopen : 0 < (server.clients i).fd) (hij : i ≠ j) (hactive : (server.clients j).active = true)
    (data : Bytes) (room : Bool) :
    LeavesAlone server j (server.processClientMessage host i data room) := by
  cases data with
  | nil => exact ⟨rfl, rfl, fun reply hreply => by cases hreply⟩
  | cons byte data =>
      have hreceive : LeavesAlone server j
          (server.receive host (server.clients i).fd (.bytes (byte :: data)) room) :=
        h.receive_leavesAlone hopen hij hactive _ room
      rw [Server.receive, findClientByFd_eq h.fd_inj hopen] at hreceive
      exact hreceive

end Alone

/-- In every reachable state, whatever a connection sends, and also its end,
leaves every other active client alone. -/
theorem clients_isolated {host : ByteOrder} {server : Server} {events : List ServerEvent}
    (hrun : Run (FreshStep host) Server.initial events server)
    (hrange : server.registered < 2 ^ 32 - 1) {i j : Fin maxClients}
    (hopen : 0 < (server.clients i).fd) (hij : i ≠ j)
    (hactive : (server.clients j).active = true) :
    (∀ data room, LeavesAlone server j (server.processClientMessage host i data room)) ∧
      ∀ recv, recv = .error ∨ recv = .bytes [] → ∀ room,
        LeavesAlone server j (server.receive host (server.clients i).fd recv room) := by
  have hinv := clientIdentity_run hrun clientIdentity_initial hrange
  constructor
  · intro data room
    exact hinv.process_leavesAlone hopen hij hactive data room
  · intro recv _ room
    exact hinv.receive_leavesAlone hopen hij hactive recv room

/-- Two clients share one file each. -/
def twoShares : List ServerEvent := firstShare ++ secondShare

/-- The end of the first connection removes its file and leaves the second
client alone. -/
theorem clients_isolated_two_shares :
    LeavesAlone (Server.after .little twoShares) 1
        ((Server.after .little twoShares).receive .little 5 (.bytes []) true) ∧
      ((Server.after .little twoShares).receive .little 5 (.bytes [])
        true).server.registry.files.length = 1 := by
  have hrun : Run (FreshStep .little) Server.initial twoShares (Server.after .little twoShares) :=
    freshRun_after [] (by decide +kernel)
  have hfd : ((Server.after .little twoShares).clients 0).fd = 5 := by decide +kernel
  have hopen : 0 < ((Server.after .little twoShares).clients 0).fd := by
    rw [hfd]
    decide
  have hend := (clients_isolated hrun (by decide +kernel) hopen (by decide)
    (show ((Server.after .little twoShares).clients 1).active = true by decide +kernel)).2
    (.bytes []) (Or.inr rfl) true
  rw [hfd] at hend
  exact ⟨hend, by decide +kernel⟩

end Directory
end PeerShare
