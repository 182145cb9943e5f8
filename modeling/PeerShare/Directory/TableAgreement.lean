import PeerShare.Client.RunningTransfer
import PeerShare.Directory.Dialogue

/-!
# The registry agrees with the clients' tables

The server and every client keep a list of the files the client shares.  The
two are written at different times by different processes: the server appends
when the share arrives and drops entries when the client leaves, the client
appends when the acknowledgement arrives and never drops anything.  They have
limits of their own, and only the server's is ever reached.

`NetworkInv` links every client that is still there to a slot; the dialogue on
that connection does the rest.
-/

namespace PeerShare
namespace Directory

open Foundation Wire Client SelectiveRepeat

/-- Every client that is still there is linked to a slot. -/
structure NetworkInv (host : ByteOrder) (net : Network) : Prop where
  identity : IdentityInv net.server
  linked : ∀ n, (net.peers n).phase ≠ .closed →
    ∃ i, LinkedAt host net.server n (net.peers n) i

/-! ## Runs -/

theorem networkInv_initial (host : ByteOrder) : NetworkInv host Network.initial where
  identity := identityInv_initial
  linked := by
    intro n hliving
    exact absurd rfl hliving

/-- What a client does on its own keeps the connection, and a client that is
gone stays away. -/
structure Peer.Continues (peer peer' : Peer) : Prop where
  fd_eq : peer'.fd = peer.fd
  addr_eq : peer'.addr = peer.addr
  closed : peer.phase = .closed → peer'.phase = .closed

theorem Peer.Continues.refl (peer : Peer) : peer.Continues peer := ⟨rfl, rfl, id⟩

/-- A client in another phase is not closed, whatever it does next. -/
theorem Peer.Continues.of_phase {peer peer' : Peer} {phase : ClientPhase}
    (hphase : peer.phase = phase) (hliving : phase ≠ .closed) (hfd : peer'.fd = peer.fd)
    (haddr : peer'.addr = peer.addr) : peer.Continues peer' :=
  ⟨hfd, haddr, fun hclosed => absurd (hphase.symm.trans hclosed) hliving⟩

section Continues

variable (host : ByteOrder) (peer : Peer)

theorem register_continues : peer.Continues (peer.register host) := by
  unfold Peer.register
  split
  · next hphase => exact .of_phase hphase (by simp) rfl rfl
  · exact .refl peer

theorem command_continues (sha256 : Bytes → HashBytes) (command : Command) :
    peer.Continues (peer.command host sha256 command) := by
  unfold Peer.command
  split
  · next hphase =>
      cases command with
      | share filename file =>
          cases hannounce : announce sha256 filename file with
          | none =>
              simp only [hannounce]
              exact .of_phase hphase (by simp) rfl rfl
          | some share =>
              simp only [hannounce]
              exact .of_phase hphase (by simp) rfl rfl
      | list => exact .of_phase hphase (by simp) rfl rfl
      | get fileId => exact .of_phase hphase (by simp) rfl rfl
      | quit => exact .of_phase hphase (by simp) rfl rfl
  · exact .refl peer

theorem read_continues (room : Bool) : peer.Continues (peer.read host room) := by
  unfold Peer.read
  split
  · next hphase => split <;> exact .of_phase hphase (by simp) rfl rfl
  · next hphase => split <;> exact .of_phase hphase (by simp) rfl rfl
  · next hphase => split <;> exact .of_phase hphase (by simp) rfl rfl
  · next hphase => split <;> exact .of_phase hphase (by simp) rfl rfl
  · exact .refl peer

theorem fetched_continues (success : Bool) : peer.Continues (peer.fetched host success) := by
  unfold Peer.fetched
  split
  · next hphase => split <;> exact .of_phase hphase (by simp) rfl rfl
  · exact .refl peer

end Continues

/-- A client moves on its own: its link is judged by what it does to the
dialogue. -/
theorem NetworkInv.setPeer {host : ByteOrder} {net : Network} (h : NetworkInv host net)
    {n : Nat} {peer : Peer} (hmove : (net.peers n).Continues peer)
    (hdialogue : ∀ i, Dialogue host (net.peers n) (net.server.clients i) (net.server.listing i) →
      Dialogue host peer (net.server.clients i) (net.server.listing i)) :
    NetworkInv host (net.setPeer n peer) where
  identity := h.identity
  linked := by
    intro m hm
    by_cases hmn : m = n
    · subst hmn
      have hself : (net.setPeer m peer).peers m = peer := Function.update_self ..
      rw [hself] at hm ⊢
      obtain ⟨i, hlink⟩ := h.linked m (fun hclosed => hm (hmove.closed hclosed))
      exact ⟨i, hlink.move rfl rfl rfl rfl ⟨hmove.fd_eq, hmove.addr_eq⟩
        (hdialogue i hlink.dialogue)⟩
    · have hother : (net.setPeer n peer).peers m = net.peers m := Function.update_of_ne hmn ..
      rw [hother] at hm ⊢
      exact h.linked m hm

theorem NetworkInv.served_other {host : ByteOrder} {net : Network} (h : NetworkInv host net)
    {fd : Int} {i : Fin maxClients} (hfind : net.server.findClientByFd fd = some i) (recv : Recv)
    (room : Bool) {m : Nat} (hliving : (net.peers m).phase ≠ .closed)
    (hm : m ≠ (net.server.clients i).conn) :
    ∃ j, LinkedAt host (net.server.apply host (.readable fd recv room)).server m
      (net.peers m) j := by
  obtain ⟨j, hlink⟩ := h.linked m hliving
  refine ⟨j, hlink.other h.identity ?_⟩
  intro htouches
  have hij : i = j := Option.some.inj (hfind.symm.trans htouches)
  exact hm (hij ▸ hlink.conn_eq.symm)

theorem NetworkInv.exchange {host : ByteOrder} {net : Network} (h : NetworkInv host net)
    {fd : Int} {i : Fin maxClients} (hfind : net.server.findClientByFd fd = some i)
    {message : Bytes} {pending : List Bytes}
    (hsent : (net.peers (net.server.clients i).conn).toServer = message :: pending) (room : Bool)
    (hrange : InRange (net.server.apply host (.readable fd (.bytes message) room)).server) :
    NetworkInv host (net.exchange host (net.server.clients i).conn
      (.readable fd (.bytes message) room) pending) := by
  have heffect := apply_effect host net.server (.readable fd (.bytes message) room)
  refine ⟨identityInv_effect h.identity heffect trivial hrange, ?_⟩
  intro m hliving
  by_cases hm : m = (net.server.clients i).conn
  · subst hm
    simp only [Network.exchange, Function.update_self, answer_phase] at hliving ⊢
    obtain ⟨j, hlink⟩ := h.linked _ hliving
    -- the connection of the client is the one being read
    have hji : j = i := h.identity.numbered.conn_inj j i hlink.conn_eq
      (h.identity.numbered.conn_of_fd j hlink.fd_pos)
    rw [hji] at hlink
    exact ⟨i, hlink.serve hliving h.identity (inRange_of_effect heffect hrange) hfind hsent room⟩
  · simp only [Network.exchange, Function.update_of_ne hm] at hliving ⊢
    exact h.served_other hfind _ _ hliving hm

theorem NetworkInv.serve {host : ByteOrder} {net : Network} (h : NetworkInv host net) (fd : Int)
    (room reset : Bool) (hrange : InRange (net.serve host fd room reset).server) :
    NetworkInv host (net.serve host fd room reset) := by
  revert hrange
  unfold Network.serve
  cases hfind : net.server.findClientByFd fd with
  | none => exact fun _ => h
  | some i =>
      cases hsent : (net.peers (net.server.clients i).conn).toServer with
      | cons message pending =>
          simp only [hsent]
          exact h.exchange hfind hsent room
      | nil =>
          simp only [hsent]
          split
          · next hclosed =>
              intro hrange
              have heffect := apply_effect host net.server
                (.readable fd (if reset then Recv.error else Recv.bytes []) room)
              refine ⟨identityInv_effect h.identity heffect trivial hrange, ?_⟩
              intro m hliving
              refine h.served_other hfind _ _ hliving ?_
              rintro rfl
              exact hliving hclosed
          · exact fun _ => h

theorem NetworkInv.accept {host : ByteOrder} {net : Network} (h : NetworkInv host net) {fd : Int}
    {addr : SockAddr} {udpPort : UInt16} (hallows : net.Allows (.accept fd addr udpPort))
    (hrange : InRange (net.accept host fd addr udpPort).server) :
    NetworkInv host (net.accept host fd addr udpPort) := by
  obtain ⟨hfd, hfresh, hplace⟩ := hallows
  revert hrange
  unfold Network.accept
  cases hfree : net.server.freeSlot with
  | none => exact fun _ => h
  | some i =>
      intro hrange
      have heffect := apply_effect host net.server (.accept fd addr)
      refine ⟨identityInv_effect h.identity heffect (fun i _ => hfresh i) hrange, ?_⟩
      intro m hliving
      by_cases hm : m = net.server.accepted + 1
      · subst hm
        simp only [Function.update_self] at hliving ⊢
        have hserver : (net.server.apply host (.accept fd addr)).server =
            net.server.place i fd addr := by
          simp only [Server.apply, Server.acceptNewClient, if_neg (not_lt.mpr hfd.le), hfree]
        have hslot := Server.place_clients_self net.server i fd addr
        rw [hserver]
        refine ⟨i, ?_, ?_, ?_, ?_, ?_⟩
        · rw [hslot]
        · rw [hslot]
          exact hfd
        · rw [hslot]
          rfl
        · rw [hslot]
          rfl
        · rw [hslot]
          exact ⟨rfl, rfl, rfl, rfl⟩
      · simp only [Function.update_of_ne hm] at hliving ⊢
        obtain ⟨j, hlink⟩ := h.linked m hliving
        refine ⟨j, hlink.other h.identity ?_⟩
        -- the slot taken holds no client that is still there
        intro htouches
        rcases hplace j htouches with hnone | hgone
        · exact absurd hlink.fd_pos (not_lt.mpr hnone)
        · rw [hlink.conn_eq] at hgone
          exact hliving hgone

theorem networkInv_step {host : ByteOrder} {sha256 : Bytes → HashBytes} {net net' : Network}
    {action : NetworkAction} (h : NetworkInv host net)
    (hstep : NetworkStep host sha256 net action net') (hrange : InRange net'.server) :
    NetworkInv host net' := by
  obtain ⟨hallows, rfl⟩ := hstep
  cases action with
  | accept fd addr udpPort => exact h.accept hallows hrange
  | serve fd room reset => exact h.serve fd room reset hrange
  | register n => exact h.setPeer (register_continues host _) fun i hd => hd.register
  | command n command =>
      exact h.setPeer (command_continues host _ sha256 command)
        fun i hd => hd.command sha256 command
  | read n room =>
      refine h.setPeer (read_continues host _ room) ?_
      intro i hdialogue
      have hid : (net.server.clients i).clientId < 2 ^ 32 := by
        have hlt := h.identity.clientId_lt i
        have hregistered : net.server.registered < 2 ^ 32 - 1 := hrange.1
        rw [h.identity.nextClientId_eq] at hlt
        omega
      exact hdialogue.read hid (listing_length_le net.server i) room
  | fetched n success =>
      exact h.setPeer (fetched_continues host _ success) fun i hd => hd.fetched success
  | disconnect n arriving =>
      exact h.setPeer ⟨rfl, rfl, fun _ => rfl⟩ fun i _ => dialogue_of_closed rfl

theorem inRange_of_networkStep {host : ByteOrder} {sha256 : Bytes → HashBytes}
    {net net' : Network} {action : NetworkAction}
    (hstep : NetworkStep host sha256 net action net') (hrange : InRange net'.server) :
    InRange net.server := by
  obtain ⟨-, rfl⟩ := hstep
  have hevent : ∀ event, InRange (net.server.apply host event).server → InRange net.server :=
    fun event => inRange_of_effect (apply_effect host net.server event)
  cases action with
  | accept fd addr udpPort =>
      simp only [Network.apply, Network.accept] at hrange
      split at hrange
      · exact hrange
      · exact hevent _ hrange
  | serve fd room reset =>
      simp only [Network.apply, Network.serve] at hrange
      split at hrange
      · exact hrange
      · split at hrange
        · exact hevent _ hrange
        · split at hrange
          · exact hevent _ hrange
          · exact hrange
  | _ => exact hrange

theorem networkInv_run {host : ByteOrder} {sha256 : Bytes → HashBytes}
    {actions : List NetworkAction} {net : Network}
    (hrun : Run (NetworkStep host sha256) Network.initial actions net)
    (hrange : InRange net.server) : NetworkInv host net :=
  hrun.invariant_within (Q := fun net => InRange net.server)
    (fun _ _ _ hstep => inRange_of_networkStep hstep)
    (fun _ _ _ => networkInv_step) (networkInv_initial host) hrange

/-! ## Agreement -/

/-- The location a client's file should be found at. -/
def Peer.locationOf (peer : Peer) (file : SharedFile) : FileLocation where
  fileId := file.fileId
  fileSize := file.fileSize
  hash := file.hash
  peer := { ip := peer.addr.ip, port := peer.udpPort }
  filename := file.fileName

/-- What the directory knows about a client is what the client knows. -/
structure TablesAgree (host : ByteOrder) (server : Server) (peer : Peer) : Prop where
  /-- The entries of the client are its table, in the same order. -/
  entries : (server.filesOf peer.clientId).map DirectoryFile.entry = peer.table.files
  /-- Whoever asks for one of them is sent to the client. -/
  located : ∀ file ∈ peer.table.files, ∀ i,
    (server.handleRequestFile host i file.fileId).replies =
      [⟨(server.clients i).fd,
        controlMessage host tcpFileLocation errNone ((peer.locationOf file).image host)⟩]
  /-- And reads in the answer what the client has in its table. -/
  readable : ∀ file ∈ peer.table.files,
    readFileLocation host file.fileId
        (controlMessage host tcpFileLocation errNone ((peer.locationOf file).image host)) =
      .done (peer.locationOf file) []
  /-- So that the request built from the answer passes the client's checks. -/
  served : ∀ file ∈ peer.table.files,
    requestedFile host peer.table
        (Datagram.recv (buildRequestFile host file.fileId (peer.locationOf file).hash)) = .ok file

/-- A client about to enter a file has room for it. -/
def RoomForShare (host : ByteOrder) (peer : Peer) : Prop :=
  ∀ share filename fileId rest, peer.phase = .sharing share filename →
    readShareAck host peer.inbox = .done fileId rest → peer.table.files.length < maxSharedFiles

theorem LinkedAt.tablesAgree {host : ByteOrder} {server : Server} {n : Nat} {peer : Peer}
    {i : Fin maxClients} (h : LinkedAt host server n peer i) (hphase : peer.phase = .idle)
    (hidentity : IdentityInv server) (hrange : InRange server) :
    TablesAgree host server peer := by
  have hdialogue := h.dialogue
  rw [Dialogue, hphase] at hdialogue
  obtain ⟨⟨⟨hactive, hport, hclient⟩, hlisted⟩, -⟩ := hdialogue
  rw [Server.listing, if_pos hactive, hclient] at hlisted
  -- every entry of the table stands for one of the registry
  have hentry : ∀ file ∈ peer.table.files, ∃ listed ∈ server.registry.files,
      listed.ownerId = (server.clients i).clientId ∧ listed.entry = file := by
    intro file hfile
    rw [← hlisted, List.mem_map] at hfile
    obtain ⟨listed, hmem, hsame⟩ := hfile
    rw [Server.filesOf, List.mem_filter, decide_eq_true_iff] at hmem
    exact ⟨listed, hmem.1, hmem.2.trans hclient.symm, hsame⟩
  have hnodup : (peer.table.files.map SharedFile.fileId).Nodup := by
    rw [← hlisted, List.map_map]
    exact (List.Sublist.map _ List.filter_sublist).nodup hidentity.fileId_nodup
  have hid : ∀ file ∈ peer.table.files, file.fileId < 2 ^ 32 ∧ file.fileSize < 2 ^ 32 := by
    intro file hfile
    obtain ⟨listed, hmem, -, rfl⟩ := hentry file hfile
    have hlt := hidentity.fileId_lt listed hmem
    have hshared := hrange.2
    rw [hidentity.nextFileId_eq] at hlt
    exact ⟨by show listed.fileId < _; omega, (hidentity.formed listed hmem).1⟩
  constructor
  · exact hlisted
  · intro file hfile j
    obtain ⟨listed, hmem, howner, rfl⟩ := hentry file hfile
    have hlocate := hidentity.locate_eq hactive hmem howner
    rw [h.addr_eq, hport] at hlocate
    show (server.handleRequestFile host j listed.fileId).replies = _
    rw [Server.handleRequestFile, hlocate]
    rfl
  · intro file hfile
    exact readFileLocation_done host (hid file hfile).1 (hid file hfile).2
  · intro file hfile
    exact requestedFile_buildRequestFile host (hid file hfile).1
      (find?_eq_of_nodup_keys hnodup hfile)

theorem LinkedAt.roomForShare {host : ByteOrder} {server : Server} {n : Nat} {peer : Peer}
    {i : Fin maxClients} (h : LinkedAt host server n peer i) : RoomForShare host peer := by
  intro share filename fileId rest hphase hread
  have hdialogue := h.dialogue
  rw [Dialogue, hphase] at hdialogue
  obtain ⟨-, -, ⟨-, -, hinbox⟩ | ⟨-, errorCode, -, hinbox⟩ | ⟨-, given, -, hlisted, -⟩⟩ :=
    hdialogue
  · rw [hinbox] at hread
    cases hread
  · rw [hinbox, readShareAck, Server.errorResponse, readReply_error] at hread
    cases hread
  · have hlength := listing_length_le server i
    rw [hlisted, List.length_append, List.length_singleton] at hlength
    exact hlength

/-- However the clients and the server take turns, a registered client that
waits for nothing finds its own table in the directory, and no client ever
shares a file its table has no room for. -/
theorem directory_matches_tables (host : ByteOrder) (sha256 : Bytes → HashBytes)
    {actions : List NetworkAction} {net : Network}
    (hrun : Run (NetworkStep host sha256) Network.initial actions net)
    (hrange : InRange net.server) :
    (∀ n, (net.peers n).phase = .idle → TablesAgree host net.server (net.peers n)) ∧
      ∀ n, RoomForShare host (net.peers n) := by
  have hinv := networkInv_run hrun hrange
  constructor
  · intro n hphase
    obtain ⟨i, hlink⟩ := hinv.linked n (by simp [hphase])
    exact hlink.tablesAgree hphase hinv.identity hrange
  · intro n share filename fileId rest hphase
    obtain ⟨i, hlink⟩ := hinv.linked n (by simp [hphase])
    exact hlink.roomForShare share filename fileId rest hphase

/-! ## One client and one file -/

/-- The SHA-256 hash of the one-byte file `a`. -/
def hashOfA : HashBytes :=
  HashBytes.ofImage
    [0xca, 0x97, 0x81, 0x12, 0xca, 0x1b, 0xbd, 0xca, 0xfa, 0xc2, 0x31,
      0xb3, 0x9a, 0x23, 0xdc, 0x4d, 0xa7, 0x86, 0xef, 0xf8, 0x14, 0x7c,
      0x4e, 0x72, 0xb9, 0x80, 0x77, 0x85, 0xaf, 0xee, 0x48, 0xbb]

/-- A client connects, registers and shares the file `a`. -/
def oneShare : List NetworkAction :=
  [.accept 5 ⟨1, 2⟩ 4000,
    .register 1, .serve 5 true false, .read 1 true,
    .command 1 (.share [97] (some [97])), .serve 5 true false, .read 1 true]

def afterOneShare : Network :=
  oneShare.foldl (fun net action => net.apply .little (fun _ => hashOfA) action) Network.initial

theorem one_share_agrees :
    (afterOneShare.peers 1).table.files = [shareEntry 1 ⟨1, hashOfA, NameField.strncpy [97]⟩ [97]] ∧
      TablesAgree .little afterOneShare.server (afterOneShare.peers 1) := by
  have hallowed : Run.Allowed Network.Allows
      (fun net action => net.apply .little (fun _ => hashOfA) action) Network.initial
      oneShare := by
    decide +kernel
  have hrun : Run (NetworkStep .little fun _ => hashOfA) Network.initial oneShare
      afterOneShare :=
    Run.of_allowed (fun _ _ hallows => ⟨hallows, rfl⟩) hallowed
  have hrange : InRange afterOneShare.server := ⟨by decide +kernel, by decide +kernel⟩
  exact ⟨by decide +kernel,
    (directory_matches_tables .little (fun _ => hashOfA) hrun hrange).1 1 (by decide +kernel)⟩

end Directory
end PeerShare
