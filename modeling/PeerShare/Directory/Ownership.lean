import PeerShare.Directory.Connections

/-!
# Who owns the listed files

Every entry of the registry carries the id of the client that shared it, and
the entry leaves when that client does.  For this to work an owner has to be an
active client at all times, and two handlers can break it: `TCP_SHARE_FILE`
from a slot nobody registered in enters a file under a stale id, and
`TCP_REGISTER` from a slot that is active gives the client a new id and leaves
its files under the old one.

A step without these two is orderly.  Runs of orderly steps keep the ownership;
one share before the registration is enough to lose it.
-/

namespace PeerShare
namespace Directory

open Foundation Wire

/-- What the registry promises about owners and connections. -/
structure WellOwned (host : ByteOrder) (server : Server) : Prop where
  /-- Every listed file belongs to an active client. -/
  owner_active : ∀ file ∈ server.registry.files,
    ∃ i, (server.clients i).active = true ∧ (server.clients i).clientId = file.ownerId
  numClients_eq : server.numClients = slotCount ClientSlot.active server.clients
  /-- Nobody who asks for a listed file is told that it has no peers. -/
  never_noPeers : ∀ file ∈ server.registry.files, ∀ fd data room,
    readMessage host data = some (.requestFile file.fileId) →
      ∀ reply ∈ (server.apply host (.readable fd (.bytes data) room)).replies,
        reply.bytes ≠ Server.errorResponse host errNoPeers
  /-- No listed file comes from a connection that has ended. -/
  sharer_connected : ∀ file ∈ server.registry.files, file.sharer ∉ server.hungUp

/-- A registration comes from a slot that is not active, a share for which there
is room from one that is. -/
def OrderlyMessage (server : Server) (i : Fin maxClients) : Option ClientMessage → Prop
  | some (.register _) => (server.clients i).active = false
  | some (.shareFile _) =>
      (server.clients i).active = true ∨ server.registry.files.length = maxFiles
  | _ => True

instance (server : Server) (i : Fin maxClients) :
    (message : Option ClientMessage) → Decidable (OrderlyMessage server i message)
  | some (.register _) => inferInstanceAs (Decidable ((server.clients i).active = false))
  | some (.shareFile _) =>
      inferInstanceAs (Decidable
        ((server.clients i).active = true ∨ server.registry.files.length = maxFiles))
  | some .listFiles => isTrue trivial
  | some (.requestFile _) => isTrue trivial
  | some .unregister => isTrue trivial
  | none => isTrue trivial

def Orderly (host : ByteOrder) (server : Server) : ServerEvent → Prop
  | .readable fd (.bytes data) _ =>
      ∀ i, server.findClientByFd fd = some i → OrderlyMessage server i (readMessage host data)
  | _ => True

instance (host : ByteOrder) (server : Server) :
    (event : ServerEvent) → Decidable (Orderly host server event)
  | .accept _ _ => isTrue trivial
  | .readable _ .error _ => isTrue trivial
  | .readable fd (.bytes data) _ =>
      inferInstanceAs (Decidable (∀ i, server.findClientByFd fd = some i →
        OrderlyMessage server i (readMessage host data)))

def OrderlyStep (host : ByteOrder) (server : Server) (event : ServerEvent)
    (server' : Server) : Prop :=
  Orderly host server event ∧ DeliveredStep host server event server'

/-! ## Ownership -/

/-- Every listed file belongs to an active slot, whose connection is the one the
file came from and has not ended. -/
structure OwnershipInv (server : Server) : Prop where
  numbered : Numbered server
  owned : ∀ file ∈ server.registry.files, ∃ i, (server.clients i).active = true ∧
    (server.clients i).clientId = file.ownerId ∧ (server.clients i).conn = file.sharer
  counted : server.numClients = slotCount ClientSlot.active server.clients
  live : ∀ i, (server.clients i).active = true → (server.clients i).conn ∉ server.hungUp

theorem ownershipInv_initial : OwnershipInv Server.initial where
  numbered := numbered_initial
  owned := by
    intro file hfile
    cases hfile
  counted := by
    rw [slotCount_eq_sum]
    simp [Server.initial]
  live := by
    intro i hactive
    cases hactive

theorem OwnershipInv.place {server : Server} (h : OwnershipInv server) {i : Fin maxClients}
    (hfree : server.freeSlot = some i) (fd : Int) (addr : SockAddr) :
    OwnershipInv (server.place i fd addr) where
  numbered := h.numbered.place i fd addr
  owned := by
    intro file hfile
    obtain ⟨j, hactive, howner, hsharer⟩ := h.owned file hfile
    -- owners are active, the slot taken is not
    have hj : j ≠ i := by
      rintro rfl
      rw [Server.active_of_freeSlot hfree] at hactive
      cases hactive
    refine ⟨j, ?_⟩
    rw [Server.place_clients_of_ne _ _ _ _ hj]
    exact ⟨hactive, howner, hsharer⟩
  counted := by
    have hcount := slotCount_update ClientSlot.active server.clients i
      ((server.place i fd addr).clients i)
    rw [Server.active_of_freeSlot hfree, Server.place_clients_self] at hcount
    exact h.counted.trans (congrArg Nat.cast hcount.symm)
  live := by
    intro j hactive
    by_cases hj : j = i
    · rw [hj, Server.place_clients_self] at hactive
      cases hactive
    · rw [Server.place_clients_of_ne _ _ _ _ hj] at hactive ⊢
      exact h.live j hactive

/-- An unregistered connection ends: it was nobody's owner. -/
theorem OwnershipInv.hangUp {server : Server} (h : OwnershipInv server) {i : Fin maxClients}
    (hidle : (server.clients i).active = false) :
    OwnershipInv (server.hangUp (server.clients i).conn) where
  numbered := h.numbered.hangUp i
  owned := h.owned
  counted := h.counted
  live := by
    intro j hactive hended
    rcases List.mem_cons.mp hended with hsame | hold
    · have hji := h.numbered.conn_inj j i hsame (h.numbered.conn_of_active j hactive)
      rw [hji] at hactive
      rw [show (server.clients i).active = true from hactive] at hidle
      cases hidle
    · exact h.live j hactive hold

theorem OwnershipInv.dropClient {server : Server} (h : OwnershipInv server)
    {i : Fin maxClients} (hactive : (server.clients i).active = true) :
    OwnershipInv (server.dropClient i) where
  numbered := h.numbered.dropClient i
  owned := by
    intro file hfile
    have hmem : file ∈ (server.registry.removeOwner (server.clients i).clientId).files := hfile
    rw [Registry.removeOwner_files, List.mem_filter] at hmem
    obtain ⟨j, hon, howner, hsharer⟩ := h.owned file hmem.1
    -- the files of the client that left are gone
    have hj : j ≠ i := by
      rintro rfl
      simp [howner] at hmem
    refine ⟨j, ?_⟩
    rw [Server.dropClient_clients_of_ne _ _ hj]
    exact ⟨hon, howner, hsharer⟩
  counted := by
    have hcount := slotCount_update ClientSlot.active server.clients i
      ((server.dropClient i).clients i)
    rw [hactive, Server.dropClient_clients_self] at hcount
    have hold := h.counted
    show server.numClients - 1 = _
    simp only [Bool.toNat_true, Bool.toNat_false] at hcount
    rw [hold, ← show _ = slotCount _ _ from hcount]
    push_cast
    exact add_sub_cancel_right _ _
  live := by
    intro j hon hended
    by_cases hj : j = i
    · rw [hj, Server.dropClient_clients_self] at hon
      cases hon
    · rw [Server.dropClient_clients_of_ne _ _ hj] at hon hended
      rcases List.mem_cons.mp hended with hsame | hold
      · exact hj (h.numbered.conn_inj j i hsame (h.numbered.conn_of_active j hon))
      · exact h.live j hon hold

theorem OwnershipInv.handleRegister {server : Server} (h : OwnershipInv server)
    (host : ByteOrder) {i : Fin maxClients} (hfd : 0 < (server.clients i).fd)
    (hidle : (server.clients i).active = false)
    (hlive : (server.clients i).conn ∉ server.hungUp) (udpPort : UInt16) :
    OwnershipInv (server.handleRegister host i udpPort).server where
  numbered := h.numbered.handleRegister host hfd udpPort
  owned := by
    intro file hfile
    obtain ⟨j, hactive, howner, hsharer⟩ := h.owned file hfile
    have hj : j ≠ i := by
      rintro rfl
      rw [hidle] at hactive
      cases hactive
    refine ⟨j, ?_⟩
    rw [Server.handleRegister_clients_of_ne _ _ _ _ hj]
    exact ⟨hactive, howner, hsharer⟩
  counted := by
    have hcount := slotCount_update ClientSlot.active server.clients i
      ((server.handleRegister host i udpPort).server.clients i)
    rw [hidle, Server.handleRegister_clients_self] at hcount
    show server.numClients + 1 = _
    rw [h.counted]
    exact congrArg Nat.cast hcount.symm
  live := by
    intro j hactive
    by_cases hj : j = i
    · rw [hj, Server.handleRegister_clients_self]
      exact hlive
    · rw [Server.handleRegister_clients_of_ne _ _ _ _ hj] at hactive ⊢
      exact h.live j hactive

theorem OwnershipInv.enter {server : Server} (h : OwnershipInv server) {i : Fin maxClients}
    (hactive : (server.clients i).active = true) {share : ShareFile} {registry : Registry}
    (hadd : server.registry.add (server.sharedFile i share) = some registry) :
    OwnershipInv (server.enter registry) where
  numbered := h.numbered.of_same_conns (fun _ => rfl) rfl h.numbered.conn_of_fd
    h.numbered.conn_of_active h.numbered.ended_le
  owned := by
    intro file hfile
    have hmem : file ∈ registry.files := hfile
    rw [(Registry.add_eq_some hadd).2, List.mem_append, List.mem_singleton] at hmem
    rcases hmem with hold | rfl
    · exact h.owned file hold
    · exact ⟨i, hactive, rfl, rfl⟩
  counted := h.counted
  live := h.live

theorem ownershipInv_step {host : ByteOrder} {server server' : Server} {event : ServerEvent}
    (h : OwnershipInv server) (hstep : OrderlyStep host server event server') :
    OwnershipInv server' := by
  obtain ⟨horderly, hdelivers, rfl⟩ := hstep
  have heffect := apply_effect host server event
  revert heffect
  generalize (server.apply host event).server = server'
  intro heffect
  cases heffect with
  | unchanged => exact h
  | placed _ hfree => exact h.place hfree _ _
  | ended _ hidle => exact h.hangUp hidle
  | dropped _ hactive => exact h.dropClient hactive
  | @endedDropped _ _ i _ hactive =>
      have hdropped := (h.dropClient hactive).hangUp (i := i)
        (by rw [Server.dropClient_clients_self])
      rwa [Server.dropClient_clients_self] at hdropped
  | @registered fd data room i udpPort hfind hmessage =>
      have hidle : OrderlyMessage server i (readMessage host data) := horderly i hfind
      rw [hmessage] at hidle
      refine h.handleRegister host (Server.fd_of_findClientByFd hfind).2 hidle ?_ udpPort
      intro hended
      rw [hdelivers.2 i hfind hended] at hmessage
      cases hmessage
  | @shared fd data room i share registry hfind hmessage hadd =>
      have hsharer : OrderlyMessage server i (readMessage host data) := horderly i hfind
      rw [hmessage] at hsharer
      rcases hsharer with hactive | hfull
      · exact h.enter hactive hadd
      · exact absurd hfull (Registry.add_eq_some hadd).1.ne

theorem OwnershipInv.locate_ne_noPeers {server : Server} (h : OwnershipInv server)
    (fileId : Nat) : server.locate fileId ≠ .error errNoPeers := by
  unfold Server.locate
  cases hfile : server.registry.findFile fileId with
  | none => simp [errFileNotFound, errNoPeers]
  | some file =>
      obtain ⟨i, hactive, howner, -⟩ := h.owned file (List.mem_of_find?_eq_some hfile)
      cases hfind : server.findClient file.ownerId with
      | none =>
          have hmissing := firstSlot_eq_none_iff.mp hfind i
          simp [hactive, howner] at hmissing
      | some owner => simp [hfind]

theorem OwnershipInv.request_replies {host : ByteOrder} {server : Server}
    (h : OwnershipInv server) (i : Fin maxClients) (fileId : Nat) :
    ∀ reply ∈ (server.handleRequestFile host i fileId).replies,
      reply.bytes ≠ Server.errorResponse host errNoPeers := by
  intro reply hreply
  have hlocate := h.locate_ne_noPeers fileId
  unfold Server.handleRequestFile at hreply
  cases hanswer : server.locate fileId with
  | error errorCode =>
      rw [hanswer] at hreply hlocate
      rw [List.mem_singleton] at hreply
      subst hreply
      intro hbytes
      simp only [Server.errorResponse, TcpHeader.image, List.cons_append, List.nil_append,
        List.cons.injEq] at hbytes
      exact hlocate (congrArg Except.error hbytes.2.1)
  | ok location =>
      rw [hanswer] at hreply
      rw [List.mem_singleton] at hreply
      subst hreply
      intro hbytes
      have htype := congrArg List.head? hbytes
      simp [controlMessage, Server.errorResponse, TcpHeader.image, tcpFileLocation,
        tcpError] at htype

theorem OwnershipInv.wellOwned {server : Server} (h : OwnershipInv server)
    (host : ByteOrder) : WellOwned host server where
  owner_active := by
    intro file hfile
    obtain ⟨i, hactive, howner, -⟩ := h.owned file hfile
    exact ⟨i, hactive, howner⟩
  numClients_eq := h.counted
  never_noPeers := by
    intro file _ fd data room hmessage reply hreply
    cases data with
    | nil => cases hmessage
    | cons byte data =>
        simp only [Server.apply, Server.receive] at hreply
        split at hreply
        · cases hreply
        · next i _ =>
            rw [Server.processClientMessage, hmessage] at hreply
            exact h.request_replies i file.fileId reply hreply
  sharer_connected := by
    intro file hfile
    obtain ⟨i, hactive, -, hsharer⟩ := h.owned file hfile
    rw [← hsharer]
    exact h.live i hactive

/-- Whatever happens on the sockets, as long as nobody shares before registering
or registers twice, the registry lists files of active clients only. -/
theorem directory_ownership (host : ByteOrder) {events : List ServerEvent} {server : Server}
    (hrun : Run (OrderlyStep host) Server.initial events server) : WellOwned host server :=
  (hrun.invariant (fun _ _ _ hinv hstep => ownershipInv_step hinv hstep)
    ownershipInv_initial).wellOwned host

/-! ## One registered share, and one without a registration -/

/-- The state after a list of events. -/
def Server.after (host : ByteOrder) (events : List ServerEvent) : Server :=
  events.foldl (fun server event => (server.apply host event).server) Server.initial

def fromConnection (fd : Int) (data : Bytes) : ServerEvent := .readable fd (.bytes data) true

def offeredFile : ShareFile where
  fileSize := 1
  hash := HashBytes.ofImage []
  filename := NameField.strncpy [97]

def offer : Bytes :=
  controlMessage .little tcpShareFile errNone (offeredFile.image .little)

def registration : Bytes :=
  controlMessage .little tcpRegister errNone (registerImage .little 4000)

/-- A client that registers before it shares owns its file. -/
theorem registered_share_owned :
    (Server.after .little [.accept 5 ⟨1, 2⟩, fromConnection 5 registration,
        fromConnection 5 offer]).registry.files.length = 1 ∧
      WellOwned .little (Server.after .little [.accept 5 ⟨1, 2⟩,
        fromConnection 5 registration, fromConnection 5 offer]) := by
  have hallowed : Run.Allowed
      (fun server event => Orderly .little server event ∧ server.Delivers event)
      (fun server event => (server.apply .little event).server) Server.initial
      [.accept 5 ⟨1, 2⟩, fromConnection 5 registration, fromConnection 5 offer] := by
    decide +kernel
  refine ⟨by decide +kernel, directory_ownership .little (Run.of_allowed ?_ hallowed)⟩
  rintro server event ⟨horderly, hdelivers⟩
  exact ⟨horderly, hdelivers, rfl⟩

def orphaningEvents : List ServerEvent :=
  [.accept 5 ⟨1, 2⟩, fromConnection 5 offer, fromConnection 5 [], .accept 6 ⟨3, 4⟩]

def requestOfOrphan : ServerEvent :=
  fromConnection 6 (controlMessage .little tcpRequestFile errNone (idImage .little 1))

/-- A connection shares without registering and ends.  The file stays listed
under client id 0, which is nobody's; who asks for it gets `ERR_NO_PEERS`. -/
theorem unregistered_share_orphaned :
    ∃ server, Run (DeliveredStep .little) Server.initial orphaningEvents server ∧
      (∃ file ∈ server.registry.files, file.sharer ∈ server.hungUp ∧
        ∀ i, (server.clients i).active = true → (server.clients i).clientId ≠ file.ownerId) ∧
      (server.apply .little requestOfOrphan).replies =
        [⟨6, Server.errorResponse .little errNoPeers⟩] ∧
      ¬ WellOwned .little server := by
  have hallowed : Run.Allowed Server.Delivers
      (fun server event => (server.apply .little event).server) Server.initial
      orphaningEvents := by
    decide +kernel
  have hrun : Run (DeliveredStep .little) Server.initial orphaningEvents
      (Server.after .little orphaningEvents) :=
    Run.of_allowed (fun _ _ hdelivers => ⟨hdelivers, rfl⟩) hallowed
  have horphan : ∃ file ∈ (Server.after .little orphaningEvents).registry.files,
      file.sharer ∈ (Server.after .little orphaningEvents).hungUp ∧
        ∀ i, ((Server.after .little orphaningEvents).clients i).active = true →
          ((Server.after .little orphaningEvents).clients i).clientId ≠ file.ownerId := by
    decide +kernel
  refine ⟨_, hrun, horphan, by decide +kernel, ?_⟩
  intro howned
  obtain ⟨file, hfile, -, hnone⟩ := horphan
  obtain ⟨i, hactive, howner⟩ := howned.owner_active file hfile
  exact hnone i hactive howner

end Directory
end PeerShare
