import PeerShare.Directory.Server

/-!
# Connection numbers

The bookkeeping behind the proofs about the server: a number belongs to one
slot at most, an open or active slot has one, and only numbers that were given
out have ended.  There is one lemma for each way an event changes the slots.

The same for descriptors: as long as `accept` returns descriptors that are not
open, an open descriptor is in one slot only.
-/

namespace PeerShare
namespace Directory

open Foundation Wire

/-- Connections are numbered from 1 in the order they were accepted. -/
structure Numbered (server : Server) : Prop where
  conn_le : ∀ i, (server.clients i).conn ≤ server.accepted
  conn_inj : ∀ i j, (server.clients i).conn = (server.clients j).conn →
    (server.clients i).conn ≠ 0 → i = j
  conn_of_fd : ∀ i, 0 < (server.clients i).fd → (server.clients i).conn ≠ 0
  conn_of_active : ∀ i, (server.clients i).active = true → (server.clients i).conn ≠ 0
  ended_le : ∀ conn ∈ server.hungUp, conn ≤ server.accepted

theorem numbered_initial : Numbered Server.initial where
  conn_le := by
    intro i
    exact le_refl 0
  conn_inj := by
    intro i j _ hne
    exact absurd rfl hne
  conn_of_fd := by
    intro i hfd
    exact absurd hfd (lt_irrefl 0)
  conn_of_active := by
    intro i hactive
    cases hactive
  ended_le := by
    intro conn hconn
    cases hconn

/-- The numbers survive a change that moves no connection. -/
theorem Numbered.of_same_conns {server server' : Server} (h : Numbered server)
    (hconn : ∀ i, (server'.clients i).conn = (server.clients i).conn)
    (haccepted : server'.accepted = server.accepted)
    (hfd : ∀ i, 0 < (server'.clients i).fd → (server.clients i).conn ≠ 0)
    (hactive : ∀ i, (server'.clients i).active = true → (server.clients i).conn ≠ 0)
    (hended : ∀ conn ∈ server'.hungUp, conn ≤ server.accepted) : Numbered server' where
  conn_le := by
    intro i
    rw [hconn, haccepted]
    exact h.conn_le i
  conn_inj := by
    intro i j hij hne
    rw [hconn] at hne
    rw [hconn, hconn] at hij
    exact h.conn_inj i j hij hne
  conn_of_fd := by
    intro i hpos
    rw [hconn]
    exact hfd i hpos
  conn_of_active := by
    intro i hon
    rw [hconn]
    exact hactive i hon
  ended_le := by
    intro conn hmem
    rw [haccepted]
    exact hended conn hmem

theorem Numbered.place {server : Server} (h : Numbered server) (i : Fin maxClients) (fd : Int)
    (addr : SockAddr) : Numbered (server.place i fd addr) where
  conn_le := by
    intro j
    by_cases hj : j = i
    · rw [hj, Server.place_clients_self]
      exact le_refl _
    · rw [Server.place_clients_of_ne _ _ _ _ hj]
      exact Nat.le_succ_of_le (h.conn_le j)
  conn_inj := by
    intro j k hjk hne
    -- the new number is above all old ones
    have hj := h.conn_le j
    have hk := h.conn_le k
    by_cases hji : j = i <;> by_cases hki : k = i
    · rw [hji, hki]
    · rw [hji, Server.place_clients_self, Server.place_clients_of_ne _ _ _ _ hki] at hjk
      simp only at hjk
      omega
    · rw [hki, Server.place_clients_self, Server.place_clients_of_ne _ _ _ _ hji] at hjk
      simp only at hjk
      omega
    · rw [Server.place_clients_of_ne _ _ _ _ hji] at hjk hne
      rw [Server.place_clients_of_ne _ _ _ _ hki] at hjk
      exact h.conn_inj j k hjk hne
  conn_of_fd := by
    intro j hfd
    by_cases hj : j = i
    · rw [hj, Server.place_clients_self]
      exact Nat.succ_ne_zero _
    · rw [Server.place_clients_of_ne _ _ _ _ hj] at hfd ⊢
      exact h.conn_of_fd j hfd
  conn_of_active := by
    intro j hactive
    by_cases hj : j = i
    · rw [hj, Server.place_clients_self]
      exact Nat.succ_ne_zero _
    · rw [Server.place_clients_of_ne _ _ _ _ hj] at hactive ⊢
      exact h.conn_of_active j hactive
  ended_le := by
    intro conn hconn
    exact Nat.le_succ_of_le (h.ended_le conn hconn)

theorem Numbered.hangUp {server : Server} (h : Numbered server) (i : Fin maxClients) :
    Numbered (server.hangUp (server.clients i).conn) := by
  refine h.of_same_conns (fun _ => rfl) rfl h.conn_of_fd h.conn_of_active ?_
  intro conn hconn
  rcases List.mem_cons.mp hconn with rfl | hold
  · exact h.conn_le i
  · exact h.ended_le conn hold

theorem Numbered.dropClient {server : Server} (h : Numbered server) (i : Fin maxClients) :
    Numbered (server.dropClient i) := by
  have hconn : ∀ j, ((server.dropClient i).clients j).conn = (server.clients j).conn := by
    intro j
    by_cases hj : j = i
    · rw [hj, Server.dropClient_clients_self]
    · rw [Server.dropClient_clients_of_ne _ _ hj]
  refine h.of_same_conns hconn rfl ?_ ?_ ?_
  · intro j hfd
    by_cases hj : j = i
    · rw [hj, Server.dropClient_clients_self] at hfd
      norm_num at hfd
    · rw [Server.dropClient_clients_of_ne _ _ hj] at hfd
      exact h.conn_of_fd j hfd
  · intro j hactive
    by_cases hj : j = i
    · rw [hj, Server.dropClient_clients_self] at hactive
      cases hactive
    · rw [Server.dropClient_clients_of_ne _ _ hj] at hactive
      exact h.conn_of_active j hactive
  · intro conn hmem
    rcases List.mem_cons.mp hmem with rfl | hold
    · exact h.conn_le i
    · exact h.ended_le conn hold

/-- A registration moves no connection. -/
theorem handleRegister_same_connection (host : ByteOrder) (server : Server) (i : Fin maxClients)
    (udpPort : UInt16) (j : Fin maxClients) :
    ((server.handleRegister host i udpPort).server.clients j).conn = (server.clients j).conn ∧
      ((server.handleRegister host i udpPort).server.clients j).fd = (server.clients j).fd := by
  by_cases hj : j = i
  · rw [hj, Server.handleRegister_clients_self]
    exact ⟨rfl, rfl⟩
  · rw [Server.handleRegister_clients_of_ne _ _ _ _ hj]
    exact ⟨rfl, rfl⟩

theorem Numbered.handleRegister {server : Server} (h : Numbered server) (host : ByteOrder)
    {i : Fin maxClients} (hfd : 0 < (server.clients i).fd) (udpPort : UInt16) :
    Numbered (server.handleRegister host i udpPort).server := by
  have hsame := handleRegister_same_connection host server i udpPort
  refine h.of_same_conns (fun j => (hsame j).1) rfl ?_ ?_ h.ended_le
  · intro j hpos
    rw [(hsame j).2] at hpos
    exact h.conn_of_fd j hpos
  · intro j hactive
    by_cases hj : j = i
    · rw [hj]
      exact h.conn_of_fd i hfd
    · rw [Server.handleRegister_clients_of_ne _ _ _ _ hj] at hactive
      exact h.conn_of_active j hactive

/-- Every event keeps the numbers. -/
theorem numbered_effect {host : ByteOrder} {server server' : Server} {event : ServerEvent}
    (h : Numbered server) (heffect : Effect host server event server') : Numbered server' := by
  cases heffect with
  | unchanged => exact h
  | placed => exact h.place _ _ _
  | ended => exact h.hangUp _
  | dropped => exact h.dropClient _
  | @endedDropped _ _ i =>
      have hdropped := (h.dropClient i).hangUp i
      rwa [Server.dropClient_clients_self] at hdropped
  | registered hfind => exact h.handleRegister host (Server.fd_of_findClientByFd hfind).2 _
  | shared =>
      exact h.of_same_conns (fun _ => rfl) rfl h.conn_of_fd h.conn_of_active h.ended_le

/-! ## Open descriptors -/

/-- No two slots hold the same open descriptor. -/
def Server.FdsDistinct (server : Server) : Prop :=
  ∀ i j, (server.clients i).fd = (server.clients j).fd → 0 < (server.clients i).fd → i = j

/-- `accept` returns a descriptor that is not open. -/
def FreshAccept (server : Server) : ServerEvent → Prop
  | .accept fd _ => ∀ i, 0 < (server.clients i).fd → (server.clients i).fd ≠ fd
  | .readable _ _ _ => True

theorem fdsDistinct_initial : Server.initial.FdsDistinct := by
  intro i j _ hfd
  exact absurd hfd (lt_irrefl 0)

theorem fdsDistinct_place {server : Server} (h : server.FdsDistinct) {i : Fin maxClients}
    {fd : Int} (hfresh : ∀ j, 0 < (server.clients j).fd → (server.clients j).fd ≠ fd)
    (addr : SockAddr) : (server.place i fd addr).FdsDistinct := by
  intro j k hjk hpos
  by_cases hji : j = i <;> by_cases hki : k = i
  · rw [hji, hki]
  · rw [hji, Server.place_clients_self] at hjk hpos
    rw [Server.place_clients_of_ne _ _ _ _ hki] at hjk
    simp only at hjk hpos
    rw [hjk] at hpos
    exact absurd hjk.symm (hfresh k hpos)
  · rw [Server.place_clients_of_ne _ _ _ _ hji] at hjk hpos
    rw [hki, Server.place_clients_self] at hjk
    exact absurd hjk (hfresh j hpos)
  · rw [Server.place_clients_of_ne _ _ _ _ hji] at hjk hpos
    rw [Server.place_clients_of_ne _ _ _ _ hki] at hjk
    exact h j k hjk hpos

theorem fdsDistinct_dropClient {server : Server} (h : server.FdsDistinct)
    (i : Fin maxClients) : (server.dropClient i).FdsDistinct := by
  intro j k hjk hpos
  -- the slot that was cleared has no descriptor any more
  have hji : j ≠ i := by
    rintro rfl
    rw [Server.dropClient_clients_self] at hpos
    norm_num at hpos
  rw [Server.dropClient_clients_of_ne _ _ hji] at hjk hpos
  have hki : k ≠ i := by
    rintro rfl
    rw [Server.dropClient_clients_self] at hjk
    simp only at hjk
    omega
  rw [Server.dropClient_clients_of_ne _ _ hki] at hjk
  exact h j k hjk hpos

theorem fdsDistinct_effect {host : ByteOrder} {server server' : Server} {event : ServerEvent}
    (h : server.FdsDistinct) (heffect : Effect host server event server')
    (hfresh : FreshAccept server event) : server'.FdsDistinct := by
  cases heffect with
  | placed => exact fdsDistinct_place h hfresh _
  | dropped => exact fdsDistinct_dropClient h _
  | endedDropped => exact fdsDistinct_dropClient h _
  | @registered _ _ _ i udpPort =>
      intro j k hjk hpos
      have hfd := fun slot => (handleRegister_same_connection host server i udpPort slot).2
      rw [hfd] at hpos
      rw [hfd, hfd] at hjk
      exact h j k hjk hpos
  | _ => exact h

/-- An open descriptor finds its slot. -/
theorem findClientByFd_eq {server : Server} (h : server.FdsDistinct) {i : Fin maxClients}
    (hopen : 0 < (server.clients i).fd) :
    server.findClientByFd (server.clients i).fd = some i := by
  apply firstSlot_of_unique
  · simp [hopen]
  · intro k hk
    rw [Bool.and_eq_true, beq_iff_eq] at hk
    exact (h i k hk.1.symm hopen).symm

end Directory
end PeerShare
