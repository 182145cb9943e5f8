import PeerShare.Directory.Displacement

/-!
# Connections that end

When `recv` returns 0 or less, `main` calls `remove_client`, and that function
returns at once if the client has not registered.  The descriptor then stays in
its slot: it is not closed, every later `poll` reports it as readable, and every
later `recv` returns 0 again.

For a client that has registered the descriptor is closed and leaves the table,
and no later event brings the connection back.
-/

namespace PeerShare
namespace Directory

open Foundation Wire

/-- `recv` returned 0 or a negative value. -/
def Recv.Ended (recv : Recv) : Prop := recv = .error ∨ recv = .bytes []

instance (recv : Recv) : Decidable recv.Ended :=
  inferInstanceAs (Decidable (_ ∨ _))

/-- The descriptor that `remove_client` hands to `close`, if it comes to that. -/
def Server.closedFd (server : Server) (i : Fin maxClients) : Option Int :=
  if (server.clients i).active = false then none else some (server.clients i).fd

/-- No slot in which the connection was polls a descriptor. -/
def Unpolled (server : Server) (conn : Nat) : Prop :=
  ∀ i, (server.clients i).conn = conn → (server.clients i).fd ∉ server.pollFds

theorem mem_pollFds_iff (server : Server) (i : Fin maxClients) :
    (server.clients i).fd ∈ server.pollFds ↔ 0 < (server.clients i).fd := by
  rw [Server.pollFds, List.mem_filter]
  constructor
  · rintro ⟨-, hpos⟩
    simpa using hpos
  · intro hpos
    exact ⟨List.mem_map.mpr ⟨i, List.mem_finRange i, rfl⟩, by simpa using hpos⟩

/-- The descriptor of slot `i` is closed and in no slot any more. -/
structure Freed (server server' : Server) (i : Fin maxClients) : Prop where
  closed : server.closedFd i = some (server.clients i).fd
  gone : ∀ j, (server'.clients j).fd ≠ (server.clients i).fd
  unpolled : (server.clients i).fd ∉ server'.pollFds

section Ending

variable {server : Server} {i : Fin maxClients}

/-- The slots after an end of stream or an error. -/
theorem receive_ended_clients (host : ByteOrder) (hfds : server.FdsDistinct) (hopen : 0 < (server.clients i).fd)
    {recv : Recv} (hended : recv.Ended) (room : Bool) (j : Fin maxClients) :
    (server.receive host (server.clients i).fd recv room).server.clients j =
      (server.removeClient i).clients j := by
  rw [Server.receive, findClientByFd_eq hfds hopen]
  rcases hended with rfl | rfl <;> rfl

theorem freed_dropClient (hfds : server.FdsDistinct) (hopen : 0 < (server.clients i).fd)
    (hactive : (server.clients i).active = true) {server' : Server}
    (hclients : ∀ j, server'.clients j = (server.dropClient i).clients j) :
    Freed server server' i := by
  have hgone : ∀ j, (server'.clients j).fd ≠ (server.clients i).fd := by
    intro j hsame
    rw [hclients] at hsame
    by_cases hj : j = i
    · rw [hj, Server.dropClient_clients_self] at hsame
      simp only at hsame
      omega
    · rw [Server.dropClient_clients_of_ne _ _ hj] at hsame
      exact hj (hfds i j hsame.symm hopen).symm
  refine ⟨by simp [Server.closedFd, hactive], hgone, ?_⟩
  intro hpolled
  obtain ⟨hmem, -⟩ := List.mem_filter.mp hpolled
  obtain ⟨j, -, hsame⟩ := List.mem_map.mp hmem
  exact hgone j hsame

end Ending

/-! ## Later events -/

/-- The connection is in no slot that is polled, and its number is not given out
again. -/
structure Departed (conn : Nat) (server : Server) : Prop where
  unpolled : Unpolled server conn
  conn_le : conn ≤ server.accepted

theorem accepted_le_of_effect {host : ByteOrder} {server server' : Server}
    {event : ServerEvent} (heffect : Effect host server event server') :
    server.accepted ≤ server'.accepted := by
  cases heffect with
  | placed => exact Nat.le_succ _
  | _ => exact le_refl _

/-- A dropped slot has no descriptor, and the others are as they were. -/
theorem dropClient_closes_or_keeps {server : Server} {i j : Fin maxClients} {conn : Nat}
    (hconn : ((server.dropClient i).clients j).conn = conn) :
    ((server.dropClient i).clients j).fd ≤ 0 ∨
      (server.clients j).conn = conn ∧
        ((server.dropClient i).clients j).fd = (server.clients j).fd := by
  by_cases hj : j = i
  · left
    rw [hj, Server.dropClient_clients_self]
    norm_num
  · rw [Server.dropClient_clients_of_ne _ _ hj] at hconn ⊢
    exact Or.inr ⟨hconn, rfl⟩

theorem departed_effect {host : ByteOrder} {server server' : Server} {event : ServerEvent}
    {conn : Nat} (h : Departed conn server) (heffect : Effect host server event server') :
    Departed conn server' := by
  -- it is enough that no slot that still has the number gets a descriptor
  have hkept : (∀ j, (server'.clients j).conn = conn →
      (server'.clients j).fd ≤ 0 ∨
        (server.clients j).conn = conn ∧ (server'.clients j).fd = (server.clients j).fd) →
      Departed conn server' := by
    intro hslots
    refine ⟨?_, h.conn_le.trans (accepted_le_of_effect heffect)⟩
    intro j hconn
    rw [mem_pollFds_iff, not_lt]
    rcases hslots j hconn with hclosed | ⟨hold, hfd⟩
    · exact hclosed
    · have hunpolled := h.unpolled j hold
      rw [mem_pollFds_iff, not_lt] at hunpolled
      rw [hfd]
      exact hunpolled
  cases heffect with
  | unchanged => exact h
  | ended => exact hkept fun j hconn => Or.inr ⟨hconn, rfl⟩
  | shared => exact hkept fun j hconn => Or.inr ⟨hconn, rfl⟩
  | @placed fd addr i =>
      refine hkept ?_
      intro j hconn
      by_cases hj : j = i
      · rw [hj, Server.place_clients_self] at hconn
        have hle := h.conn_le
        simp only at hconn
        omega
      · rw [Server.place_clients_of_ne _ _ _ _ hj] at hconn ⊢
        exact Or.inr ⟨hconn, rfl⟩
  | dropped => exact hkept fun j hconn => dropClient_closes_or_keeps hconn
  | endedDropped => exact hkept fun j hconn => dropClient_closes_or_keeps hconn
  | @registered fd data room i udpPort =>
      refine hkept ?_
      intro j hconn
      obtain ⟨hsame, hfd⟩ := handleRegister_same_connection host server i udpPort j
      exact Or.inr ⟨hsame.symm.trans hconn, hfd⟩

theorem departed_run {host : ByteOrder} {server server' : Server} {events : List ServerEvent}
    {conn : Nat} (hrun : Run (FreshStep host) server events server')
    (h : Departed conn server) : Departed conn server' :=
  hrun.invariant (P := Departed conn) (fun _ _ _ h hstep => departed_effect h hstep.effect) h

theorem fresh_run {host : ByteOrder} {server : Server} {events : List ServerEvent}
    (hrun : Run (FreshStep host) Server.initial events server) :
    Numbered server ∧ server.FdsDistinct := by
  refine hrun.invariant (P := fun server => Numbered server ∧ server.FdsDistinct) ?_
    ⟨numbered_initial, fdsDistinct_initial⟩
  rintro s event t ⟨hnumbered, hfds⟩ hstep
  exact ⟨numbered_effect hnumbered hstep.effect,
    fdsDistinct_effect hfds hstep.effect hstep.2⟩

/-! ## Exactly the registered clients -/

/-- In every reachable state, when `recv` on an open connection returns 0 or
less: the descriptor is closed and in no slot any more, and the connection is
polled in no later state of any run, exactly when its slot is active. -/
theorem disconnection_frees_iff (host : ByteOrder) {events : List ServerEvent} {server : Server}
    (hrun : Run (FreshStep host) Server.initial events server) (i : Fin maxClients)
    (hopen : 0 < (server.clients i).fd) {recv : Recv} (hended : recv.Ended) (room : Bool) :
    (Freed server (server.receive host (server.clients i).fd recv room).server i ∧
      ∀ later server',
        Run (FreshStep host) (server.receive host (server.clients i).fd recv room).server
          later server' → Unpolled server' (server.clients i).conn) ↔
      (server.clients i).active = true := by
  obtain ⟨hnumbered, hfds⟩ := fresh_run hrun
  have hclients := receive_ended_clients host hfds hopen hended room
  constructor
  · rintro ⟨hfreed, -⟩
    have hclosed := hfreed.closed
    by_contra hidle
    rw [Bool.not_eq_true] at hidle
    rw [Server.closedFd, if_pos hidle] at hclosed
    cases hclosed
  · intro hactive
    have hdropped : ∀ j,
        (server.receive host (server.clients i).fd recv room).server.clients j =
          (server.dropClient i).clients j := by
      intro j
      rw [hclients j, Server.removeClient, if_neg (by simp [hactive])]
    have hstep := apply_effect host server (.readable (server.clients i).fd recv room)
    refine ⟨freed_dropClient hfds hopen hactive hdropped, ?_⟩
    intro later server' hlater
    refine (departed_run hlater ⟨?_, ?_⟩).unpolled
    · -- the number belongs to this slot only
      intro j hconn
      rw [hdropped] at hconn
      rw [mem_pollFds_iff, not_lt, hdropped]
      by_cases hj : j = i
      · rw [hj, Server.dropClient_clients_self]
        norm_num
      · rw [Server.dropClient_clients_of_ne _ _ hj] at hconn
        exact absurd (hnumbered.conn_inj j i hconn (by
          rw [hconn]
          exact hnumbered.conn_of_fd i hopen)) hj
    · exact (hnumbered.conn_le i).trans (accepted_le_of_effect hstep)

/-- A registered client hangs up: its connection is not polled any more. -/
theorem registered_disconnection_frees :
    Freed (Server.after .little [.accept 5 ⟨1, 2⟩, fromConnection 5 registration])
        (Server.after .little
          [.accept 5 ⟨1, 2⟩, fromConnection 5 registration, .readable 5 (.bytes []) true]) 0 ∧
      Unpolled (Server.after .little
        [.accept 5 ⟨1, 2⟩, fromConnection 5 registration, .readable 5 (.bytes []) true]) 1 := by
  have hrun : Run (FreshStep .little) Server.initial
      [.accept 5 ⟨1, 2⟩, fromConnection 5 registration]
      (Server.after .little [.accept 5 ⟨1, 2⟩, fromConnection 5 registration]) :=
    freshRun_after [] (by decide +kernel)
  obtain ⟨hfreed, hunpolled⟩ := (disconnection_frees_iff .little hrun 0 (by decide +kernel)
    (Or.inr rfl) true).mpr (by decide +kernel)
  exact ⟨hfreed, hunpolled [] _ (Run.nil _)⟩

/-- A client that has not registered hangs up: its descriptor is not closed, stays
in the slot and is polled again, also after the next `recv` has returned 0. -/
theorem waiting_disconnection_polled :
    Run (FreshStep .little) Server.initial [.accept 5 ⟨1, 2⟩]
        (Server.after .little [.accept 5 ⟨1, 2⟩]) ∧
      ((Server.after .little [.accept 5 ⟨1, 2⟩]).clients 0).fd = 5 ∧
      (Server.after .little [.accept 5 ⟨1, 2⟩]).closedFd 0 = none ∧
      ¬ Freed (Server.after .little [.accept 5 ⟨1, 2⟩])
        (Server.after .little [.accept 5 ⟨1, 2⟩, .readable 5 (.bytes []) true]) 0 ∧
      (Server.after .little [.accept 5 ⟨1, 2⟩, .readable 5 (.bytes []) true]).pollFds = [5] ∧
      (Server.after .little [.accept 5 ⟨1, 2⟩, .readable 5 (.bytes []) true,
        .readable 5 (.bytes []) true]).pollFds = [5] := by
  refine ⟨freshRun_after [] (by decide +kernel), by decide +kernel, by decide +kernel, ?_,
    by decide +kernel, by decide +kernel⟩
  intro hfreed
  exact absurd hfreed.closed (by decide +kernel)

end Directory
end PeerShare
