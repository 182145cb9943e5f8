import PeerShare.Directory.Isolation

/-!
# Connections that have not registered

The server polls every slot with an open descriptor, but `accept_new_client`
takes the first slot that is not active, whatever descriptor is in it.  A
connection that waits to register in the first such slot is overwritten by the
next one: its socket stays open and is never read again.

As long as every accept finds a slot without a connection in front of those
that wait, no connection is displaced.
-/

namespace PeerShare
namespace Directory

open Foundation Wire

/-- Every open connection that has not registered has a slot in front of it that
is not active and holds no connection. -/
def Server.EmptySlotFirst (server : Server) : Prop :=
  ∀ i, (server.clients i).active = false → 0 < (server.clients i).fd →
    ∃ k < i, (server.clients k).active = false ∧ (server.clients k).fd ≤ 0

instance (server : Server) : Decidable server.EmptySlotFirst :=
  inferInstanceAs (Decidable (∀ i, (server.clients i).active = false →
    0 < (server.clients i).fd →
      ∃ k < i, (server.clients k).active = false ∧ (server.clients k).fd ≤ 0))

/-- No slot with an open connection is written. -/
def KeepsOpen (before after : Server) : Prop :=
  ∀ i, 0 < (before.clients i).fd → after.clients i = before.clients i

section Accept

variable {server : Server}

theorem fd_of_freeSlot (hempty : server.EmptySlotFirst) {i : Fin maxClients}
    (hfree : server.freeSlot = some i) : (server.clients i).fd ≤ 0 := by
  by_contra hopen
  obtain ⟨k, hk, hinactive, -⟩ :=
    hempty i (Server.active_of_freeSlot hfree) (Int.not_le.mp hopen)
  -- then `k` would have been found before `i`
  have htest := firstSlot_before hfree hk
  simp only [hinactive, Bool.not_false, Bool.true_eq_false] at htest

theorem emptySlotFirst_of_freeSlot
    (hfree : ∀ i, server.freeSlot = some i → (server.clients i).fd ≤ 0) :
    server.EmptySlotFirst := by
  intro i hinactive hopen
  cases hfound : server.freeSlot with
  | none =>
      have hall := firstSlot_eq_none_iff.mp hfound i
      simp [hinactive] at hall
  | some k =>
      have hfd := hfree k hfound
      refine ⟨k, ?_, Server.active_of_freeSlot hfound, hfd⟩
      by_contra hle
      -- the search would have stopped at `i`
      rcases Nat.lt_or_ge i.val k.val with hlt | hge
      · have htest := firstSlot_before hfound (show i < k from hlt)
        simp [hinactive] at htest
      · have hsame : i = k := le_antisymm (not_lt.mp hle) hge
        rw [hsame] at hopen
        omega

/-- Exactly when the accept overwrites no open connection. -/
theorem keepsOpen_accept_iff (h : Numbered server) {fd : Int} (hfd : 0 ≤ fd) (addr : SockAddr) :
    KeepsOpen server (server.acceptNewClient fd addr) ↔ server.EmptySlotFirst := by
  unfold Server.acceptNewClient
  rw [if_neg (not_lt.mpr hfd)]
  constructor
  · intro hkeeps
    apply emptySlotFirst_of_freeSlot
    intro i hfree
    by_contra hopen
    rw [hfree] at hkeeps
    have hsame := hkeeps i (Int.not_le.mp hopen)
    simp only [Server.place_clients_self] at hsame
    -- the slot now has a number that was not given out before
    have hconn := congrArg ClientSlot.conn hsame
    have hle := h.conn_le i
    simp only at hconn
    omega
  · intro hempty i hopen
    cases hfree : server.freeSlot with
    | none => rfl
    | some k =>
        have hfd := fd_of_freeSlot hempty hfree
        have hne : i ≠ k := by
          rintro rfl
          omega
        exact Server.place_clients_of_ne _ _ _ _ hne

end Accept

/-! ## Runs -/

/-- The condition on an accept: the descriptor is not 0, and no waiting
connection is in front. -/
def Spaced (server : Server) : ServerEvent → Prop
  | .accept fd _ => 0 ≤ fd → 0 < fd ∧ server.EmptySlotFirst
  | .readable _ _ _ => True

instance (server : Server) : (event : ServerEvent) → Decidable (Spaced server event)
  | .accept fd _ => inferInstanceAs (Decidable (0 ≤ fd → 0 < fd ∧ server.EmptySlotFirst))
  | .readable _ _ _ => isTrue trivial

def SpacedStep (host : ByteOrder) (server : Server) (event : ServerEvent)
    (server' : Server) : Prop :=
  FreshStep host server event server' ∧ Spaced server event

/-- Every accepted connection that has not ended is in a slot. -/
structure Seated (server : Server) : Prop where
  numbered : Numbered server
  fds : server.FdsDistinct
  seat : ∀ conn, conn ≠ 0 → conn ≤ server.accepted → conn ∉ server.hungUp →
    ∃ i, (server.clients i).conn = conn ∧ 0 < (server.clients i).fd

theorem seated_initial : Seated Server.initial where
  numbered := numbered_initial
  fds := fdsDistinct_initial
  seat := by
    intro conn hne hle
    exact absurd (Nat.le_zero.mp hle) hne

section Steps

variable {host : ByteOrder} {server server' : Server} {event : ServerEvent}

/-- What an event can do to a slot with an open connection, when no accept takes
such a slot: the connection ends or stays. -/
theorem ended_or_same_slot (heffect : Effect host server event server')
    (hspaced : Spaced server event) {i : Fin maxClients} (hopen : 0 < (server.clients i).fd) :
    (server.clients i).conn ∈ server'.hungUp ∨
      (server'.clients i).conn = (server.clients i).conn ∧
        (server'.clients i).fd = (server.clients i).fd := by
  cases heffect with
  | @placed fd addr k hfd hfree =>
      have hempty := fd_of_freeSlot (hspaced hfd).2 hfree
      have hne : i ≠ k := by
        rintro rfl
        omega
      rw [Server.place_clients_of_ne _ _ _ _ hne]
      exact Or.inr ⟨rfl, rfl⟩
  | @dropped _ _ _ k =>
      by_cases hik : i = k
      · rw [hik]
        exact Or.inl List.mem_cons_self
      · rw [Server.dropClient_clients_of_ne _ _ hik]
        exact Or.inr ⟨rfl, rfl⟩
  | @endedDropped _ _ k =>
      by_cases hik : i = k
      · rw [hik]
        exact Or.inl List.mem_cons_self
      · show _ ∨ ((server.dropClient k).clients i).conn = _ ∧ _
        refine Or.inr ?_
        rw [Server.hangUp, Server.dropClient_clients_of_ne _ _ hik]
        exact ⟨rfl, rfl⟩
  | @registered _ _ _ k udpPort =>
      exact Or.inr (handleRegister_same_connection host server k udpPort i)
  | _ => exact Or.inr ⟨rfl, rfl⟩

/-- A connection that has ended is not taken back. -/
theorem hungUp_mono (heffect : Effect host server event server') {conn : Nat}
    (hended : conn ∈ server.hungUp) : conn ∈ server'.hungUp := by
  cases heffect with
  | ended => exact List.mem_cons_of_mem _ hended
  | dropped => exact List.mem_cons_of_mem _ hended
  | endedDropped => exact List.mem_cons_of_mem _ (List.mem_cons_of_mem _ hended)
  | _ => exact hended

/-- The connections accepted after an event: the old ones, and one that was just
put into a slot. -/
theorem accepted_of_effect (heffect : Effect host server event server')
    (hspaced : Spaced server event) {conn : Nat} (hle : conn ≤ server'.accepted) :
    conn ≤ server.accepted ∨
      ∃ i, (server'.clients i).conn = conn ∧ 0 < (server'.clients i).fd := by
  cases heffect with
  | @placed fd addr k hfd hfree =>
      rcases Nat.lt_or_ge server.accepted conn with hlt | hge
      · refine Or.inr ⟨k, ?_⟩
        rw [Server.place_clients_self]
        exact ⟨le_antisymm hlt hle, (hspaced hfd).1⟩
      · exact Or.inl hge
  | _ => exact Or.inl hle

theorem seated_step (h : Seated server) (hstep : SpacedStep host server event server') :
    Seated server' := by
  have heffect := hstep.1.effect
  refine ⟨numbered_effect h.numbered heffect, fdsDistinct_effect h.fds heffect hstep.1.2, ?_⟩
  intro conn hne hle hliving
  -- an old connection has ended or kept its slot; a new one has just got one
  rcases accepted_of_effect heffect hstep.2 hle with hold | hnew
  · obtain ⟨i, hconn, hopen⟩ := h.seat conn hne hold fun hended =>
      hliving (hungUp_mono heffect hended)
    rcases ended_or_same_slot heffect hstep.2 hopen with hended | ⟨hconn', hfd⟩
    · rw [hconn] at hended
      exact absurd hended hliving
    · refine ⟨i, hconn'.trans hconn, ?_⟩
      rw [hfd]
      exact hopen
  · exact hnew

end Steps

/-- Numbers are right in every reachable state. -/
theorem numbered_run {host : ByteOrder} {server : Server} {events : List ServerEvent}
    (hrun : Run (ServerStep host) Server.initial events server) : Numbered server := by
  refine hrun.invariant (P := Numbered) ?_ numbered_initial
  intro s event t h hstep
  rw [hstep]
  exact numbered_effect h (apply_effect host s event)

theorem seated_run {host : ByteOrder} {server server' : Server} {events : List ServerEvent}
    (hrun : Run (SpacedStep host) server events server') (h : Seated server) : Seated server' :=
  hrun.invariant (P := Seated) (fun _ _ _ => seated_step) h

/-- Over a run, a connection stays in its slot under its descriptor until it
ends. -/
theorem same_slot_run {host : ByteOrder} {server server' : Server} {events : List ServerEvent}
    (hrun : Run (SpacedStep host) server events server') {i : Fin maxClients}
    (hopen : 0 < (server.clients i).fd) (hliving : (server.clients i).conn ∉ server'.hungUp) :
    (server'.clients i).conn = (server.clients i).conn ∧
      (server'.clients i).fd = (server.clients i).fd := by
  induction hrun with
  | nil => exact ⟨rfl, rfl⟩
  | snoc _ hstep ih =>
      have heffect := hstep.1.effect
      obtain ⟨hconn, hfd⟩ := ih fun hended => hliving (hungUp_mono heffect hended)
      rw [← hfd] at hopen
      rcases ended_or_same_slot heffect hstep.2 hopen with hended | ⟨hconn', hfd'⟩
      · rw [hconn] at hended
        exact absurd hended hliving
      · exact ⟨hconn'.trans hconn, hfd'.trans hfd⟩

/-- The slot holds the connection, its descriptor is polled, and what is read
from it is processed for this slot. -/
structure Served (host : ByteOrder) (server : Server) (i : Fin maxClients) (conn : Nat) :
    Prop where
  conn_eq : (server.clients i).conn = conn
  fd_pos : 0 < (server.clients i).fd
  polled : (server.clients i).fd ∈ server.pollFds
  processed : ∀ byte data room,
    server.receive host (server.clients i).fd (.bytes (byte :: data)) room =
      server.processClientMessage host i (byte :: data) room

theorem Seated.served {server : Server} (h : Seated server) (host : ByteOrder)
    {i : Fin maxClients} (hopen : 0 < (server.clients i).fd) :
    Served host server i (server.clients i).conn where
  conn_eq := rfl
  fd_pos := hopen
  polled := by
    rw [Server.pollFds, List.mem_filter]
    refine ⟨List.mem_map.mpr ⟨i, List.mem_finRange i, rfl⟩, ?_⟩
    simpa using hopen
  processed := by
    intro byte data room
    rw [Server.receive, findClientByFd_eq h.fds hopen]

/-- An accept overwrites no open connection exactly when the connections that
wait to register have an empty slot in front of them.  In every run whose
accepts meet this condition, every accepted connection that has not ended is
served in exactly one slot, and stays in this slot under its descriptor. -/
theorem connections_not_displaced (host : ByteOrder) :
    (∀ events server, Run (ServerStep host) Server.initial events server →
      ∀ fd addr, 0 ≤ fd →
        (KeepsOpen server (server.acceptNewClient fd addr) ↔ server.EmptySlotFirst)) ∧
    ∀ events server later server', Run (SpacedStep host) Server.initial events server →
      Run (SpacedStep host) server later server' →
        (∀ conn, conn ≠ 0 → conn ≤ server.accepted → conn ∉ server.hungUp →
          ∃! i, Served host server i conn) ∧
        ∀ i conn, Served host server i conn → conn ∉ server'.hungUp →
          Served host server' i conn ∧ (server'.clients i).fd = (server.clients i).fd := by
  constructor
  · intro events server hrun fd addr hfd
    exact keepsOpen_accept_iff (numbered_run hrun) hfd addr
  · intro events server later server' hrun hlater
    have hseated := seated_run hrun seated_initial
    constructor
    · intro conn hne hle hliving
      obtain ⟨i, rfl, hopen⟩ := hseated.seat conn hne hle hliving
      refine ⟨i, hseated.served host hopen, ?_⟩
      intro j hserved
      exact hseated.numbered.conn_inj j i hserved.conn_eq
        (hseated.numbered.conn_of_fd j hserved.fd_pos)
    · rintro i conn ⟨rfl, hopen, -, -⟩ hliving
      obtain ⟨hconn, hfd⟩ := same_slot_run hlater hopen hliving
      have hopen' : 0 < (server'.clients i).fd := by
        rw [hfd]
        exact hopen
      have hserved := (seated_run hlater hseated).served host hopen'
      rw [hconn] at hserved
      exact ⟨hserved, hfd⟩

theorem spacedRun_after {host : ByteOrder} {events : List ServerEvent}
    (hallowed : Run.Allowed (fun server event => FreshAccept server event ∧ Spaced server event)
      (fun server event => (server.apply host event).server) Server.initial events) :
    Run (SpacedStep host) Server.initial events (Server.after host events) :=
  Run.of_allowed (fun _ _ hspaced => ⟨⟨rfl, hspaced.1⟩, hspaced.2⟩) hallowed

/-- A second client connects after the first has registered: both are served. -/
theorem both_connections_served :
    ∃! i, Served .little
      (Server.after .little [.accept 5 ⟨1, 2⟩, fromConnection 5 registration, .accept 6 ⟨3, 4⟩])
      i 1 := by
  have hrun : Run (SpacedStep .little) Server.initial
      [.accept 5 ⟨1, 2⟩, fromConnection 5 registration, .accept 6 ⟨3, 4⟩]
      (Server.after .little
        [.accept 5 ⟨1, 2⟩, fromConnection 5 registration, .accept 6 ⟨3, 4⟩]) :=
    spacedRun_after (by decide +kernel)
  exact ((connections_not_displaced .little).2 _ _ [] _ hrun (Run.nil _)).1 1 (by decide)
    (by decide +kernel) (by decide +kernel)

/-- A second client connects before the first has registered: it takes the slot
of the first, whose socket is no longer polled and whose registration is not
processed. -/
theorem waiting_connection_displaced :
    Run (FreshStep .little) Server.initial [.accept 5 ⟨1, 2⟩, .accept 6 ⟨3, 4⟩]
        (Server.after .little [.accept 5 ⟨1, 2⟩, .accept 6 ⟨3, 4⟩]) ∧
      ¬ KeepsOpen (Server.after .little [.accept 5 ⟨1, 2⟩])
        ((Server.after .little [.accept 5 ⟨1, 2⟩]).acceptNewClient 6 ⟨3, 4⟩) ∧
      1 ∉ (Server.after .little [.accept 5 ⟨1, 2⟩, .accept 6 ⟨3, 4⟩]).hungUp ∧
      (Server.after .little [.accept 5 ⟨1, 2⟩, .accept 6 ⟨3, 4⟩]).pollFds = [6] ∧
      ((Server.after .little [.accept 5 ⟨1, 2⟩, .accept 6 ⟨3, 4⟩]).apply .little
        (fromConnection 5 registration)).replies = [] ∧
      ¬ ∃ i, Served .little
        (Server.after .little [.accept 5 ⟨1, 2⟩, .accept 6 ⟨3, 4⟩]) i 1 := by
  refine ⟨freshRun_after [] (by decide +kernel), ?_, by decide +kernel, by decide +kernel,
    by decide +kernel, ?_⟩
  · intro hkeeps
    exact absurd (congrArg ClientSlot.conn (hkeeps 0 (by decide +kernel))) (by decide +kernel)
  · rintro ⟨i, hserved⟩
    have hnone : ∀ i, ((Server.after .little
        [.accept 5 ⟨1, 2⟩, .accept 6 ⟨3, 4⟩]).clients i).conn ≠ 1 := by
      decide +kernel
    exact hnone i hserved.conn_eq

end Directory
end PeerShare
