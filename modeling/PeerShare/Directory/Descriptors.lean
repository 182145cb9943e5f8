import PeerShare.Directory.Disconnection
import PeerShare.Foundation.ResourceLedger

/-!
# The descriptors of the server

What the server does with the sockets that `accept` returns, followed through whole runs:
which it reads, writes and closes, and which it has lost sight of.  The kernel gives out
only descriptors that are not open.

A descriptor is closed at most once and never used afterwards.  What is open is what the
slots hold and what they have forgotten: a connection that waits to register is
overwritten by the next accept, and descriptor 0 is stored but never polled.  The cleanup
at the end of `main` closes the slots, so exactly the forgotten descriptors stay open.
-/

namespace PeerShare
namespace Directory

open Foundation Wire

namespace Server

variable (host : ByteOrder) (server : Server)

/-- `accept_new_client`. -/
def acceptTrace (fd : Int) : List (ResourceEvent Int) :=
  if fd < 0 then
    []
  else
    match server.freeSlot with
    | none => [.acquire fd, .release fd]
    | some _ => [.acquire fd]

/-- `remove_client`. -/
def removeTrace (i : Fin maxClients) : List (ResourceEvent Int) :=
  (server.closedFd i).toList.map .release

/-- `process_client_message`: the handlers only send, apart from the one that removes. -/
def messageTrace (i : Fin maxClients) (room : Bool) :
    Option ClientMessage → List (ResourceEvent Int)
  | none => []
  | some .unregister => server.removeTrace i
  | some message => (server.handle host i message room).replies.map fun reply => .use reply.fd

/-- The branch of the main loop for a readable client socket. -/
def receiveTrace (fd : Int) (recv : Recv) (room : Bool) : List (ResourceEvent Int) :=
  match server.findClientByFd fd with
  | none => []
  | some i =>
      .use (server.clients i).fd ::
        match recv with
        | .error => server.removeTrace i
        | .bytes [] => server.removeTrace i
        | .bytes (byte :: data) => server.messageTrace host i room (readMessage host (byte :: data))

/-- What an event does with descriptors. -/
def descriptorTrace : ServerEvent → List (ResourceEvent Int)
  | .accept fd _ => server.acceptTrace fd
  | .readable fd recv room => server.receiveTrace host fd recv room

/-- What an event makes the server lose sight of: the open descriptor in the slot that an
accept takes, and a descriptor that no slot polls. -/
def forgets : ServerEvent → Finset Int
  | .accept fd _ =>
      if fd < 0 then
        ∅
      else
        match server.freeSlot with
        | none => ∅
        | some i =>
            ({(server.clients i).fd} : Finset Int).filter (0 < ·) ∪
              ({fd} : Finset Int).filter (· = 0)
  | .readable _ _ _ => ∅

/-- The loop over the slots at the end of `main`. -/
def shutdownTrace : List (ResourceEvent Int) := server.pollFds.map .release

end Server

/-- The server with the trace of its descriptors and those it has forgotten. -/
structure Descriptors where
  server : Server
  trace : List (ResourceEvent Int)
  forgotten : Finset Int

namespace Descriptors

def initial : Descriptors where
  server := Server.initial
  trace := []
  forgotten := ∅

def apply (host : ByteOrder) (d : Descriptors) (event : ServerEvent) : Descriptors where
  server := (d.server.apply host event).server
  trace := d.trace ++ d.server.descriptorTrace host event
  forgotten := d.forgotten ∪ d.server.forgets event

/-- `accept` returns no descriptor that is open. -/
def Allows (d : Descriptors) : ServerEvent → Prop
  | .accept fd _ => ∀ held ∈ Ledger.after ∅ d.trace, fd ∉ held
  | .readable _ _ _ => True

end Descriptors

instance (d : Descriptors) : (event : ServerEvent) → Decidable (d.Allows event)
  | .accept fd _ => inferInstanceAs (Decidable (∀ held ∈ Ledger.after ∅ d.trace, fd ∉ held))
  | .readable _ _ _ => isTrue trivial

def DescriptorStep (host : ByteOrder) (d : Descriptors) (event : ServerEvent)
    (d' : Descriptors) : Prop :=
  d.Allows event ∧ d' = d.apply host event

/-! ## The descriptors in the slots -/

/-- The open descriptors that the slots hold. -/
def Server.openFds (server : Server) : Finset Int := server.pollFds.toFinset

section Slots

variable {server server' : Server} {i : Fin maxClients}

theorem mem_openFds_iff {fd : Int} :
    fd ∈ server.openFds ↔ 0 < fd ∧ ∃ i, (server.clients i).fd = fd := by
  simp [Server.openFds, Server.pollFds, and_comm]

theorem fd_mem_openFds (hopen : 0 < (server.clients i).fd) :
    (server.clients i).fd ∈ server.openFds :=
  mem_openFds_iff.mpr ⟨hopen, i, rfl⟩

theorem openFds_congr (hfds : ∀ i, (server'.clients i).fd = (server.clients i).fd) :
    server'.openFds = server.openFds := by
  ext fd
  simp only [mem_openFds_iff, hfds]

theorem pollFds_nodup (hdistinct : server.FdsDistinct) : server.pollFds.Nodup := by
  rw [Server.pollFds, List.filter_map]
  refine List.Nodup.map_on ?_ ((List.nodup_finRange _).filter _)
  intro i hi j _ hsame
  obtain ⟨-, hopen⟩ := List.mem_filter.mp hi
  exact hdistinct i j hsame (by simpa using hopen)

/-- Closing the descriptor of a slot. -/
theorem openFds_dropClient (hdistinct : server.FdsDistinct)
    (hopen : 0 < (server.clients i).fd) :
    (server.dropClient i).openFds = server.openFds.erase (server.clients i).fd := by
  ext fd
  rw [Finset.mem_erase, mem_openFds_iff, mem_openFds_iff]
  constructor
  · rintro ⟨hpos, j, rfl⟩
    have hj : j ≠ i := by
      rintro rfl
      rw [Server.dropClient_clients_self] at hpos
      norm_num at hpos
    rw [Server.dropClient_clients_of_ne _ _ hj] at hpos ⊢
    exact ⟨fun hsame => hj (hdistinct j i hsame hpos), hpos, j, rfl⟩
  · rintro ⟨hne, hpos, j, rfl⟩
    have hj : j ≠ i := by
      rintro rfl
      exact hne rfl
    refine ⟨hpos, j, ?_⟩
    rw [Server.dropClient_clients_of_ne _ _ hj]

/-- A new connection takes a slot, and with it the place of the descriptor in it. -/
theorem mem_openFds_place (hdistinct : server.FdsDistinct) {fd : Int} {addr : SockAddr}
    {other : Int} :
    other ∈ (server.place i fd addr).openFds ↔
      other = fd ∧ 0 < fd ∨ other ∈ server.openFds ∧ other ≠ (server.clients i).fd := by
  rw [mem_openFds_iff, mem_openFds_iff]
  constructor
  · rintro ⟨hpos, j, rfl⟩
    by_cases hj : j = i
    · rw [hj, Server.place_clients_self] at hpos ⊢
      exact .inl ⟨rfl, hpos⟩
    · rw [Server.place_clients_of_ne _ _ _ _ hj] at hpos ⊢
      exact .inr ⟨⟨hpos, j, rfl⟩, fun hsame => hj (hdistinct j i hsame hpos)⟩
  · rintro (⟨rfl, hpos⟩ | ⟨⟨hpos, j, rfl⟩, hne⟩)
    · refine ⟨hpos, i, ?_⟩
      rw [Server.place_clients_self]
    · have hj : j ≠ i := by
        rintro rfl
        exact hne rfl
      refine ⟨hpos, j, ?_⟩
      rw [Server.place_clients_of_ne _ _ _ _ hj]

end Slots

/-! ## What every step keeps -/

/-- What is open is in one slot or forgotten, and not both. -/
structure DescriptorInv (d : Descriptors) : Prop where
  held : Ledger.after ∅ d.trace = some (d.server.openFds ∪ d.forgotten)
  distinct : d.server.FdsDistinct
  open_of_active : ∀ i, (d.server.clients i).active = true → 0 < (d.server.clients i).fd
  apart : Disjoint d.server.openFds d.forgotten

theorem descriptorInv_initial : DescriptorInv Descriptors.initial where
  held := by
    have hnone : Server.initial.openFds = ∅ := by
      ext fd
      rw [mem_openFds_iff]
      constructor
      · rintro ⟨hpos, i, rfl⟩
        cases hpos
      · intro hmem
        cases hmem
    show some ∅ = some (Server.initial.openFds ∪ ∅)
    rw [hnone, Finset.empty_union]
  distinct := fdsDistinct_initial
  open_of_active := by
    intro i hactive
    cases hactive
  apart := Finset.disjoint_empty_right _

section Steps

variable {host : ByteOrder} {d : Descriptors} {i : Fin maxClients} {server' : Server}

/-- Reading and writing a connection moves no descriptor. -/
theorem DescriptorInv.uses (h : DescriptorInv d) {events : List (ResourceEvent Int)}
    (huses : ∀ event ∈ events, ∃ fd ∈ d.server.openFds, event = .use fd)
    (hfds : ∀ j, (server'.clients j).fd = (d.server.clients j).fd)
    (hactive : ∀ j, (server'.clients j).active = true → 0 < (server'.clients j).fd) :
    DescriptorInv ⟨server', d.trace ++ events, d.forgotten⟩ where
  held := by
    rw [Ledger.after_append h.held, openFds_congr hfds]
    refine Ledger.after_uses fun event hevent => ?_
    obtain ⟨fd, hfd, rfl⟩ := huses event hevent
    exact ⟨fd, Finset.mem_union_left _ hfd, rfl⟩
  distinct := by
    intro j k hsame hpos
    rw [hfds] at hpos
    rw [hfds, hfds] at hsame
    exact h.distinct j k hsame hpos
  open_of_active := hactive
  apart := by
    rw [openFds_congr hfds]
    exact h.apart

/-- `remove_client`, behind a `recv` on the slot. -/
theorem DescriptorInv.removeClient (h : DescriptorInv d) (hopen : 0 < (d.server.clients i).fd)
    (hsame : ∀ j, server'.clients j = (d.server.removeClient i).clients j) :
    DescriptorInv ⟨server', d.trace ++ .use (d.server.clients i).fd :: d.server.removeTrace i,
      d.forgotten⟩ := by
  have hslot := fd_mem_openFds hopen
  by_cases hactive : (d.server.clients i).active = true
  · have hremove : d.server.removeClient i = d.server.dropClient i := by
      rw [Server.removeClient, if_neg (by simp [hactive])]
    have hfds : server'.openFds = d.server.openFds.erase (d.server.clients i).fd := by
      rw [← openFds_dropClient h.distinct hopen, ← hremove]
      exact openFds_congr fun j => by rw [hsame]
    have hkept : (d.server.clients i).fd ∉ d.forgotten := Finset.disjoint_left.mp h.apart hslot
    rw [hremove] at hsame
    refine ⟨?_, ?_, ?_, ?_⟩
    · have hclose : d.server.removeTrace i = [.release (d.server.clients i).fd] := by
        simp [Server.removeTrace, Server.closedFd, hactive]
      have hheld := Finset.mem_union_left d.forgotten hslot
      rw [Ledger.after_append h.held, hclose, Ledger.after_use hheld, Ledger.after_release hheld,
        hfds, Finset.erase_union_distrib, Finset.erase_eq_of_notMem hkept]
      rfl
    · intro j k hjk hpos
      rw [hsame] at hpos
      rw [hsame, hsame] at hjk
      exact fdsDistinct_dropClient h.distinct i j k hjk hpos
    · intro j hon
      rw [hsame] at hon ⊢
      by_cases hj : j = i
      · rw [hj, Server.dropClient_clients_self] at hon
        cases hon
      · rw [Server.dropClient_clients_of_ne _ _ hj] at hon ⊢
        exact h.open_of_active j hon
    · rw [hfds]
      exact h.apart.mono_left (Finset.erase_subset _ _)
  · -- a client that has not registered keeps its slot and its descriptor
    have hidle : (d.server.clients i).active = false := by simpa using hactive
    have hkeep : d.server.removeClient i = d.server := by
      rw [Server.removeClient, if_pos hidle]
    have hnone : d.server.removeTrace i = [] := by
      simp [Server.removeTrace, Server.closedFd, hidle]
    rw [hkeep] at hsame
    rw [hnone]
    refine h.uses ?_ (fun j => by rw [hsame]) fun j hon => ?_
    · intro event hevent
      rw [List.mem_singleton] at hevent
      exact ⟨_, hslot, hevent⟩
    · rw [hsame] at hon ⊢
      exact h.open_of_active j hon

/-- A connection is accepted into a slot. -/
theorem DescriptorInv.place (h : DescriptorInv d) {fd : Int} (addr : SockAddr) (hfd : 0 ≤ fd)
    (hclosed : fd ∉ d.server.openFds ∪ d.forgotten) :
    DescriptorInv ⟨d.server.place i fd addr, d.trace ++ [.acquire fd],
      d.forgotten ∪ (({(d.server.clients i).fd} : Finset Int).filter (0 < ·) ∪
        ({fd} : Finset Int).filter (· = 0))⟩ := by
  have hfresh : ∀ j, 0 < (d.server.clients j).fd → (d.server.clients j).fd ≠ fd := by
    rintro j hopen rfl
    exact hclosed (Finset.mem_union_left _ (fd_mem_openFds hopen))
  rw [Finset.mem_union, not_or] at hclosed
  have hold : 0 < (d.server.clients i).fd → (d.server.clients i).fd ∈ d.server.openFds :=
    fd_mem_openFds
  have hpos : ∀ other ∈ d.server.openFds, 0 < other := fun other hother =>
    (mem_openFds_iff.mp hother).1
  refine ⟨?_, fdsDistinct_place h.distinct hfresh addr, ?_, ?_⟩
  · rw [Ledger.after_append h.held, Ledger.after_acquire (by simp [hclosed]), Ledger.after_nil]
    congr 1
    ext other
    simp only [Finset.mem_insert, Finset.mem_union, mem_openFds_place h.distinct,
      Finset.mem_filter, Finset.mem_singleton]
    constructor
    · rintro (rfl | hslot | hgone)
      · rcases hfd.lt_or_eq with hlt | heq
        · exact .inl (.inl ⟨rfl, hlt⟩)
        · exact .inr (.inr (.inr ⟨rfl, heq.symm⟩))
      · by_cases hsame : other = (d.server.clients i).fd
        · exact .inr (.inr (.inl ⟨hsame, hpos other hslot⟩))
        · exact .inl (.inr ⟨hslot, hsame⟩)
      · exact .inr (.inl hgone)
    · rintro ((⟨rfl, -⟩ | ⟨hslot, -⟩) | hgone | ⟨rfl, hopen⟩ | ⟨rfl, -⟩)
      · exact .inl rfl
      · exact .inr (.inl hslot)
      · exact .inr (.inr hgone)
      · exact .inr (.inl (hold hopen))
      · exact .inl rfl
  · intro j hon
    by_cases hj : j = i
    · rw [hj, Server.place_clients_self] at hon
      cases hon
    · rw [Server.place_clients_of_ne _ _ _ _ hj] at hon ⊢
      exact h.open_of_active j hon
  · rw [Finset.disjoint_left]
    intro other hslot hgone
    simp only [Finset.mem_union, Finset.mem_filter, Finset.mem_singleton] at hgone
    rw [mem_openFds_place h.distinct] at hslot
    rcases hslot with ⟨rfl, hopen⟩ | ⟨hslot, hne⟩
    · rcases hgone with hgone | ⟨hsame, hpositive⟩ | ⟨-, hzero⟩
      · exact hclosed.2 hgone
      · exact hfresh i (hsame ▸ hpositive) hsame.symm
      · omega
    · rcases hgone with hgone | ⟨hsame, -⟩ | ⟨rfl, -⟩
      · exact Finset.disjoint_left.mp h.apart hslot hgone
      · exact hne hsame
      · exact hclosed.1 hslot

theorem DescriptorInv.accept (h : DescriptorInv d) {fd : Int} (addr : SockAddr)
    (hallows : d.Allows (.accept fd addr)) : DescriptorInv (d.apply host (.accept fd addr)) := by
  have hclosed := hallows _ h.held
  simp only [Descriptors.apply, Server.apply, Server.acceptNewClient, Server.descriptorTrace,
    Server.acceptTrace, Server.forgets]
  by_cases hfd : fd < 0
  · rw [if_pos hfd, if_pos hfd, if_pos hfd, List.append_nil, Finset.union_empty]
    exact h
  · rw [if_neg hfd, if_neg hfd, if_neg hfd]
    cases d.server.freeSlot with
    | none =>
        refine { h with held := ?_, apart := ?_ }
        · show Ledger.after ∅ (d.trace ++ [.acquire fd, .release fd]) = _
          rw [Ledger.after_append h.held, Ledger.after_acquire hclosed,
            Ledger.after_release (Finset.mem_insert_self _ _), Finset.erase_insert hclosed,
            Finset.union_empty]
          rfl
        · rw [Finset.union_empty]
          exact h.apart
    | some i => exact h.place addr (Int.not_lt.mp hfd) hclosed

/-- What the handlers send goes to the slot they serve. -/
theorem fd_of_mem_replies {message : ClientMessage} {room : Bool} {reply : Reply}
    (hreply : reply ∈ (d.server.handle host i message room).replies) :
    reply.fd = (d.server.clients i).fd := by
  cases message with
  | register udpPort =>
      rw [List.mem_singleton.mp hreply]
  | shareFile share =>
      simp only [Server.handle, Server.handleShareFile] at hreply
      split at hreply <;> rw [List.mem_singleton.mp hreply]
  | listFiles =>
      simp only [Server.handle, Server.handleListFiles] at hreply
      split at hreply
      · cases hreply
      · rw [List.mem_singleton.mp hreply]
  | requestFile fileId =>
      simp only [Server.handle, Server.handleRequestFile] at hreply
      split at hreply <;> rw [List.mem_singleton.mp hreply]
  | unregister => cases hreply

/-- A handler that does not remove keeps every descriptor in its slot. -/
theorem handle_keeps_fds (host : ByteOrder) {message : ClientMessage} (room : Bool)
    (hmessage : message ≠ .unregister) (hopen : 0 < (d.server.clients i).fd)
    (hactive : ∀ j, (d.server.clients j).active = true → 0 < (d.server.clients j).fd)
    (j : Fin maxClients) :
    ((d.server.handle host i message room).server.clients j).fd = (d.server.clients j).fd ∧
      (((d.server.handle host i message room).server.clients j).active = true →
        0 < (d.server.clients j).fd) := by
  cases message with
  | register udpPort =>
      refine ⟨(handleRegister_same_connection host d.server i udpPort j).2, fun hon => ?_⟩
      by_cases hj : j = i
      · rw [hj]
        exact hopen
      · rw [Server.handle, Server.handleRegister_clients_of_ne _ _ _ _ hj] at hon
        exact hactive j hon
  | shareFile share =>
      simp only [Server.handle, Server.handleShareFile]
      split
      · exact ⟨rfl, hactive j⟩
      · exact ⟨rfl, hactive j⟩
  | listFiles =>
      simp only [Server.handle, Server.handleListFiles]
      split
      · exact ⟨rfl, hactive j⟩
      · exact ⟨rfl, hactive j⟩
  | requestFile fileId =>
      simp only [Server.handle, Server.handleRequestFile]
      split
      · exact ⟨rfl, hactive j⟩
      · exact ⟨rfl, hactive j⟩
  | unregister => exact absurd rfl hmessage

theorem DescriptorInv.message (h : DescriptorInv d) (hopen : 0 < (d.server.clients i).fd)
    (room : Bool) (data : Bytes) :
    DescriptorInv ⟨(d.server.processClientMessage host i data room).server,
      d.trace ++ .use (d.server.clients i).fd ::
        d.server.messageTrace host i room (readMessage host data), d.forgotten⟩ := by
  have hslot := fd_mem_openFds hopen
  rw [Server.processClientMessage]
  cases readMessage host data with
  | none =>
      refine h.uses ?_ (fun j => rfl) h.open_of_active
      intro event hevent
      rw [Server.messageTrace, List.mem_singleton] at hevent
      exact ⟨_, hslot, hevent⟩
  | some message =>
      by_cases hmessage : message = .unregister
      · subst hmessage
        exact h.removeClient hopen fun j => rfl
      · have hkeeps := handle_keeps_fds host room hmessage hopen h.open_of_active
        have htrace : d.server.messageTrace host i room (some message) =
            (d.server.handle host i message room).replies.map fun reply => .use reply.fd := by
          cases message with
          | unregister => exact absurd rfl hmessage
          | _ => rfl
        rw [htrace]
        refine h.uses ?_ (fun j => (hkeeps j).1) fun j hon => ?_
        · intro event hevent
          rcases List.mem_cons.mp hevent with hrecv | hsent
          · exact ⟨_, hslot, hrecv⟩
          · obtain ⟨reply, hreply, rfl⟩ := List.mem_map.mp hsent
            exact ⟨_, hslot, by rw [fd_of_mem_replies hreply]⟩
        · show 0 < ((d.server.handle host i message room).server.clients j).fd
          rw [(hkeeps j).1]
          exact (hkeeps j).2 hon

theorem descriptorInv_step {event : ServerEvent} {d' : Descriptors} (h : DescriptorInv d)
    (hstep : DescriptorStep host d event d') : DescriptorInv d' := by
  obtain ⟨hallows, rfl⟩ := hstep
  cases event with
  | accept fd addr => exact h.accept addr hallows
  | readable fd recv room =>
      simp only [Descriptors.apply, Server.apply, Server.receive, Server.descriptorTrace,
        Server.receiveTrace, Server.forgets, Finset.union_empty]
      cases hfind : d.server.findClientByFd fd with
      | none =>
          rw [List.append_nil]
          exact h
      | some i =>
          have hopen := (Server.fd_of_findClientByFd hfind).2
          cases recv with
          | error => exact h.removeClient hopen fun j => rfl
          | bytes data =>
              cases data with
              | nil => exact h.removeClient hopen fun j => rfl
              | cons byte data => exact h.message hopen room (byte :: data)

end Steps

/-- Whatever the clients do, in every run: the server uses and closes only descriptors that
are open, what is open is what the slots hold and what it has forgotten, nothing is both,
and the cleanup at the end closes everything but the forgotten. -/
theorem descriptors_accounted (host : ByteOrder) {events : List ServerEvent} {d : Descriptors}
    (hrun : Run (DescriptorStep host) Descriptors.initial events d) :
    Ledger.after ∅ d.trace = some (d.server.openFds ∪ d.forgotten) ∧
      Disjoint d.server.openFds d.forgotten ∧
      Ledger.after ∅ (d.trace ++ d.server.shutdownTrace) = some d.forgotten := by
  have hinv : DescriptorInv d :=
    hrun.invariant (fun _ _ _ h hstep => descriptorInv_step h hstep) descriptorInv_initial
  refine ⟨hinv.held, hinv.apart, ?_⟩
  rw [Ledger.after_append hinv.held, Server.shutdownTrace,
    Ledger.after_releases (pollFds_nodup hinv.distinct), Finset.union_sdiff_distrib]
  · have hslots : d.server.openFds \ d.server.pollFds.toFinset = ∅ := Finset.sdiff_self _
    have hkept : d.forgotten \ d.server.pollFds.toFinset = d.forgotten :=
      Finset.sdiff_eq_self_of_disjoint hinv.apart.symm
    rw [hslots, hkept, Finset.empty_union]
  · intro fd hfd
    exact Finset.mem_union_left _ (List.mem_toFinset.mpr hfd)

/-- The second connection arrives before the first has registered. -/
def overtakenAccept : List ServerEvent :=
  [.accept 5 ⟨1, 2⟩, .accept 6 ⟨3, 4⟩, fromConnection 6 registration]

/-- Descriptor 5 is still open when the server has ended. -/
theorem descriptors_accounted_overtaken :
    Ledger.after ∅
      ((overtakenAccept.foldl (Descriptors.apply .little) Descriptors.initial).trace ++
        (overtakenAccept.foldl (Descriptors.apply .little)
          Descriptors.initial).server.shutdownTrace) = some {5} := by
  have hallowed : Run.Allowed Descriptors.Allows (Descriptors.apply .little) Descriptors.initial
      overtakenAccept := by
    decide +kernel
  have hrun : Run (DescriptorStep .little) Descriptors.initial overtakenAccept
      (overtakenAccept.foldl (Descriptors.apply .little) Descriptors.initial) :=
    Run.of_allowed (fun _ _ hallows => ⟨hallows, rfl⟩) hallowed
  have hforgotten :
      (overtakenAccept.foldl (Descriptors.apply .little) Descriptors.initial).forgotten = {5} := by
    decide +kernel
  rw [← hforgotten]
  exact (descriptors_accounted .little hrun).2.2

end Directory
end PeerShare
