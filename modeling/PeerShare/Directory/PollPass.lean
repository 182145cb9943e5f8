import PeerShare.Directory.Segmentation

/-!
# One pass over the polled sockets

The poll array is built first, then a connection is accepted, then every socket that was
reported readable is looked up and read once.  A client that sends much, or ends its
connection, does not cost another one its turn, and what it does to the slots is not seen
by those behind it: each connection is read in the slot it had when the array was built.

The one that loses its turn is a connection that has not registered and whose slot the
accept of the same pass takes.
-/

namespace PeerShare
namespace Directory

open Foundation Wire

/-- The slots that are read for a list of polled descriptors, in order, as they are when
they are read.  The states are those of `serveClients`. -/
def servedSlots (host : ByteOrder) (readiness : Int → Option (Recv × Bool)) :
    List Int → Server → List (Fin maxClients × ClientSlot)
  | [], _ => []
  | fd :: fds, server =>
      match readiness fd with
      | none => servedSlots host readiness fds server
      | some (recv, room) =>
          (server.findClientByFd fd).toList.map (fun i => (i, server.clients i)) ++
            servedSlots host readiness fds (server.receive host fd recv room).server

namespace Server

/-- The slots that `mainIteration` reads. -/
def passReads (host : ByteOrder) (server : Server) (accepted : Option (Int × SockAddr))
    (readiness : Int → Option (Recv × Bool)) : List (Fin maxClients × ClientSlot) :=
  let ready := match accepted with
    | none => server
    | some (fd, addr) => server.acceptNewClient fd addr
  servedSlots host readiness server.pollFds ready

/-- The accept of the pass takes this slot. -/
def overtaken (server : Server) (accepted : Option (Int × SockAddr)) (i : Fin maxClients) :
    Bool :=
  accepted.any fun connection =>
    decide (0 ≤ connection.1) && decide (server.freeSlot = some i)

end Server

section Receive

variable {host : ByteOrder} {server server' : Server} {fd : Int} {recv : Recv} {room : Bool}

/-- Reading one socket writes at most the slot it was found in. -/
theorem clients_of_readable_ne (heffect : Effect host server (.readable fd recv room) server')
    {j : Fin maxClients} (hother : server.findClientByFd fd ≠ some j) :
    server'.clients j = server.clients j := by
  have hne : ∀ k, server.findClientByFd fd = some k → j ≠ k := by
    rintro k hfind rfl
    exact hother hfind
  cases heffect with
  | dropped hfind => exact Server.dropClient_clients_of_ne _ _ (hne _ hfind)
  | endedDropped hfind => exact Server.dropClient_clients_of_ne _ _ (hne _ hfind)
  | registered hfind => exact Server.handleRegister_clients_of_ne _ _ _ _ (hne _ hfind)
  | _ => rfl

/-- A slot keeps its descriptor or loses it. -/
theorem fd_of_readable (heffect : Effect host server (.readable fd recv room) server')
    (j : Fin maxClients) :
    (server'.clients j).fd = (server.clients j).fd ∨ (server'.clients j).fd = -1 := by
  by_cases hfound : server.findClientByFd fd = some j
  · have hdropped : ((server.dropClient j).clients j).fd = -1 := by
      rw [Server.dropClient_clients_self]
    cases heffect with
    | dropped hfind =>
        cases Option.some.inj (hfind.symm.trans hfound)
        exact Or.inr hdropped
    | endedDropped hfind =>
        cases Option.some.inj (hfind.symm.trans hfound)
        exact Or.inr hdropped
    | @registered _ _ _ k udpPort hfind =>
        exact Or.inl (handleRegister_same_connection host server k udpPort j).2
    | _ => exact Or.inl rfl
  · rw [clients_of_readable_ne heffect hfound]
    exact Or.inl rfl

/-- A descriptor that is in no slot is in none after a socket has been read. -/
theorem findClientByFd_of_readable (heffect : Effect host server (.readable fd recv room) server')
    {gone : Int} (hgone : server.findClientByFd gone = none) :
    server'.findClientByFd gone = none := by
  refine firstSlot_eq_none_iff.mpr fun j => ?_
  have hbefore := firstSlot_eq_none_iff.mp hgone j
  rcases fd_of_readable heffect j with hsame | hlost
  · rw [hsame]
    exact hbefore
  · simp [hlost]

end Receive

/-! ## The pass -/

section Pass

variable {host : ByteOrder} {readiness : Int → Option (Recv × Bool)}

/-- Reading the sockets of some slots, in order: each that is still where it was polled is
read once, as it was. -/
theorem servedSlots_map {slots : List (Fin maxClients)} (hnodup : slots.Nodup)
    {polled : Fin maxClients → Int} (hpolled : ∀ i ∈ slots, 0 < polled i)
    {gone : Fin maxClients → Bool} {server : Server} (hdistinct : server.FdsDistinct)
    (hstays : ∀ i ∈ slots, gone i = false → (server.clients i).fd = polled i)
    (hgone : ∀ i ∈ slots, gone i = true → server.findClientByFd (polled i) = none) :
    servedSlots host readiness (slots.map polled) server =
      (slots.filter fun i => (readiness (polled i)).isSome && !gone i).map
        fun i => (i, server.clients i) := by
  induction slots generalizing server with
  | nil => rfl
  | cons i rest ih =>
      obtain ⟨hfirst, hrest⟩ := List.nodup_cons.mp hnodup
      have hkept := fun j hj => hpolled j (List.mem_cons_of_mem i hj)
      cases hready : readiness (polled i) with
      | none =>
          rw [List.map_cons, servedSlots, hready, List.filter_cons_of_neg (by simp [hready])]
          exact ih hrest hkept hdistinct
            (fun j hj => hstays j (List.mem_cons_of_mem i hj))
            (fun j hj => hgone j (List.mem_cons_of_mem i hj))
      | some arrival =>
          obtain ⟨recv, room⟩ := arrival
          have heffect := apply_effect host server (.readable (polled i) recv room)
          rw [List.map_cons, servedSlots, hready]
          simp only
          cases hleft : gone i with
          | true =>
              have hnone := hgone i List.mem_cons_self hleft
              have hsame : server.receive host (polled i) recv room = ⟨server, []⟩ := by
                rw [Server.receive, hnone]
              rw [List.filter_cons_of_neg (by simp [hleft]), hnone, hsame]
              exact ih hrest hkept hdistinct
                (fun j hj => hstays j (List.mem_cons_of_mem i hj))
                (fun j hj => hgone j (List.mem_cons_of_mem i hj))
          | false =>
              have hfd := hstays i List.mem_cons_self hleft
              have hopen := hpolled i List.mem_cons_self
              have hfind : server.findClientByFd (polled i) = some i := by
                rw [← hfd]
                exact findClientByFd_eq hdistinct (hfd ▸ hopen)
              have hothers : ∀ j ∈ rest,
                  (server.receive host (polled i) recv room).server.clients j =
                    server.clients j := by
                intro j hj
                refine clients_of_readable_ne heffect ?_
                rw [hfind]
                rintro hsame
                exact hfirst (Option.some.inj hsame ▸ hj)
              have hnext := ih hrest hkept (fdsDistinct_receive hdistinct recv room)
                (fun j hj hj' => by
                  rw [hothers j hj]
                  exact hstays j (List.mem_cons_of_mem i hj) hj')
                (fun j hj hj' => findClientByFd_of_readable heffect
                  (hgone j (List.mem_cons_of_mem i hj) hj'))
              rw [List.filter_cons_of_pos (by simp [hready, hleft]), hfind, List.map_cons,
                hnext]
              refine congrArg (_ :: ·) (List.map_congr_left fun j hj => ?_)
              rw [hothers j (List.mem_of_mem_filter hj)]

variable {server : Server} {fd : Int} {addr : SockAddr}

/-- An accept leaves the slots that it does not take. -/
theorem acceptNewClient_clients_of_kept {i : Fin maxClients}
    (hkept : server.overtaken (some (fd, addr)) i = false) :
    (server.acceptNewClient fd addr).clients i = server.clients i := by
  unfold Server.acceptNewClient
  split
  · rfl
  · next hfd =>
      split
      · rfl
      · next k hfree =>
          refine Server.place_clients_of_ne _ _ _ _ ?_
          rintro rfl
          simp [Server.overtaken, hfree, not_lt.mp hfd] at hkept

/-- The descriptor that was in the slot the accept takes is in no slot any more. -/
theorem findClientByFd_of_overtaken (hdistinct : server.FdsDistinct)
    (hfresh : FreshAccept server (.accept fd addr)) {i : Fin maxClients}
    (hopen : 0 < (server.clients i).fd)
    (htaken : server.overtaken (some (fd, addr)) i = true) :
    (server.acceptNewClient fd addr).findClientByFd (server.clients i).fd = none := by
  obtain ⟨hfd, hfree⟩ : 0 ≤ fd ∧ server.freeSlot = some i := by
    simpa [Server.overtaken] using htaken
  have hplaced : server.acceptNewClient fd addr = server.place i fd addr := by
    rw [Server.acceptNewClient, if_neg (not_lt.mpr hfd), hfree]
  rw [hplaced]
  refine firstSlot_eq_none_iff.mpr fun j => ?_
  by_cases hj : j = i
  · subst hj
    have hnew := hfresh j hopen
    simp [Ne.symm hnew]
  · rw [Server.place_clients_of_ne _ _ _ _ hj]
    by_contra hfound
    rw [Bool.not_eq_false, Bool.and_eq_true, beq_iff_eq, decide_eq_true_eq] at hfound
    exact hj (hdistinct j i hfound.1 hfound.2)

end Pass

/-- In every reachable state and for every outcome of `accept` and `poll`: a pass of the main
loop reads, in the order of the slots, exactly the connections that were reported readable,
each once and in the slot as it was when the pass began.  Left out is the one whose slot the
accept of the same pass has taken. -/
theorem pass_reads_each_once {host : ByteOrder} {events : List ServerEvent} {server : Server}
    (hrun : Run (FreshStep host) Server.initial events server)
    (accepted : Option (Int × SockAddr))
    (hfresh : ∀ fd addr, accepted = some (fd, addr) → FreshAccept server (.accept fd addr))
    (readiness : Int → Option (Recv × Bool)) :
    server.passReads host accepted readiness =
      ((List.finRange maxClients).filter fun i =>
        decide (0 < (server.clients i).fd) && (readiness (server.clients i).fd).isSome &&
          !server.overtaken accepted i).map fun i => (i, server.clients i) := by
  have hdistinct : server.FdsDistinct :=
    hrun.invariant (fun before event _ h hstep => by
      rw [hstep.1]
      exact fdsDistinct_effect h (apply_effect host before event) hstep.2) fdsDistinct_initial
  have hpolled : server.pollFds =
      ((List.finRange maxClients).filter fun i => decide (0 < (server.clients i).fd)).map
        fun i => (server.clients i).fd := by
    rw [Server.pollFds, List.filter_map]
    rfl
  obtain ⟨ready, hready, hdistinct', hkept, hgone⟩ : ∃ ready : Server,
      server.passReads host accepted readiness =
        servedSlots host readiness server.pollFds ready ∧ ready.FdsDistinct ∧
      (∀ i, server.overtaken accepted i = false → ready.clients i = server.clients i) ∧
      ∀ i, 0 < (server.clients i).fd → server.overtaken accepted i = true →
        ready.findClientByFd (server.clients i).fd = none := by
    cases accepted with
    | none => exact ⟨server, rfl, hdistinct, fun _ _ => rfl, fun _ _ hnever => by cases hnever⟩
    | some connection =>
        obtain ⟨fd, addr⟩ := connection
        have hnew := hfresh fd addr rfl
        exact ⟨server.acceptNewClient fd addr, rfl,
          fdsDistinct_effect hdistinct (apply_effect host server (.accept fd addr)) hnew,
          fun _ => acceptNewClient_clients_of_kept,
          fun _ => findClientByFd_of_overtaken hdistinct hnew⟩
  have hopen : ∀ i ∈ (List.finRange maxClients).filter
      (fun i => decide (0 < (server.clients i).fd)), 0 < (server.clients i).fd := fun i hi => by
    simpa using (List.mem_filter.mp hi).2
  rw [hready, hpolled, servedSlots_map ((List.nodup_finRange _).filter _) hopen hdistinct'
    (fun i _ hi => by rw [hkept i hi]) (fun i hi => hgone i (hopen i hi)), List.filter_filter]
  refine (List.map_congr_left fun i hi => ?_).trans (congrArg _ (List.filter_congr fun i _ => ?_))
  · have htest := (List.mem_filter.mp hi).2
    simp only [Bool.and_eq_true, Bool.not_eq_true'] at htest
    rw [hkept i htest.1.2]
  · rw [Bool.and_comm, Bool.and_assoc]

/-- A registered client and a connection that has not registered yet. -/
def registeredAndWaiting : List ServerEvent :=
  [.accept 5 ⟨1, 2⟩, fromConnection 5 registration, .accept 6 ⟨3, 4⟩]

/-- Both have sent something and both are read; when another connection is accepted first,
only the registered client is. -/
theorem pass_reads_each_once_two :
    ((Server.after .little registeredAndWaiting).passReads .little none
        fun _ => some (.bytes offer, true)).map Prod.fst = [0, 1] ∧
      ((Server.after .little registeredAndWaiting).passReads .little (some (7, ⟨5, 6⟩))
        fun _ => some (.bytes offer, true)).map Prod.fst = [0] := by
  have hrun : Run (FreshStep .little) Server.initial registeredAndWaiting
      (Server.after .little registeredAndWaiting) := freshRun_after [] (by decide +kernel)
  have hnew : FreshAccept (Server.after .little registeredAndWaiting) (.accept 7 ⟨5, 6⟩) := by
    decide +kernel
  constructor
  · rw [pass_reads_each_once hrun none (fun _ _ hnone => nomatch hnone)]
    decide +kernel
  · rw [pass_reads_each_once hrun (some (7, ⟨5, 6⟩)) (by
      rintro fd addr hsame
      cases hsame
      exact hnew)]
    decide +kernel

end Directory
end PeerShare
