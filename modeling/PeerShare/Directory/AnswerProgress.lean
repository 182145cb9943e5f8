import PeerShare.Directory.Disconnection
import PeerShare.Directory.TableAgreement

/-!
# Waiting clients are answered

A client that has sent a request blocks in `recv`, so a request that the server does
not answer stops the client for good.  There is one such request: `handle_list_files`
returns without a word when `malloc` has no room for the list.  Every other wait ends
when the server reads the client's socket and the client its own, whatever else goes
on; and nothing but the end of the process helps a client that was not answered.
-/

namespace PeerShare
namespace Directory

open Foundation Wire Client

/-- The client blocks in `recv`. -/
def Waits (phase : ClientPhase) : Prop :=
  match phase with
  | .registering | .sharing _ _ | .listing | .locating _ => True
  | .connected | .idle | .fetching _ | .closed => False

instance : (phase : ClientPhase) → Decidable (Waits phase)
  | .registering => isTrue trivial
  | .sharing _ _ => isTrue trivial
  | .listing => isTrue trivial
  | .locating _ => isTrue trivial
  | .connected => isFalse id
  | .idle => isFalse id
  | .fetching _ => isFalse id
  | .closed => isFalse id

/-- The client waits for a file list that the server will not send. -/
structure Stranded (peer : Peer) : Prop where
  phase : peer.phase = .listing
  toServer : peer.toServer = []
  inbox : peer.inbox = []

instance (peer : Peer) : Decidable (Stranded peer) :=
  decidable_of_iff (peer.phase = .listing ∧ peer.toServer = [] ∧ peer.inbox = [])
    ⟨fun ⟨hphase, hsent, hinbox⟩ => ⟨hphase, hsent, hinbox⟩,
      fun ⟨hphase, hsent, hinbox⟩ => ⟨hphase, hsent, hinbox⟩⟩

/-! ## The answer -/

section Answers

variable {host : ByteOrder} {server : Server} {n : Nat} {peer : Peer} {i : Fin maxClients}

/-- Once the server has taken the request, the answer is there, and reading it ends
the wait. -/
theorem Dialogue.read_ends {slot : ClientSlot} {listed : List SharedFile}
    (h : Dialogue host peer slot listed) (hid : slot.clientId < 2 ^ 32)
    (hwaits : Waits peer.phase) (htaken : peer.toServer = []) (hnot : ¬ Stranded peer)
    (room : Bool) : ¬ Waits (peer.read host room).phase := by
  -- nothing is left of the request
  have hunasked : ∀ message, ¬ Asked peer message := by
    rintro message ⟨hsent, -⟩
    rw [htaken] at hsent
    cases hsent
  unfold Dialogue at h
  unfold Peer.read
  split at h
  · next hphase => exact absurd hwaits (by rw [hphase]; exact id)
  · next hphase =>
      obtain ⟨-, ⟨-, hasked⟩ | ⟨-, -, -, -, hinbox⟩⟩ := h
      · exact absurd hasked (hunasked _)
      · simp only [hphase, hinbox, readRegisterAck_done host hid]
        exact id
  · next hphase => exact absurd hwaits (by rw [hphase]; exact id)
  · next share filename hphase =>
      obtain ⟨-, -, ⟨-, hasked⟩ | ⟨-, errorCode, -, hinbox⟩ |
        ⟨-, fileId, hfileId, -, -, hinbox⟩⟩ := h
      · exact absurd hasked (hunasked _)
      · simp only [hphase, hinbox, readShareAck, Server.errorResponse, readReply_error]
        exact id
      · simp only [hphase, hinbox, readShareAck_done host hfileId]
        exact id
  · next hphase =>
      obtain ⟨-, hasked | ⟨-, hinbox⟩ | ⟨payload, count, hlength, hcount, -, hinbox⟩⟩ := h
      · exact absurd hasked (hunasked _)
      · exact absurd ⟨hphase, htaken, hinbox⟩ hnot
      · rcases readFileList_reply host room hlength hcount with hread | hread
        · simp only [hphase, hinbox, hread]
          exact id
        · simp only [hphase, hinbox, hread]
          exact id
  · next fileId hphase =>
      obtain ⟨-, ⟨-, hasked⟩ | ⟨errorCode, -, hinbox⟩ | ⟨location, -, hinbox⟩⟩ := h
      · exact absurd hasked (hunasked _)
      · simp only [hphase, hinbox, readFileLocation, Server.errorResponse, readReply_error]
        exact id
      · rcases readFileLocation_reply host fileId location with hread | ⟨answer, hread⟩
        · simp only [hphase, hinbox, hread]
          exact id
        · simp only [hphase, hinbox, hread]
          exact id
  · next hphase => exact absurd hwaits (by rw [hphase]; exact id)
  · next hphase => exact absurd hwaits (by rw [hphase]; exact id)

/-- A client that waits has sent one message, or none any more. -/
theorem Dialogue.sent_cases {slot : ClientSlot} {listed : List SharedFile}
    (h : Dialogue host peer slot listed) (hwaits : Waits peer.phase) :
    peer.toServer = [] ∨ ∃ message, Asked peer message ∧
      (peer.phase = .listing → message = listMessage host) := by
  unfold Dialogue at h
  split at h
  · next hphase => exact absurd hwaits (by rw [hphase]; exact id)
  · next hphase =>
      obtain ⟨-, ⟨-, hasked⟩ | ⟨-, -, -, hsent, -⟩⟩ := h
      · exact .inr ⟨_, hasked, by simp [hphase]⟩
      · exact .inl hsent
  · next hphase => exact absurd hwaits (by rw [hphase]; exact id)
  · next share filename hphase =>
      obtain ⟨-, -, ⟨-, hasked⟩ | ⟨-, -, hsent, -⟩ | ⟨-, -, -, -, hsent, -⟩⟩ := h
      · exact .inr ⟨_, hasked, by simp [hphase]⟩
      · exact .inl hsent
      · exact .inl hsent
  · next hphase =>
      obtain ⟨-, hasked | ⟨hsent, -⟩ | ⟨-, -, -, -, hsent, -⟩⟩ := h
      · exact .inr ⟨_, hasked, fun _ => rfl⟩
      · exact .inl hsent
      · exact .inl hsent
  · next fileId hphase =>
      obtain ⟨-, ⟨-, hasked⟩ | ⟨-, hsent, -⟩ | ⟨-, hsent, -⟩⟩ := h
      · exact .inr ⟨_, hasked, by simp [hphase]⟩
      · exact .inl hsent
      · exact .inl hsent
  · next hphase => exact absurd hwaits (by rw [hphase]; exact id)
  · next hphase => exact absurd hwaits (by rw [hphase]; exact id)

/-- With room for the list, the server answers every request. -/
theorem LinkedAt.not_stranded_served (h : LinkedAt host server n peer i) {fd : Int}
    (hfind : server.findClientByFd fd = some i) {message : Bytes}
    (hlist : peer.phase = .listing → message = listMessage host) :
    ¬ Stranded (peer.answer
      (server.apply host (.readable fd (.bytes message) true)).replies []) := by
  rintro ⟨hphase, -, hinbox⟩
  rw [answer_phase] at hphase
  have hreply := apply_readable hfind (readMessage_list host) true
  rw [hlist hphase, hreply] at hinbox
  have hlong := controlMessage_length host tcpFileList errNone
    (server.registry.files.flatMap (Server.fileInfo host))
  have hempty : controlMessage host tcpFileList errNone
      (server.registry.files.flatMap (Server.fileInfo host)) = [] := by
    have hcut := (List.append_eq_nil_iff.mp hinbox).2
    simpa [Server.handle, Server.handleListFiles, h.fd_eq] using hcut
  rw [hempty, List.length_nil] at hlong
  unfold tcpHeaderSize at hlong
  omega

end Answers

/-! ## Progress -/

section Progress

variable {host : ByteOrder} {sha256 : Bytes → HashBytes} {net net' : Network} {n : Nat}

/-- The server has served the client and the client has read. -/
def Network.answered (host : ByteOrder) (sha256 : Bytes → HashBytes) (net : Network) (n : Nat)
    (room : Bool) : Network :=
  (net.apply host sha256 (.serve (net.peers n).fd true false)).apply host sha256 (.read n room)

theorem answered_phase (room : Bool) :
    ((net.answered host sha256 n room).peers n).phase =
      (((net.serve host (net.peers n).fd true false).peers n).read host room).phase := by
  simp only [Network.answered, Network.apply, Network.setPeer, Function.update_self]

/-- Serving the socket of a waiting client leaves it with an answer to read. -/
theorem NetworkInv.served_waits (h : NetworkInv host net)
    (hwaits : Waits (net.peers n).phase) (hnot : ¬ Stranded (net.peers n)) :
    let served := net.serve host (net.peers n).fd true false
    (served.peers n).phase = (net.peers n).phase ∧ (served.peers n).toServer = [] ∧
      ¬ Stranded (served.peers n) := by
  have hliving : (net.peers n).phase ≠ .closed := by
    intro hclosed
    rw [hclosed] at hwaits
    exact hwaits
  obtain ⟨i, hlink⟩ := h.linked n hliving
  have hfind : net.server.findClientByFd (net.peers n).fd = some i := by
    rw [← hlink.fd_eq]
    exact findClientByFd_eq h.identity.fd_inj hlink.fd_pos
  unfold Network.serve
  simp only [hfind, hlink.conn_eq]
  rcases hlink.dialogue.sent_cases hwaits with hsent | ⟨message, ⟨hsent, -⟩, hlist⟩
  · simp only [hsent, hliving, if_false]
    exact ⟨trivial, trivial, hnot⟩
  · simp only [hsent, Network.exchange, Function.update_self, answer_phase]
    exact ⟨trivial, rfl, hlink.not_stranded_served hfind hlist⟩

/-- What a client does on its own does not end such a wait. -/
theorem stranded_stays (hstranded : Stranded (net.peers n)) (hconn : n ≤ net.server.accepted)
    {action : NetworkAction} (hkept : ∀ arriving, action ≠ .disconnect n arriving) :
    (net.apply host sha256 action).peers n = net.peers n := by
  obtain ⟨hphase, hsent, hinbox⟩ := hstranded
  cases action with
  | accept fd addr udpPort =>
      simp only [Network.apply, Network.accept]
      split
      · rfl
      · exact Function.update_of_ne (by omega) _ _
  | serve fd room reset =>
      simp only [Network.apply, Network.serve]
      split
      · rfl
      · next i _ =>
          by_cases hn : n = (net.server.clients i).conn
          · rw [← hn]
            simp only [hsent, hphase, reduceCtorEq, if_false]
          · split
            · exact Function.update_of_ne hn _ _
            · split <;> rfl
  | register m =>
      simp only [Network.apply, Network.setPeer, Function.update_apply]
      split
      · next heq =>
          rw [← heq]
          simp only [Peer.register, hphase]
      · rfl
  | command m command =>
      simp only [Network.apply, Network.setPeer, Function.update_apply]
      split
      · next heq =>
          rw [← heq]
          simp only [Peer.command, hphase]
      · rfl
  | read m room =>
      simp only [Network.apply, Network.setPeer, Function.update_apply]
      split
      · next heq =>
          rw [← heq]
          have hblocked : readFileList host room [] = .blocked := by
            simp [readFileList, tcpHeaderSize]
          simp only [Peer.read, hphase, hinbox, hblocked]
      · rfl
  | fetched m success =>
      simp only [Network.apply, Network.setPeer, Function.update_apply]
      split
      · next heq =>
          rw [← heq]
          simp only [Peer.fetched, hphase]
      · rfl
  | disconnect m arriving =>
      simp only [Network.apply, Network.setPeer, Function.update_apply]
      split
      · next heq => exact absurd (by rw [heq]) (hkept arriving)
      · rfl

/-- The number of accepted connections never falls. -/
theorem accepted_le_of_networkStep {action : NetworkAction}
    (hstep : NetworkStep host sha256 net action net') :
    net.server.accepted ≤ net'.server.accepted := by
  obtain ⟨-, rfl⟩ := hstep
  have hevent : ∀ event, net.server.accepted ≤ (net.server.apply host event).server.accepted :=
    fun event => accepted_le_of_effect (apply_effect host net.server event)
  cases action with
  | accept fd addr udpPort =>
      simp only [Network.apply, Network.accept]
      split
      · rfl
      · exact hevent _
  | serve fd room reset =>
      simp only [Network.apply, Network.serve]
      split
      · rfl
      · split
        · exact hevent _
        · split
          · exact hevent _
          · rfl
  | _ => exact le_rfl

/-- Whatever the others do, the client goes on waiting. -/
theorem stranded_run (hconn : n ≤ net.server.accepted) (hstranded : Stranded (net.peers n))
    {actions : List NetworkAction} (hrun : Run (NetworkStep host sha256) net actions net')
    (hkept : ∀ arriving, NetworkAction.disconnect n arriving ∉ actions) :
    n ≤ net'.server.accepted ∧ net'.peers n = net.peers n := by
  induction hrun with
  | nil => exact ⟨hconn, rfl⟩
  | @snoc s t actions action hrun hstep ih =>
      obtain ⟨hle, hsame⟩ := ih fun arriving hmem =>
        hkept arriving (List.mem_append_left _ hmem)
      refine ⟨hle.trans (accepted_le_of_networkStep hstep), ?_⟩
      rw [hstep.2, stranded_stays (hsame ▸ hstranded) hle, hsame]
      rintro arriving rfl
      exact hkept arriving (List.mem_append_right _ List.mem_cons_self)

end Progress

/-- A client has registered and asks for the list. -/
def askedForList : List NetworkAction :=
  [.accept 5 ⟨1, 2⟩ 4000, .register 1, .serve 5 true false, .read 1 true, .command 1 .list]

def afterAskedForList : Network :=
  askedForList.foldl (fun net action => net.apply .little (fun _ => hashOfA) action)
    Network.initial

end Directory
end PeerShare
