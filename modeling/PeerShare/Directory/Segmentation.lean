import PeerShare.Directory.Isolation
import PeerShare.Directory.Dialogue

/-!
# Messages and what `recv` returns

TCP delivers a stream of bytes, and `recv` cuts it where it likes.  The main
loop hands every result to `process_client_message`, which takes it for exactly
one message.  A message that arrives in pieces, or together with another one, is
not recognised.

Each message but `TCP_UNREGISTER` is answered, and the answer tells how long the
message was that caused it.  Since the lengths of the pieces add up to those of
the messages, the answers are the right ones only if the pieces are the
messages.
-/

namespace PeerShare
namespace Directory

open Foundation Wire

/-- The size of the body that `protocol.h` gives a message from a client. -/
def bodySize (msgType : UInt8) : Option Nat :=
  if msgType = tcpRegister then some tcpRegisterSize
  else if msgType = tcpShareFile then some tcpShareFileSize
  else if msgType = tcpListFiles then some 0
  else if msgType = tcpRequestFile then some tcpRequestFileSize
  else if msgType = tcpUnregister then some 0
  else none

/-- One message of a client, header and body. -/
structure WellFormed (host : ByteOrder) (data : Bytes) : Prop where
  dataLen : tcpHeaderSize + ntoh host 2 (TcpHeader.ofImage host data).dataLen = data.length
  size : bodySize (TcpHeader.ofImage host data).msgType =
    some (ntoh host 2 (TcpHeader.ofImage host data).dataLen)

/-- The type of the message a handler is called for. -/
def ClientMessage.msgType : ClientMessage → UInt8
  | .register _ => tcpRegister
  | .shareFile _ => tcpShareFile
  | .listFiles => tcpListFiles
  | .requestFile _ => tcpRequestFile
  | .unregister => tcpUnregister

/-- The length of the shortest data a handler is called for. -/
def ClientMessage.wireSize : ClientMessage → Nat
  | .register _ => tcpHeaderSize + tcpRegisterSize
  | .shareFile _ => tcpHeaderSize + tcpShareFileSize
  | .listFiles => tcpHeaderSize
  | .requestFile _ => tcpHeaderSize + tcpRequestFileSize
  | .unregister => tcpHeaderSize

/-- The client's `recv` results, one after the other, on one connection. -/
def receiveAll (host : ByteOrder) (fd : Int) : List Bytes → Server → ServerResult
  | [], server => ⟨server, []⟩
  | piece :: rest, server =>
      let first := server.receive host fd (.bytes piece) true
      let later := receiveAll host fd rest first.server
      ⟨later.server, first.replies ++ later.replies⟩

/-- Reading them is a run of the main loop. -/
theorem receiveAll_run (host : ByteOrder) (fd : Int) (pieces : List Bytes) (server : Server) :
    Run (ServerStep host) server (pieces.map fun piece => .readable fd (.bytes piece) true)
      (receiveAll host fd pieces server).server := by
  induction pieces generalizing server with
  | nil => exact Run.nil server
  | cons piece rest ih =>
      have hfirst : ServerStep host server (.readable fd (.bytes piece) true)
          (server.receive host fd (.bytes piece) true).server := rfl
      exact (Run.single hfirst).append (ih _)

/-! ## Messages that are read -/

section Reading

variable {host : ByteOrder} {data : Bytes}

/-- What is known about data that reaches a handler. -/
theorem selectMessage_eq_some {msgType : UInt8} {dataLen : Nat} {payload : Bytes}
    {message : ClientMessage}
    (hmessage : selectMessage host msgType dataLen payload = some message) :
    message.msgType = msgType ∧ message.wireSize ≤ tcpHeaderSize + dataLen := by
  unfold selectMessage at hmessage
  split at hmessage
  · next htype =>
      split at hmessage
      · next hlen =>
          cases hmessage
          rw [htype, hlen]
          exact ⟨rfl, le_refl _⟩
      · cases hmessage
  · split at hmessage
    · next htype =>
        split at hmessage
        · next hlen =>
            cases hmessage
            rw [htype, hlen]
            exact ⟨rfl, le_refl _⟩
        · cases hmessage
    · split at hmessage
      · next htype =>
          cases hmessage
          exact ⟨htype.symm, Nat.le_add_right _ _⟩
      · split at hmessage
        · next htype =>
            split at hmessage
            · next hlen =>
                cases hmessage
                rw [htype, hlen]
                exact ⟨rfl, le_refl _⟩
            · cases hmessage
        · split at hmessage
          · next htype =>
              cases hmessage
              exact ⟨htype.symm, Nat.le_add_right _ _⟩
          · cases hmessage

theorem wireSize_le_of_readMessage {message : ClientMessage}
    (hmessage : readMessage host data = some message) : message.wireSize ≤ data.length := by
  unfold readMessage at hmessage
  split at hmessage
  · cases hmessage
  · simp only at hmessage
    split at hmessage
    · cases hmessage
    · next hlen =>
        rw [← not_not.mp hlen]
        exact (selectMessage_eq_some hmessage).2

/-- A well-formed message reaches the handler of its type, and is as long as
that type says. -/
theorem WellFormed.read (h : WellFormed host data) :
    ∃ message, readMessage host data = some message ∧
      message.msgType = (TcpHeader.ofImage host data).msgType ∧
      message.wireSize = data.length := by
  have hread : readMessage host data =
      selectMessage host (TcpHeader.ofImage host data).msgType
        (ntoh host 2 (TcpHeader.ofImage host data).dataLen) (data.drop tcpHeaderSize) := by
    have hlen := h.dataLen
    unfold readMessage
    rw [if_neg (by omega)]
    simp only
    rw [if_neg (not_not.mpr hlen)]
  have hsize := h.size
  rw [hread, ← h.dataLen]
  unfold bodySize at hsize
  unfold selectMessage
  split at hsize
  · next htype =>
      rw [if_pos htype, ← Option.some.inj hsize, if_pos rfl, htype]
      exact ⟨_, rfl, rfl, rfl⟩
  · next htype =>
      rw [if_neg htype]
      split at hsize
      · next htype =>
          rw [if_pos htype, ← Option.some.inj hsize, if_pos rfl, htype]
          exact ⟨_, rfl, rfl, rfl⟩
      · next htype =>
          rw [if_neg htype]
          split at hsize
          · next htype =>
              rw [if_pos htype, ← Option.some.inj hsize, htype]
              exact ⟨_, rfl, rfl, rfl⟩
          · next htype =>
              rw [if_neg htype]
              split at hsize
              · next htype =>
                  rw [if_pos htype, ← Option.some.inj hsize, if_pos rfl, htype]
                  exact ⟨_, rfl, rfl, rfl⟩
              · next htype =>
                  rw [if_neg htype]
                  split at hsize
                  · next htype =>
                      rw [if_pos htype, ← Option.some.inj hsize, htype]
                      exact ⟨_, rfl, rfl, rfl⟩
                  · cases hsize

end Reading

/-! ## Answers and the messages they answer -/

/-- The length of the message that an answer is for, from its type and error
code. -/
def requestSize (answer : Bytes) : Nat :=
  if answer.getD 0 0 = tcpRegisterAck then tcpHeaderSize + tcpRegisterSize
  else if answer.getD 0 0 = tcpShareAck then tcpHeaderSize + tcpShareFileSize
  else if answer.getD 0 0 = tcpFileList then tcpHeaderSize
  else if answer.getD 0 0 = tcpFileLocation then tcpHeaderSize + tcpRequestFileSize
  else if answer.getD 1 0 = errInvalidMsg then tcpHeaderSize + tcpShareFileSize
  else tcpHeaderSize + tcpRequestFileSize

theorem locate_error_code {server : Server} {fileId : Nat} {errorCode : UInt8}
    (hlocate : server.locate fileId = .error errorCode) : errorCode ≠ errInvalidMsg := by
  unfold Server.locate at hlocate
  split at hlocate
  · cases hlocate
    decide
  · split at hlocate
    · cases hlocate
      decide
    · cases hlocate

section Answers

variable {host : ByteOrder} {server : Server} {i : Fin maxClients} {fd : Int}

/-- Every message but `TCP_UNREGISTER` is answered once, and the answer tells
its length.  A file list needs room. -/
theorem handle_replies {message : ClientMessage} {room : Bool} (hother : message ≠ .unregister)
    (hroom : message = .listFiles → room = true) :
    ∃ answer, (server.handle host i message room).replies = [⟨(server.clients i).fd, answer⟩] ∧
      tcpHeaderSize ≤ answer.length ∧ requestSize answer = message.wireSize := by
  have hlong : ∀ msgType payload,
      tcpHeaderSize ≤ (controlMessage host msgType errNone payload).length := by
    intro msgType payload
    rw [controlMessage_length]
    exact Nat.le_add_right _ _
  cases message with
  | register udpPort => exact ⟨_, rfl, hlong _ _, rfl⟩
  | shareFile share =>
      simp only [Server.handle, Server.handleShareFile]
      split
      · exact ⟨_, rfl, (TcpHeader.image_length _ _).ge, rfl⟩
      · exact ⟨_, rfl, hlong _ _, rfl⟩
  | listFiles =>
      rw [hroom rfl]
      exact ⟨_, rfl, hlong _ _, rfl⟩
  | requestFile fileId =>
      simp only [Server.handle, Server.handleRequestFile]
      split
      · next errorCode hlocate =>
          refine ⟨_, rfl, (TcpHeader.image_length _ _).ge, ?_⟩
          show requestSize (Server.errorResponse host errorCode) = tcpHeaderSize + tcpRequestFileSize
          have hcode := locate_error_code hlocate
          change (if errorCode = errInvalidMsg then _ else _) = _
          rw [if_neg hcode]
      · exact ⟨_, rfl, hlong _ _, rfl⟩
  | unregister => exact absurd rfl hother

/-- What one `recv` result can cause: nothing, or one answer that is for a
message no longer than the result. -/
theorem receive_replies (host : ByteOrder) (server : Server) (fd : Int) (piece : Bytes) :
    (server.receive host fd (.bytes piece) true).replies = [] ∨
      ∃ reply, (server.receive host fd (.bytes piece) true).replies = [reply] ∧
        requestSize reply.bytes ≤ piece.length := by
  unfold Server.receive
  split
  · exact Or.inl rfl
  · next i _ =>
      cases piece with
      | nil => exact Or.inl rfl
      | cons byte data =>
          simp only [Server.processClientMessage]
          split
          · exact Or.inl rfl
          · next message hmessage =>
              by_cases hother : message = .unregister
              · rw [hother]
                exact Or.inl rfl
              · obtain ⟨answer, hreplies, -, hsize⟩ := handle_replies hother fun _ => rfl
                refine Or.inr ⟨_, hreplies, ?_⟩
                rw [hsize]
                exact wireSize_le_of_readMessage hmessage

/-- A message in a `recv` of its own reaches its handler. -/
theorem receive_message (hfind : server.findClientByFd fd = some i) {data : Bytes}
    {message : ClientMessage} (hmessage : readMessage host data = some message) :
    server.receive host fd (.bytes data) true = server.handle host i message true :=
  apply_readable hfind hmessage true

/-- The answers are for no more bytes than were received; if they are for all of
them, then each result was answered. -/
theorem requestSize_sum_le (pieces : List Bytes) (hpieces : ∀ piece ∈ pieces, piece ≠ [])
    (server : Server) :
    ((receiveAll host fd pieces server).replies.map fun reply => requestSize reply.bytes).sum ≤
        pieces.flatten.length ∧
      (((receiveAll host fd pieces server).replies.map fun reply => requestSize reply.bytes).sum =
          pieces.flatten.length →
        (receiveAll host fd pieces server).replies.map (fun reply => requestSize reply.bytes) =
          pieces.map List.length) := by
  induction pieces generalizing server with
  | nil => exact ⟨le_refl _, fun _ => rfl⟩
  | cons piece rest ih =>
      obtain ⟨hle, hall⟩ := ih (fun other hother => hpieces other (List.mem_cons_of_mem _ hother))
        (server.receive host fd (.bytes piece) true).server
      have hpos : 0 < piece.length :=
        List.length_pos_iff.mpr (hpieces piece List.mem_cons_self)
      simp only [receiveAll, List.map_append, List.sum_append, List.flatten_cons,
        List.length_append]
      -- a piece without an answer leaves the sum short
      rcases receive_replies host server fd piece with
        hnone | ⟨reply, hone, hsize⟩
      · rw [hnone, List.map_nil, List.sum_nil]
        refine ⟨by omega, ?_⟩
        intro htotal
        omega
      · rw [hone, List.map_singleton, List.sum_singleton]
        refine ⟨by omega, ?_⟩
        intro htotal
        rw [hall (by omega), List.map_cons, show requestSize reply.bytes = piece.length by omega]
        rfl

end Answers

/-! ## The connection while messages are handled -/

section Connection

variable {host : ByteOrder} {server : Server} {i : Fin maxClients} {fd : Int}

/-- The search for a descriptor looks at descriptors only. -/
theorem findClientByFd_congr {server' : Server}
    (hfds : ∀ j, (server'.clients j).fd = (server.clients j).fd) (fd : Int) :
    server'.findClientByFd fd = server.findClientByFd fd := by
  simp only [Server.findClientByFd, firstSlot, hfds]

/-- The descriptor of a client that was dropped is in no slot. -/
theorem findClientByFd_dropClient (h : server.FdsDistinct)
    (hfind : server.findClientByFd fd = some i) :
    (server.dropClient i).findClientByFd fd = none := by
  obtain ⟨hfd, hopen⟩ := Server.fd_of_findClientByFd hfind
  apply firstSlot_eq_none_iff.mpr
  intro j
  by_cases hj : j = i
  · rw [hj, Server.dropClient_clients_self]
    simp
  · rw [Server.dropClient_clients_of_ne _ _ hj]
    have hne : (server.clients j).fd ≠ fd := by
      intro hsame
      exact hj (h i j (hfd.trans hsame.symm) hopen).symm
    simp [hne]

/-- A message other than `TCP_UNREGISTER` keeps the connection. -/
theorem findClientByFd_handle {message : ClientMessage} (hother : message ≠ .unregister)
    (fd : Int) :
    (server.handle host i message true).server.findClientByFd fd =
      server.findClientByFd fd := by
  cases message with
  | register udpPort =>
      exact findClientByFd_congr
        (fun j => (handleRegister_same_connection host server i udpPort j).2) fd
  | shareFile share =>
      simp only [Server.handle, Server.handleShareFile]
      split <;> rfl
  | listFiles => rfl
  | requestFile fileId =>
      simp only [Server.handle, Server.handleRequestFile]
      split <;> rfl
  | unregister => exact absurd rfl hother

/-- A handler other than those for `TCP_REGISTER` and `TCP_UNREGISTER` leaves the
slots as they are. -/
theorem handle_clients {message : ClientMessage} (hregister : message.msgType ≠ tcpRegister)
    (hunregister : message ≠ .unregister) :
    (server.handle host i message true).server.clients = server.clients := by
  cases message with
  | register udpPort => exact absurd rfl hregister
  | shareFile share =>
      simp only [Server.handle, Server.handleShareFile]
      split <;> rfl
  | listFiles => rfl
  | requestFile fileId =>
      simp only [Server.handle, Server.handleRequestFile]
      split <;> rfl
  | unregister => exact absurd rfl hunregister

/-- Messages without `TCP_UNREGISTER`, each in a `recv` of its own, are all
answered. -/
theorem requestSize_messages {messages : List Bytes}
    (hformed : ∀ data ∈ messages, WellFormed host data)
    (hstay : ∀ data ∈ messages, (TcpHeader.ofImage host data).msgType ≠ tcpUnregister)
    (hfind : server.findClientByFd fd = some i) :
    (receiveAll host fd messages server).replies.map (fun reply => requestSize reply.bytes) =
      messages.map List.length := by
  induction messages generalizing server with
  | nil => rfl
  | cons data rest ih =>
      obtain ⟨message, hmessage, htype, hsize⟩ := (hformed data List.mem_cons_self).read
      have hother : message ≠ .unregister := by
        rintro rfl
        exact hstay data List.mem_cons_self htype.symm
      obtain ⟨answer, hreplies, -, hrequest⟩ :
          ∃ answer, (server.handle host i message true).replies =
            [⟨(server.clients i).fd, answer⟩] ∧ tcpHeaderSize ≤ answer.length ∧
              requestSize answer = message.wireSize :=
        handle_replies hother fun _ => rfl
      have hfind' : (server.handle host i message true).server.findClientByFd fd = some i := by
        rw [findClientByFd_handle hother, hfind]
      have hrest := ih (fun other hmem => hformed other (List.mem_cons_of_mem _ hmem))
        (fun other hmem => hstay other (List.mem_cons_of_mem _ hmem)) hfind'
      simp only [receiveAll, receive_message hfind hmessage, hreplies, List.map_append, hrest,
        List.map_cons, hrequest, hsize]
      rfl

/-- On a connection that is in no slot nothing happens. -/
theorem receiveAll_closed (hnone : server.findClientByFd fd = none) (pieces : List Bytes) :
    receiveAll host fd pieces server = ⟨server, []⟩ := by
  induction pieces with
  | nil => rfl
  | cons piece rest ih =>
      have hfirst : server.receive host fd (.bytes piece) true = ⟨server, []⟩ := by
        rw [Server.receive, hnone]
      rw [receiveAll, hfirst]
      simp only [ih, List.append_nil]

theorem receiveAll_append (first second : List Bytes) :
    receiveAll host fd (first ++ second) server =
      ⟨(receiveAll host fd second (receiveAll host fd first server).server).server,
        (receiveAll host fd first server).replies ++
          (receiveAll host fd second (receiveAll host fd first server).server).replies⟩ := by
  induction first generalizing server with
  | nil => rfl
  | cons piece rest ih =>
      rw [List.cons_append, receiveAll, ih, receiveAll, List.append_assoc]

/-- The connection is gone, or it is in its slot and its client has registered
or is about to. -/
def ClosedOrRegistering (host : ByteOrder) (server : Server) (fd : Int) (i : Fin maxClients)
    (messages : List Bytes) : Prop :=
  server.findClientByFd fd = none ∨
    server.findClientByFd fd = some i ∧
      ((server.clients i).active = true ∨
        ∃ data ∈ messages, (TcpHeader.ofImage host data).msgType = tcpRegister)

/-- One message on the way to `TCP_UNREGISTER`. -/
theorem closedOrRegistering_receive (h : server.FdsDistinct) {data : Bytes} {rest : List Bytes}
    (hformed : WellFormed host data)
    (hstate : ClosedOrRegistering host server fd i (data :: rest)) :
    ClosedOrRegistering host (server.receive host fd (.bytes data) true).server fd i rest := by
  rcases hstate with hnone | ⟨hfind, hactive⟩
  · rw [Server.receive, hnone]
    exact Or.inl hnone
  obtain ⟨message, hmessage, htype, -⟩ := hformed.read
  rw [receive_message hfind hmessage]
  by_cases hunregister : message = .unregister
  · subst hunregister
    show ClosedOrRegistering host (server.removeClient i) fd i rest
    unfold Server.removeClient
    split
    · next hidle =>
        -- without a registration so far, there is one to come
        refine Or.inr ⟨hfind, Or.inr ?_⟩
        rcases hactive with hactive | ⟨other, hmem, hother⟩
        · rw [hidle] at hactive
          cases hactive
        · rcases List.mem_cons.mp hmem with rfl | hrest
          · rw [← htype] at hother
            cases hother
          · exact ⟨other, hrest, hother⟩
    · exact Or.inl (findClientByFd_dropClient h hfind)
  · refine Or.inr ⟨by rw [findClientByFd_handle hunregister, hfind], ?_⟩
    by_cases hregister : message.msgType = tcpRegister
    · left
      cases message with
      | register udpPort =>
          rw [Server.handle, Server.handleRegister_clients_self]
      | _ => cases hregister
    · rw [handle_clients hregister hunregister]
      rcases hactive with hactive | ⟨other, hmem, hother⟩
      · exact Or.inl hactive
      · rcases List.mem_cons.mp hmem with rfl | hrest
        · rw [← htype] at hother
          exact absurd hother hregister
        · exact Or.inr ⟨other, hrest, hother⟩

theorem fdsDistinct_receive (h : server.FdsDistinct) (recv : Recv) (room : Bool) :
    (server.receive host fd recv room).server.FdsDistinct :=
  fdsDistinct_effect h (apply_effect host server (.readable fd recv room)) trivial

/-- After messages that end in the `TCP_UNREGISTER` of a registered client, the
connection is gone. -/
theorem findClientByFd_unregistered (h : server.FdsDistinct) {before : List Bytes} {last : Bytes}
    (hformed : ∀ data ∈ before ++ [last], WellFormed host data)
    (hlast : (TcpHeader.ofImage host last).msgType = tcpUnregister)
    (hstate : ClosedOrRegistering host server fd i before) :
    (receiveAll host fd (before ++ [last]) server).server.findClientByFd fd = none := by
  induction before generalizing server with
  | nil =>
      show (server.receive host fd (.bytes last) true).server.findClientByFd fd = none
      rcases hstate with hnone | ⟨hfind, hactive | ⟨data, hmem, -⟩⟩
      · rw [Server.receive, hnone]
        exact hnone
      · obtain ⟨message, hmessage, htype, -⟩ := (hformed last (by simp)).read
        have hunregister : message = .unregister := by
          rw [hlast] at htype
          cases message <;> first | rfl | cases htype
        rw [receive_message hfind hmessage, hunregister]
        show (server.removeClient i).findClientByFd fd = none
        rw [Server.removeClient, if_neg (by rw [hactive]; decide)]
        exact findClientByFd_dropClient h hfind
      · cases hmem
  | cons data rest ih =>
      have hnext := closedOrRegistering_receive h (hformed data (by simp)) hstate
      exact ih (fdsDistinct_receive h _ _)
        (fun other hother => hformed other (List.mem_cons_of_mem _ hother)) hnext

end Connection

/-! ## Cuts that make no difference -/

/-- The slots, the files and what was sent are the same. -/
structure SameOutcome (result other : ServerResult) : Prop where
  clients : result.server.clients = other.server.clients
  registry : result.server.registry = other.server.registry
  replies : result.replies = other.replies

/-- Every message arrives in a `recv` of its own, or at least every message up to
the `TCP_UNREGISTER` of a client that has registered: with it the server closes
the connection. -/
def OneEach (host : ByteOrder) (server : Server) (i : Fin maxClients)
    (messages pieces : List Bytes) : Prop :=
  pieces = messages ∨
    ∃ before last after cut, messages = before ++ [last] ++ after ∧
      pieces = before ++ [last] ++ cut ∧
      (TcpHeader.ofImage host last).msgType = tcpUnregister ∧
      ((server.clients i).active = true ∨
        ∃ data ∈ before, (TcpHeader.ofImage host data).msgType = tcpRegister)

theorem sameOutcome_of_oneEach {host : ByteOrder} {server : Server} {i : Fin maxClients}
    {fd : Int} (h : server.FdsDistinct) (hfind : server.findClientByFd fd = some i)
    {messages pieces : List Bytes} (hformed : ∀ data ∈ messages, WellFormed host data)
    (honeEach : OneEach host server i messages pieces) :
    SameOutcome (receiveAll host fd pieces server) (receiveAll host fd messages server) := by
  rcases honeEach with rfl | ⟨before, last, after, cut, rfl, rfl, hlast, hregistered⟩
  · exact ⟨rfl, rfl, rfl⟩
  · have hclosed := findClientByFd_unregistered h
      (fun data hdata => hformed data (List.mem_append_left _ hdata)) hlast
      (Or.inr ⟨hfind, hregistered⟩)
    rw [receiveAll_append (before ++ [last]) cut, receiveAll_append (before ++ [last]) after,
      receiveAll_closed hclosed, receiveAll_closed hclosed]
    exact ⟨rfl, rfl, rfl⟩

/-- Without `TCP_UNREGISTER`, the right answers come from the right cut only. -/
theorem eq_of_sameOutcome {host : ByteOrder} {server : Server} {i : Fin maxClients} {fd : Int}
    (hfind : server.findClientByFd fd = some i) {messages pieces : List Bytes}
    (hformed : ∀ data ∈ messages, WellFormed host data)
    (hstay : ∀ data ∈ messages, (TcpHeader.ofImage host data).msgType ≠ tcpUnregister)
    (hpieces : ∀ piece ∈ pieces, piece ≠ []) (hstream : pieces.flatten = messages.flatten)
    (hsame : SameOutcome (receiveAll host fd pieces server) (receiveAll host fd messages server)) :
    pieces = messages := by
  -- the answers tell the lengths of the messages, and of the pieces
  have hmessages := requestSize_messages hformed hstay hfind
  rw [← hsame.replies] at hmessages
  have hall := (requestSize_sum_le pieces hpieces server).2 (by
    rw [hmessages, hstream, List.length_flatten])
  rw [List.eq_iff_flatten_eq]
  exact ⟨hstream, hall.symm.trans hmessages⟩

/-- In every reachable state, messages on a connection have the outcome they have
one at a time if each arrives in a `recv` of its own; a rest behind a closing
`TCP_UNREGISTER` may be cut anyhow.  For messages without `TCP_UNREGISTER` there
is no other way. -/
theorem segmentation_independence_iff {host : ByteOrder} {server : Server}
    {events : List ServerEvent} (hrun : Run (FreshStep host) Server.initial events server)
    {fd : Int} {i : Fin maxClients} (hfind : server.findClientByFd fd = some i)
    {messages pieces : List Bytes} (hformed : ∀ data ∈ messages, WellFormed host data)
    (hpieces : ∀ piece ∈ pieces, piece ≠ [] ∧ piece.length ≤ 4096)
    (hstream : pieces.flatten = messages.flatten) :
    (OneEach host server i messages pieces →
      SameOutcome (receiveAll host fd pieces server) (receiveAll host fd messages server)) ∧
    ((∀ data ∈ messages, (TcpHeader.ofImage host data).msgType ≠ tcpUnregister) →
      (SameOutcome (receiveAll host fd pieces server) (receiveAll host fd messages server) ↔
        OneEach host server i messages pieces)) := by
  have hfds : server.FdsDistinct :=
    hrun.invariant (P := Server.FdsDistinct)
      (fun _ _ _ h hstep => fdsDistinct_effect h hstep.effect hstep.2) fdsDistinct_initial
  have henough : OneEach host server i messages pieces →
      SameOutcome (receiveAll host fd pieces server) (receiveAll host fd messages server) :=
    sameOutcome_of_oneEach hfds hfind hformed
  refine ⟨henough, ?_⟩
  intro hstay
  refine ⟨?_, henough⟩
  intro hsame
  exact Or.inl (eq_of_sameOutcome hfind hformed hstay (fun piece hpiece => (hpieces piece hpiece).1)
    hstream hsame)

def unregistration : Bytes :=
  controlMessage .little tcpUnregister errNone []

/-- A share behind the `TCP_UNREGISTER` of a registered client is cut in two. -/
theorem cut_after_unregister :
    SameOutcome
      (receiveAll .little 5 [registration, unregistration, offer.take 10, offer.drop 10]
        (Server.after .little [.accept 5 ⟨1, 2⟩]))
      (receiveAll .little 5 [registration, unregistration, offer]
        (Server.after .little [.accept 5 ⟨1, 2⟩])) := by
  have hrun : Run (FreshStep .little) Server.initial [.accept 5 ⟨1, 2⟩]
      (Server.after .little [.accept 5 ⟨1, 2⟩]) := freshRun_after [] (by decide +kernel)
  have hfind : (Server.after .little [.accept 5 ⟨1, 2⟩]).findClientByFd 5 = some 0 := by
    decide +kernel
  have hformed : ∀ data ∈ [registration, unregistration, offer], WellFormed .little data := by
    intro data hdata
    simp only [List.mem_cons, List.not_mem_nil, or_false] at hdata
    rcases hdata with rfl | rfl | rfl <;> exact ⟨by decide +kernel, by decide +kernel⟩
  have hpieces : ∀ piece ∈ [registration, unregistration, offer.take 10, offer.drop 10],
      piece ≠ [] ∧ piece.length ≤ 4096 := by
    intro piece hpiece
    simp only [List.mem_cons, List.not_mem_nil, or_false] at hpiece
    rcases hpiece with rfl | rfl | rfl | rfl <;> exact ⟨by decide +kernel, by decide +kernel⟩
  refine (segmentation_independence_iff hrun hfind hformed hpieces (by decide +kernel)).1
    (Or.inr ⟨[registration], unregistration, [offer], [offer.take 10, offer.drop 10], rfl, rfl,
      by decide +kernel, Or.inr ⟨registration, List.mem_cons_self, by decide +kernel⟩⟩)

/-- A `TCP_REGISTER` that arrives in two pieces is lost. -/
theorem cut_registration_lost :
    Run (FreshStep .little) Server.initial [.accept 5 ⟨1, 2⟩]
        (Server.after .little [.accept 5 ⟨1, 2⟩]) ∧
      WellFormed .little registration ∧
      [registration.take 4, registration.drop 4].flatten = [registration].flatten ∧
      (receiveAll .little 5 [registration]
        (Server.after .little [.accept 5 ⟨1, 2⟩])).replies.length = 1 ∧
      (receiveAll .little 5 [registration.take 4, registration.drop 4]
        (Server.after .little [.accept 5 ⟨1, 2⟩])).replies = [] ∧
      ¬ SameOutcome
        (receiveAll .little 5 [registration.take 4, registration.drop 4]
          (Server.after .little [.accept 5 ⟨1, 2⟩]))
        (receiveAll .little 5 [registration] (Server.after .little [.accept 5 ⟨1, 2⟩])) := by
  have hwhole : (receiveAll .little 5 [registration]
      (Server.after .little [.accept 5 ⟨1, 2⟩])).replies.length = 1 := by decide +kernel
  have hcut : (receiveAll .little 5 [registration.take 4, registration.drop 4]
      (Server.after .little [.accept 5 ⟨1, 2⟩])).replies = [] := by decide +kernel
  refine ⟨freshRun_after [] (by decide +kernel), ⟨by decide +kernel, by decide +kernel⟩,
    by decide +kernel, hwhole, hcut, ?_⟩
  intro hsame
  rw [← hsame.replies, hcut] at hwhole
  cases hwhole

end Directory
end PeerShare
