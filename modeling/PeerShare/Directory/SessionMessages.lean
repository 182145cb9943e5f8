import PeerShare.Client.StreamLoops
import PeerShare.Directory.Segmentation

/-!
# A session as the server sees it

The commands of a session and the handlers of the server meet in the messages between
them.  On a connection whose way out holds, whatever is typed and whatever the answers are,
the messages of a session are the requests that the lines ask for, as the server reads
them, and `TCP_UNREGISTER` behind them exactly when the client has stopped.  So a server
that receives them one by one keeps the slot of the connection exactly as long as the
session runs.
-/

namespace PeerShare
namespace Directory

open Foundation Wire Client

/-- What a typed line asks of the server. -/
def asks (env : CommandEnv) (line : Bytes) : Option ClientMessage :=
  match parseCommand line with
  | .share filename =>
      (announce env.getEnv.sha256 filename (env.readFile filename)).map .shareFile
  | .list => some .listFiles
  | .get fileId => some (.requestFile fileId.toNat)
  | _ => none

/-- The leave a client takes of the server when it stops. -/
def farewell (running : Bool) : List ClientMessage :=
  if running then [] else [.unregister]

/-- The requests of a session. -/
def requestsOf (labels : List (Typed × List Bytes)) : List ClientMessage :=
  labels.filterMap fun label => asks label.1.env label.1.line

/-- The bytes of a session, one message after the other. -/
def messagesOf (labels : List (Typed × List Bytes)) : List Bytes :=
  labels.flatMap Prod.snd

/-! ## One command -/

section Commands

variable {host : ByteOrder} {env : CommandEnv}

theorem readMessage_unregister (host : ByteOrder) :
    readMessage host (unregisterMessage host) = some .unregister := by
  rw [unregisterMessage, readMessage_controlMessage host _ _ (by decide), selectMessage,
    if_neg (by decide), if_neg (by decide), if_neg (by decide), if_neg (by decide), if_pos rfl]

/-- A way out that holds takes every message whole. -/
theorem sendAll_whole {link : ServerLink} (hroom : link.room = none) (message : Bytes) :
    link.sendAll message = (message, true) := by
  rw [ServerLink.sendAll, hroom]

theorem room_after {link : ServerLink} (hroom : link.room = none) (sent : List Bytes) :
    (sent.foldl ServerLink.after link).room = none := by
  induction sent using List.reverseRecOn with
  | nil => exact hroom
  | append_singleton sent message ih =>
      rw [List.foldl_concat, ServerLink.after, ih]
      rfl

/-- What a command sends is read as `requests`, also when `quit` follows. -/
theorem read_conclude {client : ClientState} {command : CommandReturn}
    {requests : List ClientMessage} (hroom : env.link.room = none)
    (hrunning : client.running = true)
    (hread : command.sent.map (readMessage host) = requests.map some) :
    (conclude host env.link client command).sent.map (readMessage host) =
      (requests ++ farewell (conclude host env.link client command).client.running).map some := by
  unfold conclude
  cases command.code with
  | none => simp only [hrunning, farewell, if_true, List.append_nil, hread]
  | some code =>
      simp only
      split
      · simp only [farewell, sendAll_whole (room_after hroom command.sent), List.map_append, hread,
          List.map_cons, List.map_nil, readMessage_unregister, Bool.false_eq_true, if_false]
      · simp only [hrunning, farewell, if_true, List.append_nil, hread]

/-- A command sends what its line asks for. -/
theorem read_handleCommand (client : ClientState) (hroom : env.link.room = none)
    (hrunning : client.running = true) (line : Bytes) :
    (handleCommand host env client line).sent.map (readMessage host) =
      ((asks env line).toList ++
        farewell (handleCommand host env client line).client.running).map some := by
  have hwhole := sendAll_whole hroom
  unfold handleCommand asks
  cases parseCommand line with
  | blank => simp [hrunning, farewell]
  | usage => simp [hrunning, farewell]
  | share filename =>
      refine read_conclude hroom hrunning ?_
      cases hannounce : announce env.getEnv.sha256 filename (env.readFile filename) with
      | none => simp only [share, hannounce, List.map_nil, Option.map_none, Option.toList_none]
      | some announced =>
          have hsent : (share host env client.owner.table filename).sent =
              [shareMessage host announced] := by
            simp only [share, hannounce, hwhole, Bool.true_eq_false, if_false]
            split <;> rfl
          rw [hsent, List.map_cons, List.map_nil,
            readMessage_share host (announce_eq_some hannounce).1]
          simp only [hannounce, Option.map_some, Option.toList_some, List.map_cons, List.map_nil]
  | list =>
      refine read_conclude hroom hrunning ?_
      have hsent : (listFiles host env client.owner.table).sent = [listMessage host] := by
        simp only [listFiles, hwhole, Bool.true_eq_false, if_false]
        split <;> rfl
      rw [hsent, List.map_cons, List.map_nil, readMessage_list]
      rfl
  | get fileId =>
      refine read_conclude hroom hrunning ?_
      have hsent : (getFile host env client.owner.table fileId).sent =
          [requestMessage host fileId.toNat] := by
        simp only [getFile, hwhole, Bool.true_eq_false, if_false]
        split <;> rfl
      rw [hsent, List.map_cons, List.map_nil, readMessage_request host fileId.toNat_lt]
      rfl
  | quit =>
      simp only [hwhole, List.map_cons, List.map_nil, readMessage_unregister, farewell,
        Option.toList_none, List.nil_append, Bool.false_eq_true, if_false]

/-- What a command does to the connection leaves its way out as it was. -/
theorem room_linkBehind (hroom : env.link.room = none) (table : SharedTable) (line : Bytes) :
    (linkBehind host env table line).room = none := by
  have hafter : ∀ {link : ServerLink} (message : Bytes), link.room = none →
      (link.after message).room = none := by
    intro link message hlink
    rw [ServerLink.after, hlink]
    rfl
  have hbehind : ∀ {β : Type} (message : Bytes) (outcome : ReadOutcome β),
      (env.link.behind message outcome).room = none := by
    intro β message outcome
    unfold ServerLink.behind
    split
    · exact hafter message hroom
    · split <;> exact hafter message hroom
  have hconcluded : ∀ {link : ServerLink} (command : CommandReturn), link.room = none →
      (link.concluded host command).room = none := by
    intro link command hlink
    unfold ServerLink.concluded
    split
    · exact hlink
    · split
      · exact hafter _ hlink
      · exact hlink
  unfold linkBehind
  cases parseCommand line with
  | blank => exact hroom
  | usage => exact hroom
  | share filename =>
      refine hconcluded _ ?_
      cases announce env.getEnv.sha256 filename (env.readFile filename) with
      | none => exact hroom
      | some announced => exact hbehind _ _
  | list => exact hconcluded _ (hbehind _ _)
  | get fileId => exact hconcluded _ (hbehind _ _)
  | quit => exact hafter _ hroom

/-- A line asks for none of the messages that come and go with the connection. -/
theorem asks_stays {line : Bytes} {request : ClientMessage} (hasks : asks env line = some request) :
    request.msgType ≠ tcpRegister ∧ request ≠ .unregister := by
  unfold asks at hasks
  split at hasks
  · obtain ⟨announced, -, rfl⟩ := Option.map_eq_some_iff.mp hasks
    exact ⟨show tcpShareFile ≠ tcpRegister by decide, by simp⟩
  · cases hasks
    exact ⟨by decide, by simp⟩
  · cases hasks
    exact ⟨show tcpRequestFile ≠ tcpRegister by decide, by simp⟩
  · cases hasks

end Commands

/-! ## Sessions -/

section Sessions

variable {host : ByteOrder} {s t : CommandSession} {labels : List (Typed × List Bytes)}

/-- One command of a session whose way out holds. -/
theorem read_sessionStep {label : Typed × List Bytes} (hroom : s.conn.link.room = none)
    (hstep : SessionStep host s label t) :
    t.conn.link.room = none ∧
      label.2.map (readMessage host) =
        ((asks label.1.env label.1.line).toList ++ farewell t.client.running).map some := by
  obtain ⟨hrunning, -, hsent, rfl⟩ := hstep
  obtain ⟨hresult, hlink⟩ := round_bytes host s label.1
  have henv : (s.bytes.env label.1.bytes).link.room = none := by
    rw [ByteSession.env]
    simp only [ServerLink.receive]
    split <;> exact hroom
  refine ⟨?_, ?_⟩
  · rw [hlink]
    exact room_linkBehind henv _ _
  · rw [hsent, hresult]
    exact read_handleCommand { s.client with owner := label.1.before s.client.owner } henv
      hrunning label.1.line

/-- The messages of a session are its requests, with the leave behind them as soon as the
client has stopped. -/
theorem read_session (hrun : Run (SessionStep host) s labels t)
    (hrunning : s.client.running = true) (hroom : s.conn.link.room = none) :
    t.conn.link.room = none ∧
      (messagesOf labels).map (readMessage host) =
        (requestsOf labels ++ farewell t.client.running).map some := by
  induction hrun with
  | nil => exact ⟨hroom, by simp [messagesOf, requestsOf, farewell, hrunning]⟩
  | @snoc u t labels label hrun hstep ih =>
      obtain ⟨hbefore, hread⟩ := ih
      obtain ⟨hafter, hlabel⟩ := read_sessionStep hbefore hstep
      -- the client was still running, so nobody has taken leave yet
      have hgoing : u.client.running = true := hstep.1
      rw [hgoing, farewell, if_pos rfl, List.append_nil] at hread
      refine ⟨hafter, ?_⟩
      have hmessages : messagesOf (labels ++ [label]) = messagesOf labels ++ label.2 := by
        simp [messagesOf]
      have hrequests : requestsOf (labels ++ [label]) =
          requestsOf labels ++ (asks label.1.env label.1.line).toList := by
        simp only [requestsOf, List.filterMap_append, List.filterMap_cons, List.filterMap_nil]
        cases asks label.1.env label.1.line <;> rfl
      rw [hmessages, hrequests, List.map_append, hread, hlabel, ← List.map_append,
        List.append_assoc]

/-- The requests of a session neither open nor close the connection. -/
theorem requestsOf_stay {request : ClientMessage} (hrequest : request ∈ requestsOf labels) :
    request.msgType ≠ tcpRegister ∧ request ≠ .unregister := by
  obtain ⟨label, -, hasks⟩ := List.mem_filterMap.mp hrequest
  exact asks_stays hasks

end Sessions

/-! ## The server -/

section Receiving

variable {host : ByteOrder} {server : Server} {fd : Int} {i : Fin maxClients}

/-- The connection `fd` is that of the registered client in slot `i`. -/
structure Connected (server : Server) (fd : Int) (i : Fin maxClients) : Prop where
  distinct : server.FdsDistinct
  found : server.findClientByFd fd = some i
  active : (server.clients i).active = true

/-- An answer, by its receiver and the length of the message it is for. -/
def answered (reply : Reply) : Int × Nat := (reply.fd, requestSize reply.bytes)

/-- A request is answered on its connection, which stays. -/
theorem connected_receive (h : Connected server fd i) {data : Bytes} {request : ClientMessage}
    (hread : readMessage host data = some request) (hregister : request.msgType ≠ tcpRegister)
    (hstay : request ≠ .unregister) :
    Connected (server.receive host fd (.bytes data) true).server fd i ∧
      (server.receive host fd (.bytes data) true).replies.map answered =
        [(fd, request.wireSize)] := by
  have hdistinct : (server.receive host fd (.bytes data) true).server.FdsDistinct :=
    fdsDistinct_receive h.distinct _ _
  rw [receive_message h.found hread] at hdistinct ⊢
  obtain ⟨answer, hreplies, -, hsize⟩ : ∃ answer,
      (server.handle host i request true).replies = [⟨(server.clients i).fd, answer⟩] ∧
        tcpHeaderSize ≤ answer.length ∧ requestSize answer = request.wireSize :=
    handle_replies hstay fun _ => rfl
  refine ⟨⟨hdistinct, ?_, ?_⟩, ?_⟩
  · rw [findClientByFd_handle hstay]
    exact h.found
  · rw [handle_clients hregister hstay]
    exact h.active
  · rw [hreplies, List.map_singleton, answered, hsize, (Server.fd_of_findClientByFd h.found).1]

/-- Requests, one after the other. -/
theorem connected_receiveAll {messages : List Bytes} {requests : List ClientMessage}
    (h : Connected server fd i) (hread : messages.map (readMessage host) = requests.map some)
    (hstay : ∀ request ∈ requests, request.msgType ≠ tcpRegister ∧ request ≠ .unregister) :
    Connected (receiveAll host fd messages server).server fd i ∧
      (receiveAll host fd messages server).replies.map answered =
        requests.map fun request => (fd, request.wireSize) := by
  induction messages generalizing server requests with
  | nil =>
      rw [List.map_nil, eq_comm, List.map_eq_nil_iff] at hread
      rw [hread]
      exact ⟨h, rfl⟩
  | cons data rest ih =>
      cases requests with
      | nil => cases hread
      | cons request later =>
          obtain ⟨hfirst, hrest⟩ := List.cons.inj hread
          obtain ⟨hregister, hunregister⟩ := hstay request List.mem_cons_self
          obtain ⟨hnext, hreply⟩ := connected_receive h hfirst hregister hunregister
          obtain ⟨hlast, hreplies⟩ :=
            ih hnext hrest fun other hother => hstay other (List.mem_cons_of_mem _ hother)
          refine ⟨hlast, ?_⟩
          rw [receiveAll, List.map_append, hreply, hreplies]
          rfl

/-- The leave of a registered client closes the connection and is not answered. -/
theorem receive_unregister (h : Connected server fd i) {data : Bytes}
    (hread : readMessage host data = some .unregister) :
    (server.receive host fd (.bytes data) true).server.findClientByFd fd = none ∧
      (server.receive host fd (.bytes data) true).replies = [] := by
  rw [receive_message h.found hread]
  refine ⟨?_, rfl⟩
  show (server.removeClient i).findClientByFd fd = none
  rw [Server.removeClient, if_neg (by rw [h.active]; decide)]
  exact findClientByFd_dropClient h.distinct h.found

/-- `list`, with an empty list that comes in two pieces. -/
def listTyped : Typed where
  before := id
  arrived :=
    { segments :=
        [(controlMessage .little tcpFileList errNone []).take 1,
          (controlMessage .little tcpFileList errNone []).drop 1]
      ne_nil := by decide
      ending := .waiting }
  env := barrenEnv []
  line := listWord ++ [newline]

/-- `share b` where there is no file `b`. -/
def mistypedTyped : Typed where
  before := id
  arrived := ⟨[], by decide, .waiting⟩
  env := barrenEnv []
  line := shareWord ++ [32, 98, newline]

def sessionStart : CommandSession where
  client := ⟨true, Owner.initial⟩
  conn := ⟨⟨[3], by decide, false⟩, ⟨[], by decide, .waiting⟩⟩

/-- A session one command further. -/
def afterTyped (s : CommandSession) (typed : Typed) : CommandSession :=
  ⟨(s.round .little typed).result.client, (s.round .little typed).conn⟩

end Receiving
end Directory
end PeerShare
