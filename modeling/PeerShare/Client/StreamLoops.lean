import PeerShare.Client.CommandLine
import PeerShare.Foundation.SegmentedStream

/-!
# The commands, one system call at a time

`share`, `list`, `get` and `quit` send in loops and read in loops, because neither `send`
nor `recv` need to do all of it at once.  Here every command runs on a connection that
takes and delivers bytes in arbitrary pieces.

How the bytes are cut makes no difference: a command on a connection is the command on
the bytes that have arrived and the room that is left, and that goes for any number of
commands, one after the other on one connection.
-/

namespace PeerShare
namespace Client

open Foundation Wire

/-- The connection to the server: the way out, and what has come in. -/
structure Connection where
  path : SendPath
  stream : SegmentedStream UInt8

/-- The connection without its cuts. -/
def Connection.link (conn : Connection) : ServerLink where
  room := conn.path.room
  answer := conn.stream.flatten
  ended := decide (conn.stream.ending ≠ .waiting)

/-! ## The loops -/

section Loops

variable (host : ByteOrder)

/-- The loop for the header, the checks on it, and the loop for the body. -/
def readReplyLoops (expected : UInt8) (size : Nat) (stream : SegmentedStream UInt8) :
    LoopOutcome (Bytes × SegmentedStream UInt8) :=
  match stream.read tcpHeaderSize with
  | .blocked => .blocked
  | .failed => .failed
  | .done (header, rest) =>
      let hdr := TcpHeader.ofImage host header
      if hdr.msgType = tcpError then
        .failed
      else if hdr.msgType ≠ expected then
        .failed
      else if ntoh host 2 hdr.dataLen ≠ size then
        .failed
      else
        rest.read size

/-- The loops of `list`; the body is as long as the header says. -/
def readFileListLoops (room : Bool) (stream : SegmentedStream UInt8) :
    LoopOutcome (Bytes × SegmentedStream UInt8) :=
  match stream.read tcpHeaderSize with
  | .blocked => .blocked
  | .failed => .failed
  | .done (header, rest) =>
      let hdr := TcpHeader.ofImage host header
      let bodyLen := ntoh host 2 hdr.dataLen
      if hdr.msgType = tcpError then
        .failed
      else if hdr.msgType ≠ tcpFileList then
        .failed
      else if bodyLen = 0 then
        .done ([], rest)
      else if bodyLen % fileInfoSize ≠ 0 then
        .failed
      else if room = false then
        .failed
      else
        rest.read bodyLen

/-- A command and the connection it leaves.  Behind a failure only the way out matters:
the client takes leave and ends. -/
structure CommandRun where
  command : CommandReturn
  conn : Connection

/-- Send `message`, read an answer and act on it. -/
def exchangeLoops {β : Type} (table : SharedTable) (conn : Connection) (message : Bytes)
    (read : SegmentedStream UInt8 → LoopOutcome (β × SegmentedStream UInt8))
    (act : β → Option Int × SharedTable) : CommandRun :=
  let written := conn.path.write message
  let asked := { conn with path := written.path }
  if written.whole = false then
    ⟨⟨some 1, [written.sent], table⟩, asked⟩
  else
    match read conn.stream with
    | .blocked => ⟨⟨none, [written.sent], table⟩, asked⟩
    | .failed => ⟨⟨some 1, [written.sent], table⟩, asked⟩
    | .done (answer, rest) =>
        ⟨⟨(act answer).1, [written.sent], (act answer).2⟩, { asked with stream := rest }⟩

variable (env : CommandEnv) (table : SharedTable)

/-- What `share` does with the body of its answer. -/
def shareAct (filename : Bytes) (announced : ShareFile) (body : Bytes) :
    Option Int × SharedTable :=
  (some 0,
    table.addSharedFile (readId host body) announced.fileSize announced.hash filename)

/-- What `get` does with the body of its answer; the rest of it has no stream to read. -/
def getAct (fileId : UInt32) (body : Bytes) : Option Int × SharedTable :=
  let location := FileLocation.ofImage host body
  if fileId.toNat ≠ location.fileId then
    (some 1, table)
  else if env.requestSent ≠ (udpHeaderSize + udpRequestFileSize : Nat) then
    (some 1, table)
  else
    ((getRun host env.getEnv location .awaitingStart env.receptions).returned.map GetReturn.code,
      table)

/-- `share`. -/
def shareLoops (filename : Bytes) (conn : Connection) : CommandRun :=
  match announce env.getEnv.sha256 filename (env.readFile filename) with
  | none => ⟨⟨some 1, [], table⟩, conn⟩
  | some announced =>
      exchangeLoops table conn (shareMessage host announced)
        (readReplyLoops host tcpShareAck tcpShareAckSize) (shareAct host table filename announced)

/-- `list`. -/
def listLoops (conn : Connection) : CommandRun :=
  exchangeLoops table conn (listMessage host) (readFileListLoops host env.listRoom)
    fun _ => (some 0, table)

/-- `get`. -/
def getLoops (fileId : UInt32) (conn : Connection) : CommandRun :=
  exchangeLoops table conn (requestMessage host fileId.toNat)
    (readReplyLoops host tcpFileLocation tcpFileLocationSize) (getAct host env table fileId)

/-- `handle_command` on a connection, and what is left of it. -/
structure LoopsResult where
  result : CommandResult
  conn : Connection

/-- A command inside `handle_command`, with the send loop of `quit`. -/
def concludeLoops (client : ClientState) (run : CommandRun) : LoopsResult :=
  let owner := { client.owner with table := run.command.table }
  match run.command.code with
  | none => ⟨⟨{ client with owner := owner }, false, run.command.sent⟩, run.conn⟩
  | some code =>
      if code ≠ 0 then
        let written := run.conn.path.write (unregisterMessage host)
        ⟨⟨⟨false, owner⟩, true, run.command.sent ++ [written.sent]⟩,
          { run.conn with path := written.path }⟩
      else
        ⟨⟨{ client with owner := owner }, true, run.command.sent⟩, run.conn⟩

/-- `handle_command`. -/
def handleCommandLoops (conn : Connection) (client : ClientState) (line : Bytes) : LoopsResult :=
  match parseCommand line with
  | .blank => ⟨⟨client, true, []⟩, conn⟩
  | .usage => ⟨⟨client, true, []⟩, conn⟩
  | .share filename =>
      concludeLoops host client (shareLoops host env client.owner.table filename conn)
  | .list => concludeLoops host client (listLoops host env client.owner.table conn)
  | .get fileId => concludeLoops host client (getLoops host env client.owner.table fileId conn)
  | .quit =>
      let written := conn.path.write (unregisterMessage host)
      ⟨⟨{ client with running := false }, true, [written.sent]⟩,
        { conn with path := written.path }⟩

end Loops

/-! ## The loops read and send what has arrived and what there is room for -/

/-- A loop over a stream and a read from its bytes come out alike. -/
inductive Agrees {β : Type} (stream : SegmentedStream UInt8) :
    LoopOutcome (β × SegmentedStream UInt8) → ReadOutcome β → Prop
  | stalled : Agrees stream stream.stalled .blocked
  | failed : Agrees stream .failed .failed
  | done (value : β) (rest : SegmentedStream UInt8) (hending : rest.ending = stream.ending) :
      Agrees stream (.done (value, rest)) (.done value rest.flatten)

section Reading

variable {host : ByteOrder} {stream : SegmentedStream UInt8}

/-- The header is in the first four bytes. -/
theorem ofImage_take_header {bytes : Bytes} :
    TcpHeader.ofImage host (bytes.take tcpHeaderSize) = TcpHeader.ofImage host bytes := by
  have hfield : fieldAt host (bytes.take tcpHeaderSize) 2 2 = fieldAt host bytes 2 2 := by
    rw [fieldAt, fieldAt, List.drop_take, List.take_take]
    rfl
  simp only [TcpHeader.ofImage, hfield, TcpHeader.mk.injEq, and_true]
  cases bytes with
  | nil => exact ⟨rfl, rfl⟩
  | cons first bytes => cases bytes <;> exact ⟨rfl, rfl⟩

/-- The body behind a header that has been read. -/
theorem agrees_body {size : Nat} {rest : SegmentedStream UInt8}
    (hrest : rest.flatten = stream.flatten.drop tcpHeaderSize)
    (hending : rest.ending = stream.ending) (hheader : tcpHeaderSize ≤ stream.flatten.length) :
    Agrees stream (rest.read size)
      (if stream.flatten.length < tcpHeaderSize + size then .blocked
        else .done ((stream.flatten.drop tcpHeaderSize).take size)
          (stream.flatten.drop (tcpHeaderSize + size))) := by
  have hlength : rest.flatten.length = stream.flatten.length - tcpHeaderSize := by
    rw [hrest, List.length_drop]
  by_cases hshort : rest.flatten.length < size
  · have hstalled : rest.read size = stream.stalled := by
      rw [SegmentedStream.read_stalled hshort, SegmentedStream.stalled, hending]
      rfl
    rw [hstalled, if_pos (by omega)]
    exact .stalled
  · obtain ⟨last, hread, hlast, hend⟩ := SegmentedStream.read_done (not_lt.mp hshort)
    rw [hread, if_neg (by omega), hrest, ← List.drop_drop, ← hrest, ← hlast]
    exact .done _ last (hend.trans hending)

/-- The loop for the header gets no further. -/
theorem read_header_stalled {β : Type} (hshort : stream.flatten.length < tcpHeaderSize) :
    stream.read tcpHeaderSize = .blocked ∧ @Agrees β stream .blocked .blocked ∨
      stream.read tcpHeaderSize = .failed ∧ @Agrees β stream .failed .blocked := by
  have hread := SegmentedStream.read_stalled hshort
  have hstalled : @Agrees β stream stream.stalled .blocked := .stalled
  unfold SegmentedStream.stalled at hread hstalled
  split at hread
  · next hwaits =>
      rw [if_pos hwaits] at hstalled
      exact .inl ⟨hread, hstalled⟩
  · next hends =>
      rw [if_neg hends] at hstalled
      exact .inr ⟨hread, hstalled⟩

theorem agrees_readReply (expected : UInt8) (size : Nat) :
    Agrees stream (readReplyLoops host expected size stream)
      (readReply host expected size stream.flatten) := by
  unfold readReplyLoops readReply
  by_cases hheader : stream.flatten.length < tcpHeaderSize
  · rw [if_pos hheader]
    rcases read_header_stalled hheader with ⟨hread, hagrees⟩ | ⟨hread, hagrees⟩
    · rw [hread]
      exact hagrees
    · rw [hread]
      exact hagrees
  · obtain ⟨rest, hread, hrest, hending⟩ := SegmentedStream.read_done (not_lt.mp hheader)
    simp only [hread, ofImage_take_header, if_neg hheader]
    split; · exact .failed
    split; · exact .failed
    split; · exact .failed
    exact agrees_body hrest hending (not_lt.mp hheader)

theorem agrees_readFileList (room : Bool) :
    Agrees stream (readFileListLoops host room stream)
      (readFileList host room stream.flatten) := by
  unfold readFileListLoops readFileList
  simp only
  by_cases hheader : stream.flatten.length < tcpHeaderSize
  · rw [if_pos hheader]
    rcases read_header_stalled hheader with ⟨hread, hagrees⟩ | ⟨hread, hagrees⟩
    · rw [hread]
      exact hagrees
    · rw [hread]
      exact hagrees
  · obtain ⟨rest, hread, hrest, hending⟩ := SegmentedStream.read_done (not_lt.mp hheader)
    simp only [hread, ofImage_take_header, if_neg hheader]
    split; · exact .failed
    split; · exact .failed
    split
    · rw [← hrest]
      exact .done [] rest hending
    split; · exact .failed
    split; · exact .failed
    exact agrees_body hrest hending (not_lt.mp hheader)

/-- A send loop on a connection is the one on its bytes. -/
theorem write_link (conn : Connection) (message : Bytes) :
    (conn.path.write message).sent = (conn.link.sendAll message).1 ∧
      (conn.path.write message).whole = (conn.link.sendAll message).2 ∧
      { conn with path := (conn.path.write message).path }.link = conn.link.after message := by
  obtain ⟨hsent, hwhole, hroom⟩ := SendPath.write_eq conn.path message
  refine ⟨?_, ?_, ?_⟩
  · rw [hsent, ServerLink.sendAll, Connection.link]
    cases conn.path.room <;> rfl
  · rw [hwhole, ServerLink.sendAll, Connection.link]
    cases conn.path.room <;> rfl
  · simp only [Connection.link, ServerLink.after, hroom]

end Reading

/-! ## Commands -/

/-- The connection behind a command that sends `message` and reads `outcome`. -/
def ServerLink.behind {β : Type} (link : ServerLink) (message : Bytes) (outcome : ReadOutcome β) :
    ServerLink :=
  let asked := link.after message
  if (link.sendAll message).2 = false then
    asked
  else
    match outcome with
    | .done _ rest => { asked with answer := rest }
    | _ => asked

/-- The connection behind `quit`, if the command is followed by it. -/
def ServerLink.concluded (host : ByteOrder) (link : ServerLink) (command : CommandReturn) :
    ServerLink :=
  match command.code with
  | none => link
  | some code => if code ≠ 0 then link.after (unregisterMessage host) else link

/-- The connection behind `handle_command`. -/
def linkBehind (host : ByteOrder) (env : CommandEnv) (table : SharedTable) (line : Bytes) :
    ServerLink :=
  match parseCommand line with
  | .blank => env.link
  | .usage => env.link
  | .share filename =>
      (match announce env.getEnv.sha256 filename (env.readFile filename) with
        | none => env.link
        | some announced =>
            env.link.behind (shareMessage host announced)
              (readReply host tcpShareAck tcpShareAckSize env.link.answer)).concluded
        host (share host env table filename)
  | .list =>
      (env.link.behind (listMessage host)
        (readFileList host env.listRoom env.link.answer)).concluded host (listFiles host env table)
  | .get fileId =>
      (env.link.behind (requestMessage host fileId.toNat)
        (readReply host tcpFileLocation tcpFileLocationSize env.link.answer)).concluded
        host (getFile host env table fileId)
  | .quit => env.link.after (unregisterMessage host)

/-- A command on a connection is the command on its bytes, and leaves the connection that
this leaves. -/
structure OnBytes (link : ServerLink) (run : CommandRun) (command : CommandReturn)
    (behind : ServerLink) : Prop where
  command_eq : run.command = command
  link_eq : run.conn.link = behind
  /-- Behind the request the way out has the room that the commands count with. -/
  room_eq : (command.sent.foldl ServerLink.after link).room = behind.room

section Commands

variable {host : ByteOrder} {env : CommandEnv} {table : SharedTable} {conn : Connection}

/-- What a truncated message has taken is all there was. -/
theorem after_sendAll_room (link : ServerLink) (message : Bytes) :
    (link.after (link.sendAll message).1).room = (link.after message).room := by
  cases hroom : link.room with
  | none => simp [ServerLink.after, ServerLink.sendAll, hroom]
  | some room =>
      simp only [ServerLink.after, ServerLink.sendAll, hroom, Option.map_some, List.length_take,
        Option.some.injEq]
      omega

/-- The exchange of a command on the bytes of the connection. -/
def exchangeBytes {β : Type} (table : SharedTable) (link : ServerLink) (message : Bytes)
    (outcome : ReadOutcome β) (act : β → Option Int × SharedTable) : CommandReturn :=
  let (sent, whole) := link.sendAll message
  if whole = false then
    ⟨some 1, [sent], table⟩
  else
    match outcome with
    | .blocked => ⟨link.stalled, [sent], table⟩
    | .failed => ⟨some 1, [sent], table⟩
    | .done answer _ => ⟨(act answer).1, [sent], (act answer).2⟩

theorem onBytes_exchange {β : Type} (message : Bytes)
    {read : SegmentedStream UInt8 → LoopOutcome (β × SegmentedStream UInt8)}
    {outcome : ReadOutcome β} (hagrees : Agrees conn.stream (read conn.stream) outcome)
    (act : β → Option Int × SharedTable) :
    OnBytes conn.link (exchangeLoops table conn message read act)
      (exchangeBytes table conn.link message outcome act) (conn.link.behind message outcome) := by
  obtain ⟨hsent, hwhole, hasked⟩ := write_link conn message
  have hroom := after_sendAll_room conn.link message
  simp only [exchangeLoops, exchangeBytes, ServerLink.behind, ← hwhole, ← hsent] at hroom ⊢
  cases (conn.path.write message).whole with
  | false => exact ⟨rfl, hasked, hroom⟩
  | true =>
      simp only [Bool.true_eq_false, if_false]
      generalize read conn.stream = loops at hagrees
      cases hagrees with
      | stalled =>
          by_cases hwaits : conn.stream.ending = .waiting
          · have hnone : conn.link.stalled = none := by
              simp [ServerLink.stalled, Connection.link, hwaits]
            rw [SegmentedStream.stalled, if_pos hwaits, hnone]
            exact ⟨rfl, hasked, hroom⟩
          · have hone : conn.link.stalled = some 1 := by
              simp [ServerLink.stalled, Connection.link, hwaits]
            rw [SegmentedStream.stalled, if_neg hwaits, hone]
            exact ⟨rfl, hasked, hroom⟩
      | failed => exact ⟨rfl, hasked, hroom⟩
      | done answer rest hending =>
          refine ⟨rfl, ?_, hroom⟩
          rw [← hasked]
          simp only [Connection.link, hending]

theorem share_eq (filename : Bytes) {announced : ShareFile}
    (hannounce : announce env.getEnv.sha256 filename (env.readFile filename) = some announced) :
    share host env table filename =
      exchangeBytes table env.link (shareMessage host announced)
        (readReply host tcpShareAck tcpShareAckSize env.link.answer)
        (shareAct host table filename announced) := by
  simp only [share, hannounce, exchangeBytes, readShareAck]
  cases readReply host tcpShareAck tcpShareAckSize env.link.answer <;> rfl

theorem listFiles_eq :
    listFiles host env table =
      exchangeBytes table env.link (listMessage host)
        (readFileList host env.listRoom env.link.answer) fun _ => (some 0, table) := by
  simp only [listFiles, exchangeBytes]
  cases readFileList host env.listRoom env.link.answer <;> rfl

theorem getFile_eq (fileId : UInt32) :
    getFile host env table fileId =
      exchangeBytes table env.link (requestMessage host fileId.toNat)
        (readReply host tcpFileLocation tcpFileLocationSize env.link.answer)
        (getAct host env table fileId) := by
  cases hreply : readReply host tcpFileLocation tcpFileLocationSize env.link.answer with
  | blocked =>
      have hlocation : readFileLocation host fileId.toNat env.link.answer = .blocked := by
        rw [readFileLocation, hreply]
        rfl
      simp only [getFile, exchangeBytes, hlocation, if_true]
  | failed =>
      have hlocation : readFileLocation host fileId.toNat env.link.answer = .failed := by
        rw [readFileLocation, hreply]
        rfl
      simp [getFile, exchangeBytes, get, requestLocation, hlocation]
  | done body rest =>
      by_cases hid : fileId.toNat ≠ (FileLocation.ofImage host body).fileId
      · have hlocation : readFileLocation host fileId.toNat env.link.answer = .failed := by
          rw [readFileLocation, hreply]
          exact if_pos hid
        simp [getFile, exchangeBytes, get, requestLocation, hlocation, getAct, if_pos hid]
      · have hlocation : readFileLocation host fileId.toNat env.link.answer =
            .done (FileLocation.ofImage host body) rest := by
          rw [readFileLocation, hreply]
          exact if_neg hid
        by_cases hsent : env.requestSent ≠ (udpHeaderSize + udpRequestFileSize : Nat)
        · simp only [getFile, exchangeBytes, get, requestLocation, hlocation, getAct, if_neg hid,
            if_pos hsent, reduceCtorEq, if_false, Option.map_some]
        · simp only [getFile, exchangeBytes, get, requestLocation, hlocation, getAct, if_neg hid,
            if_neg hsent, reduceCtorEq, if_false]

/-- `handle_command` on a connection is `handle_command` on its bytes, and leaves the
connection that this leaves. -/
theorem onBytes_conclude (client : ClientState) {run : CommandRun} {command : CommandReturn}
    {behind : ServerLink} (h : OnBytes env.link run command behind) :
    (concludeLoops host client run).result = conclude host env.link client command ∧
      (concludeLoops host client run).conn.link = behind.concluded host command := by
  obtain ⟨rfl, rfl, hroom⟩ := h
  unfold concludeLoops conclude ServerLink.concluded
  cases run.command.code with
  | none => exact ⟨rfl, rfl⟩
  | some code =>
      simp only
      by_cases hcode : code ≠ 0
      · obtain ⟨hsent, -, hleft⟩ := write_link run.conn (unregisterMessage host)
        have hsame : (run.conn.path.write (unregisterMessage host)).sent =
            ((run.command.sent.foldl ServerLink.after env.link).sendAll
              (unregisterMessage host)).1 := by
          rw [hsent, ServerLink.sendAll, ServerLink.sendAll, hroom]
        rw [if_pos hcode, if_pos hcode, if_pos hcode, hsame]
        exact ⟨rfl, hleft⟩
      · rw [if_neg hcode, if_neg hcode, if_neg hcode]
        exact ⟨rfl, rfl⟩

theorem handleCommandLoops_eq (hlink : env.link = conn.link) (client : ClientState)
    (line : Bytes) :
    (handleCommandLoops host env conn client line).result = handleCommand host env client line ∧
      (handleCommandLoops host env conn client line).conn.link =
        linkBehind host env client.owner.table line := by
  unfold handleCommandLoops handleCommand linkBehind
  cases parseCommand line with
  | blank => exact ⟨rfl, hlink.symm⟩
  | usage => exact ⟨rfl, hlink.symm⟩
  | share filename =>
      refine onBytes_conclude client ?_
      cases hannounce : announce env.getEnv.sha256 filename (env.readFile filename) with
      | none =>
          simp only [shareLoops, share, hannounce]
          exact ⟨rfl, hlink.symm, rfl⟩
      | some announced =>
          rw [share_eq filename hannounce]
          simp only [shareLoops, hannounce, hlink]
          exact onBytes_exchange _ (agrees_readReply _ _) _
  | list =>
      refine onBytes_conclude client ?_
      rw [listFiles_eq, hlink]
      exact onBytes_exchange _ (agrees_readFileList _) _
  | get fileId =>
      refine onBytes_conclude client ?_
      rw [getFile_eq, hlink]
      exact onBytes_exchange _ (agrees_readReply _ _) _
  | quit =>
      obtain ⟨hsent, -, hleft⟩ := write_link conn (unregisterMessage host)
      rw [hlink]
      simp only [hsent]
      exact ⟨trivial, hleft⟩

end Commands

/-! ## Sessions -/

/-- What one command of the main loop meets: what the rest of the loop has made of the
owner, the pieces that arrive, and the line that is typed. -/
structure Typed where
  before : Owner → Owner
  arrived : SegmentedStream UInt8
  env : CommandEnv
  line : Bytes

/-- The client and its connection. -/
structure CommandSession where
  client : ClientState
  conn : Connection

/-- The next command of a session. -/
def CommandSession.round (host : ByteOrder) (s : CommandSession) (typed : Typed) : LoopsResult :=
  handleCommandLoops host typed.env
    { s.conn with stream := s.conn.stream.append typed.arrived }
    { s.client with owner := typed.before s.client.owner } typed.line

/-- A command that returns, with the messages it sent. -/
def SessionStep (host : ByteOrder) (s : CommandSession) (label : Typed × List Bytes)
    (s' : CommandSession) : Prop :=
  s.client.running = true ∧ (s.round host label.1).result.returned = true ∧
    label.2 = (s.round host label.1).result.sent ∧
    s' = ⟨(s.round host label.1).result.client, (s.round host label.1).conn⟩

/-- The same without cuts: bytes arrive, and the stream may end behind them. -/
structure TypedBytes where
  before : Owner → Owner
  arrived : Bytes
  ended : Bool
  env : CommandEnv
  line : Bytes

structure ByteSession where
  client : ClientState
  link : ServerLink

def ServerLink.receive (link : ServerLink) (arrived : Bytes) (ended : Bool) : ServerLink :=
  if link.ended then link else { link with answer := link.answer ++ arrived, ended := ended }

/-- The next command of a session, read and sent in one go. -/
def ByteSession.env (s : ByteSession) (typed : TypedBytes) : CommandEnv :=
  { typed.env with link := s.link.receive typed.arrived typed.ended }

def ByteSession.round (host : ByteOrder) (s : ByteSession) (typed : TypedBytes) : CommandResult :=
  handleCommand host (s.env typed) { s.client with owner := typed.before s.client.owner }
    typed.line

def ByteSessionStep (host : ByteOrder) (s : ByteSession) (label : TypedBytes × List Bytes)
    (s' : ByteSession) : Prop :=
  s.client.running = true ∧ (s.round host label.1).returned = true ∧
    label.2 = (s.round host label.1).sent ∧
    s' = ⟨(s.round host label.1).client,
      linkBehind host (s.env label.1) (label.1.before s.client.owner).table label.1.line⟩

def CommandSession.bytes (s : CommandSession) : ByteSession where
  client := s.client
  link := s.conn.link

def Typed.bytes (typed : Typed) : TypedBytes where
  before := typed.before
  arrived := typed.arrived.flatten
  ended := decide (typed.arrived.ending ≠ .waiting)
  env := typed.env
  line := typed.line

section Sessions

variable {host : ByteOrder} {s : CommandSession}

theorem link_append (conn : Connection) (more : SegmentedStream UInt8) :
    { conn with stream := conn.stream.append more }.link =
      conn.link.receive more.flatten (decide (more.ending ≠ .waiting)) := by
  by_cases hwaits : conn.stream.ending = .waiting
  · simp [Connection.link, ServerLink.receive, SegmentedStream.append, SegmentedStream.flatten,
      hwaits]
  · simp [Connection.link, ServerLink.receive, SegmentedStream.append, hwaits]

/-- One command of a session. -/
theorem round_bytes (host : ByteOrder) (s : CommandSession) (typed : Typed) :
    (s.round host typed).result = s.bytes.round host typed.bytes ∧
      (s.round host typed).conn.link =
        linkBehind host (s.bytes.env typed.bytes) (typed.before s.client.owner).table
          typed.line :=
  @handleCommandLoops_eq host (s.bytes.env typed.bytes) _ (link_append s.conn typed.arrived).symm
    { s.client with owner := typed.before s.client.owner } typed.line

/-- For every session of commands on one connection, whatever is typed and whenever it
arrives: how the bytes are cut on the way in, and how much each `send` takes on the way
out, makes no difference.  A session can go a certain way exactly when the session on the
joined bytes can, with the same messages, the same client and the same bytes left. -/
theorem session_on_bytes_iff {labels : List (Typed × List Bytes)} {last : ByteSession} :
    (∃ t, Run (SessionStep host) s labels t ∧ t.bytes = last) ↔
      Run (ByteSessionStep host) s.bytes (labels.map (Prod.map Typed.bytes id)) last := by
  refine Run.map_iff CommandSession.bytes (Prod.map Typed.bytes id) ?_ ?_
  · rintro s label t ⟨hrunning, hreturned, hsent, rfl⟩
    obtain ⟨hresult, hlink⟩ := round_bytes host s label.1
    rw [hresult] at hreturned hsent
    refine ⟨hrunning, hreturned, hsent, ?_⟩
    simp only [CommandSession.bytes, ByteSession.mk.injEq]
    exact ⟨congrArg CommandResult.client hresult, hlink⟩
  · rintro s label t' ⟨hrunning, hreturned, hsent, rfl⟩
    obtain ⟨hresult, hlink⟩ := round_bytes host s label.1
    refine ⟨_, ⟨hrunning, ?_, ?_, rfl⟩, ?_⟩
    · rw [hresult]
      exact hreturned
    · rw [hresult]
      exact hsent
    · simp only [CommandSession.bytes, ByteSession.mk.injEq]
      exact ⟨congrArg CommandResult.client hresult, hlink⟩

end Sessions
end Client
end PeerShare
