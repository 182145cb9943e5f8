import PeerShare.Client.ClientProcess
import PeerShare.Directory.Network
import PeerShare.Directory.SessionMessages
import PeerShare.Foundation.Simulation

/-!
# The clients of the network are the client process

The network model moves a client in few large moves: it asks, it reads its answer, it
returns from a download.  The process below it goes through its lines, its send and
receive loops and its main loop.  As long as the connection holds, every run of the
process is matched by moves of the network's client, with the same bytes in and the same
messages out, in the same order, and both end at the same place with the same table.
-/

namespace PeerShare
namespace Directory

open Foundation Wire Client

/-- The moves of one client of the network. -/
inductive PeerMove where
  | arrive (bytes : Bytes)
  | register
  | command (command : Command)
  | read (room : Bool)
  | fetched (success : Bool)
  | disconnect (arriving : Nat)

def PeerMove.arrived : PeerMove → Bytes
  | .arrive bytes => bytes
  | _ => []

def Peer.move (host : ByteOrder) (sha256 : Bytes → HashBytes) (peer : Peer) : PeerMove → Peer
  | .arrive bytes => { peer with inbox := peer.inbox ++ bytes }
  | .register => peer.register host
  | .command command => peer.command host sha256 command
  | .read room => peer.read host room
  | .fetched success => peer.fetched host success
  | .disconnect arriving => peer.disconnect arriving

/-- A move, labelled with the messages it sends. -/
def PeerStep (host : ByteOrder) (sha256 : Bytes → HashBytes) (peer : Peer)
    (label : PeerMove × List Bytes) (peer' : Peer) : Prop :=
  peer' = peer.move host sha256 label.1 ∧ peer'.toServer = peer.toServer ++ label.2

/-- What the connection sees of a client. -/
inductive OnWire where
  | arrived (byte : UInt8)
  | sent (message : Bytes)

def PeerMove.onWire (label : PeerMove × List Bytes) : List OnWire :=
  label.1.arrived.map .arrived ++ label.2.map .sent

def processOnWire (label : ProcessEvent × List Bytes) : List OnWire :=
  label.1.arrived.map .arrived ++ label.2.map .sent

/-- The client has asked and has no answer yet. -/
def Peer.Waits (peer : Peer) : Prop :=
  peer.phase ≠ .connected ∧ peer.phase ≠ .idle ∧ peer.phase ≠ .closed

/-- The way out holds, nothing has ended, and the client has yet to read its inbox. -/
def Peer.link (peer : Peer) : ServerLink := ⟨none, peer.inbox, false⟩

/-- Where the process and the client of the network stand together. -/
inductive StandsFor (udpPort : UInt16) (p : ClientProcess) (peer : Peer) : Prop where
  | connected (hphase : p.phase = .connected) (hpeer : peer.phase = .connected)
      (hport : peer.udpPort = udpPort) (hrunning : p.session.client.running = true)
      (hlink : p.session.conn.link = peer.link)
      (htable : peer.table = p.session.client.owner.table)
  | idle (hphase : p.phase = .looping) (hpeer : peer.phase = .idle)
      (hid : peer.clientId = p.clientId) (hrunning : p.session.client.running = true)
      (hlink : p.session.conn.link = peer.link)
      (htable : peer.table = p.session.client.owner.table)
  | left (hphase : p.phase = .looping) (hpeer : peer.phase = .closed)
      (hrunning : p.session.client.running = false)
      (htable : peer.table = p.session.client.owner.table)
  | waiting (hphase : p.phase = .waiting) (hpeer : peer.Waits)
      (htable : peer.table = p.session.client.owner.table)
  | ended (code : Int) (hphase : p.phase = .ended code) (hpeer : peer.phase = .closed)
      (htable : peer.table = p.session.client.owner.table)

/-! ## Commands -/

section Commands

variable {host : ByteOrder} {sha256 : Bytes → HashBytes} {env : CommandEnv} {peer : Peer}
  {client : ClientState}

/-- How a command of the process ends, and where the client of the network is then. -/
inductive CommandEnds (result : CommandResult) (behind : ServerLink) (peer : Peer) : Prop where
  | idle (hreturned : result.returned = true) (hrunning : result.client.running = true)
      (hpeer : peer.phase = .idle) (hbehind : behind = peer.link)
  | left (hreturned : result.returned = true) (hrunning : result.client.running = false)
      (hpeer : peer.phase = .closed)
  | waiting (hreturned : result.returned = false) (hpeer : peer.Waits)

/-- Moves that send what the command sends and end where it ends. -/
def Matched (host : ByteOrder) (sha256 : Bytes → HashBytes) (peer : Peer)
    (result : CommandResult) (behind : ServerLink) : Prop :=
  ∃ moves peer', Run (PeerStep host sha256) peer moves peer' ∧
    moves.flatMap PeerMove.onWire = result.sent.map .sent ∧
    peer'.clientId = peer.clientId ∧ peer'.table = result.client.owner.table ∧
    CommandEnds result behind peer'

/-- How the moves behind a request end when the command comes to `code`. -/
inductive AnswerEnds (host : ByteOrder) (code : Option Int) (rest : Bytes)
    (moves : List (PeerMove × List Bytes)) (peer : Peer) : Prop where
  | waiting (hcode : code = none) (hwire : moves.flatMap PeerMove.onWire = [])
      (hpeer : peer.Waits)
  | idle (hcode : code = some 0) (hwire : moves.flatMap PeerMove.onWire = [])
      (hpeer : peer.phase = .idle) (hinbox : peer.inbox = rest)
  | left (value : Int) (hcode : code = some value) (hvalue : value ≠ 0)
      (hwire : moves.flatMap PeerMove.onWire = [.sent (unregisterMessage host)])
      (hpeer : peer.phase = .closed)

def AnswerMatched (host : ByteOrder) (sha256 : Bytes → HashBytes) (asked : Peer)
    (code : Option Int) (table : SharedTable) (rest : Bytes) : Prop :=
  ∃ moves peer', Run (PeerStep host sha256) asked moves peer' ∧
    peer'.clientId = asked.clientId ∧ peer'.table = table ∧ AnswerEnds host code rest moves peer'

/-- A request and what follows it make a command. -/
theorem matched_of_answer (hlink : env.link = peer.link) (hrunning : client.running = true)
    {command : Command} {message : Bytes} {phase : ClientPhase} {code : Option Int}
    {table : SharedTable} {rest : Bytes} {behind : ServerLink}
    (hask : peer.command host sha256 command = peer.send message phase)
    (hanswer : AnswerMatched host sha256 (peer.send message phase) code table rest)
    (hbehind : code = some 0 → behind = ⟨none, rest, false⟩) :
    Matched host sha256 peer (conclude host env.link client ⟨code, [message], table⟩)
      (behind.concluded host ⟨code, [message], table⟩) := by
  obtain ⟨moves, peer', hrun, hid, htable, hends⟩ := hanswer
  have hfirst : Run (PeerStep host sha256) peer [(.command command, [message])]
      (peer.send message phase) := Run.single ⟨hask.symm, rfl⟩
  refine ⟨_, peer', hfirst.append hrun, ?_⟩
  rw [List.flatMap_append, List.flatMap_singleton]
  cases hends with
  | waiting hcode hwire hpeer =>
      subst hcode
      rw [hwire]
      exact ⟨rfl, hid, htable, .waiting rfl hpeer⟩
  | idle hcode hwire hpeer hinbox =>
      subst hcode
      rw [hwire]
      refine ⟨rfl, hid, htable, .idle rfl hrunning hpeer ?_⟩
      rw [Peer.link, hinbox]
      exact hbehind rfl
  | left value hcode hvalue hwire hpeer =>
      subst hcode
      have hresult : conclude host env.link client ⟨some value, [message], table⟩ =
          ⟨⟨false, { client.owner with table := table }⟩, true,
            [message, unregisterMessage host]⟩ := by
        simp only [conclude, if_pos hvalue, hlink, List.foldl_cons, List.foldl_nil,
          ServerLink.after, Peer.link, ServerLink.sendAll, Option.map_none]
        rfl
      rw [hwire, hresult]
      exact ⟨rfl, hid, htable, .left rfl rfl hpeer⟩

/-- A client that gives up takes leave. -/
theorem answerMatched_of_quit (room : Bool) {asked : Peer} {value : Int} {rest : Bytes}
    (hvalue : value ≠ 0) (hread : asked.read host room = asked.quit host) :
    AnswerMatched host sha256 asked (some value) asked.table rest :=
  ⟨[(.read room, [unregisterMessage host])], asked.quit host, Run.single ⟨hread.symm, rfl⟩, rfl,
    rfl, .left value rfl hvalue rfl rfl⟩

/-- Behind a location the code of the download decides. -/
theorem answerMatched_of_location (location : FileLocation) {asked : Peer} {rest : Bytes}
    (hread : asked.read host true = { asked with phase := .fetching location, inbox := rest })
    (code : Option Int) : AnswerMatched host sha256 asked code asked.table rest := by
  have hlocated : Run (PeerStep host sha256) asked [(.read true, [])]
      { asked with phase := .fetching location, inbox := rest } :=
    Run.single ⟨hread.symm, (List.append_nil _).symm⟩
  rcases code with _ | value
  · exact ⟨_, _, hlocated, rfl, rfl, .waiting rfl rfl ⟨nofun, nofun, nofun⟩⟩
  by_cases hvalue : value = 0
  · have hfetched : Run (PeerStep host sha256) asked [(.read true, []), (.fetched true, [])]
        { asked with phase := .idle, inbox := rest } :=
      hlocated.snoc ⟨rfl, (List.append_nil _).symm⟩
    exact ⟨_, _, hfetched, rfl, rfl, .idle (congrArg some hvalue) rfl rfl rfl⟩
  · have hfetched : Run (PeerStep host sha256) asked
        [(.read true, []), (.fetched false, [unregisterMessage host])]
        (Peer.quit host { asked with phase := .fetching location, inbox := rest }) :=
      hlocated.snoc ⟨rfl, rfl⟩
    exact ⟨_, _, hfetched, rfl, rfl, .left value rfl hvalue rfl rfl⟩

theorem getAct_table (table : SharedTable) (fileId : UInt32) (body : Bytes) :
    (getAct host env table fileId body).2 = table := by
  unfold getAct
  simp only
  split
  · rfl
  · split <;> rfl

/-- An exchange, by what the client of the network makes of a whole answer. -/
theorem matched_exchange {β : Type} (room : Bool) (hlink : env.link = peer.link)
    (hrunning : client.running = true) (htable : peer.table = client.owner.table)
    {command : Command} {message : Bytes} {phase : ClientPhase} {outcome : ReadOutcome β}
    {act : β → Option Int × SharedTable}
    (hask : peer.command host sha256 command = peer.send message phase)
    (hwaits : (peer.send message phase).Waits)
    (hfailed : outcome = .failed →
      (peer.send message phase).read host room = (peer.send message phase).quit host)
    (hdone : ∀ answer rest, outcome = .done answer rest →
      AnswerMatched host sha256 (peer.send message phase) (act answer).1 (act answer).2 rest) :
    Matched host sha256 peer
      (conclude host env.link client
        (exchangeBytes client.owner.table env.link message outcome act))
      ((env.link.behind message outcome).concluded host
        (exchangeBytes client.owner.table env.link message outcome act)) := by
  have hwhole : env.link.sendAll message = (message, true) := by
    rw [hlink]
    rfl
  have hstalled : env.link.stalled = none := by
    rw [hlink]
    rfl
  simp only [exchangeBytes, hwhole, Bool.true_eq_false, if_false]
  cases outcome with
  | blocked =>
      have hanswer : AnswerMatched host sha256 (peer.send message phase) env.link.stalled
          client.owner.table [] :=
        ⟨[], _, Run.nil _, rfl, htable, .waiting hstalled rfl hwaits⟩
      refine matched_of_answer hlink hrunning hask hanswer fun hcode => ?_
      rw [hstalled] at hcode
      cases hcode
  | failed =>
      have hanswer : AnswerMatched host sha256 (peer.send message phase) (some 1)
          (peer.send message phase).table [] := answerMatched_of_quit room one_ne_zero (hfailed rfl)
      rw [show (peer.send message phase).table = client.owner.table from htable] at hanswer
      exact matched_of_answer hlink hrunning hask hanswer fun hcode => by cases hcode
  | done answer rest =>
      refine matched_of_answer hlink hrunning hask (hdone answer rest rfl) fun _ => ?_
      rw [hlink]
      rfl

/-- A command that only takes leave. -/
theorem matched_of_quit (hlink : env.link = peer.link) {command : Command} {result : CommandResult}
    {behind : ServerLink} (hask : peer.command host sha256 command = peer.quit host)
    (hreturned : result.returned = true) (hrunning : result.client.running = false)
    (htable : peer.table = result.client.owner.table)
    (hsent : result.sent = [(env.link.sendAll (unregisterMessage host)).1]) :
    Matched host sha256 peer result behind := by
  refine ⟨[(.command command, [unregisterMessage host])], peer.quit host,
    Run.single ⟨hask.symm, rfl⟩, ?_, rfl, htable, .left hreturned hrunning rfl⟩
  rw [hsent, hlink]
  rfl

theorem matched_share (hidle : peer.phase = .idle) (hlink : env.link = peer.link)
    (hrunning : client.running = true) (htable : peer.table = client.owner.table)
    (filename : Bytes) {announced : ShareFile}
    (hannounce : announce env.getEnv.sha256 filename (env.readFile filename) = some announced) :
    Matched host env.getEnv.sha256 peer
      (conclude host env.link client (share host env client.owner.table filename))
      ((env.link.behind (shareMessage host announced)
        (readReply host tcpShareAck tcpShareAckSize env.link.answer)).concluded host
          (share host env client.owner.table filename)) := by
  have hask : peer.command host env.getEnv.sha256 (.share filename (env.readFile filename)) =
      peer.send (shareMessage host announced) (.sharing announced filename) := by
    simp only [Peer.command, hidle, hannounce]
  have hinbox : env.link.answer = peer.inbox := congrArg ServerLink.answer hlink
  rw [share_eq filename hannounce]
  refine matched_exchange true hlink hrunning htable hask ⟨nofun, nofun, nofun⟩ ?_ ?_
  · intro hfailed
    rw [hinbox] at hfailed
    simp only [Peer.read, Peer.send, readShareAck, hfailed, ReadOutcome.map]
  · intro body rest hdone
    rw [hinbox] at hdone
    refine ⟨[(.read true, [])], _, Run.single ⟨rfl, ?_⟩, ?_, ?_, .idle rfl rfl ?_ ?_⟩
    all_goals
      simp only [Peer.move, Peer.read, Peer.send, readShareAck, hdone, ReadOutcome.map,
        List.append_nil, shareAct, htable]

theorem matched_list (hidle : peer.phase = .idle) (hlink : env.link = peer.link)
    (hrunning : client.running = true) (htable : peer.table = client.owner.table) :
    Matched host sha256 peer
      (conclude host env.link client (listFiles host env client.owner.table))
      ((env.link.behind (listMessage host)
        (readFileList host env.listRoom env.link.answer)).concluded host
          (listFiles host env client.owner.table)) := by
  have hask : peer.command host sha256 .list = peer.send (listMessage host) .listing := by
    simp only [Peer.command, hidle]
  have hinbox : env.link.answer = peer.inbox := congrArg ServerLink.answer hlink
  rw [listFiles_eq]
  refine matched_exchange env.listRoom hlink hrunning htable hask
    ⟨nofun, nofun, nofun⟩ ?_ ?_
  · intro hfailed
    rw [hinbox] at hfailed
    simp only [Peer.read, Peer.send, hfailed]
  · intro body rest hdone
    rw [hinbox] at hdone
    refine ⟨[(.read env.listRoom, [])], _, Run.single ⟨rfl, ?_⟩, ?_, ?_, .idle rfl rfl ?_ ?_⟩
    all_goals
      simp only [Peer.move, Peer.read, Peer.send, hdone, List.append_nil, htable]

/-- The answer to a `get` is a location or ends the client, and behind a location the code
of the download decides. -/
theorem matched_get (hidle : peer.phase = .idle) (hlink : env.link = peer.link)
    (hrunning : client.running = true) (htable : peer.table = client.owner.table)
    (fileId : UInt32) :
    Matched host sha256 peer
      (conclude host env.link client (getFile host env client.owner.table fileId))
      ((env.link.behind (requestMessage host fileId.toNat)
        (readReply host tcpFileLocation tcpFileLocationSize env.link.answer)).concluded host
          (getFile host env client.owner.table fileId)) := by
  have hask : peer.command host sha256 (.get fileId) =
      peer.send (requestMessage host fileId.toNat) (.locating fileId.toNat) := by
    simp only [Peer.command, hidle]
  have hinbox : env.link.answer = peer.inbox := congrArg ServerLink.answer hlink
  rw [getFile_eq]
  refine matched_exchange true hlink hrunning htable hask ⟨nofun, nofun, nofun⟩ ?_ ?_
  · intro hfailed
    rw [hinbox] at hfailed
    simp only [Peer.read, Peer.send, readFileLocation, hfailed, ReadOutcome.map]
  · intro body rest hdone
    rw [hinbox] at hdone
    have htableAct : (getAct host env client.owner.table fileId body).2 =
        (peer.send (requestMessage host fileId.toNat) (.locating fileId.toNat)).table := by
      rw [getAct_table]
      exact htable.symm
    rw [htableAct]
    by_cases hid : fileId.toNat ≠ (FileLocation.ofImage host body).fileId
    · have hcode : (getAct host env client.owner.table fileId body).1 = some 1 := by
        rw [getAct, if_pos hid]
      rw [hcode]
      refine answerMatched_of_quit true one_ne_zero ?_
      simp only [Peer.read, Peer.send, readFileLocation, hdone, ReadOutcome.map, if_pos hid]
    · refine answerMatched_of_location (FileLocation.ofImage host body) ?_ _
      simp only [Peer.read, Peer.send, readFileLocation, hdone, ReadOutcome.map, if_neg hid]

theorem matched_command (hidle : peer.phase = .idle) (hlink : env.link = peer.link)
    (hsha : env.getEnv.sha256 = sha256) (hrunning : client.running = true)
    (htable : peer.table = client.owner.table) (line : Bytes) :
    Matched host sha256 peer (handleCommand host env client line)
      (linkBehind host env client.owner.table line) := by
  subst hsha
  unfold handleCommand linkBehind
  cases parseCommand line with
  | blank => exact ⟨[], peer, Run.nil _, rfl, rfl, htable, .idle rfl hrunning hidle hlink⟩
  | usage => exact ⟨[], peer, Run.nil _, rfl, rfl, htable, .idle rfl hrunning hidle hlink⟩
  | quit =>
      have hask : peer.command host env.getEnv.sha256 .quit = peer.quit host := by
        rw [Peer.command, hidle]
      exact matched_of_quit hlink hask rfl rfl htable rfl
  | list => exact matched_list hidle hlink hrunning htable
  | get fileId => exact matched_get hidle hlink hrunning htable fileId
  | share filename =>
      simp only
      cases hannounce : announce env.getEnv.sha256 filename (env.readFile filename) with
      | some announced => exact matched_share hidle hlink hrunning htable filename hannounce
      | none =>
          have hask : peer.command host env.getEnv.sha256
              (.share filename (env.readFile filename)) = peer.quit host := by
            simp only [Peer.command, hidle, hannounce]
          simp only [share, hannounce]
          exact matched_of_quit hlink hask rfl rfl htable rfl

end Commands

/-! ## Steps of the process -/

section Steps

variable {host : ByteOrder} {sha256 : Bytes → HashBytes} {link : LossyLink} {udpPort : UInt16}
  {p p' : ClientProcess} {peer : Peer} {label : ProcessEvent × List Bytes}

/-- Moves that match a step. -/
def StepMatched (host : ByteOrder) (sha256 : Bytes → HashBytes) (udpPort : UInt16) (peer : Peer)
    (label : ProcessEvent × List Bytes) (p' : ClientProcess) : Prop :=
  ∃ moves peer', Run (PeerStep host sha256) peer moves peer' ∧
    moves.flatMap PeerMove.onWire = processOnWire label ∧ StandsFor udpPort p' peer'

/-- The client of the network with what has arrived for the process. -/
theorem link_arrived {conn : Connection} (hlink : conn.link = peer.link)
    {arrived : SegmentedStream UInt8} (hopen : arrived.ending = .waiting) :
    { conn with stream := conn.stream.append arrived }.link =
      { peer with inbox := peer.inbox ++ arrived.flatten }.link := by
  rw [link_append, hlink, hopen]
  rfl

theorem arrive_run (bytes : Bytes) :
    Run (PeerStep host sha256) peer [(.arrive bytes, [])]
      { peer with inbox := peer.inbox ++ bytes } :=
  Run.single ⟨rfl, (List.append_nil _).symm⟩

theorem read_run {asked answered : Peer} {room : Bool} (hread : asked.read host room = answered)
    (hsilent : answered.toServer = asked.toServer) :
    Run (PeerStep host sha256) asked [(.read room, [])] answered :=
  Run.single ⟨hread.symm, by rw [hsilent, List.append_nil]⟩

theorem matched_register (hphase : peer.phase = .connected) (hport : peer.udpPort = udpPort)
    (hrunning : p.session.client.running = true) (hlink : p.session.conn.link = peer.link)
    (htable : peer.table = p.session.client.owner.table) {arrived : SegmentedStream UInt8}
    (hopen : arrived.ending = .waiting) :
    StepMatched host sha256 udpPort peer
      (.register arrived, (p.register host udpPort arrived).2)
      (p.register host udpPort arrived).1 := by
  have hafter := link_arrived hlink hopen
  obtain ⟨hsent, hwhole, hasked⟩ := write_link
    { p.session.conn with stream := p.session.conn.stream.append arrived }
    (registerMessage host udpPort)
  rw [hafter] at hsent hwhole hasked
  have hbytes : (p.session.conn.stream.append arrived).flatten = peer.inbox ++ arrived.flatten :=
    congrArg ServerLink.answer hafter
  have hwaits : (p.session.conn.stream.append arrived).ending = .waiting := by
    simpa [Connection.link, Peer.link] using congrArg ServerLink.ended hafter
  -- the client of the network, behind its message
  let asked := Peer.send { peer with inbox := peer.inbox ++ arrived.flatten }
    (registerMessage host udpPort) .registering
  have hfirst : Run (PeerStep host sha256) peer
      [(.arrive arrived.flatten, []), (.register, [registerMessage host udpPort])] asked := by
    refine (arrive_run arrived.flatten).snoc ⟨?_, rfl⟩
    simp only [asked, Peer.move, Peer.register, hphase, hport]
  have hagrees := @agrees_readReply host (p.session.conn.stream.append arrived) tcpRegisterAck
    tcpRegisterAckSize
  rw [hbytes] at hagrees
  have hwire : [(PeerMove.arrive arrived.flatten, []),
      (.register, [registerMessage host udpPort])].flatMap PeerMove.onWire =
      processOnWire (.register arrived, [registerMessage host udpPort]) := by
    simp [PeerMove.onWire, processOnWire, PeerMove.arrived, ProcessEvent.arrived]
  have hwired : ([(PeerMove.arrive arrived.flatten, []),
      (.register, [registerMessage host udpPort])] ++ [(PeerMove.read true, [])]).flatMap
        PeerMove.onWire = processOnWire (.register arrived, [registerMessage host udpPort]) := by
    rw [List.flatMap_append, hwire]
    exact List.append_nil _
  have hsent' : (p.session.conn.path.write (registerMessage host udpPort)).sent =
      registerMessage host udpPort := hsent
  have hwhole' : (p.session.conn.path.write (registerMessage host udpPort)).whole = true := hwhole
  simp only [ClientProcess.register, hwhole', hsent', Bool.true_eq_false, if_false]
  generalize readReplyLoops host tcpRegisterAck tcpRegisterAckSize
    (p.session.conn.stream.append arrived) = loops at hagrees
  generalize hreply : readReply host tcpRegisterAck tcpRegisterAckSize
    (peer.inbox ++ arrived.flatten) = outcome at hagrees
  cases hagrees with
  | stalled =>
      rw [SegmentedStream.stalled, if_pos hwaits]
      have hasking : asked.Waits := by simp [asked, Peer.Waits, Peer.send]
      exact ⟨_, _, hfirst, hwire, .waiting rfl hasking htable⟩
  | failed =>
      have hread : asked.read host true = { asked with phase := .closed } := by
        simp only [asked, Peer.read, Peer.send, readRegisterAck, hreply, ReadOutcome.map]
      exact ⟨_, _, hfirst.append (read_run hread rfl), hwired, .ended 1 rfl rfl htable⟩
  | done body rest hending =>
      have hread : asked.read host true =
          { asked with phase := .idle, clientId := readId host body, inbox := rest.flatten } := by
        simp only [asked, Peer.read, Peer.send, readRegisterAck, hreply, ReadOutcome.map]
      refine ⟨_, _, hfirst.append (read_run hread rfl), hwired,
        .idle rfl rfl rfl hrunning ?_ htable⟩
      have hroom := congrArg ServerLink.room hasked
      simp only [Connection.link, ServerLink.after, Peer.link, Option.map_none] at hroom
      simp only [Connection.link, Peer.link, hroom, hending, hwaits, ne_eq, not_true_eq_false,
        decide_false]

theorem matched_commandStep (hphase : peer.phase = .idle) (hid : peer.clientId = p.clientId)
    (hrunning : p.session.client.running = true) (hlink : p.session.conn.link = peer.link)
    (htable : peer.table = p.session.client.owner.table) {arrived : SegmentedStream UInt8}
    (hopen : arrived.ending = .waiting) {env : CommandEnv} (hsha : env.getEnv.sha256 = sha256)
    (line : Bytes) :
    StepMatched host sha256 udpPort peer
      (.command arrived env line, (p.command host arrived env line).2)
      (p.command host arrived env line).1 := by
  have hafter := link_arrived hlink hopen
  rw [link_append] at hafter
  obtain ⟨hresult, hbehind⟩ := round_bytes host p.session ⟨id, arrived, env, line⟩
  obtain ⟨moves, peer', hrun, hwire, hsameId, hsameTable, hends⟩ :=
    @matched_command host sha256
      (p.session.bytes.env (Typed.bytes ⟨id, arrived, env, line⟩))
      { peer with inbox := peer.inbox ++ arrived.flatten } p.session.client hphase hafter hsha
      hrunning htable line
  have hsame : (p.session.round host ⟨id, arrived, env, line⟩).result =
      handleCommand host (p.session.bytes.env (Typed.bytes ⟨id, arrived, env, line⟩))
        p.session.client line := hresult
  rw [← hsame] at hwire hsameTable hends
  have hwires : ([(PeerMove.arrive arrived.flatten, [])] ++ moves).flatMap PeerMove.onWire =
      processOnWire (.command arrived env line, (p.command host arrived env line).2) := by
    rw [List.flatMap_append, List.flatMap_singleton, hwire, PeerMove.onWire, List.map_nil,
      List.append_nil]
    rfl
  refine ⟨_, peer', (arrive_run arrived.flatten).append hrun, hwires, ?_⟩
  cases hends with
  | idle hreturned hgoing hpeer hlast =>
      exact .idle (if_pos hreturned) hpeer (hsameId.trans hid) hgoing (hbehind.trans hlast)
        hsameTable
  | left hreturned hstopped hpeer =>
      exact .left (if_pos hreturned) hpeer hstopped hsameTable
  | waiting hreturned hpeer =>
      exact .waiting (if_neg (by rw [hreturned]; decide)) hpeer hsameTable

theorem table_handleRequest (owner : Owner) (peer : SockAddr)
    (packet : SelectiveRepeat.Datagram) (env : RequestEnv) (now : UInt64) :
    (handleRequest host link owner peer packet env now).1.owner.table = owner.table := by
  unfold handleRequest
  split; · rfl
  split; · rfl
  simp only
  split; · rfl
  split; · rfl
  split; · rfl
  split <;> rfl

/-- Only a command shares a file. -/
theorem table_udp (owner : Owner) {event : OwnerEvent}
    (hudp : ∀ fileId fileSize hash filename, event ≠ .shared fileId fileSize hash filename) :
    (owner.apply host link event).owner.table = owner.table := by
  cases event with
  | shared fileId fileSize hash filename => exact absurd rfl (hudp fileId fileSize hash filename)
  | driver sendNow scanNow =>
      show (drive host owner sendNow scanNow).owner.table = owner.table
      unfold drive
      simp only
      split; swap; · rfl
      split; · rfl
      split <;> rfl
  | datagram reception env now =>
      rcases reception with _ | ⟨peer, packet⟩
      · rfl
      show (receiveDatagram host link owner (some (peer, packet)) env now).owner.table = _
      unfold receiveDatagram
      simp only
      split; · rfl
      split; · exact table_handleRequest owner peer packet env now
      split; swap; · rfl
      unfold handleAck
      split <;> rfl

/-- Every step of the process is matched by moves of the client of the network. -/
theorem matched_step (h : StandsFor udpPort p peer)
    (hstep : HeldStep host sha256 link udpPort p label p') :
    StepMatched host sha256 udpPort peer label p' := by
  obtain ⟨⟨hallowed, happly⟩, hopen⟩ := hstep
  obtain ⟨event, sent⟩ := label
  obtain ⟨hstate, hsent⟩ : p' = (p.apply host link udpPort event).1 ∧
      sent = (p.apply host link udpPort event).2 := Prod.mk.inj happly
  subst hstate hsent
  cases event with
  | register arrived =>
      cases h with
      | connected hphase hpeer hport hrunning hlink htable =>
          exact matched_register hpeer hport hrunning hlink htable hopen
      | idle hphase => cases hphase.symm.trans hallowed
      | left hphase => cases hphase.symm.trans hallowed
      | waiting hphase => cases hphase.symm.trans hallowed
      | ended code hphase => cases hphase.symm.trans hallowed
  | command arrived env line =>
      obtain ⟨hlooping, hgoing, hsha⟩ := hallowed
      cases h with
      | idle hphase hpeer hid hrunning hlink htable =>
          exact matched_commandStep hpeer hid hrunning hlink htable hopen hsha line
      | left hphase hpeer hrunning => cases hrunning.symm.trans hgoing
      | connected hphase => cases hphase.symm.trans hlooping
      | waiting hphase => cases hphase.symm.trans hlooping
      | ended code hphase => cases hphase.symm.trans hlooping
  | udp event =>
      obtain ⟨hlooping, htableUdp⟩ : p.phase = .looping ∧
          (p.session.client.owner.apply host link event).owner.table =
            p.session.client.owner.table := by
        cases event with
        | shared => exact absurd hallowed id
        | datagram reception env now => exact ⟨hallowed, table_udp _ nofun⟩
        | driver sendNow scanNow => exact ⟨hallowed, table_udp _ nofun⟩
      refine ⟨[], peer, Run.nil peer, rfl, ?_⟩
      cases h with
      | idle hphase hpeer hid hrunning hlink htable =>
          exact .idle hphase hpeer hid hrunning hlink (htable.trans htableUdp.symm)
      | left hphase hpeer hrunning htable =>
          exact .left hphase hpeer hrunning (htable.trans htableUdp.symm)
      | connected hphase => cases hphase.symm.trans hlooping
      | waiting hphase => cases hphase.symm.trans hlooping
      | ended code hphase => cases hphase.symm.trans hlooping
  | leave =>
      cases h with
      | idle hphase hpeer hid hrunning hlink htable =>
          have hgone : Run (PeerStep host sha256) peer [(.disconnect peer.toServer.length, [])]
              { peer with phase := .closed } := by
            refine Run.single ⟨?_, (List.append_nil _).symm⟩
            rw [Peer.move, Peer.disconnect, List.take_length]
          exact ⟨_, _, hgone, rfl, .ended 0 rfl rfl htable⟩
      | left hphase hpeer hrunning htable =>
          exact ⟨[], peer, Run.nil peer, rfl, .ended 0 rfl hpeer htable⟩
      | connected hphase => cases hphase.symm.trans hallowed
      | waiting hphase => cases hphase.symm.trans hallowed
      | ended code hphase => cases hphase.symm.trans hallowed

/-- For every run of the process on a connection whose way out holds and on which the
server does not hang up, whatever is typed, whatever arrives and in which pieces, and
whatever happens on the UDP socket: moves of the network's client have the same bytes in
and the same messages out, in the same order, and end at the same place with the same
table. -/
theorem process_refines_peer {conn : Connection} {labels : List (ProcessEvent × List Bytes)}
    (hlink : conn.link = ⟨none, [], false⟩)
    (hrun : Run (HeldStep host sha256 link udpPort) (ClientProcess.connected conn) labels p)
    (fd : Int) (addr : SockAddr) :
    ∃ moves peer, Run (PeerStep host sha256) (Peer.arrived fd addr udpPort) moves peer ∧
      moves.flatMap PeerMove.onWire = labels.flatMap processOnWire ∧
      StandsFor udpPort p peer :=
  hrun.simulated processOnWire PeerMove.onWire (fun _ _ _ _ h hstep => matched_step h hstep)
    (.connected rfl rfl rfl rfl hlink rfl)

end Steps

/-- The answer to a registration, in two pieces. -/
def piecewiseAck : SegmentedStream UInt8 where
  segments :=
    [(controlMessage .little tcpRegisterAck errNone (idImage .little 1)).take 3,
      (controlMessage .little tcpRegisterAck errNone (idImage .little 1)).drop 3]
  ne_nil := by decide
  ending := .waiting

/-- The process registers, and the user types `quit`. -/
def shortLife : List (ProcessEvent × List Bytes) :=
  [(.register piecewiseAck, [registerMessage .little 7000]),
    (.command sessionStart.conn.stream (barrenEnv []) (quitWord ++ [newline]),
      [unregisterMessage .little])]

def afterShortLife : ClientProcess :=
  shortLife.foldl (fun p label => (p.apply .little ⟨3, 0, 1⟩ 7000 label.1).1)
    (ClientProcess.connected sessionStart.conn)

/-- The client of the network sends these two messages and is gone. -/
theorem process_refines_peer_short :
    ∃ moves peer, Run (PeerStep .little (barrenEnv []).getEnv.sha256)
      (Peer.arrived 5 ⟨1, 2⟩ 7000) moves peer ∧
      moves.flatMap PeerMove.onWire = shortLife.flatMap processOnWire ∧ peer.phase = .closed := by
  have hrun : Run (HeldStep .little (barrenEnv []).getEnv.sha256 ⟨3, 0, 1⟩ 7000)
      (ClientProcess.connected sessionStart.conn) shortLife afterShortLife := by
    refine (Run.single ⟨⟨rfl, Prod.ext rfl ?_⟩, rfl⟩).snoc
      ⟨⟨⟨?_, ?_, rfl⟩, Prod.ext rfl ?_⟩, rfl⟩
    all_goals decide +kernel
  obtain ⟨moves, peer, hmoves, hwire, hends⟩ := process_refines_peer rfl hrun 5 ⟨1, 2⟩
  refine ⟨moves, peer, hmoves, hwire, ?_⟩
  have hphase : afterShortLife.phase = .looping := by decide +kernel
  have hstopped : afterShortLife.session.client.running = false := by decide +kernel
  cases hends with
  | left _ hpeer => exact hpeer
  | idle _ _ _ hrunning => cases hstopped.symm.trans hrunning
  | connected hother => cases hphase.symm.trans hother
  | waiting hother => cases hphase.symm.trans hother
  | ended code hother => cases hphase.symm.trans hother

end Directory
end PeerShare
