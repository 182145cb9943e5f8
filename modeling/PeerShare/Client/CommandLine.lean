import PeerShare.Client.GetRun
import PeerShare.Client.OwnerLoop

/-!
# `handle_command` of `client.c`

A typed line is cut at the newline, split by `sscanf` into a command of at most 15
and an argument of at most 511 bytes, and dispatched.  The commands talk to the
server over one connection; what it takes and what it answers is a parameter.

A command that returns anything but 0 is followed by `quit` and ends the client.
That makes no difference between a broken connection and a mistyped file name.
-/

namespace PeerShare
namespace Client

open Foundation Wire SelectiveRepeat

/-! ## Parsing -/

/-- `isspace` in the C locale. -/
def isSpace (byte : UInt8) : Bool := byte == 32 || (9 ≤ byte && byte ≤ 13)

def isDigit (byte : UInt8) : Bool := 48 ≤ byte && byte ≤ 57

/-- The newline that ends a typed line. -/
def newline : UInt8 := 10

/-- The four commands, `share`, `list`, `get` and `quit`, in ASCII. -/
def shareWord : Bytes := [115, 104, 97, 114, 101]
def listWord : Bytes := [108, 105, 115, 116]
def getWord : Bytes := [103, 101, 116]
def quitWord : Bytes := [113, 117, 105, 116]

/-- What `sscanf` stores: the number of conversions and both buffers. -/
structure Scanned where
  count : Nat
  cmd : Bytes
  arg : Bytes
  deriving DecidableEq

/-- `sscanf(p, "%15s %511[^\n]", cmd, arg)`. -/
def scanCommand (text : Bytes) : Scanned :=
  let word := text.dropWhile isSpace
  let cmd := (word.takeWhile fun byte => !isSpace byte).take 15
  let arg := (((word.drop cmd.length).dropWhile isSpace).takeWhile (· ≠ newline)).take 511
  -- a conversion that matches nothing is not counted
  ⟨if arg = [] then 1 else 2, cmd, arg⟩

/-- `strtoul(text, &end, 10)` with a 64-bit `unsigned long`: the value and the text
from `end` on. -/
def strtoul (text : Bytes) : Nat × Bytes :=
  let trimmed := text.dropWhile isSpace
  let negative := trimmed.head? = some 45
  let unsigned := if negative ∨ trimmed.head? = some 43 then trimmed.tail else trimmed
  let digits := unsigned.takeWhile isDigit
  if digits = [] then
    (0, text)
  else
    let magnitude : Nat :=
      digits.foldl (fun value digit => value * 10 + (digit.toNat - 48)) 0
    let value :=
      if 2 ^ 64 ≤ magnitude then 2 ^ 64 - 1
      else if negative then (2 ^ 64 - magnitude) % 2 ^ 64
      else magnitude
    (value, unsigned.drop digits.length)

/-- What a line asks for; `usage` stands for every line that is answered with an
error message only. -/
inductive CommandLine where
  | blank
  | usage
  | share (filename : Bytes)
  | list
  | get (fileId : UInt32)
  | quit
  deriving DecidableEq

/-- The dispatch of `handle_command`. -/
def parseCommand (line : Bytes) : CommandLine :=
  let text := ((cString line).takeWhile (· ≠ newline)).dropWhile isSpace
  if text = [] then
    .blank
  else
    let scanned := scanCommand text
    if scanned.cmd = shareWord then
      if scanned.count < 2 ∨ scanned.arg = [] then
        .usage
      else
        let fname := scanned.arg.dropWhile isSpace
        if fname = [] then .usage else .share fname
    else if scanned.count = 1 ∧ scanned.cmd = listWord then
      .list
    else if scanned.cmd = getWord then
      if scanned.count < 2 ∨ scanned.arg = [] then
        .usage
      else
        let (value, rest) := strtoul scanned.arg
        if rest = scanned.arg ∨ rest ≠ [] then .usage else .get (UInt32.ofNat value)
    else if scanned.count = 1 ∧ scanned.cmd = quitWord then
      .quit
    else
      .usage

/-! ## The connection to the server -/

/-- The connection while one command runs: how many more bytes `send` takes before
it fails (`none`: all of them), what the server answers, and whether the stream ends
behind the answer. -/
structure ServerLink where
  room : Option Nat
  answer : Bytes
  ended : Bool

namespace ServerLink

/-- A send loop: what reaches the server, and whether it was everything. -/
def sendAll (link : ServerLink) (message : Bytes) : Bytes × Bool :=
  match link.room with
  | none => (message, true)
  | some room => (message.take room, decide (message.length ≤ room))

/-- The connection after a send loop. -/
def after (link : ServerLink) (message : Bytes) : ServerLink :=
  { link with room := link.room.map (· - message.length) }

/-- The return value where a read loop gets no further: the code of a closed
connection, or none while the command waits. -/
def stalled (link : ServerLink) : Option Int := if link.ended then some 1 else none

end ServerLink

/-- What the surroundings of one command decide.  `readFile` is
`read_file_to_buffer`, `listRoom` the `malloc` of `list`; the last three are those of
the UDP part of `get`. -/
structure CommandEnv where
  link : ServerLink
  readFile : Bytes → Option Bytes
  listRoom : Bool
  getEnv : GetEnv
  requestSent : Int
  receptions : List Reception

/-- A command: its return value, unless it still waits, what it sent to the server
and the table of shared files afterwards. -/
structure CommandReturn where
  code : Option Int
  sent : List Bytes
  table : SharedTable

section Commands

variable (host : ByteOrder) (env : CommandEnv) (table : SharedTable)

/-- `share`. -/
def share (filename : Bytes) : CommandReturn :=
  match announce env.getEnv.sha256 filename (env.readFile filename) with
  | none => ⟨some 1, [], table⟩
  | some share =>
      let (sent, whole) := env.link.sendAll (shareMessage host share)
      if whole = false then
        ⟨some 1, [sent], table⟩
      else
        match readShareAck host env.link.answer with
        | .blocked => ⟨env.link.stalled, [sent], table⟩
        | .failed => ⟨some 1, [sent], table⟩
        | .done fileId _ =>
            ⟨some 0, [sent], table.addSharedFile fileId share.fileSize share.hash filename⟩

/-- `list`, with its exchange with the server. -/
def listFiles : CommandReturn :=
  let (sent, whole) := env.link.sendAll (listMessage host)
  if whole = false then
    ⟨some 1, [sent], table⟩
  else
    match readFileList host env.listRoom env.link.answer with
    | .blocked => ⟨env.link.stalled, [sent], table⟩
    | .failed => ⟨some 1, [sent], table⟩
    | .done _ _ => ⟨some 0, [sent], table⟩

/-- `get`, with its exchange with the server. -/
def getFile (fileId : UInt32) : CommandReturn :=
  let (sent, whole) := env.link.sendAll (requestMessage host fileId.toNat)
  if whole = false then
    ⟨some 1, [sent], table⟩
  else if readFileLocation host fileId.toNat env.link.answer = .blocked then
    ⟨env.link.stalled, [sent], table⟩
  else
    ⟨(get host env.getEnv fileId.toNat env.link.answer env.requestSent
        env.receptions).returned.map GetReturn.code, [sent], table⟩

end Commands

/-- The client between two commands: the flag of the main loop and the globals. -/
structure ClientState where
  running : Bool
  owner : Owner

/-- `handle_command` has returned, or the command still waits; `sent` are the
messages to the server, one for each send loop. -/
structure CommandResult where
  client : ClientState
  returned : Bool
  sent : List Bytes

/-- A command inside `handle_command`: whatever is not 0 is followed by `quit`. -/
def conclude (host : ByteOrder) (link : ServerLink) (client : ClientState)
    (command : CommandReturn) : CommandResult :=
  let owner := { client.owner with table := command.table }
  match command.code with
  | none => ⟨{ client with owner := owner }, false, command.sent⟩
  | some code =>
      if code ≠ 0 then
        let left := command.sent.foldl ServerLink.after link
        ⟨⟨false, owner⟩, true, command.sent ++ [(left.sendAll (unregisterMessage host)).1]⟩
      else
        ⟨{ client with owner := owner }, true, command.sent⟩

/-- `handle_command`. -/
def handleCommand (host : ByteOrder) (env : CommandEnv) (client : ClientState) (line : Bytes) :
    CommandResult :=
  match parseCommand line with
  | .blank => ⟨client, true, []⟩
  | .usage => ⟨client, true, []⟩
  | .share filename =>
      conclude host env.link client (share host env client.owner.table filename)
  | .list => conclude host env.link client (listFiles host env client.owner.table)
  | .get fileId => conclude host env.link client (getFile host env client.owner.table fileId)
  | .quit =>
      ⟨{ client with running := false }, true,
        [(env.link.sendAll (unregisterMessage host)).1]⟩

/-! ## Failures that a user could recover from -/

/-- The server has answered with `TCP_ERROR`. -/
def AnswersError (host : ByteOrder) (link : ServerLink) : Prop :=
  tcpHeaderSize ≤ link.answer.length ∧ (TcpHeader.ofImage host link.answer).msgType = tcpError

/-- `share` cannot open or read its file, or the request of a `share` or a `get` was
sent and answered with `TCP_ERROR`. -/
inductive RecoverableFailure (host : ByteOrder) (env : CommandEnv) (line : Bytes) : Prop where
  | unreadable (filename : Bytes) (hline : parseCommand line = .share filename)
      (hfile : env.readFile filename = none)
  | shareRefused (filename : Bytes) (share : ShareFile)
      (hline : parseCommand line = .share filename)
      (hannounce : announce env.getEnv.sha256 filename (env.readFile filename) = some share)
      (hsent : (env.link.sendAll (shareMessage host share)).2 = true)
      (herror : AnswersError host env.link)
  | getRefused (fileId : UInt32) (hline : parseCommand line = .get fileId)
      (hsent : (env.link.sendAll (requestMessage host fileId.toNat)).2 = true)
      (herror : AnswersError host env.link)

/-- The messages the failing command itself has sent. -/
def requestOf (host : ByteOrder) (env : CommandEnv) (line : Bytes) : List Bytes :=
  match parseCommand line with
  | .share filename =>
      match announce env.getEnv.sha256 filename (env.readFile filename) with
      | none => []
      | some share => [(env.link.sendAll (shareMessage host share)).1]
  | .get fileId => [(env.link.sendAll (requestMessage host fileId.toNat)).1]
  | _ => []

/-- The client goes on: it runs, nothing was sent behind the request, and the table
and the outgoing transfer are as before. -/
structure LeftIntact (host : ByteOrder) (env : CommandEnv) (client : ClientState)
    (line : Bytes) (result : CommandResult) : Prop where
  returned : result.returned = true
  running : result.client.running = true
  silent : result.sent = requestOf host env line
  table : result.client.owner.table = client.owner.table
  transfer : result.client.owner.globalSender = client.owner.globalSender ∧
    result.client.owner.globalFileBuffer = client.owner.globalFileBuffer ∧
    result.client.owner.transferActive = client.owner.transferActive

section Failing

variable {host : ByteOrder} {env : CommandEnv} {line : Bytes}

/-- A complete header with `TCP_ERROR` ends every reader. -/
theorem readReply_of_error {link : ServerLink} (herror : AnswersError host link)
    (expected : UInt8) (size : Nat) : readReply host expected size link.answer = .failed := by
  unfold readReply
  rw [if_neg (not_lt.mpr herror.1), if_pos herror.2]

/-- What a command that returned 1 leaves behind. -/
theorem conclude_failed (link : ServerLink) (client : ClientState) {command : CommandReturn}
    (hcode : command.code = some 1) (htable : command.table = client.owner.table) :
    conclude host link client command =
      ⟨{ client with running := false }, true, command.sent ++
        [((command.sent.foldl ServerLink.after link).sendAll (unregisterMessage host)).1]⟩ := by
  unfold conclude
  rw [hcode, htable]
  rfl

/-- Each of these failures makes its command return 1, with the table as it was. -/
theorem RecoverableFailure.command (hfailure : RecoverableFailure host env line)
    (client : ClientState) :
    ∃ command : CommandReturn, command.code = some 1 ∧
      command.table = client.owner.table ∧ command.sent = requestOf host env line ∧
      handleCommand host env client line = conclude host env.link client command := by
  cases hfailure with
  | unreadable filename hline hfile =>
      have hannounce : announce env.getEnv.sha256 filename (env.readFile filename) = none := by
        rw [hfile]
        rfl
      refine ⟨share host env client.owner.table filename, ?_, ?_, ?_, ?_⟩
      · simp only [share, hannounce]
      · simp only [share, hannounce]
      · simp only [share, hannounce, requestOf, hline]
      · simp only [handleCommand, hline]
  | shareRefused filename announced hline hannounce hsent herror =>
      have hread : readShareAck host env.link.answer = .failed := by
        rw [readShareAck, readReply_of_error herror]
        rfl
      refine ⟨share host env client.owner.table filename, ?_, ?_, ?_, ?_⟩
      · simp [share, hannounce, hsent, hread]
      · simp [share, hannounce, hsent, hread]
      · simp [share, hannounce, hsent, hread, requestOf, hline]
      · simp only [handleCommand, hline]
  | getRefused fileId hline hsent herror =>
      have hread : readFileLocation host fileId.toNat env.link.answer = .failed := by
        rw [readFileLocation, readReply_of_error herror]
        rfl
      have hget : get host env.getEnv fileId.toNat env.link.answer env.requestSent
          env.receptions = ⟨some ⟨1, none⟩, []⟩ := by
        simp only [get, requestLocation, hread]
      refine ⟨getFile host env client.owner.table fileId, ?_, ?_, ?_, ?_⟩
      · simp [getFile, hsent, hread, hget]
      · simp [getFile, hsent, hread]
      · simp [getFile, hsent, hread, requestOf, hline]
      · simp only [handleCommand, hline]

end Failing

/-- For every client state, every line and every such failure: the client is not left
intact.  It leaves the main loop and takes leave of the server; only the table and
the outgoing transfer are as before. -/
theorem recoverable_failure_ends_client (host : ByteOrder) (env : CommandEnv)
    (client : ClientState) (line : Bytes) (hfailure : RecoverableFailure host env line) :
    ¬ LeftIntact host env client line (handleCommand host env client line) ∧
      (handleCommand host env client line).client = { client with running := false } ∧
      ∃ farewell, (handleCommand host env client line).sent =
          requestOf host env line ++ [farewell] ∧
        (env.link.room = none → farewell = unregisterMessage host) := by
  obtain ⟨command, hcode, htable, hsent, hresult⟩ := hfailure.command client
  rw [hresult, conclude_failed env.link client hcode htable, hsent]
  refine ⟨?_, rfl, _, rfl, ?_⟩
  · intro hintact
    have hrunning := hintact.running
    cases hrunning
  · intro hroom
    have hleft : ∀ sent : List Bytes,
        (sent.foldl ServerLink.after env.link).room = none := by
      intro sent
      induction sent using List.reverseRecOn with
      | nil => exact hroom
      | append_singleton sent message ih =>
          rw [List.foldl_concat]
          simp only [ServerLink.after, ih, Option.map_none]
    rw [ServerLink.sendAll, hleft]

/-- A client that has shared nothing, and an environment in which nothing can be read
and the server has only the given answer. -/
def idleClient : ClientState := ⟨true, Owner.initial⟩

def barrenEnv (answer : Bytes) : CommandEnv where
  link := ⟨none, answer, false⟩
  readFile := fun _ => none
  listRoom := true
  getEnv := sevenEnv
  requestSent := 52
  receptions := []

/-- `share b` where there is no file `b`. -/
theorem recoverable_failure_mistyped_name :
    RecoverableFailure .little (barrenEnv []) (shareWord ++ [32, 98, newline]) ∧
      ¬ LeftIntact .little (barrenEnv []) idleClient (shareWord ++ [32, 98, newline])
        (handleCommand .little (barrenEnv []) idleClient (shareWord ++ [32, 98, newline])) := by
  have hfailure : RecoverableFailure .little (barrenEnv []) (shareWord ++ [32, 98, newline]) :=
    .unreadable [98] (by decide +kernel) rfl
  exact ⟨hfailure, (recoverable_failure_ends_client .little (barrenEnv []) idleClient
    (shareWord ++ [32, 98, newline]) hfailure).1⟩

/-- The server's answer to a request for a file it does not know. -/
def unknownFileAnswer : Bytes :=
  ({ msgType := tcpError, errorCode := errFileNotFound, dataLen := 0 } : TcpHeader).image .little

/-- `get 5`, and the server does not know file 5: the client unregisters and stops. -/
theorem unknown_id_ends_client :
    let env := barrenEnv unknownFileAnswer
    let line := getWord ++ [32, 53, newline]
    RecoverableFailure .little env line ∧ idleClient.running = true ∧
      (handleCommand .little env idleClient line).client.running = false ∧
      (handleCommand .little env idleClient line).sent =
        [requestMessage .little 5, unregisterMessage .little] ∧
      ¬ LeftIntact .little env idleClient line (handleCommand .little env idleClient line) := by
  have hstops : (handleCommand .little (barrenEnv unknownFileAnswer) idleClient
      (getWord ++ [32, 53, newline])).client.running = false := by decide +kernel
  refine ⟨.getRefused 5 (by decide +kernel) rfl ⟨by decide +kernel, by decide +kernel⟩, rfl,
    hstops, by decide +kernel, ?_⟩
  intro hintact
  exact absurd hintact.running (by rw [hstops]; decide)

end Client
end PeerShare
