import PeerShare.Client.CommandLine
import PeerShare.Client.Commitment
import PeerShare.Foundation.ResourceLedger
import Mathlib.Data.Finset.Image
import Mathlib.Data.Finset.Option

/-!
# The heap and the streams of the client

What `client.c` allocates and opens, followed through whole runs of its main loop: the
buffers of `share`, `list` and `get`, the file buffer of the owner, and every `FILE`.
Each piece of the loop acquires at most one buffer and one stream, so both are named by
the number of the piece.

The commands give back everything before they return.  The owner's loop does not: a
request whose announcement cannot be sent leaves its stream open, and a request that is
granted while a transfer runs overwrites the only pointer to the buffer of that transfer.
Nothing else is lost, and nothing is freed twice or used after it was freed.
-/

namespace PeerShare
namespace Client

open Foundation Wire SelectiveRepeat

inductive ClientResource where
  | file (n : Nat)
  | block (n : Nat)
  deriving DecidableEq

/-- What is done with streams and heap blocks, in order. -/
abbrev ResourceTrace := List (ResourceEvent ClientResource)

/-! ## Commands -/

/-- What the system calls of `read_file_to_buffer` return: `ftell` on the opened file, or a
failed `fopen`, then `malloc` and the bytes `fread` stored. -/
structure FileRead where
  fileEnd : Option Int
  allocated : Bool
  readBytes : Bytes

/-- `read_file_to_buffer`. -/
def readFileToBuffer (read : FileRead) : Option Bytes :=
  match read.fileEnd with
  | none => none
  | some fsize =>
      if fsize < 0 then
        none
      else if read.allocated = false then
        none
      else if (read.readBytes.length : Int) ≠ fsize then
        none
      else
        some read.readBytes

/-- The same function by what it does with its stream and its buffer. -/
def readFileTrace (n : Nat) (read : FileRead) : ResourceTrace :=
  match read.fileEnd with
  | none => []
  | some fsize =>
      if fsize < 0 then
        [.acquire (.file n), .use (.file n), .release (.file n)]
      else if read.allocated = false then
        [.acquire (.file n), .use (.file n), .release (.file n)]
      else if (read.readBytes.length : Int) ≠ fsize then
        [.acquire (.file n), .use (.file n), .acquire (.block n), .use (.file n), .use (.block n),
          .release (.block n), .release (.file n)]
      else
        -- the buffer goes to the caller
        [.acquire (.file n), .use (.file n), .acquire (.block n), .use (.file n), .use (.block n),
          .release (.file n)]

/-- `share`; behind the hash it has no buffer any more. -/
def shareTrace (n : Nat) (read : FileRead) : ResourceTrace :=
  readFileTrace n read ++
    match readFileToBuffer read with
    | none => []
    | some contents =>
        if 2 ^ 32 - 1 < contents.length then
          [.release (.block n)]
        else
          [.use (.block n), .release (.block n)]

/-- `list`: a buffer for the body of the answer, if the header promises one. -/
def listTrace (host : ByteOrder) (env : CommandEnv) (n : Nat) : ResourceTrace :=
  let stream := env.link.answer
  let hdr := TcpHeader.ofImage host stream
  let bodyLen := ntoh host 2 hdr.dataLen
  if (env.link.sendAll (listMessage host)).2 = false then
    []
  else if stream.length < tcpHeaderSize then
    []
  else if hdr.msgType = tcpError then
    []
  else if hdr.msgType ≠ tcpFileList then
    []
  else if bodyLen = 0 then
    []
  else if bodyLen % fileInfoSize ≠ 0 then
    []
  else if env.listRoom = false then
    []
  else if stream.length < tcpHeaderSize + bodyLen ∧ env.link.ended = false then
    -- still waiting for the rest
    [.acquire (.block n), .use (.block n)]
  else
    [.acquire (.block n), .use (.block n), .release (.block n)]

/-- The end of `get`. -/
def finishTrace (n : Nat) (env : GetEnv) (location : FileLocation) (receiver : Receiver) :
    ResourceTrace :=
  let (assembled, size) := srReceiverGetFile receiver
  .use (.block n) ::
    if env.sha256 (assembled.take size) = location.hash then
      if env.canOpen then
        [.acquire (.file n), .use (.block n), .use (.file n), .release (.file n),
          .release (.block n)]
      else
        [.release (.block n)]
    else
      [.release (.block n)]

/-- The head of the receive loop of `get`. -/
def continueTrace (n : Nat) (env : GetEnv) (location : FileLocation) (receiver : Receiver) :
    ResourceTrace :=
  if srReceiverIsComplete receiver then finishTrace n env location receiver else []

/-- One reception of `get`. -/
def getStepTrace (n : Nat) (host : ByteOrder) (env : GetEnv) (location : FileLocation)
    (state : GetState) (reception : Reception) : ResourceTrace :=
  match state with
  | .awaitingStart =>
      match receiveFileStart host location reception with
      | .error _ => []
      | .ok start =>
          match srReceiverInit (some location.peer) start.fileSize start.numChunks
              (some env.link) env.heap with
          -- there was no memory, and `sr_receiver_cleanup` finds no buffer
          | none => []
          | some receiver => .acquire (.block n) :: continueTrace n env location receiver
  | .receiving receiver =>
      match reception with
      | none => [.release (.block n)]
      | some (sender, packet) =>
          if sender ≠ location.peer then
            []
          else
            let result := srReceiverHandleData host receiver packet.bytes
            (result.copies.map fun _ => .use (.block n)) ++
              continueTrace n env location result.receiver
  | .finished _ => []

/-- The UDP part of `get`. -/
def getRunTrace (n : Nat) (host : ByteOrder) (env : GetEnv) (location : FileLocation) :
    GetState → List Reception → ResourceTrace
  | _, [] => []
  | state, reception :: rest =>
      getStepTrace n host env location state reception ++
        getRunTrace n host env location (getReceive host env location state reception).state rest

/-- `get`. -/
def getTrace (host : ByteOrder) (env : CommandEnv) (n : Nat) (fileId : UInt32) : ResourceTrace :=
  if (env.link.sendAll (requestMessage host fileId.toNat)).2 = false then
    []
  else
    match requestLocation host fileId.toNat env.link.answer env.requestSent with
    | .error _ => []
    | .ok location => getRunTrace n host env.getEnv location .awaitingStart env.receptions

/-- `handle_command`. -/
def commandTrace (host : ByteOrder) (env : CommandEnv) (reads : Bytes → FileRead) (n : Nat)
    (line : Bytes) : ResourceTrace :=
  match parseCommand line with
  | .share filename => shareTrace n (reads filename)
  | .list => listTrace host env n
  | .get fileId => getTrace host env n fileId
  | _ => []

/-! ## The owner -/

/-- The `UDP_REQUEST_FILE` branch, by the way it is left.  The announcement is the first
datagram of a granted request, and each one behind it is cut from the buffer. -/
def requestTrace (n : Nat) (sent : List (SockAddr × Bytes)) : RequestExit → ResourceTrace
  | .sendFailed => [.acquire (.file n), .use (.file n)]
  | .noMemory => [.acquire (.file n), .use (.file n), .release (.file n)]
  | .shortRead | .initFailed =>
      [.acquire (.file n), .use (.file n), .acquire (.block n), .use (.file n), .use (.block n),
        .release (.file n), .release (.block n)]
  | .started =>
      [.acquire (.file n), .use (.file n), .acquire (.block n), .use (.file n), .use (.block n),
        .release (.file n)] ++ sent.tail.map fun _ => .use (.block n)
  | _ => []

/-- The client with the blocks its two pointers name, the trace, and what it has lost. -/
structure ClientMemory where
  client : ClientState
  pieces : Nat
  globalFileBuffer : Option Nat
  /-- `global_sender.file_data`. -/
  fileData : Option Nat
  /-- The requests whose announcement could not be sent. -/
  unclosed : Finset Nat
  /-- The buffers of transfers that ran when another request was granted. -/
  replaced : Finset Nat
  trace : ResourceTrace

/-- A piece of the main loop; a command with what reading a file gives. -/
inductive ClientEvent where
  | command (env : CommandEnv) (reads : Bytes → FileRead) (line : Bytes)
  | datagram (reception : Reception) (request : RequestEnv) (now : UInt64)
  | driver (sendNow scanNow : UInt64)

namespace ClientMemory

def initial : ClientMemory where
  client := ⟨true, Owner.initial⟩
  pieces := 0
  globalFileBuffer := none
  fileData := none
  unclosed := ∅
  replaced := ∅
  trace := []

variable (host : ByteOrder) (link : LossyLink) (m : ClientMemory)

def command (env : CommandEnv) (reads : Bytes → FileRead) (line : Bytes) : ClientMemory :=
  { m with
    client := (handleCommand host env m.client line).client
    pieces := m.pieces + 1
    trace := m.trace ++ commandTrace host env reads m.pieces line }

/-- The request branch has run on a datagram. -/
def request (peer : SockAddr) (packet : Datagram) (env : RequestEnv) (now : UInt64) :
    ClientMemory :=
  let (result, exit) := handleRequest host link m.client.owner peer packet env now
  let next : ClientMemory :=
    { m with
      client := { m.client with owner := result.owner }
      pieces := m.pieces + 1
      trace := m.trace ++ requestTrace m.pieces result.sent exit }
  match exit with
  | .started =>
      { next with
        globalFileBuffer := some m.pieces
        fileData := some m.pieces
        replaced := m.replaced ∪ m.globalFileBuffer.toFinset }
  | .sendFailed => { next with unclosed := insert m.pieces m.unclosed }
  | _ => next

def datagram (reception : Reception) (env : RequestEnv) (now : UInt64) : ClientMemory :=
  let owner := (receiveDatagram host link m.client.owner reception env now).owner
  let other := { m with client := { m.client with owner := owner }, pieces := m.pieces + 1 }
  match reception with
  | none => other
  | some (peer, packet) =>
      if packet.bytes.length < udpHeaderSize then
        other
      else if (UdpHeader.ofImage host packet.bytes).msgType = udpRequestFile then
        m.request host link peer packet env now
      else
        other

/-- The driver reads the file only to cut new chunks; what it retransmits is in the
window.  When the transfer is over the buffer is freed. -/
def driver (sendNow scanNow : UInt64) : ClientMemory :=
  let result := drive host m.client.owner sendNow scanNow
  if m.client.owner.transferActive then
    let window := srSenderSendWindow host m.client.owner.globalSender sendNow
    let next : ClientMemory :=
      { m with
        client := { m.client with owner := result.owner }
        pieces := m.pieces + 1
        trace := m.trace ++ window.packets.flatMap fun _ =>
          m.fileData.toList.map fun n => .use (.block n) }
    if result.owner.transferActive then
      next
    else
      { next with
        globalFileBuffer := none
        trace := next.trace ++ m.globalFileBuffer.toList.map fun n => .release (.block n) }
  else
    { m with pieces := m.pieces + 1 }

def apply : ClientEvent → ClientMemory
  | .command env reads line => m.command host env reads line
  | .datagram reception env now => m.datagram host link reception env now
  | .driver sendNow scanNow => m.driver host sendNow scanNow

/-- A command has returned, and reads files as `read_file_to_buffer` does. -/
def Allows : ClientEvent → Prop
  | .command env reads line =>
      (∀ filename, env.readFile filename = readFileToBuffer (reads filename)) ∧
        (handleCommand host env m.client line).returned = true
  | _ => True

end ClientMemory

def ClientStep (host : ByteOrder) (link : LossyLink) (m : ClientMemory) (event : ClientEvent)
    (m' : ClientMemory) : Prop :=
  m.client.running = true ∧ m.Allows host event ∧ m' = m.apply host link event

/-! ## Commands give back what they take -/

/-- Nothing that is numbered `n` is held. -/
def Unheld (n : Nat) (held : Finset ClientResource) : Prop :=
  .file n ∉ held ∧ .block n ∉ held

section Commands

variable {n : Nat} {held : Finset ClientResource}

/-- A stream is opened and closed around a buffer that stays. -/
theorem erase_file_insert_block (h : Unheld n held) :
    (insert (.block n) (insert (.file n) held)).erase (.file n) = insert (.block n) held := by
  rw [Finset.erase_insert_of_ne (by simp), Finset.erase_insert h.1]

theorem after_readFile_none (h : Unheld n held) {read : FileRead}
    (hread : readFileToBuffer read = none) :
    Ledger.after held (readFileTrace n read) = some held := by
  obtain ⟨hfile, hblock⟩ := h
  have hopened : Ledger.after held [.acquire (.file n), .use (.file n), .release (.file n)] =
      some held := by
    rw [Ledger.after_acquire hfile, Ledger.after_use (by simp), Ledger.after_release (by simp),
      Finset.erase_insert hfile, Ledger.after_nil]
  unfold readFileToBuffer at hread
  unfold readFileTrace
  cases hend : read.fileEnd with
  | none => rfl
  | some fsize =>
      simp only [hend] at hread ⊢
      split
      · exact hopened
      · next hsize =>
          rw [if_neg hsize] at hread
          split
          · exact hopened
          · next hroom =>
              rw [if_neg hroom] at hread
              split
              · rw [Ledger.after_acquire hfile, Ledger.after_use (by simp),
                  Ledger.after_acquire (by simp [hblock]), Ledger.after_use (by simp),
                  Ledger.after_use (by simp), Ledger.after_release (by simp),
                  Finset.erase_insert (by simp [hblock]), Ledger.after_release (by simp),
                  Finset.erase_insert hfile, Ledger.after_nil]
              · next hwhole =>
                  rw [if_neg hwhole] at hread
                  cases hread

theorem after_readFile_some (h : Unheld n held) {read : FileRead} {contents : Bytes}
    (hread : readFileToBuffer read = some contents) :
    Ledger.after held (readFileTrace n read) = some (insert (.block n) held) := by
  unfold readFileToBuffer at hread
  unfold readFileTrace
  cases hend : read.fileEnd with
  | none =>
      rw [hend] at hread
      cases hread
  | some fsize =>
      simp only [hend] at hread ⊢
      by_cases hsize : fsize < 0
      · rw [if_pos hsize] at hread
        cases hread
      rw [if_neg hsize] at hread ⊢
      by_cases hroom : read.allocated = false
      · rw [if_pos hroom] at hread
        cases hread
      rw [if_neg hroom] at hread ⊢
      by_cases hwhole : (read.readBytes.length : Int) ≠ fsize
      · rw [if_pos hwhole] at hread
        cases hread
      rw [if_neg hwhole, Ledger.after_acquire h.1, Ledger.after_use (by simp),
        Ledger.after_acquire (by simp [h.2]), Ledger.after_use (by simp),
        Ledger.after_use (by simp), Ledger.after_release (by simp), erase_file_insert_block h,
        Ledger.after_nil]

theorem after_share (h : Unheld n held) (read : FileRead) :
    Ledger.after held (shareTrace n read) = some held := by
  unfold shareTrace
  cases hread : readFileToBuffer read with
  | none => rw [List.append_nil, after_readFile_none h hread]
  | some contents =>
      rw [Ledger.after_append (after_readFile_some h hread)]
      simp only
      split
      · rw [Ledger.after_release (by simp), Finset.erase_insert h.2, Ledger.after_nil]
      · rw [Ledger.after_use (by simp), Ledger.after_release (by simp), Finset.erase_insert h.2,
          Ledger.after_nil]

/-- A `list` that has returned. -/
theorem after_list (h : Unheld n held) {host : ByteOrder} {env : CommandEnv} {table : SharedTable}
    (hreturned : (listFiles host env table).code ≠ none) :
    Ledger.after held (listTrace host env n) = some held := by
  have hbuffer : Ledger.after held [.acquire (.block n), .use (.block n), .release (.block n)] =
      some held := by
    rw [Ledger.after_acquire h.2, Ledger.after_use (by simp), Ledger.after_release (by simp),
      Finset.erase_insert h.2, Ledger.after_nil]
  unfold listTrace
  simp only
  split; · rfl
  split; · rfl
  split; · rfl
  split; · rfl
  split; · rfl
  split; · rfl
  split; · rfl
  split
  · -- then `list` would still be waiting
    next hsent hheader herror htype hempty hwhole hroom hwaits =>
      refine absurd ?_ hreturned
      have hblocked : readFileList host env.listRoom env.link.answer = .blocked := by
        unfold readFileList
        simp only
        rw [if_neg hheader, if_neg herror, if_neg htype, if_neg hempty, if_neg hwhole,
          if_neg hroom, if_pos hwaits.1]
      simp only [listFiles, hblocked, ServerLink.stalled, hwaits.2]
      rw [if_neg hsent]
      rfl
  · exact hbuffer

/-- What a `get` in a certain state holds. -/
def GetState.heldBy (n : Nat) (held : Finset ClientResource) : GetState → Finset ClientResource
  | .receiving _ => insert (.block n) held
  | _ => held

theorem after_finish (h : Unheld n held) (env : GetEnv) (location : FileLocation)
    (receiver : Receiver) :
    Ledger.after (insert (.block n) held) (finishTrace n env location receiver) = some held := by
  have hclosed : Ledger.after (insert (.block n) held) [.release (.block n)] = some held := by
    rw [Ledger.after_release (by simp), Finset.erase_insert h.2, Ledger.after_nil]
  unfold finishTrace
  rw [Ledger.after_use (by simp)]
  split
  · split
    · rw [Ledger.after_acquire (by simp [h.1]), Ledger.after_use (by simp),
        Ledger.after_use (by simp), Ledger.after_release (by simp),
        Finset.erase_insert (by simp [h.1])]
      exact hclosed
    · exact hclosed
  · exact hclosed

theorem after_continue (h : Unheld n held) (env : GetEnv) (location : FileLocation)
    (receiver : Receiver) :
    Ledger.after (insert (.block n) held) (continueTrace n env location receiver) =
      some ((continueGet env location receiver).heldBy n held) := by
  unfold continueTrace continueGet
  split
  · exact after_finish h env location receiver
  · rfl

theorem after_getStep (h : Unheld n held) (host : ByteOrder) (env : GetEnv)
    (location : FileLocation) (state : GetState) (reception : Reception) :
    Ledger.after (state.heldBy n held) (getStepTrace n host env location state reception) =
      some ((getReceive host env location state reception).state.heldBy n held) := by
  cases state with
  | awaitingStart =>
      simp only [getStepTrace, getReceive]
      cases receiveFileStart host location reception with
      | error refusal => rfl
      | ok start =>
          simp only
          cases srReceiverInit (some location.peer) start.fileSize start.numChunks
              (some env.link) env.heap with
          | none => rfl
          | some receiver =>
              show Ledger.after held (.acquire (.block n) :: _) = _
              rw [Ledger.after_acquire h.2]
              exact after_continue h env location receiver
  | receiving receiver =>
      rcases reception with _ | ⟨sender, packet⟩
      · simp only [getStepTrace, getReceive, GetState.heldBy]
        rw [Ledger.after_release (by simp), Finset.erase_insert h.2]
        rfl
      · simp only [getStepTrace, getReceive]
        by_cases hsender : sender ≠ location.peer
        · rw [if_pos hsender, if_pos hsender]
          rfl
        · have huses : Ledger.after (insert (.block n) held)
              ((srReceiverHandleData host receiver packet.bytes).copies.map
                fun _ => ResourceEvent.use (.block n)) = some (insert (.block n) held) :=
            Ledger.after_uses fun event hevent => by
              obtain ⟨-, -, rfl⟩ := List.mem_map.mp hevent
              exact ⟨_, Finset.mem_insert_self _ _, rfl⟩
          rw [if_neg hsender, if_neg hsender, GetState.heldBy, Ledger.after_append huses]
          exact after_continue h env location _
  | finished result => rfl

/-- A `get` that has returned. -/
theorem after_getRun (h : Unheld n held) (host : ByteOrder) (env : GetEnv)
    (location : FileLocation) {state : GetState} {receptions : List Reception}
    (hreturned : (getRun host env location state receptions).returned ≠ none) :
    Ledger.after (state.heldBy n held) (getRunTrace n host env location state receptions) =
      some held := by
  induction receptions generalizing state with
  | nil =>
      cases state with
      | finished result => rfl
      | _ => exact absurd rfl hreturned
  | cons reception rest ih =>
      rw [getRunTrace, Ledger.after_append (after_getStep h host env location state reception)]
      exact ih hreturned

theorem after_get (h : Unheld n held) {host : ByteOrder} {env : CommandEnv} {table : SharedTable}
    {fileId : UInt32} (hreturned : (getFile host env table fileId).code ≠ none) :
    Ledger.after held (getTrace host env n fileId) = some held := by
  unfold getTrace
  split
  · rfl
  · next hsent =>
      cases hlocation : requestLocation host fileId.toNat env.link.answer env.requestSent with
      | error outcome => rfl
      | ok location =>
          show Ledger.after (GetState.heldBy n held .awaitingStart) _ = _
          refine after_getRun h host env.getEnv location fun hwaits => ?_
          have hdone : readFileLocation host fileId.toNat env.link.answer ≠ .blocked := by
            intro hblocked
            rw [requestLocation, hblocked] at hlocation
            cases hlocation
          refine hreturned ?_
          simp only [getFile, Bool.not_eq_false] at hsent ⊢
          rw [if_neg (by simp [hsent]), if_neg hdone]
          simp only [get, hlocation, hwaits, Option.map_none]

/-- Every command that has returned. -/
theorem after_command (h : Unheld n held) {host : ByteOrder} {env : CommandEnv}
    {client : ClientState} {line : Bytes} (reads : Bytes → FileRead)
    (hreturned : (handleCommand host env client line).returned = true) :
    Ledger.after held (commandTrace host env reads n line) = some held := by
  have hcode : ∀ command : CommandReturn,
      (conclude host env.link client command).returned = true → command.code ≠ none := by
    intro command hdone hnone
    rw [conclude, hnone] at hdone
    cases hdone
  unfold commandTrace
  unfold handleCommand at hreturned
  cases hline : parseCommand line with
  | share filename => exact after_share h (reads filename)
  | list =>
      rw [hline] at hreturned
      exact after_list h (hcode _ hreturned)
  | get fileId =>
      rw [hline] at hreturned
      exact after_get h (hcode _ hreturned)
  | _ => rfl

end Commands

/-! ## What the main loop holds -/

/-- The streams it has lost, the buffers it has lost and the buffer of the transfer. -/
def ClientMemory.held (m : ClientMemory) : Finset ClientResource :=
  m.unclosed.image .file ∪ (m.replaced ∪ m.globalFileBuffer.toFinset).image .block

/-- What is held is known, and the transfer that is active has the only buffer that is not
lost. -/
structure MemoryInv (m : ClientMemory) : Prop where
  held : Ledger.after ∅ m.trace = some m.held
  buffer_iff : m.client.owner.transferActive = true ↔ m.globalFileBuffer.isSome
  fileData_eq : m.client.owner.transferActive = true → m.fileData = m.globalFileBuffer
  unclosed_lt : ∀ n ∈ m.unclosed, n < m.pieces
  replaced_lt : ∀ n ∈ m.replaced, n < m.pieces
  buffer_lt : ∀ n ∈ m.globalFileBuffer, n < m.pieces
  buffer_new : ∀ n ∈ m.globalFileBuffer, n ∉ m.replaced

section Loop

variable {host : ByteOrder} {link : LossyLink} {m : ClientMemory}

@[simp] theorem file_mem_held {n : Nat} : .file n ∈ m.held ↔ n ∈ m.unclosed := by
  simp [ClientMemory.held]

@[simp] theorem block_mem_held {n : Nat} :
    .block n ∈ m.held ↔ n ∈ m.replaced ∨ m.globalFileBuffer = some n := by
  simp [ClientMemory.held]

theorem memoryInv_initial : MemoryInv ClientMemory.initial where
  held := rfl
  buffer_iff := by simp [ClientMemory.initial, Owner.initial]
  fileData_eq := fun _ => rfl
  unclosed_lt := fun _ hn => absurd hn (Finset.notMem_empty _)
  replaced_lt := fun _ hn => absurd hn (Finset.notMem_empty _)
  buffer_lt := fun _ hn => absurd hn (by simp [ClientMemory.initial])
  buffer_new := fun _ hn => absurd hn (by simp [ClientMemory.initial])

/-- The number of the next piece names nothing yet. -/
theorem MemoryInv.unheld (h : MemoryInv m) : Unheld m.pieces m.held := by
  refine ⟨fun hfile => ?_, fun hblock => ?_⟩
  · exact absurd (h.unclosed_lt _ (file_mem_held.mp hfile)) (lt_irrefl _)
  · rcases block_mem_held.mp hblock with hreplaced | hbuffer
    · exact absurd (h.replaced_lt _ hreplaced) (lt_irrefl _)
    · exact absurd (h.buffer_lt _ hbuffer) (lt_irrefl _)

/-- A piece that gives back what it takes, and leaves the transfer as it is. -/
theorem MemoryInv.balanced (h : MemoryInv m) {client : ClientState} {trace : ResourceTrace}
    (hbalanced : Ledger.after m.held trace = some m.held)
    (hactive : client.owner.transferActive = m.client.owner.transferActive) :
    MemoryInv
      { m with client := client, pieces := m.pieces + 1, trace := m.trace ++ trace } where
  held := (Ledger.after_append h.held).trans hbalanced
  buffer_iff := by
    rw [hactive]
    exact h.buffer_iff
  fileData_eq := by
    rw [hactive]
    exact h.fileData_eq
  unclosed_lt := fun n hn => Nat.lt_succ_of_lt (h.unclosed_lt n hn)
  replaced_lt := fun n hn => Nat.lt_succ_of_lt (h.replaced_lt n hn)
  buffer_lt := fun n hn => Nat.lt_succ_of_lt (h.buffer_lt n hn)
  buffer_new := h.buffer_new

/-- A piece that takes nothing. -/
theorem MemoryInv.idle (h : MemoryInv m) {client : ClientState}
    (hactive : client.owner.transferActive = m.client.owner.transferActive) :
    MemoryInv { m with client := client, pieces := m.pieces + 1 } := by
  have hbalanced := h.balanced Ledger.after_nil hactive
  rwa [List.append_nil] at hbalanced

theorem handleCommand_transferActive (host : ByteOrder) (env : CommandEnv) (client : ClientState)
    (line : Bytes) :
    (handleCommand host env client line).client.owner.transferActive =
      client.owner.transferActive := by
  have hconclude : ∀ command : CommandReturn,
      (conclude host env.link client command).client.owner.transferActive =
        client.owner.transferActive := by
    intro command
    unfold conclude
    cases command.code with
    | none => rfl
    | some code =>
        simp only
        split <;> rfl
  unfold handleCommand
  cases parseCommand line with
  | share filename => exact hconclude _
  | list => exact hconclude _
  | get fileId => exact hconclude _
  | _ => rfl

theorem MemoryInv.command (h : MemoryInv m) {env : CommandEnv} {line : Bytes}
    (reads : Bytes → FileRead)
    (hreturned : (handleCommand host env m.client line).returned = true) :
    MemoryInv (m.command host env reads line) :=
  h.balanced (after_command h.unheld reads hreturned)
    (handleCommand_transferActive host env m.client line)

/-- A granted request makes the transfer active, any other one leaves the owner alone. -/
theorem handleRequest_outcome (host : ByteOrder) (link : LossyLink) (owner : Owner)
    (peer : SockAddr) (packet : Datagram) (env : RequestEnv) (now : UInt64) :
    (handleRequest host link owner peer packet env now).2 = .started ∧
        (handleRequest host link owner peer packet env now).1.owner.transferActive = true ∨
      (handleRequest host link owner peer packet env now).2 ≠ .started ∧
        (handleRequest host link owner peer packet env now).1.owner = owner := by
  unfold handleRequest
  cases hfile : requestedFile host owner.table packet with
  | error exit => exact .inr ⟨requestedFile_error_ne_started hfile, rfl⟩
  | ok file =>
      cases env.fileEnd with
      | none => exact .inr ⟨RequestExit.noConfusion, rfl⟩
      | some actualSize =>
          simp only
          by_cases hsent : env.sendResult ≤ 0
          · rw [if_pos hsent]
            exact .inr ⟨RequestExit.noConfusion, rfl⟩
          rw [if_neg hsent]
          by_cases hallocated : env.allocated = false
          · rw [if_pos hallocated]
            exact .inr ⟨RequestExit.noConfusion, rfl⟩
          rw [if_neg hallocated]
          by_cases hread : (env.readBytes.length : Int) ≠ actualSize % 2 ^ 64
          · rw [if_pos hread]
            exact .inr ⟨RequestExit.noConfusion, rfl⟩
          rw [if_neg hread]
          cases srSenderInit (some peer) (some env.readBytes)
              (UInt32.ofNat (announcedSize actualSize)) (some link) with
          | none => exact .inr ⟨RequestExit.noConfusion, rfl⟩
          | some sender => exact .inl ⟨rfl, rfl⟩

/-- Only a granted request gets as far as `sr_sender_init`. -/
theorem requestGranted_of_started {owner : Owner} {peer : SockAddr} {packet : Datagram}
    {env : RequestEnv} {now : UInt64}
    (hstarted : (handleRequest host link owner peer packet env now).2 = .started) :
    RequestGranted host owner.table packet env := by
  unfold handleRequest at hstarted
  cases hfile : requestedFile host owner.table packet with
  | error exit =>
      rw [hfile] at hstarted
      exact absurd hstarted (requestedFile_error_ne_started hfile)
  | ok file =>
      obtain ⟨hlength, hdataLen, hlisted, hhash⟩ := requestedFile_eq_ok_iff.mp hfile
      cases hend : env.fileEnd with
      | none =>
          rw [hfile, hend] at hstarted
          contradiction
      | some actualSize =>
          simp only [hfile, hend] at hstarted
          by_cases hsent : env.sendResult ≤ 0
          · rw [if_pos hsent] at hstarted
            contradiction
          rw [if_neg hsent] at hstarted
          by_cases hallocated : env.allocated = false
          · rw [if_pos hallocated] at hstarted
            contradiction
          rw [if_neg hallocated] at hstarted
          by_cases hread : (env.readBytes.length : Int) ≠ actualSize % 2 ^ 64
          · rw [if_pos hread] at hstarted
            contradiction
          exact ⟨hlength, hdataLen, ⟨file, hlisted, hhash⟩, ⟨actualSize, hend, not_not.mp hread⟩,
            not_le.mp hsent, Bool.not_eq_false _ ▸ hallocated⟩

/-- A request that fails behind `fread`. -/
theorem after_abandoned {n : Nat} {held : Finset ClientResource} (h : Unheld n held) :
    Ledger.after held
      [.acquire (.file n), .use (.file n), .acquire (.block n), .use (.file n), .use (.block n),
        .release (.file n), .release (.block n)] = some held := by
  rw [Ledger.after_acquire h.1, Ledger.after_use (by simp), Ledger.after_acquire (by simp [h.2]),
    Ledger.after_use (by simp), Ledger.after_use (by simp), Ledger.after_release (by simp),
    erase_file_insert_block h, Ledger.after_release (by simp), Finset.erase_insert h.2,
    Ledger.after_nil]

/-- A granted request: the stream is closed, the buffer stays. -/
theorem after_started {n : Nat} {held : Finset ClientResource} (h : Unheld n held)
    (sent : List (SockAddr × Bytes)) :
    Ledger.after held (requestTrace n sent .started) = some (insert (.block n) held) := by
  unfold requestTrace
  rw [List.cons_append, Ledger.after_acquire h.1, List.cons_append, Ledger.after_use (by simp),
    List.cons_append, Ledger.after_acquire (by simp [h.2]), List.cons_append,
    Ledger.after_use (by simp), List.cons_append, Ledger.after_use (by simp), List.cons_append,
    Ledger.after_release (by simp), erase_file_insert_block h, List.nil_append]
  refine Ledger.after_uses fun event hevent => ?_
  obtain ⟨-, -, rfl⟩ := List.mem_map.mp hevent
  exact ⟨_, Finset.mem_insert_self _ _, rfl⟩

theorem MemoryInv.request (h : MemoryInv m) (peer : SockAddr) (packet : Datagram)
    (env : RequestEnv) (now : UInt64) :
    MemoryInv (m.request host link peer packet env now) := by
  have houtcome := handleRequest_outcome host link m.client.owner peer packet env now
  unfold ClientMemory.request
  generalize handleRequest host link m.client.owner peer packet env now = outcome at houtcome ⊢
  obtain ⟨result, exit⟩ := outcome
  simp only at houtcome ⊢
  have hunheld := h.unheld
  rcases houtcome with ⟨rfl, hactive⟩ | ⟨hrefused, howner⟩
  · -- the pointer to an earlier buffer is overwritten
    refine ⟨?_, ?_, ?_, ?_, ?_, ?_, ?_⟩
    · simp only
      rw [Ledger.after_append h.held, after_started hunheld]
      congr 1
      ext resource
      cases resource with
      | file n => simp
      | block n => simp [eq_comm, or_comm]
    · simp [hactive]
    · exact fun _ => rfl
    · exact fun n hn => Nat.lt_succ_of_lt (h.unclosed_lt n hn)
    · intro n hn
      simp only [Finset.mem_union, Option.mem_toFinset] at hn
      exact Nat.lt_succ_of_lt (hn.elim (h.replaced_lt n) (h.buffer_lt n))
    · intro n hn
      rw [← Option.mem_some_iff.mp hn]
      exact Nat.lt_succ_self _
    · intro n hn hold
      rw [← Option.mem_some_iff.mp hn] at hold
      simp only [Finset.mem_union, Option.mem_toFinset] at hold
      exact lt_irrefl _ (hold.elim (h.replaced_lt _) (h.buffer_lt _))
  · have hactive : result.owner.transferActive = m.client.owner.transferActive := by
      rw [howner]
    have hopened : Ledger.after m.held [.acquire (.file m.pieces), .use (.file m.pieces)] =
        some (insert (.file m.pieces) m.held) := by
      rw [Ledger.after_acquire hunheld.1, Ledger.after_use (by simp), Ledger.after_nil]
    cases exit with
    | sendFailed =>
        -- the stream stays open
        refine { h with
          held := ?_, buffer_iff := ?_, fileData_eq := ?_, unclosed_lt := ?_,
          replaced_lt := ?_, buffer_lt := ?_ }
        · simp only [requestTrace]
          rw [Ledger.after_append h.held, hopened]
          congr 1
          ext resource
          cases resource <;> simp
        · rw [hactive]
          exact h.buffer_iff
        · rw [hactive]
          exact h.fileData_eq
        · intro n hn
          rcases Finset.mem_insert.mp hn with rfl | hold
          · exact Nat.lt_succ_self _
          · exact Nat.lt_succ_of_lt (h.unclosed_lt n hold)
        · exact fun n hn => Nat.lt_succ_of_lt (h.replaced_lt n hn)
        · exact fun n hn => Nat.lt_succ_of_lt (h.buffer_lt n hn)
    | noMemory =>
        refine h.balanced ?_ hactive
        show Ledger.after m.held ([.acquire (.file m.pieces), .use (.file m.pieces)] ++
          [.release (.file m.pieces)]) = _
        rw [Ledger.after_append hopened, Ledger.after_release (by simp),
          Finset.erase_insert hunheld.1, Ledger.after_nil]
    | shortRead => exact h.balanced (after_abandoned hunheld) hactive
    | initFailed => exact h.balanced (after_abandoned hunheld) hactive
    | started => exact absurd rfl hrefused
    | _ => exact h.balanced Ledger.after_nil hactive

theorem MemoryInv.datagram (h : MemoryInv m) (reception : Reception) (env : RequestEnv)
    (now : UInt64) : MemoryInv (m.datagram host link reception env now) := by
  unfold ClientMemory.datagram
  rcases reception with _ | ⟨peer, packet⟩
  · exact h.idle rfl
  · simp only
    by_cases hshort : packet.bytes.length < udpHeaderSize
    · rw [if_pos hshort]
      refine h.idle ?_
      simp only [receiveDatagram, if_pos hshort]
    rw [if_neg hshort]
    by_cases hrequest : (UdpHeader.ofImage host packet.bytes).msgType = udpRequestFile
    · rw [if_pos hrequest]
      exact h.request peer packet env now
    · rw [if_neg hrequest]
      refine h.idle ?_
      simp only [receiveDatagram, if_neg hshort, if_neg hrequest]
      split
      · unfold handleAck
        split <;> rfl
      · rfl

theorem MemoryInv.driver (h : MemoryInv m) (sendNow scanNow : UInt64) :
    MemoryInv (m.driver host sendNow scanNow) := by
  unfold ClientMemory.driver
  simp only
  by_cases hactive : m.client.owner.transferActive = true
  swap
  · rw [if_neg hactive]
    exact h.idle rfl
  rw [if_pos hactive]
  obtain ⟨n, hbuffer⟩ := Option.isSome_iff_exists.mp (h.buffer_iff.mp hactive)
  have hdata : m.fileData = some n := (h.fileData_eq hactive).trans hbuffer
  have hblock : .block n ∈ m.held := block_mem_held.mpr (.inr hbuffer)
  have huses : Ledger.after m.held
      ((srSenderSendWindow host m.client.owner.globalSender sendNow).packets.flatMap fun _ =>
        m.fileData.toList.map fun n => .use (.block n)) = some m.held := by
    refine Ledger.after_uses fun event hevent => ?_
    rw [hdata] at hevent
    obtain ⟨-, -, huse⟩ := List.mem_flatMap.mp hevent
    exact ⟨_, hblock, by simpa using huse⟩
  by_cases hgoing : (drive host m.client.owner sendNow scanNow).owner.transferActive = true
  · rw [if_pos hgoing]
    exact h.balanced huses (by rw [hgoing, hactive])
  · -- the transfer is over and its buffer is freed
    rw [if_neg hgoing]
    refine ⟨?_, ?_, ?_, ?_, ?_, ?_, ?_⟩
    · simp only [hbuffer, Option.toList_some, List.map_cons, List.map_nil]
      rw [Ledger.after_append ((Ledger.after_append h.held).trans huses),
        Ledger.after_release hblock, Ledger.after_nil]
      congr 1
      ext resource
      have hnew := h.buffer_new n hbuffer
      cases resource with
      | file other => simp
      | block other =>
          simp only [Finset.mem_erase, block_mem_held, ne_eq, ClientResource.block.injEq, hbuffer,
            Option.some.injEq, reduceCtorEq, or_false]
          constructor
          · rintro ⟨hne, hold | hsame⟩
            · exact hold
            · exact absurd hsame.symm hne
          · intro hold
            refine ⟨?_, .inl hold⟩
            rintro rfl
            exact hnew hold
    · simpa using hgoing
    · exact fun hon => absurd hon hgoing
    · exact fun n hn => Nat.lt_succ_of_lt (h.unclosed_lt n hn)
    · exact fun n hn => Nat.lt_succ_of_lt (h.replaced_lt n hn)
    · exact fun n hn => absurd hn (by simp)
    · exact fun n hn => absurd hn (by simp)

theorem memoryInv_step {event : ClientEvent} {m' : ClientMemory} (h : MemoryInv m)
    (hstep : ClientStep host link m event m') : MemoryInv m' := by
  obtain ⟨-, hallows, rfl⟩ := hstep
  cases event with
  | command env reads line => exact h.command reads hallows.2
  | datagram reception env now => exact h.datagram reception env now
  | driver sendNow scanNow => exact h.driver sendNow scanNow

end Loop

/-- In every run of the client's main loop, whatever the system calls return and whatever
arrives: no block is freed and no stream closed twice, none is used outside its lifetime,
and what has not been given back is exactly the stream of every request whose announcement
could not be sent, the buffer of every transfer that ran when another request was granted,
and the buffer of the transfer that is active now. -/
theorem resources_accounted {host : ByteOrder} {link : LossyLink} {events : List ClientEvent}
    {m : ClientMemory} (hrun : Run (ClientStep host link) ClientMemory.initial events m) :
    (∃ held, Ledger.after ∅ m.trace = some held ∧
      (∀ n, .file n ∈ held ↔ n ∈ m.unclosed) ∧
      ∀ n, .block n ∈ held ↔ n ∈ m.replaced ∨ m.globalFileBuffer = some n) ∧
      (m.client.owner.transferActive = true ↔ m.globalFileBuffer.isSome) ∧
      (m.client.owner.transferActive = true → m.fileData = m.globalFileBuffer) := by
  have hinv : MemoryInv m :=
    hrun.invariant (fun _ _ _ h hstep => memoryInv_step h hstep) memoryInv_initial
  exact ⟨⟨m.held, hinv.held, fun _ => file_mem_held, fun _ => block_mem_held⟩, hinv.buffer_iff,
    hinv.fileData_eq⟩

/-- A file of one byte is shared, and two peers ask for it one after the other. -/
def oneByteRead : FileRead := ⟨some 1, true, [65]⟩

def sharingEnv : CommandEnv where
  link := ⟨none, controlMessage .little tcpShareAck errNone (idImage .little 1), false⟩
  readFile := fun _ => readFileToBuffer oneByteRead
  listRoom := true
  getEnv := { sevenEnv with sha256 := fun _ => HashBytes.ofImage [] }
  requestSent := 52
  receptions := []

def askedTwice : List ClientEvent :=
  [.command sharingEnv (fun _ => oneByteRead) (shareWord ++ [32, 97, newline]),
    .datagram (some (⟨1, 1⟩, requestOne)) oneByteEnv 0,
    .datagram (some (⟨2, 2⟩, requestOne)) oneByteEnv 0]

/-- The buffer of the first transfer is lost, that of the second is in use. -/
theorem resources_accounted_two_requests :
    ∃ held, Ledger.after ∅ (askedTwice.foldl (ClientMemory.apply .little ⟨3, 0, 1⟩)
        ClientMemory.initial).trace = some held ∧ .block 1 ∈ held ∧ .block 2 ∈ held := by
  have hallowed : Run.Allowed (fun m event => m.client.running = true ∧ m.Allows .little event)
      (ClientMemory.apply .little ⟨3, 0, 1⟩) ClientMemory.initial askedTwice :=
    ⟨⟨rfl, fun _ => rfl, by decide +kernel⟩, ⟨by decide +kernel, trivial⟩,
      ⟨by decide +kernel, trivial⟩, trivial⟩
  have hrun : Run (ClientStep .little ⟨3, 0, 1⟩) ClientMemory.initial askedTwice
      (askedTwice.foldl (ClientMemory.apply .little ⟨3, 0, 1⟩) ClientMemory.initial) :=
    Run.of_allowed (fun _ _ h => ⟨h.1, h.2, rfl⟩) hallowed
  obtain ⟨⟨held, hheld, -, hblocks⟩, -⟩ := resources_accounted hrun
  exact ⟨held, hheld, (hblocks 1).mpr (.inl (by decide +kernel)),
    (hblocks 2).mpr (.inr (by decide +kernel))⟩

end Client
end PeerShare
