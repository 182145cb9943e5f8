import PeerShare.Client.Get
import PeerShare.Client.SharedTable
import PeerShare.Foundation.LabelledRun
import PeerShare.SelectiveRepeat.SenderRun

/-!
# The owner's event loop (`main` of `client.c`)

One global sender serves every request.  An iteration of the loop runs a
command, then one datagram, then the driver that sends and retransmits; a
datagram branch that ends in `continue` skips the driver.  What the system
calls of the request branch return is a parameter.

The request branch reads and checks a great deal, but not `transfer_active`:
whatever passes its checks replaces the global sender.
-/

namespace PeerShare
namespace Client

open Foundation Wire SelectiveRepeat

/-- The globals of `client.c` that the loop reads and writes. -/
structure Owner where
  globalSender : Sender
  globalFileBuffer : Option Bytes
  transferActive : Bool
  table : SharedTable

/-- Static storage starts out as zeros. -/
def Owner.initial : Owner where
  globalSender :=
    { peerAddr := ⟨0, 0⟩
      base := 0
      nextSeq := 0
      window := SlotRing.filled SendWindowEntry.cleared
      fileData := []
      fileSize := 0
      numChunks := 0
      chunksAcked := 0 }
  globalFileBuffer := none
  transferActive := false
  table := SharedTable.empty

/-- What the system calls of the request branch return: `ftell` on the opened
file (or a failed `fopen`), `sendto`, `malloc` and the bytes `fread` stored. -/
structure RequestEnv where
  fileEnd : Option Int
  sendResult : Int
  allocated : Bool
  readBytes : Bytes

/-- The ways the request branch ends. -/
inductive RequestExit where
  | tooShort
  | lengthMismatch
  | unknownFile
  | hashMismatch
  | openFailed
  | sendFailed
  | noMemory
  | shortRead
  | initFailed
  | started
  deriving DecidableEq, Repr

/-- The state after an event, the datagrams sent and whether the branch ended
in `continue`. -/
structure OwnerResult where
  owner : Owner
  sent : List (SockAddr × Bytes)
  continued : Bool

/-- The file a request names, after the checks on the datagram and the table. -/
def requestedFile (host : ByteOrder) (table : SharedTable) (packet : Datagram) :
    Except RequestExit SharedFile :=
  let hdr := UdpHeader.ofImage host packet.bytes
  if packet.bytes.length < udpHeaderSize + udpRequestFileSize then
    .error .tooShort
  else if ntoh host 2 hdr.dataLen ≠ udpRequestFileSize then
    .error .lengthMismatch
  else
    match table.findSharedFileById (ntoh host 4 (fieldAt host packet.bytes 16 4)) with
    | none => .error .unknownFile
    | some file =>
        if file.hash ≠ HashBytes.ofImage (packet.bytes.drop 20) then
          .error .hashMismatch
        else
          .ok file

/-- `(uint32_t) actual_size`. -/
def announcedSize (actualSize : Int) : Nat := (actualSize % 2 ^ 32).toNat

/-- `(uint32_t) num_chunks`: the division is signed and truncates towards zero,
the result is narrowed to `int` and then reinterpreted. -/
def announcedChunks (actualSize : Int) : Nat :=
  ((actualSize + chunkSize - 1).tdiv chunkSize % 2 ^ 32).toNat

/-- The `UDP_REQUEST_FILE` branch. -/
def handleRequest (host : ByteOrder) (link : LossyLink) (owner : Owner) (peer : SockAddr)
    (packet : Datagram) (env : RequestEnv) (now : UInt64) : OwnerResult × RequestExit :=
  match requestedFile host owner.table packet with
  | .error exit => (⟨owner, [], true⟩, exit)
  | .ok _ =>
      match env.fileEnd with
      | none => (⟨owner, [], true⟩, .openFailed)
      | some actualSize =>
          let start := buildFileStart host (announcedSize actualSize)
            (announcedChunks actualSize)
          if env.sendResult ≤ 0 then
            (⟨owner, [], true⟩, .sendFailed)
          else if env.allocated = false then
            -- the announcement is already on its way
            (⟨owner, [(peer, start)], true⟩, .noMemory)
          else if (env.readBytes.length : Int) ≠ actualSize % 2 ^ 64 then
            (⟨owner, [(peer, start)], true⟩, .shortRead)
          else
            match srSenderInit (some peer) (some env.readBytes)
                (UInt32.ofNat (announcedSize actualSize)) (some link) with
            | none => (⟨owner, [(peer, start)], true⟩, .initFailed)
            | some sender =>
                let window := srSenderSendWindow host sender now
                (⟨{ owner with
                      globalSender := window.sender
                      globalFileBuffer := some env.readBytes
                      transferActive := true },
                  (peer, start) :: window.packets.map fun data => (window.sender.peerAddr, data),
                  false⟩, .started)

/-- The `UDP_ACK` branch. -/
def handleAck (host : ByteOrder) (owner : Owner) (packet : Datagram) : OwnerResult :=
  if owner.transferActive then
    ⟨{ owner with
        globalSender := srSenderHandleAck host owner.globalSender
          (UdpHeader.ofImage host packet.bytes) }, [], false⟩
  else
    ⟨owner, [], false⟩

/-- The branch for a readable UDP socket; `none` is a failed `lossy_recv`. -/
def receiveDatagram (host : ByteOrder) (link : LossyLink) (owner : Owner)
    (reception : Reception) (env : RequestEnv) (now : UInt64) : OwnerResult :=
  match reception with
  | none => ⟨owner, [], true⟩
  | some (peer, packet) =>
      if packet.bytes.length < udpHeaderSize then
        ⟨owner, [], true⟩
      else
        let msgType := (UdpHeader.ofImage host packet.bytes).msgType
        if msgType = udpRequestFile then
          (handleRequest host link owner peer packet env now).1
        else if msgType = udpAck then
          handleAck host owner packet
        else
          ⟨owner, [], false⟩

/-- The end of a transfer: the buffer is freed, the sender is left as it is. -/
def Owner.release (owner : Owner) : Owner :=
  { owner with
    globalFileBuffer := none
    transferActive := false }

/-- The driver at the end of an iteration. -/
def drive (host : ByteOrder) (owner : Owner) (sendNow scanNow : UInt64) : OwnerResult :=
  if owner.transferActive then
    let window := srSenderSendWindow host owner.globalSender sendNow
    let scan := srSenderCheckTimeouts host window.sender scanNow
    let sent := (window.packets ++ scan.packets).map fun data => (scan.sender.peerAddr, data)
    let driven := { owner with globalSender := scan.sender }
    if scan.returned < 0 then
      ⟨driven.release, sent, false⟩
    else if srSenderIsComplete scan.sender then
      ⟨driven.release, sent, false⟩
    else
      ⟨driven, sent, false⟩
  else
    ⟨owner, [], false⟩

/-- What happens in the loop, one piece of an iteration at a time. -/
inductive OwnerEvent where
  | shared (fileId fileSize : Nat) (hash : HashBytes) (filename : Bytes)
  | datagram (reception : Reception) (env : RequestEnv) (now : UInt64)
  | driver (sendNow scanNow : UInt64)

def Owner.apply (host : ByteOrder) (link : LossyLink) (owner : Owner) :
    OwnerEvent → OwnerResult
  | .shared fileId fileSize hash filename =>
      ⟨{ owner with
          table := owner.table.addSharedFile fileId fileSize hash filename }, [], false⟩
  | .datagram reception env now => receiveDatagram host link owner reception env now
  | .driver sendNow scanNow => drive host owner sendNow scanNow

def OwnerStep (host : ByteOrder) (link : LossyLink) (owner : Owner) (event : OwnerEvent)
    (owner' : Owner) : Prop :=
  owner' = (owner.apply host link event).owner

/-- What one iteration of the loop meets: the file a typed `share` command has
registered, if any, the datagram that is waiting, if any, and the clock. -/
structure Iteration where
  command : Option (Nat × Nat × HashBytes × Bytes)
  reception : Option (Reception × RequestEnv × UInt64)
  sendNow : UInt64
  scanNow : UInt64

/-- One iteration of the loop; a datagram branch that ends in `continue` skips
the driver. -/
def mainIteration (host : ByteOrder) (link : LossyLink) (owner : Owner)
    (input : Iteration) : OwnerResult :=
  let commanded : Owner :=
    match input.command with
    | none => owner
    | some (fileId, fileSize, hash, filename) =>
        { owner with table := owner.table.addSharedFile fileId fileSize hash filename }
  let received : OwnerResult :=
    match input.reception with
    | none => ⟨commanded, [], false⟩
    | some (reception, env, now) => receiveDatagram host link commanded reception env now
  if received.continued then
    received
  else
    let driven := drive host received.owner input.sendNow input.scanNow
    ⟨driven.owner, received.sent ++ driven.sent, false⟩

/-- An iteration is a run of at most three events. -/
theorem mainIteration_run (host : ByteOrder) (link : LossyLink) (owner : Owner)
    (input : Iteration) :
    ∃ events, Run (OwnerStep host link) owner events
      (mainIteration host link owner input).owner := by
  obtain ⟨commanded, hcommanded, events, hevents⟩ : ∃ commanded : Owner,
      (match input.command with
        | none => owner
        | some (fileId, fileSize, hash, filename) =>
            { owner with
              table := owner.table.addSharedFile fileId fileSize hash filename }) =
        commanded ∧
      ∃ events, Run (OwnerStep host link) owner events commanded := by
    cases input.command with
    | none => exact ⟨owner, rfl, [], Run.nil owner⟩
    | some file =>
        obtain ⟨fileId, fileSize, hash, filename⟩ := file
        exact ⟨_, rfl, [.shared fileId fileSize hash filename], Run.single rfl⟩
  have hdrive : ∀ driven : Owner,
      OwnerStep host link driven (.driver input.sendNow input.scanNow)
        (drive host driven input.sendNow input.scanNow).owner := fun _ => rfl
  unfold mainIteration
  rw [hcommanded]
  cases input.reception with
  | none => exact ⟨_, hevents.snoc (hdrive commanded)⟩
  | some reception =>
      obtain ⟨reception, env, now⟩ := reception
      have hreceived : Run (OwnerStep host link) owner (events ++ [.datagram reception env now])
          (receiveDatagram host link commanded reception env now).owner :=
        Run.snoc hevents rfl
      by_cases hcontinued :
          (receiveDatagram host link commanded reception env now).continued = true
      · simp only [hcontinued, if_true]
        exact ⟨_, hreceived⟩
      · simp only [hcontinued, if_false, Bool.false_eq_true]
        exact ⟨_, hreceived.snoc (hdrive _)⟩

end Client
end PeerShare
