import PeerShare.Client.GetRun
import PeerShare.Directory.Network

/-!
# The whole system, byte by byte

The server, the clients of `client.c` on their connections, any other programs
that connect to it, and the downloads of the clients.  A connection carries a
stream of bytes: a `recv` of the server returns any number of the next ones,
and a connection may fail at any time.  Nothing is assumed about the datagrams
that reach a `get`.

Besides the state of the processes, the system keeps a record: the bytes a
`share` read, the registrations the server made, the ids the clients obtained,
everything that was hashed, and the outcome of every `get`.  No process reads
the record.
-/

namespace PeerShare
namespace Directory

open Foundation Wire Client SelectiveRepeat

/-- The bytes on their way to the server. -/
def Peer.stream (peer : Peer) : Bytes := peer.toServer.flatten

/-- A client of `client.c`. -/
structure Participant where
  peer : Peer
  /-- What its last `share` read. -/
  contents : Bytes

/-- An entry of the registry when it was made. -/
structure Registration where
  fileId : Nat
  fileSize : Nat
  /-- What `share` read; nothing is known about other programs. -/
  source : Option Bytes
  deriving DecidableEq

/-- A `get` that returned. -/
structure Download where
  fileId : Nat
  /-- What was handed to `compute_sha256`, if it came to that. -/
  assembled : Option Bytes
  /-- Whether `fopen` was called. -/
  opened : Bool
  /-- What was written. -/
  saved : Option Bytes
  deriving DecidableEq

structure System where
  server : Server
  /-- The client of a connection; `none` is another program. -/
  participants : Nat → Option Participant
  registrations : List Registration
  /-- What the clients know of their own shares, once acknowledged. -/
  obtained : List Registration
  hashed : List Bytes
  downloads : List Download

/-- What the surroundings of a `get` decide behind the directory's answer. -/
structure Surroundings where
  /-- What `sendto` returns for the request. -/
  requestSent : Int
  heap : Option (Nat → UInt8)
  canOpen : Bool
  link : LossyLink
  receptions : List Reception

/-- Who moves next. -/
inductive SystemAction where
  /-- A client of `client.c` with its UDP port, or another program. -/
  | accept (fd : Int) (addr : SockAddr) (client : Option UInt16)
  | serve (fd : Int) (recv : Recv) (room : Bool)
  | register (n : Nat)
  | command (n : Nat) (command : Command)
  | read (n : Nat) (room : Bool)
  | download (n : Nat) (surroundings : Surroundings)
  | disconnect (n arriving : Nat)

/-- How many bytes of the stream a `recv` takes. -/
def Recv.taken : Recv → Nat
  | .error => 0
  | .bytes data => data.length

/-- The entry a server made on the way from one state to another. -/
def entered (before after : Server) : Option DirectoryFile :=
  if after.shared = before.shared then none else after.registry.files.getLast?

namespace Participant

variable (host : ByteOrder) (participant : Participant)

/-- What `share` read and hashed, if the command is one that gets there. -/
def sharing (sha256 : Bytes → HashBytes) (command : Command) : Option Bytes :=
  match participant.peer.phase, command with
  | .idle, .share filename file => if (announce sha256 filename file).isSome then file else none
  | _, _ => none

def command (sha256 : Bytes → HashBytes) (command : Command) : Participant where
  peer := participant.peer.command host sha256 command
  contents := (participant.sharing sha256 command).getD participant.contents

/-- What `share` knows of its file when it has read the acknowledgement. -/
def obtains : Option Registration :=
  match participant.peer.phase with
  | .sharing share _ =>
      match readShareAck host participant.peer.inbox with
      | .done fileId _ => some ⟨fileId, share.fileSize, some participant.contents⟩
      | _ => none
  | _ => none

/-- A `recv` took `recv` off the stream and the server answered. -/
def served (recv : Recv) (replies : List Reply) : Participant :=
  { participant with
    peer := participant.peer.answer replies [participant.peer.stream.drop recv.taken] }

/-- The client is gone; the first `arriving` bytes still reach the server. -/
def disconnected (arriving : Nat) : Participant :=
  { participant with
    peer :=
      { participant.peer with
        phase := .closed
        toServer := [participant.peer.stream.take arriving] } }

end Participant

/-- The record of a `get` that returned, from the receiver its loop ended with. -/
def Download.of (sha256 : Bytes → HashBytes) (location : FileLocation)
    (completed : Option Receiver) (result : GetReturn) : Download where
  fileId := location.fileId
  assembled := completed.map assembledFile
  opened := completed.any (opensFile sha256 location)
  saved := result.saved.map Prod.snd

namespace System

def initial : System where
  server := Server.initial
  participants := fun _ => none
  registrations := []
  obtained := []
  hashed := []
  downloads := []

def setParticipant (s : System) (n : Nat) (participant : Participant) : System :=
  { s with participants := Function.update s.participants n (some participant) }

/-- A connection is accepted, if there is a slot for it. -/
def accept (host : ByteOrder) (s : System) (fd : Int) (addr : SockAddr)
    (client : Option UInt16) : System :=
  if fd < 0 then
    s
  else
    match s.server.freeSlot with
    | none => s
    | some _ =>
        { s with
          server := (s.server.apply host (.accept fd addr)).server
          participants := Function.update s.participants (s.server.accepted + 1)
            (client.map fun udpPort => ⟨Peer.arrived fd addr udpPort, []⟩) }

/-- The registration, if any, that the server makes for the connection in slot
`i` when it handles an event. -/
def newRegistrations (host : ByteOrder) (s : System) (i : Fin maxClients)
    (event : ServerEvent) : List Registration :=
  ((entered s.server (s.server.apply host event).server).map fun file =>
    { fileId := file.fileId
      fileSize := file.fileSize
      source := (s.participants (s.server.clients i).conn).map Participant.contents }).toList

/-- The server reads a socket and answers. -/
def serve (host : ByteOrder) (s : System) (fd : Int) (recv : Recv) (room : Bool) : System :=
  match s.server.findClientByFd fd with
  | none => s
  | some i =>
      let n := (s.server.clients i).conn
      let event := ServerEvent.readable fd recv room
      let result := s.server.apply host event
      { s with
        server := result.server
        participants := Function.update s.participants n
          ((s.participants n).map fun participant => participant.served recv result.replies)
        registrations := s.registrations ++ s.newRegistrations host i event }

/-- The rest of a `get` that has its location: the request to the owner, then
the datagrams. -/
def download (host : ByteOrder) (sha256 : Bytes → HashBytes) (s : System) (n : Nat)
    (participant : Participant) (location : FileLocation) (around : Surroundings) : System :=
  let fetched (success : Bool) : Participant :=
    { participant with peer := participant.peer.fetched host success }
  let env : GetEnv := ⟨sha256, around.heap, around.canOpen, around.link⟩
  if around.requestSent ≠ (udpHeaderSize + udpRequestFileSize : Nat) then
    s.setParticipant n (fetched false)
  else
    match (getRun host env location .awaitingStart around.receptions).returned with
    | none => s
    | some result =>
        let completed := completedReceiver host env location .awaitingStart around.receptions
        { s.setParticipant n (fetched (result.code = 0)) with
          hashed := s.hashed ++ (completed.map assembledFile).toList
          downloads := s.downloads ++ [Download.of sha256 location completed result] }

def apply (host : ByteOrder) (sha256 : Bytes → HashBytes) (s : System) (action : SystemAction) :
    System :=
  match action with
  | .accept fd addr client => s.accept host fd addr client
  | .serve fd recv room => s.serve host fd recv room
  | .register n =>
      match s.participants n with
      | none => s
      | some participant =>
          s.setParticipant n { participant with peer := participant.peer.register host }
  | .command n command =>
      match s.participants n with
      | none => s
      | some participant =>
          { s.setParticipant n (participant.command host sha256 command) with
            hashed := s.hashed ++ (participant.sharing sha256 command).toList }
  | .read n room =>
      match s.participants n with
      | none => s
      | some participant =>
          { s.setParticipant n { participant with peer := participant.peer.read host room } with
            obtained := s.obtained ++ (participant.obtains host).toList }
  | .download n around =>
      match s.participants n with
      | none => s
      | some participant =>
          match participant.peer.phase with
          | .fetching location => s.download host sha256 n participant location around
          | _ => s
  | .disconnect n arriving =>
      match s.participants n with
      | none => s
      | some participant => s.setParticipant n (participant.disconnected arriving)

/-- The client behind a descriptor of the server. -/
def participantOn (s : System) (fd : Int) : Option Participant :=
  (s.server.findClientByFd fd).bind fun i => s.participants (s.server.clients i).conn

/-- A `recv` on the connection of a client returns the next bytes of its
stream.  Other programs send what they like. -/
def Allows (s : System) : SystemAction → Prop
  | .serve fd (.bytes data) _ =>
      ∀ participant ∈ s.participantOn fd, data <+: participant.peer.stream
  | _ => True

instance (s : System) : (action : SystemAction) → Decidable (s.Allows action)
  | .serve fd (.bytes data) _ => inferInstanceAs
      (Decidable (∀ participant ∈ s.participantOn fd, data <+: participant.peer.stream))
  | .serve _ .error _ => isTrue trivial
  | .accept _ _ _ => isTrue trivial
  | .register _ => isTrue trivial
  | .command _ _ => isTrue trivial
  | .read _ _ => isTrue trivial
  | .download _ _ => isTrue trivial
  | .disconnect _ _ => isTrue trivial

end System

def SystemStep (host : ByteOrder) (sha256 : Bytes → HashBytes) (s : System)
    (action : SystemAction) (s' : System) : Prop :=
  s.Allows action ∧ s' = s.apply host sha256 action

end Directory
end PeerShare
