import PeerShare.Client.OwnerLoop
import PeerShare.Client.Requests
import PeerShare.Directory.Identity

/-!
# The server and its clients

Any number of clients that behave as `client.c` does, each on its own
connection.  A client registers once and then runs one command at a time; it
waits for the answer before it reads the next command.  A command that fails
sends `TCP_UNREGISTER` and ends the client, and a client may also disappear at
any time, with some of what it sent still on its way.

A message travels whole: the server receives one message per `recv`.  Clients
are named by the number of their connection.
-/

namespace PeerShare
namespace Directory

open Foundation Wire Client

/-- Where a client is between `connect` and its end.  Past the registration the
constructors are the commands with what is kept until the answer arrives. -/
inductive ClientPhase where
  | connected
  | registering
  | idle
  | sharing (share : ShareFile) (filename : Bytes)
  | listing
  | locating (fileId : Nat)
  /-- `get` has the location; what is left of it happens on the UDP socket. -/
  | fetching (location : FileLocation)
  | closed
  deriving DecidableEq

/-- A client process and the two directions of its connection. -/
structure Peer where
  /-- The descriptor the server has for the connection. -/
  fd : Int
  /-- The address the server sees. -/
  addr : SockAddr
  udpPort : UInt16
  phase : ClientPhase
  clientId : Nat
  table : SharedTable
  toServer : List Bytes
  inbox : Bytes
  deriving DecidableEq

/-- What a user types; for a share with what reading the file gives. -/
inductive Command where
  | share (filename : Bytes) (file : Option Bytes)
  | list
  | get (fileId : UInt32)
  | quit

namespace Peer

/-- A connection that nobody has. -/
def absent : Peer where
  fd := 0
  addr := ⟨0, 0⟩
  udpPort := 0
  phase := .closed
  clientId := 0
  table := SharedTable.empty
  toServer := []
  inbox := []

/-- A client the server has just accepted. -/
def arrived (fd : Int) (addr : SockAddr) (udpPort : UInt16) : Peer :=
  { absent with fd := fd, addr := addr, udpPort := udpPort, phase := .connected }

variable (host : ByteOrder) (peer : Peer)

/-- Send a message and wait. -/
def send (message : Bytes) (phase : ClientPhase) : Peer :=
  { peer with toServer := peer.toServer ++ [message], phase := phase }

/-- `quit`, after which `main` closes the connection. -/
def quit : Peer := peer.send (unregisterMessage host) .closed

/-- The registration of `main`. -/
def register : Peer :=
  match peer.phase with
  | .connected => peer.send (registerMessage host peer.udpPort) .registering
  | _ => peer

/-- `handle_command`, up to the point where a command waits for its answer. -/
def command (sha256 : Bytes → HashBytes) (command : Command) : Peer :=
  match peer.phase with
  | .idle =>
      match command with
      | .share filename file =>
          match announce sha256 filename file with
          | none => peer.quit host
          | some share => peer.send (shareMessage host share) (.sharing share filename)
      | .list => peer.send (listMessage host) .listing
      | .get fileId => peer.send (requestMessage host fileId.toNat) (.locating fileId.toNat)
      | .quit => peer.quit host
  | _ => peer

/-- The answer is read, or as much of it as has arrived. -/
def read (room : Bool) : Peer :=
  match peer.phase with
  | .registering =>
      match readRegisterAck host peer.inbox with
      | .blocked => peer
      | .failed => { peer with phase := .closed }
      | .done clientId rest => { peer with phase := .idle, clientId := clientId, inbox := rest }
  | .sharing share filename =>
      match readShareAck host peer.inbox with
      | .blocked => peer
      | .failed => peer.quit host
      | .done fileId rest =>
          { peer with
            phase := .idle
            inbox := rest
            table := peer.table.addSharedFile fileId share.fileSize share.hash filename }
  | .listing =>
      match readFileList host room peer.inbox with
      | .blocked => peer
      | .failed => peer.quit host
      | .done _ rest => { peer with phase := .idle, inbox := rest }
  | .locating fileId =>
      match readFileLocation host fileId peer.inbox with
      | .blocked => peer
      | .failed => peer.quit host
      | .done location rest => { peer with phase := .fetching location, inbox := rest }
  | _ => peer

/-- `get` returns from its UDP part. -/
def fetched (success : Bool) : Peer :=
  match peer.phase with
  | .fetching _ => if success then { peer with phase := .idle } else peer.quit host
  | _ => peer

/-- What the server sent on this connection has arrived; `pending` is left of
what the client sent. -/
def answer (replies : List Reply) (pending : List Bytes) : Peer :=
  { peer with
    toServer := pending
    inbox := peer.inbox ++
      (replies.filter fun reply => reply.fd = peer.fd).flatMap Reply.bytes }

/-- The client is gone; `arriving` of its messages still reach the server. -/
def disconnect (arriving : Nat) : Peer :=
  { peer with phase := .closed, toServer := peer.toServer.take arriving }

end Peer

/-- The server and the client of every connection. -/
structure Network where
  server : Server
  peers : Nat → Peer

/-- Who moves next. -/
inductive NetworkAction where
  | accept (fd : Int) (addr : SockAddr) (udpPort : UInt16)
  | serve (fd : Int) (room reset : Bool)
  | register (n : Nat)
  | command (n : Nat) (command : Command)
  | read (n : Nat) (room : Bool)
  | fetched (n : Nat) (success : Bool)
  | disconnect (n arriving : Nat)

namespace Network

def initial : Network where
  server := Server.initial
  peers := fun _ => Peer.absent

def setPeer (net : Network) (n : Nat) (peer : Peer) : Network :=
  { net with peers := Function.update net.peers n peer }

/-- The server handles an event of the connection `n` and answers on it. -/
def exchange (host : ByteOrder) (net : Network) (n : Nat) (event : ServerEvent)
    (pending : List Bytes) : Network :=
  let result := net.server.apply host event
  { server := result.server
    peers := Function.update net.peers n ((net.peers n).answer result.replies pending) }

/-- The server reads a socket.  It is readable when a message has arrived or
the client is gone; a reset shows as an error. -/
def serve (host : ByteOrder) (net : Network) (fd : Int) (room reset : Bool) : Network :=
  match net.server.findClientByFd fd with
  | none => net
  | some i =>
      let n := (net.server.clients i).conn
      match (net.peers n).toServer with
      | message :: pending => net.exchange host n (.readable fd (.bytes message) room) pending
      | [] =>
          if (net.peers n).phase = .closed then
            let recv := if reset then Recv.error else Recv.bytes []
            { net with server := (net.server.apply host (.readable fd recv room)).server }
          else
            net

/-- A connection is accepted, if there is a slot for it. -/
def accept (host : ByteOrder) (net : Network) (fd : Int) (addr : SockAddr) (udpPort : UInt16) :
    Network :=
  match net.server.freeSlot with
  | none => net
  | some _ =>
      { server := (net.server.apply host (.accept fd addr)).server
        peers := Function.update net.peers (net.server.accepted + 1)
          (Peer.arrived fd addr udpPort) }

def apply (host : ByteOrder) (sha256 : Bytes → HashBytes) (net : Network) :
    NetworkAction → Network
  | .accept fd addr udpPort => net.accept host fd addr udpPort
  | .serve fd room reset => net.serve host fd room reset
  | .register n => net.setPeer n ((net.peers n).register host)
  | .command n command => net.setPeer n ((net.peers n).command host sha256 command)
  | .read n room => net.setPeer n ((net.peers n).read host room)
  | .fetched n success => net.setPeer n ((net.peers n).fetched host success)
  | .disconnect n arriving => net.setPeer n ((net.peers n).disconnect arriving)

/-- `accept` returns an open descriptor that is new, and the slot it goes to
holds no connection of a client that is still there. -/
def Allows (net : Network) : NetworkAction → Prop
  | .accept fd _ _ =>
      0 < fd ∧ (∀ i, (net.server.clients i).fd ≠ fd) ∧
        ∀ i, net.server.freeSlot = some i →
          (net.server.clients i).fd ≤ 0 ∨
            (net.peers (net.server.clients i).conn).phase = .closed
  | _ => True

instance (net : Network) : (action : NetworkAction) → Decidable (net.Allows action)
  | .accept fd _ _ =>
      inferInstanceAs (Decidable (0 < fd ∧ (∀ i, (net.server.clients i).fd ≠ fd) ∧
        ∀ i, net.server.freeSlot = some i →
          (net.server.clients i).fd ≤ 0 ∨
            (net.peers (net.server.clients i).conn).phase = .closed))
  | .serve _ _ _ => isTrue trivial
  | .register _ => isTrue trivial
  | .command _ _ => isTrue trivial
  | .read _ _ => isTrue trivial
  | .fetched _ _ => isTrue trivial
  | .disconnect _ _ => isTrue trivial

end Network

def NetworkStep (host : ByteOrder) (sha256 : Bytes → HashBytes) (net : Network)
    (action : NetworkAction) (net' : Network) : Prop :=
  net.Allows action ∧ net' = net.apply host sha256 action

end Directory
end PeerShare
