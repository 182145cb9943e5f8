import PeerShare.Client.StreamLoops

/-!
# The client process

`main` of `client.c` from `connect` on.  It registers with loops of its own, enters the
loop that runs commands and serves datagrams, and leaves that loop when a command has
stopped it or when `poll` fails.

An exchange whose answer has not arrived whole is a state too: the request has been sent,
and nothing more happens until more arrives.
-/

namespace PeerShare
namespace Client

open Foundation Wire

/-- Where `main` stands; `ended` has its return value. -/
inductive MainPhase where
  | connected
  | looping
  | waiting
  | ended (code : Int)
  deriving DecidableEq

/-- The process: its place in `main`, the number that the server gave it, and what the
commands work on. -/
structure ClientProcess where
  phase : MainPhase
  clientId : Nat
  session : CommandSession

/-- What happens to the process.  A registration and a command come with the pieces that
have arrived since the last exchange. -/
inductive ProcessEvent where
  | register (arrived : SegmentedStream UInt8)
  | command (arrived : SegmentedStream UInt8) (env : CommandEnv) (line : Bytes)
  | udp (event : OwnerEvent)
  | leave

/-- What has arrived from the server, taken together. -/
def ProcessEvent.arrived : ProcessEvent → Bytes
  | .register arrived => arrived.flatten
  | .command arrived _ _ => arrived.flatten
  | _ => []

/-- The stream from the server goes on. -/
def ProcessEvent.StaysOpen : ProcessEvent → Prop
  | .register arrived => arrived.ending = .waiting
  | .command arrived _ _ => arrived.ending = .waiting
  | _ => True

namespace ClientProcess

/-- Behind `connect`. -/
def connected (conn : Connection) : ClientProcess where
  phase := .connected
  clientId := 0
  session := ⟨⟨true, Owner.initial⟩, conn⟩

variable (host : ByteOrder)

/-- The registration, up to the loop: every failure closes both sockets and returns 1. -/
def register (udpPort : UInt16) (p : ClientProcess) (arrived : SegmentedStream UInt8) :
    ClientProcess × List Bytes :=
  let written := p.session.conn.path.write (registerMessage host udpPort)
  let asked : Connection := ⟨written.path, p.session.conn.stream.append arrived⟩
  let session := { p.session with conn := asked }
  if written.whole = false then
    ({ p with phase := .ended 1, session := session }, [written.sent])
  else
    match readReplyLoops host tcpRegisterAck tcpRegisterAckSize asked.stream with
    | .blocked => ({ p with phase := .waiting, session := session }, [written.sent])
    | .failed => ({ p with phase := .ended 1, session := session }, [written.sent])
    | .done (body, rest) =>
        ({ phase := .looping
           clientId := readId host body
           session := { session with conn := { asked with stream := rest } } }, [written.sent])

/-- A command of the loop. -/
def command (p : ClientProcess) (arrived : SegmentedStream UInt8) (env : CommandEnv)
    (line : Bytes) : ClientProcess × List Bytes :=
  let round := p.session.round host ⟨id, arrived, env, line⟩
  ({ p with
      phase := if round.result.returned then .looping else .waiting
      session := ⟨round.result.client, round.conn⟩ }, round.result.sent)

/-- What the event makes of the process, and the messages it sends to the server. -/
def apply (link : LossyLink) (udpPort : UInt16) (p : ClientProcess) :
    ProcessEvent → ClientProcess × List Bytes
  | .register arrived => p.register host udpPort arrived
  | .command arrived env line => p.command host arrived env line
  | .udp event =>
      let client :=
        { p.session.client with owner := (p.session.client.owner.apply host link event).owner }
      ({ p with session := { p.session with client := client } }, [])
  | .leave => ({ p with phase := .ended 0 }, [])

/-- `main` registers once, and the loop reads no command once `running` is cleared.  A file
is shared by a command only, and a digest is always that of `compute_sha256`. -/
def Allows (sha256 : Bytes → HashBytes) (p : ClientProcess) : ProcessEvent → Prop
  | .register _ => p.phase = .connected
  | .command _ env _ =>
      p.phase = .looping ∧ p.session.client.running = true ∧ env.getEnv.sha256 = sha256
  | .udp (.shared _ _ _ _) => False
  | .udp _ => p.phase = .looping
  | .leave => p.phase = .looping

end ClientProcess

/-- A step of the process, labelled with the messages it sends. -/
def ProcessStep (host : ByteOrder) (sha256 : Bytes → HashBytes) (link : LossyLink)
    (udpPort : UInt16) (p : ClientProcess) (label : ProcessEvent × List Bytes)
    (p' : ClientProcess) : Prop :=
  p.Allows sha256 label.1 ∧ (p', label.2) = p.apply host link udpPort label.1

/-- A step of the process during which the server does not hang up. -/
def HeldStep (host : ByteOrder) (sha256 : Bytes → HashBytes) (link : LossyLink)
    (udpPort : UInt16) (p : ClientProcess) (label : ProcessEvent × List Bytes)
    (p' : ClientProcess) : Prop :=
  ProcessStep host sha256 link udpPort p label p' ∧ label.1.StaysOpen

end Client
end PeerShare
