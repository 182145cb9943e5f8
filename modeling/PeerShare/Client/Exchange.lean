import PeerShare.Client.RunningTransfer

/-!
# One owner and the peers that download from it

The owner's loop, any number of peers running `get`, and the datagrams between
them.  A datagram in flight may be delivered at any time and any number of
times, and may be lost.  Delivery is by position, so that a run can name the
datagram it delivers.

Transfers are numbered by the datagram that requested them.  The numbers, and
the record of what each peer has stored, are bookkeeping: no part of the
program sees them, and that is the point.  A `UDP_DATA` or `UDP_ACK` on the wire
carries no trace of the transfer it belongs to.
-/

namespace PeerShare
namespace Client

open Foundation Wire SelectiveRepeat

/-- A datagram in flight: the peer's end of it and the transfer it belongs to. -/
structure Flying where
  peer : SockAddr
  bytes : Bytes
  transfer : Nat
  deriving DecidableEq

/-- `peer` has stored `payload` as chunk `chunk` of `transfer`. -/
structure StoredChunk where
  peer : SockAddr
  transfer : Nat
  chunk : Nat
  payload : Bytes
  deriving DecidableEq

/-- A running `get`; `transfer` is that of the announcement it accepted. -/
structure Session where
  location : FileLocation
  env : GetEnv
  state : GetState
  transfer : Nat

structure Exchange where
  owner : Owner
  peers : SockAddr → Option Session
  toOwner : List Flying
  toPeers : List Flying
  received : Nat
  current : Nat
  stored : List StoredChunk

def Exchange.initial : Exchange where
  owner := Owner.initial
  peers := fun _ => none
  toOwner := []
  toPeers := []
  received := 0
  current := 0
  stored := []

inductive ExchangeAction where
  | share (fileId fileSize : Nat) (hash : HashBytes) (filename : Bytes)
  | startGet (peer : SockAddr) (location : FileLocation) (env : GetEnv)
  | ownerReceives (index : Nat) (env : RequestEnv) (now : UInt64)
  | ownerDrives (sendNow scanNow : UInt64)
  | peerReceives (index : Nat)
  | loseToOwner (index : Nat)
  | loseToPeers (index : Nat)

/-- The datagram has the type `msgType` for whoever casts it to a header. -/
def HasType (host : ByteOrder) (packet : Datagram) (msgType : UInt8) : Prop :=
  (UdpHeader.ofImage host packet.bytes).msgType = msgType

instance (host : ByteOrder) (packet : Datagram) (msgType : UInt8) :
    Decidable (HasType host packet msgType) :=
  inferInstanceAs (Decidable (_ = _))

/-- The chunk and payload a receiver stores from a datagram, if it stores one. -/
def storedNow (host : ByteOrder) (receiver : Receiver) (packet : Datagram) :
    Option (Nat × Bytes) :=
  (accepts host receiver packet.bytes).filter fun chunk =>
    storesChunk host receiver packet.bytes = some chunk.1

namespace Exchange

/-- The owner takes one datagram from its socket.  It starts a new transfer
exactly when a request branch does not end in `continue`. -/
def ownerReceive (host : ByteOrder) (link : LossyLink) (s : Exchange) (flying : Flying)
    (env : RequestEnv) (now : UInt64) : Exchange :=
  let packet := Datagram.recv flying.bytes
  let result := receiveDatagram host link s.owner (some (flying.peer, packet)) env now
  { s with
    owner := result.owner
    toPeers := s.toPeers ++ result.sent.map fun item => ⟨item.1, item.2, s.received + 1⟩
    received := s.received + 1
    current :=
      if HasType host packet udpRequestFile ∧ result.continued = false then
        s.received + 1
      else
        s.current }

/-- A peer with a running `get` takes one datagram of the owner from its
socket. -/
def peerReceive (host : ByteOrder) (ownerAddr : SockAddr) (s : Exchange) (flying : Flying)
    (session : Session) : Exchange :=
  let packet := Datagram.recv flying.bytes
  let step := getReceive host session.env session.location session.state
    (some (ownerAddr, packet))
  { s with
    peers := Function.update s.peers flying.peer
      (some
        { session with
          state := step.state
          transfer :=
            match session.state with
            | .awaitingStart => flying.transfer
            | _ => session.transfer })
    toOwner := s.toOwner ++ step.acks.map fun ack => ⟨flying.peer, ack, session.transfer⟩
    stored := s.stored ++
      match session.state with
      | .receiving receiver =>
          if ownerAddr = session.location.peer then
            (storedNow host receiver packet).toList.map fun chunk =>
              ⟨flying.peer, session.transfer, chunk.1, chunk.2⟩
          else
            []
      | _ => [] }

/-- The transitions.  An action that does not apply changes nothing. -/
def apply (host : ByteOrder) (link : LossyLink) (ownerAddr : SockAddr) (s : Exchange) :
    ExchangeAction → Exchange
  | .share fileId fileSize hash filename =>
      { s with
        owner := (s.owner.apply host link (.shared fileId fileSize hash filename)).owner }
  | .startGet peer location env =>
      -- also in place of an earlier one: a peer may have been restarted
      { s with
        peers := Function.update s.peers peer (some ⟨location, env, .awaitingStart, 0⟩)
        toOwner :=
          if location.peer = ownerAddr then
            s.toOwner ++ [⟨peer, buildRequestFile host location.fileId location.hash, 0⟩]
          else
            s.toOwner }
  | .ownerReceives index env now =>
      match s.toOwner[index]? with
      | none => s
      | some flying => s.ownerReceive host link flying env now
  | .ownerDrives sendNow scanNow =>
      let result := drive host s.owner sendNow scanNow
      { s with
        owner := result.owner
        toPeers := s.toPeers ++ result.sent.map fun item => ⟨item.1, item.2, s.current⟩ }
  | .peerReceives index =>
      match s.toPeers[index]? with
      | none => s
      | some flying =>
          match s.peers flying.peer with
          | none => s
          | some session => s.peerReceive host ownerAddr flying session
  | .loseToOwner index => { s with toOwner := s.toOwner.eraseIdx index }
  | .loseToPeers index => { s with toPeers := s.toPeers.eraseIdx index }

end Exchange

def ExchangeStep (host : ByteOrder) (link : LossyLink) (ownerAddr : SockAddr) (s : Exchange)
    (action : ExchangeAction) (t : Exchange) : Prop :=
  t = s.apply host link ownerAddr action

/-- The chunk is marked as acknowledged in its slot, or the window has slid past
it. -/
def Marked (sender : Sender) (k : Nat) : Prop :=
  k < sender.base ∨ sender.base ≤ k ∧ k < sender.nextSeq ∧
    (sender.window.read k).state = .acked ∧ (sender.window.read k).seqNum = k

/-- Chunk `k` of the file the sender is sending. -/
def sentChunk (sender : Sender) (k : Nat) : Bytes :=
  ((sender.fileData.take sender.fileSize).drop (k * chunkSize)).take chunkSize

/-- No datagram of one transfer is taken for one of another: an acknowledgement
that names a pending chunk comes from the peer being served and belongs to the
current transfer, and data reaches a receiver of its own transfer. -/
def Orderly (host : ByteOrder) (s : Exchange) : ExchangeAction → Prop
  | .ownerReceives index _ _ =>
      ∀ flying, s.toOwner[index]? = some flying →
        s.owner.transferActive = true →
        HasType host (Datagram.recv flying.bytes) udpAck →
        flying.peer = s.owner.globalSender.peerAddr ∧ flying.transfer = s.current ∨
          ackCounted host s.owner.globalSender
            (UdpHeader.ofImage host (Datagram.recv flying.bytes).bytes) = none
  | .peerReceives index =>
      ∀ flying session receiver, s.toPeers[index]? = some flying →
        s.peers flying.peer = some session → session.state = .receiving receiver →
        HasType host (Datagram.recv flying.bytes) udpData →
        flying.transfer = session.transfer
  | _ => True

def OrderlyStep (host : ByteOrder) (link : LossyLink) (ownerAddr : SockAddr) (s : Exchange)
    (action : ExchangeAction) (t : Exchange) : Prop :=
  ExchangeStep host link ownerAddr s action t ∧ Orderly host s action

end Client
end PeerShare
