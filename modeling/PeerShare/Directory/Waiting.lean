import Mathlib.Data.List.GetD
import PeerShare.Directory.Segmentation
import PeerShare.Directory.Streams

/-!
# Waiting for an answer on a stream

A client sends one message and waits.  The server takes the message in pieces,
as TCP delivers them, and a piece of a share can look like another message.  It
cannot look like the message it is a piece of: the first piece announces more
than there is, and every other piece is too short.  So whatever arrives instead
of the answer has another type, and the client gives up on it.
-/

namespace PeerShare
namespace Directory

open Foundation Wire Client

/-! ## A client that waits -/

/-- The stream starts with the header of another message than the one waited
for. -/
def Wrong (expected : UInt8) (inbox : Bytes) : Prop :=
  tcpHeaderSize ≤ inbox.length ∧ inbox.getD 0 0 ≠ expected

theorem Wrong.append {expected : UInt8} {inbox : Bytes} (h : Wrong expected inbox)
    (arrived : Bytes) : Wrong expected (inbox ++ arrived) := by
  obtain ⟨hlength, htype⟩ := h
  unfold tcpHeaderSize at hlength
  constructor
  · rw [List.length_append]
    unfold tcpHeaderSize
    omega
  · rwa [List.getD_append _ _ _ _ (by omega)]

/-- Where a message and its answer are while the client waits: `Genuine` tells
an answer to the message itself from anything else. -/
inductive Waiting (message : Bytes) (expected : UInt8) (Genuine : Bytes → Prop) :
    (stream inbox : Bytes) → Prop
  | asked : Waiting message expected Genuine message []
  /-- The server took a part of the message and made nothing of it. -/
  | cut {stream : Bytes} (hcut : stream.length < message.length) :
      Waiting message expected Genuine stream []
  | wrong {stream inbox : Bytes} (hcut : stream.length + tcpHeaderSize < message.length)
      (hwrong : Wrong expected inbox) : Waiting message expected Genuine stream inbox
  | answered {inbox : Bytes} (hgenuine : Genuine inbox) :
      Waiting message expected Genuine [] inbox

section Waiting

variable {message stream inbox : Bytes} {expected : UInt8} {Genuine : Bytes → Prop}

theorem Waiting.mono {Genuine' : Bytes → Prop} (h : Waiting message expected Genuine stream inbox)
    (himp : ∀ inbox, Genuine inbox → Genuine' inbox) :
    Waiting message expected Genuine' stream inbox := by
  cases h with
  | asked => exact .asked
  | cut hcut => exact .cut hcut
  | wrong hcut hwrong => exact .wrong hcut hwrong
  | answered hgenuine => exact .answered (himp _ hgenuine)

/-- What the server adds to the inbox when it has taken `data`: nothing, or an
answer that is the wrong one unless `data` is the whole message. -/
structure Arrives (message : Bytes) (expected : UInt8) (Genuine : Bytes → Prop)
    (data arrived : Bytes) : Prop where
  of_first : data <+: message → data ≠ message → arrived = []
  of_part : data.length < message.length →
    arrived = [] ∨ tcpHeaderSize ≤ data.length ∧ Wrong expected arrived
  of_message : data = message →
    arrived = [] ∨ Genuine arrived ∨ tcpHeaderSize < message.length ∧ Wrong expected arrived

/-- The wait goes on when the server takes the next bytes. -/
theorem Waiting.serve (h : Waiting message expected Genuine stream inbox) {data arrived : Bytes}
    (hmessage : message ≠ []) (hdata : data <+: stream)
    (harrives : Arrives message expected Genuine data arrived) :
    Waiting message expected Genuine (stream.drop data.length) (inbox ++ arrived) := by
  have hlength := hdata.length_le
  have hrest : (stream.drop data.length).length = stream.length - data.length :=
    List.length_drop
  cases h with
  | asked =>
      -- the whole message is answered; the first part of it is dropped
      by_cases hall : data = message
      · subst hall
        rw [List.drop_length, List.nil_append]
        rcases harrives.of_message rfl with hnone | hgenuine | ⟨hlong, hwrong⟩
        · rw [hnone]
          exact .cut (List.length_pos_iff.mpr hmessage)
        · exact .answered hgenuine
        · exact .wrong (by simpa using hlong) hwrong
      · rw [harrives.of_first hdata hall, List.append_nil]
        by_cases hnone : data = []
        · rw [hnone]
          exact .asked
        · have hpos := List.length_pos_iff.mpr hnone
          exact .cut (by omega)
  | cut hcut =>
      rw [List.nil_append]
      rcases harrives.of_part (by omega) with hnone | ⟨hheader, hwrong⟩
      · rw [hnone]
        exact .cut (by omega)
      · exact .wrong (by omega) hwrong
  | wrong hcut hwrong => exact .wrong (by omega) (hwrong.append arrived)
  | answered hgenuine =>
      -- nothing is on its way to the server, so nothing was taken
      have hnone : data = [] := List.prefix_nil.mp hdata
      subst hnone
      rw [harrives.of_first (List.nil_prefix) hmessage.symm, List.append_nil]
      exact .answered hgenuine

end Waiting

/-! ## Pieces of a message at the server -/

section Pieces

variable {host : ByteOrder} {data : Bytes}

theorem ofImage_append (hlength : tcpHeaderSize ≤ data.length) (rest : Bytes) :
    TcpHeader.ofImage host (data ++ rest) = TcpHeader.ofImage host data := by
  unfold tcpHeaderSize at hlength
  have hfield : fieldAt host (data ++ rest) 2 2 = fieldAt host data 2 2 := by
    rw [fieldAt, fieldAt, List.drop_append_of_le_length (by omega),
      List.take_append_of_le_length (by rw [List.length_drop]; omega)]
  simp only [TcpHeader.ofImage, hfield]
  rw [List.getD_append _ _ _ _ (by omega), List.getD_append _ _ _ _ (by omega)]

/-- The first part of a message is not taken for a message: its header announces
more than there is. -/
theorem readMessage_first_part {msgType errorCode : UInt8} {payload : Bytes}
    (hfits : payload.length < 2 ^ 16)
    (hdata : data <+: controlMessage host msgType errorCode payload)
    (hpart : data ≠ controlMessage host msgType errorCode payload) :
    readMessage host data = none := by
  obtain ⟨rest, hrest⟩ := hdata
  unfold readMessage
  split
  · rfl
  · next hlength =>
      have hdr := ofImage_controlMessage host msgType errorCode payload
      rw [← hrest, ofImage_append (not_lt.mp hlength)] at hdr
      have hannounced := dataLen_controlMessage host hfits
      simp only [hdr, hannounced]
      rw [if_pos]
      -- the header announces the whole message, so nothing is missing
      intro hsame
      have htotal := congrArg List.length hrest
      rw [controlMessage_length, List.length_append] at htotal
      have hnil : rest = [] := List.length_eq_zero_iff.mp (by omega)
      rw [hnil, List.append_nil] at hrest
      exact hpart hrest

variable {server : Server} {i : Fin maxClients}

/-- A handler answers once or not at all. -/
theorem handle_reply (host : ByteOrder) (server : Server) (i : Fin maxClients)
    (message : ClientMessage) (room : Bool) :
    (server.handle host i message room).replies = [] ∨
      ∃ answer, (server.handle host i message room).replies = [⟨(server.clients i).fd, answer⟩] ∧
        tcpHeaderSize ≤ answer.length ∧ requestSize answer = message.wireSize := by
  by_cases hother : message = .unregister
  · left
    rw [hother]
    rfl
  · by_cases hroom : message = .listFiles → room = true
    · exact Or.inr (handle_replies hother hroom)
    · left
      rw [Classical.not_imp] at hroom
      rw [hroom.1, Bool.not_eq_true _ |>.mp hroom.2]
      rfl

/-- What a readable socket brings into the inbox of the client on it. -/
def arrivals (host : ByteOrder) (server : Server) (fd : Int) (recv : Recv) (room : Bool)
    (peer : Peer) : Bytes :=
  ((server.apply host (.readable fd recv room)).replies.filter fun reply =>
    reply.fd = peer.fd).flatMap Reply.bytes

variable {fd : Int} {room : Bool} {peer : Peer}

/-- Nothing arrives, or the answer of the handler that `data` was taken for. -/
theorem arrivals_cases (hfind : server.findClientByFd fd = some i) :
    arrivals host server fd (.bytes data) room peer = [] ∨
      ∃ message, readMessage host data = some message ∧
        (server.handle host i message room).replies =
          [⟨(server.clients i).fd, arrivals host server fd (.bytes data) room peer⟩] ∧
        tcpHeaderSize ≤ (arrivals host server fd (.bytes data) room peer).length ∧
        requestSize (arrivals host server fd (.bytes data) room peer) = message.wireSize := by
  cases hmessage : readMessage host data with
  | none =>
      left
      cases data with
      | nil => simp [arrivals, Server.apply, Server.receive, hfind]
      | cons byte data =>
          simp [arrivals, Server.apply, Server.receive, hfind, Server.processClientMessage,
            hmessage]
  | some message =>
      rw [arrivals, apply_readable hfind hmessage]
      rcases handle_reply host server i message room with
        hnone | ⟨answer, hreplies, hlength, hsize⟩
      · left
        rw [hnone]
        rfl
      -- the answer goes to the descriptor of the slot
      · by_cases hfd : (server.clients i).fd = peer.fd
        · right
          have hone : (((server.handle host i message room).replies.filter fun reply =>
              reply.fd = peer.fd).flatMap Reply.bytes) = answer := by
            simp [hreplies, hfd]
          rw [hone]
          exact ⟨message, rfl, hreplies, hlength, hsize⟩
        · left
          simp [hreplies, hfd]

/-- When the server takes bytes of a message, what arrives is as a waiting client
needs it; it is left to see how the handler answers the message itself. -/
theorem arrives_of_handler {msgType expected : UInt8} {payload : Bytes} {Genuine : Bytes → Prop}
    {message : ClientMessage} (hfind : server.findClientByFd fd = some i)
    (hfits : payload.length < 2 ^ 16)
    (hread : readMessage host (controlMessage host msgType errNone payload) = some message)
    (hexpected : ∀ answer : Bytes, answer.getD 0 0 = expected →
      requestSize answer = tcpHeaderSize + payload.length)
    (hanswer : data = controlMessage host msgType errNone payload →
      ∀ answer, (server.handle host i message room).replies =
          [⟨(server.clients i).fd, answer⟩] →
        Genuine answer ∨ 0 < payload.length ∧ answer.getD 0 0 ≠ expected) :
    Arrives (controlMessage host msgType errNone payload) expected Genuine data
      (arrivals host server fd (.bytes data) room peer) := by
  have hlength := controlMessage_length host msgType errNone payload
  constructor
  · intro hdata hpart
    rcases arrivals_cases hfind with hnone | ⟨other, hother, -⟩
    · exact hnone
    · rw [readMessage_first_part hfits hdata hpart] at hother
      cases hother
  · intro hshort
    rcases arrivals_cases hfind with hnone | ⟨other, hother, -, hheader, hsize⟩
    · exact Or.inl hnone
    · -- the answer is for a message that fits into `data`, which this one does not
      have hfit := wireSize_le_of_readMessage hother
      have hleast : tcpHeaderSize ≤ other.wireSize := by
        cases other <;> simp [ClientMessage.wireSize]
      refine Or.inr ⟨le_trans hleast hfit, hheader, ?_⟩
      intro htype
      have hsame := hexpected _ htype
      omega
  · rintro rfl
    rcases arrivals_cases hfind with hnone | ⟨other, hother, hreplies, hheader, -⟩
    · exact Or.inl hnone
    · rw [hread] at hother
      cases hother
      rcases hanswer rfl _ hreplies with hgenuine | ⟨hpos, htype⟩
      · exact Or.inr (Or.inl hgenuine)
      · exact Or.inr (Or.inr ⟨by omega, hheader, htype⟩)

end Pieces

/-- The wrong answer makes a read fail. -/
theorem readReply_wrong {host : ByteOrder} {expected : UInt8} {inbox : Bytes}
    (h : Wrong expected inbox) (size : Nat) : readReply host expected size inbox = .failed := by
  have htype : (TcpHeader.ofImage host inbox).msgType ≠ expected := h.2
  unfold readReply
  rw [if_neg (not_lt.mpr h.1), if_pos htype]
  split <;> rfl

/-! ## The lengths of the requests -/

section Lengths

variable (host : ByteOrder)

theorem controlMessage_ne_nil (msgType errorCode : UInt8) (payload : Bytes) :
    controlMessage host msgType errorCode payload ≠ [] := by
  apply List.ne_nil_of_length_pos
  rw [controlMessage_length]
  exact Nat.add_pos_left (Nat.zero_lt_succ 3) _

theorem shareMessage_length (share : ShareFile) :
    (shareMessage host share).length = tcpHeaderSize + tcpShareFileSize := by
  rw [shareMessage, controlMessage_length, ShareFile.image_length]

/-- Every other request is shorter than a share. -/
theorem registerMessage_short (udpPort : UInt16) :
    (registerMessage host udpPort).length < tcpHeaderSize + tcpShareFileSize := by
  rw [registerMessage, controlMessage_length, registerImage, storeWord_length]
  norm_num [tcpShareFileSize]

theorem listMessage_short :
    (listMessage host).length < tcpHeaderSize + tcpShareFileSize := by
  rw [listMessage, controlMessage_length, List.length_nil]
  norm_num [tcpShareFileSize]

theorem requestMessage_short (fileId : Nat) :
    (requestMessage host fileId).length < tcpHeaderSize + tcpShareFileSize := by
  rw [requestMessage, controlMessage_length, idImage, storeWord_length]
  norm_num [tcpShareFileSize]

end Lengths

end Directory
end PeerShare
