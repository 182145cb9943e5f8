import PeerShare.Client.GetRun
import PeerShare.Client.OwnerLoop

/-!
# Downloads in a circle

`get` keeps the whole client busy: while it waits for its own file, the main loop does not
run and no request is served.  The requests that arrive meanwhile are not kept for later
either.  They come in on the same socket, and `get` takes the first of them for the
announcement it is waiting for.

So when clients fetch from each other, no two from the same one, every request ends the
`get` it reaches, and none of them is ever served.  With two clients both `get` return 0,
as after a download that went well; in a longer circle they return 1.
-/

namespace PeerShare
namespace Client

open Foundation Wire SelectiveRepeat

/-- The clients: where each is reached, what it fetches and the surroundings of its `get`. -/
structure Circle (n : Nat) where
  addr : Fin n → SockAddr
  location : Fin n → FileLocation
  env : Fin n → GetEnv

/-- The clients at work, and the datagrams on their way to each, with their sources. -/
structure CircleState (n : Nat) where
  owner : Fin n → Owner
  get : Fin n → GetState
  inbox : Fin n → List (SockAddr × Bytes)

inductive CircleAction (n : Nat) where
  | receive (i : Fin n) (index : Nat) (request : RequestEnv) (now : UInt64)
  | drive (i : Fin n) (sendNow scanNow : UInt64)
  | lose (i : Fin n) (index : Nat)

namespace Circle

variable {n : Nat} (host : ByteOrder) (link : LossyLink) (circle : Circle n)

/-- The request client `i` has sent. -/
def request (i : Fin n) : Bytes :=
  buildRequestFile host (circle.location i).fileId (circle.location i).hash

/-- All clients have sent their requests and wait. -/
def start (owners : Fin n → Owner) : CircleState n where
  owner := owners
  get := fun _ => .awaitingStart
  inbox := fun i =>
    ((List.finRange n).filter fun j => (circle.location j).peer = circle.addr i).map
      fun j => (circle.addr j, circle.request host j)

/-- Datagrams of `source` are under way. -/
def post (s : CircleState n) (source : SockAddr) (sent : List (SockAddr × Bytes)) :
    CircleState n :=
  { s with
    inbox := fun i =>
      s.inbox i ++ (sent.filter fun item => item.1 = circle.addr i).map fun item =>
        (source, item.2) }

/-- Client `i` takes a datagram from its socket, inside `get` or in its main loop.  A
client whose `get` has failed has ended. -/
def receive (s : CircleState n) (i : Fin n) (source : SockAddr) (bytes : Bytes)
    (request : RequestEnv) (now : UInt64) : CircleState n :=
  match s.get i with
  | .finished result =>
      if result.code = 0 then
        let handled := receiveDatagram host link (s.owner i) (some (source, Datagram.recv bytes))
          request now
        circle.post { s with owner := Function.update s.owner i handled.owner } (circle.addr i)
          handled.sent
      else
        s
  | running =>
      let step := getReceive host (circle.env i) (circle.location i) running
        (some (source, Datagram.recv bytes))
      circle.post { s with get := Function.update s.get i step.state } (circle.addr i)
        (step.acks.map fun ack => ((circle.location i).peer, ack))

/-- The driver of client `i`, outside `get`. -/
def drive (s : CircleState n) (i : Fin n) (sendNow scanNow : UInt64) : CircleState n :=
  match s.get i with
  | .finished result =>
      if result.code = 0 then
        let driven := Client.drive host (s.owner i) sendNow scanNow
        circle.post { s with owner := Function.update s.owner i driven.owner } (circle.addr i)
          driven.sent
      else
        s
  | _ => s

/-- Take a datagram out of flight. -/
def dropped (s : CircleState n) (i : Fin n) (index : Nat) : CircleState n :=
  { s with inbox := Function.update s.inbox i ((s.inbox i).eraseIdx index) }

/-- The transitions.  A datagram arrives at most once, in any order. -/
def apply (s : CircleState n) : CircleAction n → CircleState n
  | .receive i index request now =>
      match (s.inbox i)[index]? with
      | none => s
      | some (source, bytes) =>
          circle.receive host link (dropped s i index) i source bytes request now
  | .drive i sendNow scanNow => circle.drive host s i sendNow scanNow
  | .lose i index => dropped s i index

end Circle

def CircleStep {n : Nat} (host : ByteOrder) (link : LossyLink) (circle : Circle n)
    (s : CircleState n) (action : CircleAction n) (s' : CircleState n) : Prop :=
  s' = circle.apply host link s action

/-! ## A request in the place of the announcement -/

section Misplaced

variable {host : ByteOrder}

/-- The checks of `get` on a request. -/
theorem receiveFileStart_request (location : FileLocation) (source : SockAddr) (fileId : Nat)
    (hash : HashBytes) :
    receiveFileStart host location
        (some (source, Datagram.recv (buildRequestFile host fileId hash))) =
      .error (if source ≠ location.peer then .unexpectedSender else .notFileStart) := by
  have hlength :
      (buildRequestFile host fileId hash).length = udpHeaderSize + udpRequestFileSize := by
    simp [buildRequestFile, hash.length_eq, udpRequestFileSize]
  have hwhole : (Datagram.recv (buildRequestFile host fileId hash)).bytes =
      buildRequestFile host fileId hash :=
    Datagram.recv_bytes (by rw [hlength]; decide)
  have hheader := ofImage_sealPacket host (requestHeader host)
    (storeWord host 4 (hton host 4 fileId) ++ hash.bytes) (requestHeader_inRange host)
  have hzeroed := setChecksum_sealPacket host (requestHeader host)
    (storeWord host 4 (hton host 4 fileId) ++ hash.bytes) rfl
  have hdataLen : ntoh host 2 (requestHeader host).dataLen = udpRequestFileSize := by
    simp [requestHeader, udpRequestFileSize]
  unfold receiveFileStart
  simp only [hwhole, hlength]
  rw [buildRequestFile, hheader, hzeroed]
  simp only [hdataLen]
  by_cases hsource : source = location.peer
  · simp [verifyChecksum, hsource, requestHeader, udpRequestFile, udpFileStart]
  · simp [verifyChecksum, hsource]

/-- The value `get` returns on a request from `source`. -/
def misplacedCode (location : FileLocation) (source : SockAddr) : Int :=
  if source = location.peer then 0 else 1

/-- A request ends the `get` it reaches. -/
theorem getReceive_request (env : GetEnv) (location : FileLocation) (source : SockAddr)
    (fileId : Nat) (hash : HashBytes) :
    getReceive host env location .awaitingStart
        (some (source, Datagram.recv (buildRequestFile host fileId hash))) =
      ⟨.finished ⟨misplacedCode location source, none⟩, [], []⟩ := by
  simp only [getReceive, receiveFileStart_request, misplacedCode]
  by_cases hsource : source = location.peer
  · simp [hsource, StartRefusal.returnCode]
  · simp [hsource, StartRefusal.returnCode]

end Misplaced

/-! ## No request is served -/

/-- Client `i` waits, with the one request for its files at most on its way, or that
request has ended its `get`. -/
inductive Placed {n : Nat} (host : ByteOrder) (circle : Circle n) (s : CircleState n) (i : Fin n) :
    Prop
  | waiting (hget : s.get i = .awaitingStart)
      (hinbox : s.inbox i = [] ∨ ∃ j, (circle.location j).peer = circle.addr i ∧
        s.inbox i = [(circle.addr j, circle.request host j)])
  | ended (j : Fin n) (hsource : (circle.location j).peer = circle.addr i)
      (hget : s.get i = .finished ⟨misplacedCode (circle.location i) (circle.addr j), none⟩)
      (hinbox : s.inbox i = [])

/-- No owner has moved. -/
structure CircleInv {n : Nat} (host : ByteOrder) (circle : Circle n) (owners : Fin n → Owner)
    (s : CircleState n) : Prop where
  owner : s.owner = owners
  placed : ∀ i, Placed host circle s i

section Steps

variable {n : Nat} {host : ByteOrder} {link : LossyLink} {circle : Circle n}
  {owners : Fin n → Owner} {s s' : CircleState n}

theorem post_nil (source : SockAddr) : circle.post s source [] = s := by
  simp only [Circle.post, List.filter_nil, List.map_nil, List.append_nil]

/-- What is on its way to the others does not matter. -/
theorem Placed.congr {i : Fin n} (h : Placed host circle s i) (hget : s'.get i = s.get i)
    (hinbox : s'.inbox i = s.inbox i) : Placed host circle s' i := by
  cases h with
  | waiting hwaiting hsent => exact .waiting (hget.trans hwaiting) (hinbox ▸ hsent)
  | ended j hsource hended hempty =>
      exact .ended j hsource (hget.trans hended) (hinbox.trans hempty)

/-- When no two fetch from the same client, one request at most is on its way to each. -/
theorem circleInv_start
    (hdistinct : ∀ i j, (circle.location i).peer = (circle.location j).peer → i = j) :
    CircleInv host circle owners (circle.start host owners) where
  owner := rfl
  placed := by
    intro i
    refine .waiting rfl ?_
    have hnodup : ((List.finRange n).filter fun j =>
        decide ((circle.location j).peer = circle.addr i)).Nodup :=
      (List.nodup_finRange n).filter _
    simp only [Circle.start]
    cases hasking : (List.finRange n).filter fun j =>
        decide ((circle.location j).peer = circle.addr i) with
    | nil => exact Or.inl rfl
    | cons j others =>
        have hmem : ∀ k ∈ j :: others, (circle.location k).peer = circle.addr i := by
          intro k hk
          rw [← hasking, List.mem_filter, decide_eq_true_eq] at hk
          exact hk.2
        have hj := hmem j List.mem_cons_self
        have hnone : others = [] := by
          rw [List.eq_nil_iff_forall_not_mem]
          intro k hk
          have hsame := hdistinct k j ((hmem k (List.mem_cons_of_mem _ hk)).trans hj.symm)
          rw [hasking, List.nodup_cons] at hnodup
          exact hnodup.1 (hsame ▸ hk)
        exact Or.inr ⟨j, hj, by rw [hnone]; rfl⟩

/-- A datagram that is lost. -/
theorem CircleInv.dropped (h : CircleInv host circle owners s) (i : Fin n) (index : Nat) :
    CircleInv host circle owners (Circle.dropped s i index) where
  owner := h.owner
  placed := by
    intro k
    by_cases hk : k = i
    · subst hk
      have hself : (Circle.dropped s k index).inbox k = (s.inbox k).eraseIdx index :=
        Function.update_self ..
      cases h.placed k with
      | waiting hget hinbox =>
          refine .waiting hget ?_
          rw [hself]
          rcases hinbox with hempty | ⟨j, hsource, hone⟩
          · left
            rw [hempty, List.eraseIdx_nil]
          · rw [hone]
            cases index with
            | zero => exact Or.inl rfl
            | succ index => exact Or.inr ⟨j, hsource, by rfl⟩
      | ended j hsource hget hempty =>
          exact .ended j hsource hget (by rw [hself, hempty, List.eraseIdx_nil])
    · exact (h.placed k).congr rfl (Function.update_of_ne hk ..)

/-- A request reaches the `get` of a client. -/
theorem CircleInv.receive (h : CircleInv host circle owners s) {i : Fin n} {index : Nat}
    {source : SockAddr} {bytes : Bytes} (hpacket : (s.inbox i)[index]? = some (source, bytes))
    (request : RequestEnv) (now : UInt64) :
    CircleInv host circle owners
      (circle.receive host link (Circle.dropped s i index) i source bytes request now) := by
  have hdropped := h.dropped i index
  cases h.placed i with
  | ended j hsource hget hempty =>
      rw [hempty] at hpacket
      cases hpacket
  | waiting hget hinbox =>
      rcases hinbox with hempty | ⟨j, hsource, hone⟩
      · rw [hempty] at hpacket
        cases hpacket
      · cases index with
        | succ index =>
            rw [hone] at hpacket
            cases hpacket
        | zero =>
            rw [hone] at hpacket
            obtain ⟨rfl, rfl⟩ := Prod.mk.inj (Option.some.inj hpacket)
            have hwaiting : (Circle.dropped s i 0).get i = .awaitingStart := hget
            have hinbox' : (Circle.dropped s i 0).inbox i = [] := by
              simp only [Circle.dropped, Function.update_self, hone, List.eraseIdx_cons_zero]
            simp only [Circle.receive, hwaiting, Circle.request, getReceive_request, List.map_nil,
              post_nil]
            refine ⟨hdropped.owner, ?_⟩
            intro k
            by_cases hk : k = i
            · subst hk
              exact .ended j hsource (Function.update_self ..) hinbox'
            · exact (hdropped.placed k).congr (Function.update_of_ne hk ..) rfl

/-- An owner without a transfer has nothing to drive. -/
theorem CircleInv.drive (h : CircleInv host circle owners s)
    (hidle : ∀ i, (owners i).transferActive = false) (i : Fin n) (sendNow scanNow : UInt64) :
    circle.drive host s i sendNow scanNow = s := by
  have howner : (s.owner i).transferActive = false := by
    rw [h.owner]
    exact hidle i
  have hnothing : Client.drive host (s.owner i) sendNow scanNow = ⟨s.owner i, [], false⟩ := by
    rw [Client.drive, if_neg (by rw [howner]; exact Bool.false_ne_true)]
  cases h.placed i with
  | waiting hget hinbox => simp only [Circle.drive, hget]
  | ended j hsource hget hinbox =>
      simp only [Circle.drive, hget]
      split
      · rw [hnothing, Function.update_eq_self]
        exact post_nil _
      · rfl

theorem circleInv_step {action : CircleAction n} (hidle : ∀ i, (owners i).transferActive = false)
    (h : CircleInv host circle owners s) (hstep : CircleStep host link circle s action s') :
    CircleInv host circle owners s' := by
  rw [show s' = circle.apply host link s action from hstep]
  cases action with
  | receive i index request now =>
      simp only [Circle.apply]
      cases hpacket : (s.inbox i)[index]? with
      | none => exact h
      | some packet => exact h.receive hpacket request now
  | drive i sendNow scanNow =>
      rw [Circle.apply, h.drive hidle]
      exact h
  | lose i index => exact h.dropped i index

end Steps

/-- For every number of clients that have asked each other for files, no two of them the
same one, while nobody was serving a transfer, and for every order in which the requests
arrive or are lost: no file is saved and no request is served.  Each `get` waits, or the
request of the client `j` that asks for its own files has ended it, with 0 if `j` is the one
it asks itself and with 1 otherwise. -/
theorem circular_downloads_fail {n : Nat} (host : ByteOrder) (link : LossyLink)
    (circle : Circle n)
    (hdistinct : ∀ i j, (circle.location i).peer = (circle.location j).peer → i = j)
    {owners : Fin n → Owner} (hidle : ∀ i, (owners i).transferActive = false)
    {actions : List (CircleAction n)} {s : CircleState n}
    (hrun : Run (CircleStep host link circle) (circle.start host owners) actions s) :
    s.owner = owners ∧ ∀ i,
      s.get i = .awaitingStart ∨
        ∃ j, (circle.location j).peer = circle.addr i ∧
          s.get i =
            .finished ⟨if circle.addr j = (circle.location i).peer then 0 else 1, none⟩ := by
  have hinv := hrun.invariant (fun _ _ _ h hstep => circleInv_step hidle h hstep)
    (circleInv_start hdistinct)
  refine ⟨hinv.owner, ?_⟩
  intro i
  cases hinv.placed i with
  | waiting hget hinbox => exact Or.inl hget
  | ended j hsource hget hinbox => exact Or.inr ⟨j, hsource, hget⟩

/-- Two clients that ask each other. -/
def fetchingPair : Circle 2 where
  addr := ![⟨1, 1⟩, ⟨2, 2⟩]
  location := ![{ sevenLocation with peer := ⟨2, 2⟩ }, { sevenLocation with peer := ⟨1, 1⟩ }]
  env := fun _ => sevenEnv

/-- Both requests arrive. -/
def bothArrive : List (CircleAction 2) :=
  [.receive 0 0 ⟨none, 0, false, []⟩ 0, .receive 1 0 ⟨none, 0, false, []⟩ 0]

/-- Both `get` return 0, and neither has a file. -/
theorem circular_downloads_fail_pair :
    ∃ s, Run (CircleStep .little ⟨3, 0, 1⟩ fetchingPair)
        (fetchingPair.start .little fun _ => Owner.initial) bothArrive s ∧
      s.owner = (fun _ => Owner.initial) ∧
      (∀ i, (s.get i).returned = some ⟨0, none⟩) ∧
      ∀ i, s.get i = .awaitingStart ∨
        ∃ j, (fetchingPair.location j).peer = fetchingPair.addr i ∧
          s.get i = .finished
            ⟨if fetchingPair.addr j = (fetchingPair.location i).peer then 0 else 1, none⟩ := by
  have hrun : Run (CircleStep .little ⟨3, 0, 1⟩ fetchingPair)
      (fetchingPair.start .little fun _ => Owner.initial) bothArrive _ :=
    Run.snoc (Run.single rfl) rfl
  obtain ⟨howner, hget⟩ := circular_downloads_fail .little ⟨3, 0, 1⟩ fetchingPair (by decide)
    (fun _ => rfl) hrun
  exact ⟨_, hrun, howner, by decide +kernel, hget⟩

end Client
end PeerShare
