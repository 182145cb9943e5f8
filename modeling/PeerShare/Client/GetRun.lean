import PeerShare.Client.Get
import PeerShare.Client.Requests

/-!
# A whole call of `get`

The answer of the directory, the request to the owner and then the datagrams
that reach the socket, up to the return of `get` or to the point where it waits
for more.

The receive loop skips what comes from other addresses.  The wait for
`UDP_FILE_START` reads one datagram only and gives up on it if it is not the
owner's, so a stranger decides the outcome of `get` by being first.
-/

namespace PeerShare
namespace Client

open Foundation Wire SelectiveRepeat

/-- What `get` has returned, if it has, and the acknowledgements it sent. -/
structure GetOutcome where
  returned : Option GetReturn
  acks : List Bytes
  deriving DecidableEq

def GetState.returned : GetState → Option GetReturn
  | .finished result => some result
  | _ => none

/-- The UDP part of `get` over everything that reaches the socket. -/
def getRun (host : ByteOrder) (env : GetEnv) (location : FileLocation) :
    GetState → List Reception → GetOutcome
  | state, [] => ⟨state.returned, []⟩
  | state, reception :: rest =>
      let step := getReceive host env location state reception
      let outcome := getRun host env location step.state rest
      { outcome with acks := step.acks ++ outcome.acks }

/-- `get` up to its first `lossy_recv`: the location it goes on with, or the
outcome.  `answer` is what the server sends and `requestSent` what `sendto`
returns for the request. -/
def requestLocation (host : ByteOrder) (fileId : Nat) (answer : Bytes) (requestSent : Int) :
    Except GetOutcome FileLocation :=
  match readFileLocation host fileId answer with
  | .blocked => .error ⟨none, []⟩
  | .failed => .error ⟨some ⟨1, none⟩, []⟩
  | .done location _ =>
      if requestSent ≠ (udpHeaderSize + udpRequestFileSize : Nat) then
        .error ⟨some ⟨1, none⟩, []⟩
      else
        .ok location

/-- `get`. -/
def get (host : ByteOrder) (env : GetEnv) (fileId : Nat) (answer : Bytes) (requestSent : Int)
    (receptions : List Reception) : GetOutcome :=
  match requestLocation host fileId answer requestSent with
  | .error outcome => outcome
  | .ok location => getRun host env location .awaitingStart receptions

/-! ## Other senders -/

section Senders

variable {host : ByteOrder} {env : GetEnv} {location : FileLocation}

theorem getRun_finished (result : GetReturn) (receptions : List Reception) :
    getRun host env location (.finished result) receptions = ⟨some result, []⟩ := by
  induction receptions with
  | nil => rfl
  | cons reception rest ih =>
      show GetOutcome.mk (getRun host env location (.finished result) rest).returned
        ([] ++ (getRun host env location (.finished result) rest).acks) = _
      rw [ih, List.append_nil]

/-- The arrivals that come from the owner of the file. -/
def fromOwner (location : FileLocation) (arrivals : List (SockAddr × Datagram)) :
    List (SockAddr × Datagram) :=
  arrivals.filter fun arrival => arrival.1 = location.peer

theorem continueGet_ne_awaitingStart (receiver : Receiver) :
    continueGet env location receiver ≠ .awaitingStart := by
  unfold continueGet
  split <;> exact GetState.noConfusion

/-- `get` waits for the announcement once. -/
theorem getReceive_ne_awaitingStart (state : GetState) (reception : Reception) :
    (getReceive host env location state reception).state ≠ .awaitingStart := by
  unfold getReceive
  cases state with
  | awaitingStart =>
      simp only
      split
      · exact GetState.noConfusion
      · split
        · exact GetState.noConfusion
        · exact continueGet_ne_awaitingStart _
  | receiving receiver =>
      simp only
      split
      · exact GetState.noConfusion
      · split
        · exact GetState.noConfusion
        · exact continueGet_ne_awaitingStart _
  | finished result => exact GetState.noConfusion

/-- Behind the announcement, other senders are not noticed. -/
theorem getRun_fromOwner {state : GetState} (hstate : state ≠ .awaitingStart)
    (arrivals : List (SockAddr × Datagram)) :
    getRun host env location state (arrivals.map some) =
      getRun host env location state ((fromOwner location arrivals).map some) := by
  induction arrivals generalizing state with
  | nil => rfl
  | cons arrival rest ih =>
      by_cases hsender : arrival.1 = location.peer
      · -- the owner's datagram is handled on both sides
        rw [fromOwner, List.filter_cons_of_pos (by simpa using hsender), List.map_cons,
          List.map_cons, getRun, getRun, ih (getReceive_ne_awaitingStart state _)]
        rfl
      · have hskipped : getReceive host env location state (some arrival) = ⟨state, [], []⟩ := by
          cases state with
          | awaitingStart => exact absurd rfl hstate
          | receiving receiver => simp only [getReceive, if_pos hsender]
          | finished result => rfl
        rw [fromOwner, List.filter_cons_of_neg (by simpa using hsender), List.map_cons, getRun,
          hskipped, ih hstate]
        rfl

/-- The first datagram of the owner already makes `get` return 1: it is refused,
and not only for its type, or there is no memory for the receiver. -/
def StartFails (host : ByteOrder) (env : GetEnv) (location : FileLocation)
    (first : SockAddr × Datagram) : Prop :=
  (∃ refusal, receiveFileStart host location (some first) = .error refusal ∧
      refusal ≠ .notFileStart) ∨
    (∃ start, receiveFileStart host location (some first) = .ok start) ∧ env.heap = none

/-- A stranger who is first makes `get` return 1. -/
theorem getReceive_stranger {first : SockAddr × Datagram} (hstranger : first.1 ≠ location.peer) :
    getReceive host env location .awaitingStart (some first) = ⟨.finished ⟨1, none⟩, [], []⟩ := by
  obtain ⟨refusal, hrefused, hcode⟩ : ∃ refusal,
      receiveFileStart host location (some first) = .error refusal ∧ refusal.returnCode = 1 := by
    rcases first with ⟨sender, packet⟩
    unfold receiveFileStart
    simp only
    split
    · exact ⟨_, rfl, rfl⟩
    · split
      · exact ⟨_, rfl, rfl⟩
      · split
        · exact ⟨_, rfl, rfl⟩
        · exact ⟨_, rfl, rfl⟩
  simp only [getReceive, hrefused, hcode]

/-- Past the announcement, `get` no longer returns 1. -/
def PastStart : GetState → Prop
  | .awaitingStart => False
  | .receiving _ => True
  | .finished result => result.code ≠ 1

theorem pastStart_continueGet (receiver : Receiver) :
    PastStart (continueGet env location receiver) := by
  unfold continueGet
  split
  · show (finishGet env.sha256 env.canOpen location receiver).code ≠ 1
    unfold finishGet
    simp only
    split
    · split <;> simp
    · simp
  · trivial

theorem pastStart_getReceive {state : GetState} (hpast : PastStart state)
    (reception : Reception) : PastStart (getReceive host env location state reception).state := by
  cases state with
  | awaitingStart => exact hpast.elim
  | receiving receiver =>
      rcases reception with _ | ⟨sender, packet⟩
      · show (-1 : Int) ≠ 1
        decide
      · simp only [getReceive]
        split
        · trivial
        · exact pastStart_continueGet _
  | finished result => exact hpast

theorem getRun_ne_one {state : GetState} (hpast : PastStart state)
    (receptions : List Reception) :
    (getRun host env location state receptions).returned ≠ some ⟨1, none⟩ := by
  induction receptions generalizing state with
  | nil =>
      intro hone
      cases state with
      | awaitingStart => exact hpast
      | receiving receiver => cases hone
      | finished result =>
          cases hone
          exact hpast rfl
  | cons reception rest ih => exact ih (pastStart_getReceive hpast reception)

/-- When `get` returns 1 on the owner's first datagram. -/
theorem getRun_eq_one_iff (first : SockAddr × Datagram) (rest : List Reception) :
    getRun host env location .awaitingStart (some first :: rest) = ⟨some ⟨1, none⟩, []⟩ ↔
      StartFails host env location first := by
  rw [getRun]
  unfold getReceive StartFails
  cases hstart : receiveFileStart host location (some first) with
  | error refusal =>
      simp only [getRun_finished, List.append_nil, Except.error.injEq, exists_eq_left', reduceCtorEq,
        exists_false, false_and, or_false, GetOutcome.mk.injEq, Option.some.injEq,
        GetReturn.mk.injEq, and_true]
      cases refusal <;> decide
  | ok start =>
      -- an announcement that passes the checks fails only for want of memory
      have hnotRefused : ¬ ∃ refusal, (Except.ok start : Except StartRefusal FileStart) =
          .error refusal ∧ refusal ≠ .notFileStart := by
        rintro ⟨refusal, hrefused, -⟩
        cases hrefused
      rw [or_iff_right hnotRefused]
      cases hheap : env.heap with
      | none =>
          simp only [srReceiverInit, getRun_finished, List.append_nil, and_true, true_iff]
          exact ⟨start, rfl⟩
      | some heap =>
          simp only [srReceiverInit, reduceCtorEq, and_false, iff_false]
          intro hone
          have hreturned := congrArg GetOutcome.returned hone
          exact getRun_ne_one (pastStart_continueGet _) rest hreturned

/-- What `get` makes of everything that arrives and what it makes of the owner's
datagrams alone. -/
theorem getRun_fromOwner_iff (arrivals : List (SockAddr × Datagram)) :
    getRun host env location .awaitingStart (arrivals.map some) =
        getRun host env location .awaitingStart ((fromOwner location arrivals).map some) ↔
      (∀ first ∈ arrivals.head?, first.1 = location.peer) ∨
        ∃ first ∈ (fromOwner location arrivals).head?, StartFails host env location first := by
  cases arrivals with
  | nil =>
      refine ⟨fun _ => Or.inl ?_, fun _ => rfl⟩
      intro first hfirst
      cases hfirst
  | cons first rest =>
      by_cases hsender : first.1 = location.peer
      · have hkept : fromOwner location (first :: rest) = first :: fromOwner location rest :=
          List.filter_cons_of_pos (by simpa using hsender)
        constructor
        · intro _
          refine Or.inl ?_
          intro head hhead
          cases hhead
          exact hsender
        · intro _
          rw [hkept, List.map_cons, List.map_cons, getRun, getRun,
            getRun_fromOwner (getReceive_ne_awaitingStart .awaitingStart (some first))]
      · have hdropped : fromOwner location (first :: rest) = fromOwner location rest :=
          List.filter_cons_of_neg (by simpa using hsender)
        have hone : getRun host env location .awaitingStart ((first :: rest).map some) =
            ⟨some ⟨1, none⟩, []⟩ := by
          rw [List.map_cons, getRun, getReceive_stranger hsender, getRun_finished]
          rfl
        have hhead : ¬ ∀ head ∈ (first :: rest).head?, head.1 = location.peer := by
          intro hall
          exact hsender (hall first rfl)
        rw [hone, hdropped, or_iff_right hhead]
        cases fromOwner location rest with
        | nil =>
            constructor
            · intro hsame
              cases hsame
            · rintro ⟨head, hhead, -⟩
              cases hhead
        | cons ownerFirst ownerRest =>
            rw [eq_comm, List.map_cons, getRun_eq_one_iff]
            simp

end Senders

/-- Datagrams from other addresses make no difference to `get`, neither to what
it returns and saves nor to what it sends, exactly when the first datagram that
arrives is the owner's or the owner's own first datagram makes `get` return 1.
A `get` that ends before its first `lossy_recv` is not touched by any. -/
theorem get_third_parties_iff (host : ByteOrder) (env : GetEnv) (fileId : Nat) (answer : Bytes)
    (requestSent : Int) (arrivals : List (SockAddr × Datagram)) :
    (∀ location, requestLocation host fileId answer requestSent = .ok location →
      (get host env fileId answer requestSent (arrivals.map some) =
          get host env fileId answer requestSent ((fromOwner location arrivals).map some) ↔
        (∀ first ∈ arrivals.head?, first.1 = location.peer) ∨
          ∃ first ∈ (fromOwner location arrivals).head?,
            StartFails host env location first)) ∧
    ∀ outcome, requestLocation host fileId answer requestSent = .error outcome →
      ∀ receptions, get host env fileId answer requestSent receptions = outcome := by
  constructor
  · intro location hlocation
    unfold get
    rw [hlocation]
    exact getRun_fromOwner_iff arrivals
  · intro outcome houtcome receptions
    unfold get
    rw [houtcome]

/-! ## What is hashed and what is saved -/

/-- The bytes that `get` hands to `compute_sha256`. -/
def assembledFile (receiver : Receiver) : Bytes :=
  (srReceiverGetFile receiver).1.take (srReceiverGetFile receiver).2

/-- The branch of `get` that calls `fopen`. -/
def opensFile (sha256 : Bytes → HashBytes) (location : FileLocation) (receiver : Receiver) :
    Bool :=
  decide (sha256 (assembledFile receiver) = location.hash)

/-- The receiver after a reception, where there is one. -/
def nextReceiver (host : ByteOrder) (env : GetEnv) (location : FileLocation) (state : GetState)
    (reception : Reception) : Option Receiver :=
  match state, reception with
  | .awaitingStart, reception =>
      match receiveFileStart host location reception with
      | .error _ => none
      | .ok start =>
          srReceiverInit (some location.peer) start.fileSize start.numChunks (some env.link)
            env.heap
  | .receiving receiver, some (sender, packet) =>
      if sender ≠ location.peer then
        none
      else
        some (srReceiverHandleData host receiver packet.bytes).receiver
  | _, _ => none

/-- The receiver with which the loop of `get` ends, if it comes to that. -/
def completedReceiver (host : ByteOrder) (env : GetEnv) (location : FileLocation) :
    GetState → List Reception → Option Receiver
  | _, [] => none
  | state, reception :: rest =>
      ((nextReceiver host env location state reception).filter srReceiverIsComplete).or
        (completedReceiver host env location
          (getReceive host env location state reception).state rest)

section Saved

variable {host : ByteOrder} {env : GetEnv} {location : FileLocation}

theorem finishGet_saved {receiver : Receiver} {saved : Bytes × Bytes}
    (hsaved : (finishGet env.sha256 env.canOpen location receiver).saved = some saved) :
    saved.2 = assembledFile receiver ∧ opensFile env.sha256 location receiver = true := by
  simp only [finishGet] at hsaved
  split at hsaved
  · next hhash =>
      split at hsaved
      · cases hsaved
        exact ⟨rfl, decide_eq_true hhash⟩
      · cases hsaved
  · cases hsaved

/-- The head of the loop ends `get` with a complete receiver and goes on with
any other. -/
theorem continueGet_cases (env : GetEnv) (location : FileLocation) (receiver : Receiver) :
    ((some receiver).filter srReceiverIsComplete = some receiver ∧
        continueGet env location receiver =
          .finished (finishGet env.sha256 env.canOpen location receiver)) ∨
      (some receiver).filter srReceiverIsComplete = none ∧
        continueGet env location receiver = .receiving receiver := by
  cases hcomplete : srReceiverIsComplete receiver with
  | true => exact Or.inl ⟨by simp [hcomplete], by simp [continueGet, hcomplete]⟩
  | false => exact Or.inr ⟨by simp [hcomplete], by simp [continueGet, hcomplete]⟩

/-- A reception that completes a receiver ends `get` with it; any other leaves
`get` running or ends it with nothing saved. -/
theorem getReceive_cases (state : GetState) (reception : Reception) :
    (∃ receiver, (nextReceiver host env location state reception).filter srReceiverIsComplete =
          some receiver ∧
        (getReceive host env location state reception).state =
          .finished (finishGet env.sha256 env.canOpen location receiver)) ∨
      (nextReceiver host env location state reception).filter srReceiverIsComplete = none ∧
        ∀ result, (getReceive host env location state reception).state = .finished result →
          result.saved = none ∨ state = .finished result := by
  cases state with
  -- one datagram decides the wait for the announcement
  | awaitingStart =>
      simp only [nextReceiver, getReceive]
      cases receiveFileStart host location reception with
      | error refusal =>
          refine Or.inr ⟨rfl, ?_⟩
          rintro result ⟨⟩
          exact Or.inl rfl
      | ok start =>
          simp only
          cases srReceiverInit (some location.peer) start.fileSize start.numChunks
              (some env.link) env.heap with
          | none =>
              refine Or.inr ⟨rfl, ?_⟩
              rintro result ⟨⟩
              exact Or.inl rfl
          | some receiver =>
              rcases continueGet_cases env location receiver with
                ⟨hfilter, hstate⟩ | ⟨hfilter, hstate⟩
              · exact Or.inl ⟨receiver, hfilter, hstate⟩
              · refine Or.inr ⟨hfilter, ?_⟩
                intro result hresult
                simp only [hstate] at hresult
                cases hresult
  | receiving receiver =>
      rcases reception with _ | ⟨sender, packet⟩
      · refine Or.inr ⟨rfl, ?_⟩
        rintro result ⟨⟩
        exact Or.inl rfl
      · by_cases hsender : sender = location.peer
        · simp only [nextReceiver, getReceive, hsender, ne_eq, not_true_eq_false, if_false]
          rcases continueGet_cases env location
              (srReceiverHandleData host receiver packet.bytes).receiver with
            ⟨hfilter, hstate⟩ | ⟨hfilter, hstate⟩
          · exact Or.inl ⟨_, hfilter, hstate⟩
          · refine Or.inr ⟨hfilter, ?_⟩
            intro result hresult
            rw [hstate] at hresult
            cases hresult
        · simp only [nextReceiver, getReceive, ne_eq, hsender, not_false_eq_true, if_true]
          refine Or.inr ⟨rfl, ?_⟩
          rintro result ⟨⟩
  | finished result =>
      refine Or.inr ⟨rfl, ?_⟩
      rintro other ⟨⟩
      exact Or.inr rfl

/-- A `get` that returns has saved nothing, or ended with a complete receiver. -/
theorem getRun_returned {state : GetState} {receptions : List Reception} {result : GetReturn}
    (hresult : (getRun host env location state receptions).returned = some result) :
    state = .finished result ∨ result.saved = none ∨
      ∃ receiver, completedReceiver host env location state receptions = some receiver ∧
        result = finishGet env.sha256 env.canOpen location receiver := by
  induction receptions generalizing state with
  | nil =>
      left
      cases state with
      | finished other =>
          cases hresult
          rfl
      | _ => cases hresult
  | cons reception rest ih =>
      rw [getRun] at hresult
      simp only at hresult
      -- once a receiver is complete, the rest of the datagrams is not looked at
      rcases getReceive_cases state reception with ⟨receiver, hcomplete, hstate⟩ | ⟨hnone, hstate⟩
      · rw [hstate, getRun_finished] at hresult
        cases hresult
        exact Or.inr (Or.inr ⟨receiver, by rw [completedReceiver, hcomplete, Option.some_or], rfl⟩)
      · rw [completedReceiver, hnone, Option.none_or]
        rcases ih hresult with hfinished | hlater
        · rcases hstate result hfinished with hsaved | hbefore
          · exact Or.inr (Or.inl hsaved)
          · exact Or.inl hbefore
        · exact Or.inr hlater

end Saved

/-! ### One download -/

/-- The SHA-256 digest of a file with the single byte 7. -/
def sevenDigest : HashBytes :=
  HashBytes.ofImage [0xca, 0x35, 0x87, 0x58, 0xf6, 0xd2, 0x7e, 0x6c, 0xf4, 0x52, 0x72, 0x93,
    0x79, 0x77, 0xa7, 0x48, 0xfd, 0x88, 0x39, 0x1d, 0xb6, 0x79, 0xce, 0xda,
    0x7d, 0xc7, 0xbf, 0x1f, 0x00, 0x5e, 0xe8, 0x79]

/-- That file, shared by the peer at `⟨9, 9⟩`. -/
def sevenLocation : FileLocation where
  fileId := 1
  fileSize := 1
  hash := sevenDigest
  peer := ⟨9, 9⟩
  filename := NameField.strncpy [97]

def sevenEnv : GetEnv where
  sha256 := fun _ => sevenDigest
  heap := some fun _ => 0
  canOpen := true
  link := ⟨3, 0, 1⟩

def sevenAnswer : Bytes :=
  controlMessage .little tcpFileLocation errNone (sevenLocation.image .little)

def sevenStart : SockAddr × Datagram :=
  (⟨9, 9⟩, Datagram.recv (buildFileStart .little 1 1))

def sevenData : SockAddr × Datagram :=
  (⟨9, 9⟩, Datagram.recv (buildDataPacket .little 0 [7] 1))

/-- An empty datagram from another address. -/
def stranger : SockAddr × Datagram :=
  (⟨5, 5⟩, Datagram.recv [])

theorem requestLocation_seven :
    requestLocation .little 1 sevenAnswer 52 = .ok sevenLocation := by
  have hid : sevenLocation.fileId < 2 ^ 32 := by
    norm_num [sevenLocation]
  have hsize : sevenLocation.fileSize < 2 ^ 32 := by
    norm_num [sevenLocation]
  have hread := readFileLocation_done .little hid hsize
  change readFileLocation .little 1 sevenAnswer = .done sevenLocation [] at hread
  rw [requestLocation, hread]
  rfl

/-- A stranger's datagram behind the announcement changes nothing. -/
theorem get_ignores_late_stranger :
    get .little sevenEnv 1 sevenAnswer 52
        ([sevenStart, stranger, sevenData, stranger].map some) =
      get .little sevenEnv 1 sevenAnswer 52 ([sevenStart, sevenData].map some) ∧
    get .little sevenEnv 1 sevenAnswer 52 ([sevenStart, sevenData].map some) =
      ⟨some ⟨0, some ([97], [7])⟩, [buildAckPacket .little 0]⟩ := by
  constructor
  · refine ((get_third_parties_iff .little sevenEnv 1 sevenAnswer 52
      [sevenStart, stranger, sevenData, stranger]).1 sevenLocation
      requestLocation_seven).mpr (Or.inl ?_)
    intro first hfirst
    cases hfirst
    rfl
  · unfold get
    rw [requestLocation_seven]
    decide +kernel

/-- The same datagram in front of it makes `get` return 1 and save nothing. -/
theorem get_stopped_by_stranger :
    fromOwner sevenLocation [stranger, sevenStart, sevenData] = [sevenStart, sevenData] ∧
      get .little sevenEnv 1 sevenAnswer 52 ([sevenStart, sevenData].map some) =
        ⟨some ⟨0, some ([97], [7])⟩, [buildAckPacket .little 0]⟩ ∧
      get .little sevenEnv 1 sevenAnswer 52 ([stranger, sevenStart, sevenData].map some) =
        ⟨some ⟨1, none⟩, []⟩ := by
  unfold get
  rw [requestLocation_seven]
  decide +kernel

end Client
end PeerShare
