import Mathlib.Tactic

/-!
# Streams that arrive in pieces

A stream socket delivers what was sent in pieces that nobody controls, and takes what is
sent in pieces too.  Programs therefore read and write in loops.  This file has both
loops, one system call at a time, and says what they amount to: reading a fixed number of
elements depends on the elements that have arrived and not on how they are cut, and
writing on how much room there is.
-/

namespace PeerShare
namespace Foundation

variable {α : Type}

/-- What is behind the last piece: more may come, or the stream has been closed or has
failed. -/
inductive StreamEnd where
  | waiting
  | closed
  | failed
  deriving DecidableEq

/-- The pieces that have arrived; a piece is never empty. -/
structure SegmentedStream (α : Type) where
  segments : List (List α)
  ne_nil : ∀ segment ∈ segments, segment ≠ []
  ending : StreamEnd

/-- What one `recv` returns: it waits, it fails, or it returns data, which is empty at the
end of the stream. -/
inductive Received (α : Type) where
  | blocked
  | failed
  | data (elements : List α)

/-- How a loop of system calls ends. -/
inductive LoopOutcome (α : Type) where
  | blocked
  | failed
  | done (value : α)

namespace SegmentedStream

/-- The stream without its cuts. -/
def flatten (stream : SegmentedStream α) : List α := stream.segments.flatten

/-- More pieces arrive; behind its end a stream has none. -/
def append (stream more : SegmentedStream α) : SegmentedStream α :=
  if stream.ending = .waiting then
    { segments := stream.segments ++ more.segments
      ne_nil := by
        intro segment hsegment
        rcases List.mem_append.mp hsegment with hfirst | hmore
        · exact stream.ne_nil segment hfirst
        · exact more.ne_nil segment hmore
      ending := more.ending }
  else
    stream

/-- One `recv` with room for `want` elements: at most one piece, and what does not fit is
left. -/
def recv (want : Nat) (stream : SegmentedStream α) : Received α × SegmentedStream α :=
  match hsegments : stream.segments with
  | [] =>
      match stream.ending with
      | .waiting => (.blocked, stream)
      | .closed => (.data [], stream)
      | .failed => (.failed, stream)
  | segment :: rest =>
      if hwhole : segment.length ≤ want then
        (.data segment,
          { stream with
            segments := rest
            ne_nil := fun other hother => stream.ne_nil other (by
              rw [hsegments]
              exact List.mem_cons_of_mem _ hother) })
      else
        (.data (segment.take want),
          { stream with
            segments := segment.drop want :: rest
            ne_nil := by
              intro other hother
              rcases List.mem_cons.mp hother with rfl | hrest
              · intro hempty
                exact hwhole (List.drop_eq_nil_iff.mp hempty)
              · exact stream.ne_nil other (by
                  rw [hsegments]
                  exact List.mem_cons_of_mem _ hrest) })

/-- Reading until `want` elements have come; each round is one `recv`. -/
def readLoop : (rounds want : Nat) → List α → SegmentedStream α →
    LoopOutcome (List α × SegmentedStream α)
  | 0, want, got, stream => if want = 0 then .done (got, stream) else .blocked
  | rounds + 1, want, got, stream =>
      if want = 0 then
        .done (got, stream)
      else
        match stream.recv want with
        | (.blocked, _) => .blocked
        | (.failed, _) => .failed
        | (.data [], _) => .failed
        | (.data (element :: elements), rest) =>
            readLoop rounds (want - (element :: elements).length) (got ++ element :: elements) rest

/-- The loop for a buffer of `size` elements: every round brings at least one. -/
def read (size : Nat) (stream : SegmentedStream α) :
    LoopOutcome (List α × SegmentedStream α) :=
  readLoop size size [] stream

/-- Where a loop gets no further. -/
def stalled {β : Type} (stream : SegmentedStream α) : LoopOutcome β :=
  if stream.ending = .waiting then .blocked else .failed

variable {stream : SegmentedStream α} {want : Nat}

/-- At the end of what has arrived. -/
theorem recv_nil (hnil : stream.segments = []) :
    stream.recv want =
      (match stream.ending with
        | .waiting => .blocked
        | .closed => .data []
        | .failed => .failed, stream) := by
  obtain ⟨segments, hne, ending⟩ := stream
  simp only at hnil
  subst hnil
  cases ending <;> rfl

/-- Otherwise some elements come, in order, and at most as many as are wanted. -/
theorem recv_cons (hwant : 0 < want) (hsome : stream.segments ≠ []) :
    ∃ element elements rest, stream.recv want = (.data (element :: elements), rest) ∧
      (element :: elements).length ≤ want ∧
      stream.flatten = element :: elements ++ rest.flatten ∧ rest.ending = stream.ending := by
  obtain ⟨segments, hne, ending⟩ := stream
  cases segments with
  | nil => exact absurd rfl hsome
  | cons segment segments =>
      obtain ⟨element, elements, rfl⟩ := List.exists_cons_of_ne_nil
        (hne segment List.mem_cons_self)
      by_cases hwhole : (element :: elements).length ≤ want
      · refine ⟨element, elements, ⟨segments, _, ending⟩, dif_pos hwhole, hwhole, rfl, rfl⟩
      · obtain ⟨fewer, rfl⟩ := Nat.exists_eq_add_one_of_ne_zero hwant.ne'
        refine ⟨element, elements.take fewer, ⟨elements.drop fewer :: segments, _, ending⟩,
          dif_neg hwhole, ?_, ?_, rfl⟩
        · rw [List.length_cons, List.length_take]
          omega
        · show element :: elements ++ segments.flatten = _
          simp only [flatten, List.flatten_cons, List.cons_append, ← List.append_assoc,
            List.take_append_drop]

/-- Reading stalls when fewer elements have come. -/
theorem readLoop_stalled {rounds : Nat} {got : List α} (hrounds : want ≤ rounds)
    (hshort : stream.flatten.length < want) :
    readLoop rounds want got stream = stream.stalled := by
  induction rounds generalizing want got stream with
  | zero => omega
  | succ rounds ih =>
      have hpos : 0 < want := by omega
      rw [readLoop, if_neg hpos.ne']
      by_cases hnil : stream.segments = []
      · rw [recv_nil hnil, stalled]
        cases stream.ending <;> rfl
      · obtain ⟨element, elements, rest, hrecv, -, hflatten, hending⟩ := recv_cons hpos hnil
        rw [hrecv]
        have hlength := congrArg List.length hflatten
        simp only [List.length_append, List.length_cons] at hlength ⊢
        rw [ih (by omega) (by omega), stalled, stalled, hending]

/-- Reading ends with the next elements when enough have come. -/
theorem readLoop_done {rounds : Nat} {got : List α} (hrounds : want ≤ rounds)
    (henough : want ≤ stream.flatten.length) :
    ∃ rest, readLoop rounds want got stream = .done (got ++ stream.flatten.take want, rest) ∧
      rest.flatten = stream.flatten.drop want ∧ rest.ending = stream.ending := by
  induction rounds generalizing want got stream with
  | zero =>
      obtain rfl : want = 0 := by omega
      exact ⟨stream, by simp [readLoop], rfl, rfl⟩
  | succ rounds ih =>
      by_cases hzero : want = 0
      · subst hzero
        exact ⟨stream, by simp [readLoop], rfl, rfl⟩
      · have hpos : 0 < want := by omega
        have hsome : stream.segments ≠ [] := by
          intro hnil
          rw [flatten, hnil, List.flatten_nil, List.length_nil] at henough
          omega
        obtain ⟨element, elements, rest, hrecv, hfits, hflatten, hending⟩ := recv_cons hpos hsome
        have hlength := congrArg List.length hflatten
        simp only [List.length_append, List.length_cons] at hlength hfits
        obtain ⟨last, hlast, hdrop, hend⟩ : ∃ last,
            readLoop rounds (want - (elements.length + 1)) (got ++ element :: elements) rest =
              .done (got ++ element :: elements ++
                rest.flatten.take (want - (elements.length + 1)), last) ∧
            last.flatten = rest.flatten.drop (want - (elements.length + 1)) ∧
              last.ending = rest.ending := ih (by omega) (by omega)
        have htake : stream.flatten.take want =
            element :: elements ++ rest.flatten.take (want - (elements.length + 1)) := by
          rw [hflatten, List.take_append, List.take_of_length_le hfits, List.length_cons]
        refine ⟨last, ?_, ?_, hend.trans hending⟩
        · rw [readLoop, if_neg hzero, hrecv, htake, ← List.append_assoc]
          exact hlast
        · have hpassed : (element :: elements).drop want = [] := List.drop_eq_nil_iff.mpr hfits
          rw [hdrop, hflatten, List.drop_append, hpassed, List.length_cons, List.nil_append]

theorem read_stalled {size : Nat} (hshort : stream.flatten.length < size) :
    stream.read size = stream.stalled :=
  readLoop_stalled le_rfl hshort

theorem read_done {size : Nat} (henough : size ≤ stream.flatten.length) :
    ∃ rest, stream.read size = .done (stream.flatten.take size, rest) ∧
      rest.flatten = stream.flatten.drop size ∧ rest.ending = stream.ending :=
  readLoop_done le_rfl henough

end SegmentedStream

/-! ## Sending -/

/-- How many elements the next calls of `send` take.  Behind them every call fails, or
every call takes all. -/
structure SendPath where
  takes : List Nat
  pos : ∀ count ∈ takes, 0 < count
  broken : Bool

/-- What a send loop has sent, whether that is everything, and the way that is left. -/
structure Written (α : Type) where
  sent : List α
  whole : Bool
  path : SendPath

namespace SendPath

/-- How much can still be sent; `none` is no limit. -/
def room (path : SendPath) : Option Nat := if path.broken then some path.takes.sum else none

/-- One `send` of `want` elements: how many it takes, unless it fails. -/
def send (want : Nat) (path : SendPath) : Option Nat × SendPath :=
  match htakes : path.takes with
  | [] => if path.broken then (none, path) else (some want, path)
  | count :: rest =>
      if hall : count ≤ want then
        (some count,
          { path with
            takes := rest
            pos := fun other hother => path.pos other (by
              rw [htakes]
              exact List.mem_cons_of_mem _ hother) })
      else
        (some want,
          { path with
            takes := (count - want) :: rest
            pos := by
              intro other hother
              rcases List.mem_cons.mp hother with rfl | hrest
              · omega
              · exact path.pos other (by
                  rw [htakes]
                  exact List.mem_cons_of_mem _ hrest) })

/-- Sending until nothing is left; each round is one `send`. -/
def writeLoop : (rounds : Nat) → (sent left : List α) → SendPath → Written α
  | _, sent, [], path => ⟨sent, true, path⟩
  | 0, sent, _ :: _, path => ⟨sent, false, path⟩
  | rounds + 1, sent, element :: left, path =>
      match path.send (element :: left).length with
      | (none, rest) => ⟨sent, false, rest⟩
      | (some count, rest) =>
          writeLoop rounds (sent ++ (element :: left).take count) ((element :: left).drop count)
            rest

/-- The loop for a message: every round takes at least one element. -/
def write (path : SendPath) (message : List α) : Written α :=
  writeLoop message.length [] message path

variable {path : SendPath} {want : Nat}

/-- A `send` fails when there is no room, and takes some of what it is given otherwise. -/
theorem send_cases (hwant : 0 < want) :
    path.send want = (none, path) ∧ path.room = some 0 ∨
      ∃ count rest, path.send want = (some count, rest) ∧ 0 < count ∧ count ≤ want ∧
        (∀ room ∈ path.room, count ≤ room) ∧ rest.room = path.room.map (· - count) := by
  obtain ⟨takes, hpos, broken⟩ := path
  cases takes with
  | nil =>
      cases broken with
      | true => exact .inl ⟨rfl, rfl⟩
      | false => exact .inr ⟨want, ⟨[], hpos, false⟩, rfl, hwant, le_rfl, by simp [room], rfl⟩
  | cons first takes =>
      right
      have hfirst := hpos first List.mem_cons_self
      by_cases hall : first ≤ want
      · refine ⟨first, ⟨takes, _, broken⟩, dif_pos hall, hfirst, hall, ?_, ?_⟩
        · cases broken <;> simp [room]
        · cases broken <;> simp [room]
      · refine ⟨want, ⟨(first - want) :: takes, _, broken⟩, dif_neg hall, hwant, le_rfl, ?_, ?_⟩
        · cases broken <;> simp [room]
          omega
        · cases broken <;> simp [room]
          omega

theorem writeLoop_eq {rounds : Nat} {sent left : List α} (hrounds : left.length ≤ rounds) :
    (writeLoop rounds sent left path).sent =
        sent ++ (match path.room with
          | none => left
          | some room => left.take room) ∧
      (writeLoop rounds sent left path).whole = path.room.all (left.length ≤ ·) ∧
      (writeLoop rounds sent left path).path.room = path.room.map (· - left.length) := by
  induction rounds generalizing sent left path with
  | zero =>
      obtain rfl : left = [] := List.length_eq_zero_iff.mp (Nat.le_zero.mp hrounds)
      cases hroom : path.room <;> simp [writeLoop, hroom]
  | succ rounds ih =>
      cases left with
      | nil => cases hroom : path.room <;> simp [writeLoop, hroom]
      | cons element left =>
          rw [writeLoop]
          rcases @send_cases path (element :: left).length (by simp) with
            ⟨hsend, hroom⟩ | ⟨count, rest, hsend, hpos, hle, hfits, hrest⟩
          · rw [hsend, hroom]
            simp
          · rw [hsend]
            have hdrop : ((element :: left).drop count).length =
                (element :: left).length - count := List.length_drop
            obtain ⟨hsent, hwhole, hleft⟩ := @ih rest (sent ++ (element :: left).take count)
              ((element :: left).drop count) (by omega)
            rw [hsent, hwhole, hleft, hrest, hdrop]
            cases hroom : path.room with
            | none =>
                refine ⟨?_, rfl, rfl⟩
                simp only [Option.map_none, List.append_assoc, List.take_append_drop]
            | some room =>
                have hcount := hfits room hroom
                have hsplit : (element :: left).take room =
                    (element :: left).take count ++
                      ((element :: left).drop count).take (room - count) := by
                  rw [← List.take_add, Nat.add_sub_cancel' hcount]
                refine ⟨?_, ?_, ?_⟩
                · simp only [Option.map_some, List.append_assoc, hsplit]
                · simp only [Option.map_some, Option.all_some, decide_eq_decide]
                  omega
                · simp only [Option.map_some, Option.some.injEq]
                  omega

/-- What a send loop sends, and how it leaves the way. -/
theorem write_eq (path : SendPath) (message : List α) :
    (path.write message).sent = (match path.room with
        | none => message
        | some room => message.take room) ∧
      (path.write message).whole = path.room.all (message.length ≤ ·) ∧
      (path.write message).path.room = path.room.map (· - message.length) := by
  have hloop := @writeLoop_eq α path message.length [] message le_rfl
  rwa [List.nil_append] at hloop

end SendPath
end Foundation
end PeerShare
