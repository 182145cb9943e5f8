import PeerShare.Client.DownloadProgress
import PeerShare.Wire.LossGenerator
import Mathlib.Data.List.ReduceOption

/-!
# Loss that the clients make themselves

Between the two loops of a download and their sockets stands `lossy_send`: the chunks pass
the link of the owner and the acknowledgements that of the `get`, each with a generator of
its own.  What a link drops looks sent to the loop above it.  The announcement goes
straight to `sendto`.

So a run over the two links is a run of the download with losses, of chunks and of
acknowledgements only, and no rate and no seed makes a download impossible: whatever the
links have dropped, once they stop dropping the file can still be saved.
-/

namespace PeerShare
namespace Client

open Foundation Wire SelectiveRepeat

/-- What leaves when `lossy_send` is called for each of the packets. -/
def leaving (link : LossyLink) (packets : List Bytes) : List Bytes :=
  (lossySends link packets).2.reduceOption

/-- The two loops, and the links of the two clients. -/
structure LinkedDownload where
  loops : Download
  ownerLink : LossyLink
  peerLink : LossyLink

namespace LinkedDownload

/-- The moment the request branch has ended.  Its first datagram is the announcement. -/
def ofRequest (result : OwnerResult) (ownerLink peerLink : LossyLink) : LinkedDownload :=
  let window := (result.sent.drop 1).map Prod.snd
  { loops :=
      { Download.ofRequest result with
        toPeer := (result.sent.take 1).map Prod.snd ++ leaving ownerLink window }
    ownerLink := (lossySends ownerLink window).1
    peerLink := peerLink }

/-- `get` takes a datagram from its socket. -/
def arrive (host : ByteOrder) (env : GetEnv) (location : FileLocation) (s : LinkedDownload)
    (packet : Bytes) : LinkedDownload :=
  let step := getReceive host env location s.loops.state (ownerReception location packet)
  { s with
    loops :=
      { s.loops with
        state := step.state
        toOwner := s.loops.toOwner ++ leaving s.peerLink step.acks }
    peerLink := (lossySends s.peerLink step.acks).1 }

/-- The driver of the owner's loop. -/
def drive (host : ByteOrder) (s : LinkedDownload) (sendNow scanNow : UInt64) :
    LinkedDownload :=
  let result := Client.drive host s.loops.owner sendNow scanNow
  let packets := result.sent.map Prod.snd
  { s with
    loops :=
      { s.loops with
        owner := result.owner
        toPeer := s.loops.toPeer ++ leaving s.ownerLink packets }
    ownerLink := (lossySends s.ownerLink packets).1 }

end LinkedDownload

/-- The transitions over a network that delays, reorders and repeats.  `link` and
`env.link` are the pointers that the two ends store. -/
inductive LinkedStep (host : ByteOrder) (link : LossyLink) (env : GetEnv)
    (location : FileLocation) : LinkedDownload → DownloadAction → LinkedDownload → Prop
  | arrive (s : LinkedDownload) (packet : Bytes) (hpacket : packet ∈ s.loops.toPeer) :
      LinkedStep host link env location s (.arrive packet) (s.arrive host env location packet)
  | acknowledge (s : LinkedDownload) (ack : Bytes) (request : RequestEnv) (now : UInt64)
      (hack : ack ∈ s.loops.toOwner) :
      LinkedStep host link env location s (.acknowledge ack request now)
        { s with loops := s.loops.acknowledge host link ack request now }
  | drive (s : LinkedDownload) (sendNow scanNow : UInt64) :
      LinkedStep host link env location s (.drive sendNow scanNow)
        (s.drive host sendNow scanNow)

/-! ## What a link keeps -/

/-- What is handed to a link leaves or is dropped. -/
theorem exists_dropped (link : LossyLink) (packets : List Bytes) :
    ∃ dropped, packets.Perm (leaving link packets ++ dropped) := by
  induction packets generalizing link with
  | nil => exact ⟨[], List.Perm.refl _⟩
  | cons packet rest ih =>
      obtain ⟨dropped, hrest⟩ := ih (lossySend link packet).1
      have hleaving : leaving link (packet :: rest) =
          (lossySend link packet).2.toList ++ leaving (lossySend link packet).1 rest := by
        simp only [leaving, lossySends]
        cases (lossySend link packet).2 <;> rfl
      rw [hleaving, lossySend_eq]
      simp only
      split
      · refine ⟨packet :: dropped, ?_⟩
        exact (hrest.cons packet).trans List.perm_middle.symm
      · exact ⟨dropped, hrest.cons packet⟩

/-- The dropped ones are lost in flight. -/
theorem perm_diff {sent left dropped : List Bytes} (h : sent.Perm (left ++ dropped)) :
    (sent.diff dropped).Perm left := by
  induction dropped generalizing sent with
  | nil => simpa using h
  | cons packet rest ih =>
      rw [List.diff_cons]
      apply ih
      have herased := (h.trans List.perm_middle).erase packet
      rwa [List.erase_cons_head] at herased

/-! ## The links and a network that loses -/

/-- The download sees the same loops, and the same datagrams in flight. -/
structure Matches (d : Download) (s : LinkedDownload) : Prop where
  owner : d.owner = s.loops.owner
  state : d.state = s.loops.state
  toPeer : d.toPeer.Perm s.loops.toPeer
  toOwner : d.toOwner.Perm s.loops.toOwner

section Simulation

variable {host : ByteOrder} {link : LossyLink} {env : GetEnv} {location : FileLocation}
  {d : Download} {s s' : LinkedDownload} {action : DownloadAction}

theorem loseToPeer_run (link : LossyLink) (d : Download) (dropped : List Bytes) :
    Run (DownloadStep host link env location) d (dropped.map .loseToPeer)
      { d with toPeer := d.toPeer.diff dropped } := by
  induction dropped generalizing d with
  | nil => exact Run.nil d
  | cons packet rest ih =>
      rw [List.map_cons, List.diff_cons]
      exact (Run.single (.loseToPeer d packet)).append
        (ih { d with toPeer := d.toPeer.erase packet })

theorem loseToOwner_run (link : LossyLink) (d : Download) (dropped : List Bytes) :
    Run (DownloadStep host link env location) d (dropped.map .loseToOwner)
      { d with toOwner := d.toOwner.diff dropped } := by
  induction dropped generalizing d with
  | nil => exact Run.nil d
  | cons ack rest ih =>
      rw [List.map_cons, List.diff_cons]
      exact (Run.single (.loseToOwner d ack)).append
        (ih { d with toOwner := d.toOwner.erase ack })

/-- Losses read no clock. -/
theorem downloadReadings_losses {action : DownloadAction} {losses : List DownloadAction}
    (hlosses : ∀ loss ∈ losses, loss.readings = []) :
    downloadReadings ([action] ++ losses) = action.readings := by
  rw [downloadReadings, List.singleton_append, List.flatMap_cons,
    List.flatMap_eq_nil_iff.mpr hlosses, List.append_nil]

/-- A step over the links is a step of the download and the losses of what was dropped. -/
theorem Matches.step (h : Matches d s) (hstep : LinkedStep host link env location s action s') :
    ∃ actions d', Run (DownloadStep host link env location) d actions d' ∧ Matches d' s' ∧
      downloadReadings actions = action.readings := by
  obtain ⟨owner, state, toPeer, toOwner⟩ := d
  obtain ⟨rfl, rfl, htoPeer, htoOwner⟩ := h
  simp only at htoPeer htoOwner
  cases hstep with
  | arrive packet hpacket =>
      obtain ⟨dropped, hdropped⟩ := exists_dropped s.peerLink
        (getReceive host env location s.loops.state (ownerReception location packet)).acks
      have harrive : DownloadStep host link env location _ _ _ :=
        .arrive ⟨s.loops.owner, s.loops.state, toPeer, toOwner⟩ packet
          (htoPeer.mem_iff.mpr hpacket)
      refine ⟨_, _, (Run.single harrive).append (loseToOwner_run link _ dropped),
        ⟨rfl, rfl, htoPeer, ?_⟩, downloadReadings_losses ?_⟩
      · apply perm_diff
        rw [LinkedDownload.arrive, List.append_assoc]
        exact htoOwner.append hdropped
      · simp [DownloadAction.readings]
  | acknowledge ack request now hack =>
      exact ⟨_, _, Run.single (.acknowledge _ ack request now (htoOwner.mem_iff.mpr hack)),
        ⟨rfl, rfl, htoPeer, htoOwner⟩, rfl⟩
  | drive sendNow scanNow =>
      obtain ⟨dropped, hdropped⟩ := exists_dropped s.ownerLink
        ((Client.drive host s.loops.owner sendNow scanNow).sent.map Prod.snd)
      have hdrive : DownloadStep host link env location _ _ _ :=
        .drive ⟨s.loops.owner, s.loops.state, toPeer, toOwner⟩ sendNow scanNow
      refine ⟨_, _, (Run.single hdrive).append (loseToPeer_run link _ dropped),
        ⟨rfl, rfl, ?_, htoOwner⟩, downloadReadings_losses ?_⟩
      · apply perm_diff
        rw [LinkedDownload.drive, List.append_assoc]
        exact htoPeer.append hdropped
      · simp [DownloadAction.readings]

/-- A run over the links is a run of the download with losses. -/
theorem Matches.run (h : Matches d s) {actions : List DownloadAction}
    (hrun : Run (LinkedStep host link env location) s actions s') :
    ∃ actions' d', Run (DownloadStep host link env location) d actions' d' ∧ Matches d' s' ∧
      downloadReadings actions' = downloadReadings actions := by
  induction hrun with
  | nil => exact ⟨[], d, Run.nil d, h, rfl⟩
  | snoc hrun hstep ih =>
      obtain ⟨before, d', hbefore, hmatches, hreadings⟩ := ih
      obtain ⟨after, d'', hafter, hmatches', hlast⟩ := hmatches.step hstep
      refine ⟨_, d'', hbefore.append hafter, hmatches', ?_⟩
      rw [downloadReadings, List.flatMap_append, ← downloadReadings, ← downloadReadings, hreadings,
        hlast, downloadReadings, downloadReadings, List.flatMap_append, List.flatMap_singleton]

/-- The first window passes the link, the announcement does not. -/
theorem matches_ofRequest (link : LossyLink) (result : OwnerResult)
    (ownerLink peerLink : LossyLink) :
    ∃ actions d, Run (DownloadStep host link env location) (Download.ofRequest result) actions d ∧
      Matches d (LinkedDownload.ofRequest result ownerLink peerLink) ∧
      downloadReadings actions = [] := by
  obtain ⟨dropped, hdropped⟩ := exists_dropped ownerLink ((result.sent.drop 1).map Prod.snd)
  refine ⟨_, _, loseToPeer_run link _ dropped, ⟨rfl, rfl, ?_, List.Perm.refl _⟩, ?_⟩
  · apply perm_diff
    have hsent : (Download.ofRequest result).toPeer =
        (result.sent.take 1).map Prod.snd ++ (result.sent.drop 1).map Prod.snd := by
      rw [← List.map_append, List.take_append_drop]
      rfl
    rw [hsent, LinkedDownload.ofRequest, List.append_assoc]
    exact hdropped.append_left _
  · simp [downloadReadings, DownloadAction.readings]

/-- What is known of a download goes for the loops over the links. -/
theorem Begun.of_matches {file : FileImage} {chunks : UInt32} {early : Receiver}
    (h : Begun host env location file chunks early d) (hmatches : Matches d s) :
    Begun host env location file chunks early s.loops := by
  obtain ⟨t, hwithin, hinv, hfollows⟩ := h
  exact ⟨t, ⟨hmatches.owner.symm.trans hwithin.owner, hmatches.state.symm.trans hwithin.state,
    List.Subset.trans hmatches.toPeer.symm.subset hwithin.toPeer,
    List.Subset.trans hmatches.toOwner.symm.subset hwithin.toOwner⟩, hinv, hfollows⟩

/-- Nothing in flight gets lost behind the links. -/
theorem mem_toPeer_step {packet : Bytes} (hpacket : packet ∈ s.loops.toPeer)
    (hstep : LinkedStep host link env location s action s') : packet ∈ s'.loops.toPeer := by
  cases hstep with
  | arrive other hother => exact hpacket
  | acknowledge ack request now hack => exact hpacket
  | drive sendNow scanNow => exact List.mem_append_left _ hpacket

end Simulation

/-- The announcement of a granted request is in flight from the start. -/
theorem announcement_mem_ofRequest {host : ByteOrder} (link : LossyLink) {owner : Owner}
    (peer : SockAddr) {packet : Datagram} {request : RequestEnv} (now : UInt64)
    {actualSize : Int} {file : FileImage}
    (hgranted : RequestGranted host owner.table packet request)
    (hend : request.fileEnd = some actualSize) (hdata : file.data = request.readBytes)
    (hfileSize : file.size = UInt32.ofNat (announcedSize actualSize))
    (ownerLink peerLink : LossyLink) :
    announcement host file (UInt32.ofNat (announcedChunks actualSize)) ∈
      (LinkedDownload.ofRequest (handleRequest host link owner peer packet request now).1 ownerLink
        peerLink).loops.toPeer := by
  obtain ⟨sender, -, hflight⟩ := ofRequest_granted link peer now hgranted hend hdata hfileSize
  have hsent : (handleRequest host link owner peer packet request now).1.sent.map Prod.snd =
      announcement host file (UInt32.ofNat (announcedChunks actualSize)) ::
        (srSenderSendWindow host sender now).packets := congrArg Flight.emitted hflight
  apply List.mem_append_left
  rw [List.map_take, hsent]
  exact List.mem_cons_self

/-- Rate 1: the only chunk of the file is dropped, and nothing but the announcement comes. -/
def deafDownload : LinkedDownload :=
  LinkedDownload.ofRequest
    (handleRequest .little ⟨3, 0, 1⟩ sevenOwner ⟨1, 1⟩ sevenRequest oneByteEnv 0).1
    (lossyInit 3 1 1) (lossyInit 4 1 2)

end Client
end PeerShare
